import Btrtg.Verification

/-!
# The check macro

The instructions of `check_macro` and `_get_pc` on a machine with the registers
that a check function is shown. The stack and the data section, which holds
`fxstate`, are separate memories.
-/

namespace Btrtg

open Bytes

-- ---------------------------------------------------------------------------
-- The x87 unit
-- ---------------------------------------------------------------------------

@[ext] structure X87 where
  fcw : BitVec 16
  fsw : BitVec 16
  ftw : BitVec 16
  fip : BitVec 32
  fcs : BitVec 16
  fop : BitVec 11
  fdp : BitVec 32
  fds : BitVec 16
  /-- The physical registers. -/
  r : Fin 8 → BitVec 80

def topOf (fsw : BitVec 16) : Fin 8 := .ofNat 8 (fsw.toNat / 2 ^ 11)

def X87.st (x : X87) (i : Fin 8) : BitVec 80 := x.r (topOf x.fsw + i)

/-- `fninit`, which `fsave` ends with. -/
def X87.init (x : X87) : X87 where
  fcw := 0x37f
  fsw := 0
  ftw := 0xffff
  fip := 0
  fcs := 0
  fop := 0
  fdp := 0
  fds := 0
  r := x.r

/-- What `fsave` stores in 32-bit protected mode; the reserved halves hold `resv`. -/
def X87.image (resv : BitVec 16) (x : X87) : List Byte :=
  leBytes 2 x.fcw.toNat ++ leBytes 2 resv.toNat ++
  leBytes 2 x.fsw.toNat ++ leBytes 2 resv.toNat ++
  leBytes 2 x.ftw.toNat ++ leBytes 2 resv.toNat ++
  leBytes 4 x.fip.toNat ++
  leBytes 2 x.fcs.toNat ++ leBytes 2 x.fop.toNat ++
  leBytes 4 x.fdp.toNat ++
  leBytes 2 x.fds.toNat ++ leBytes 2 resv.toNat ++
  leBytes 10 (x.st 0).toNat ++ leBytes 10 (x.st 1).toNat ++ leBytes 10 (x.st 2).toNat ++
  leBytes 10 (x.st 3).toNat ++ leBytes 10 (x.st 4).toNat ++ leBytes 10 (x.st 5).toNat ++
  leBytes 10 (x.st 6).toNat ++ leBytes 10 (x.st 7).toNat

def wordAt (w : Nat) (bs : List Byte) (i n : Nat) : BitVec w := word w ((bs.drop i).take n)

def X87.ofImage (bs : List Byte) : X87 where
  fcw := wordAt 16 bs 0 2
  fsw := wordAt 16 bs 4 2
  ftw := wordAt 16 bs 8 2
  fip := wordAt 32 bs 12 4
  fcs := wordAt 16 bs 16 2
  fop := wordAt 11 bs 18 2
  fdp := wordAt 32 bs 20 4
  fds := wordAt 16 bs 24 2
  r := fun p => wordAt 80 bs (28 + 10 * (p - topOf (wordAt 16 bs 4 2)).val) 10

-- ---------------------------------------------------------------------------
-- The machine
-- ---------------------------------------------------------------------------

/-- `eflags` as `pushf` shows them. -/
structure Machine where
  eax : BitVec 32
  ecx : BitVec 32
  edx : BitVec 32
  ebx : BitVec 32
  esp : BitVec 32
  ebp : BitVec 32
  esi : BitVec 32
  edi : BitVec 32
  cs : BitVec 16
  ss : BitVec 16
  ds : BitVec 16
  es : BitVec 16
  fs : BitVec 16
  gs : BitVec 16
  eflags : BitVec 32
  x87 : X87
  xmm : Fin 8 → BitVec 128
  mxcsr : BitVec 32
  stack : Memory 32
  data : Memory 32

/-- Where the linker put things, what the processor leaves in reserved fields, and the
function that is called, from its first instruction to its return. -/
structure Program where
  fxstate : BitVec 32
  afterGetPc : BitVec 32
  afterCheckPoint : BitVec 32
  resv : BitVec 16
  checkPoint : Machine → Machine

inductive SReg
  | cs | ss | ds | es | fs | gs

def Machine.sreg (m : Machine) : SReg → BitVec 16
  | .cs => m.cs
  | .ss => m.ss
  | .ds => m.ds
  | .es => m.es
  | .fs => m.fs
  | .gs => m.gs

/-- The instructions of the macro; `mov` is `mov eax,[esp]`, the operand of `push`,
`pop` and `lea` is `eax`, that of `fsave` and `frstor` is `[esp]`, that of `lea` is
`fxstate`, and the offsets of `movupd` and `stmxcsr` are into it. -/
inductive MacroInsn where
  | pusha
  | popa
  | pushf
  | popf
  | push
  | pushSreg (r : SReg)
  | pop
  | mov
  | ret
  | subEsp (n : BitVec 32)
  | addEsp (n : BitVec 32)
  | fsave
  | frstor
  | movupd (offset : BitVec 32) (i : Fin 8)
  | stmxcsr (offset : BitVec 32)
  | lea

/-- The bytes just below the stack pointer become the top of the stack. -/
def Machine.pushBytes (m : Machine) (bs : List Byte) : Machine :=
  let esp := m.esp - .ofNat 32 bs.length
  { m with esp := esp, stack := store m.stack esp bs }

def Machine.push32 (m : Machine) (v : BitVec 32) : Machine := m.pushBytes (leBytes 4 v.toNat)

def Machine.stack32 (m : Machine) (offset : BitVec 32) : BitVec 32 :=
  word 32 (load m.stack (m.esp + offset) 4)

/-- The status flags of `a - b` and `a + b`, the others kept. -/
def arithFlags (eflags a b r : BitVec 32) (carry overflow : Bool) : BitVec 32 :=
  let bit (c : Bool) (i : Nat) : BitVec 32 := if c then 1#32 <<< i else 0
  let ones := ((List.range 8).filter fun i => r.getLsbD i).length
  (eflags &&& ~~~0x8d5#32) ||| bit carry 0 ||| bit (ones % 2 == 0) 2 |||
    bit ((a ^^^ b ^^^ r).getLsbD 4) 4 ||| bit (r == 0) 6 ||| bit r.msb 7 ||| bit overflow 11

def MacroInsn.exec (p : Program) (m : Machine) : MacroInsn → Machine
  | .pusha => [m.eax, m.ecx, m.edx, m.ebx, m.esp, m.ebp, m.esi, m.edi].foldl .push32 m
  | .popa =>
    { m with
      edi := m.stack32 0, esi := m.stack32 4, ebp := m.stack32 8, ebx := m.stack32 16
      edx := m.stack32 20, ecx := m.stack32 24, eax := m.stack32 28, esp := m.esp + 32 }
  | .pushf => m.push32 m.eflags
  | .popf => { m with eflags := m.stack32 0, esp := m.esp + 4 }
  | .push => m.push32 m.eax
  | .pushSreg r => m.pushBytes (leBytes 2 (m.sreg r).toNat ++ leBytes 2 0)
  | .pop => { m with eax := m.stack32 0, esp := m.esp + 4 }
  | .mov => { m with eax := m.stack32 0 }
  | .ret => { m with esp := m.esp + 4 }
  | .subEsp n =>
    { m with
      esp := m.esp - n
      eflags := arithFlags m.eflags m.esp n (m.esp - n) (m.esp < n)
        ((m.esp ^^^ n) &&& (m.esp ^^^ (m.esp - n))).msb }
  | .addEsp n =>
    { m with
      esp := m.esp + n
      eflags := arithFlags m.eflags m.esp n (m.esp + n) (m.esp + n < n)
        (~~~(m.esp ^^^ n) &&& (m.esp ^^^ (m.esp + n))).msb }
  | .fsave => { m with stack := store m.stack m.esp (m.x87.image p.resv), x87 := m.x87.init }
  | .frstor => { m with x87 := .ofImage (load m.stack m.esp 108) }
  | .movupd offset i =>
    { m with data := store m.data (p.fxstate + offset) (leBytes 16 (m.xmm i).toNat) }
  | .stmxcsr offset =>
    { m with data := store m.data (p.fxstate + offset) (leBytes 4 m.mxcsr.toNat) }
  | .lea => { m with eax := p.fxstate }

def execAll (p : Program) (is : List MacroInsn) (m : Machine) : Machine :=
  is.foldl (MacroInsn.exec p) m

def getPc : List MacroInsn := [.mov, .ret]

/-- `check_macro` after `call _get_pc`, up to the call of the check function. -/
def checkMacroSave : List MacroInsn :=
  [.push, .pushf, .pushSreg .cs, .pushSreg .ss, .pushSreg .ds, .pushSreg .es, .pushSreg .fs,
    .pushSreg .gs, .subEsp 0x6c, .fsave, .movupd 0 0, .movupd 0x10 1, .movupd 0x20 2,
    .movupd 0x30 3, .movupd 0x40 4, .movupd 0x50 5, .movupd 0x60 6, .movupd 0x70 7,
    .stmxcsr 0x80, .lea, .push]

def checkMacroRestore : List MacroInsn :=
  [.pop, .frstor, .addEsp 0x6c, .pop, .pop, .pop, .pop, .pop, .pop, .popf, .pop, .popa]

def checkMacroCall (p : Program) (m : Machine) : Machine :=
  let m := MacroInsn.exec p m .pusha
  let m := execAll p getPc (m.push32 p.afterGetPc)
  let m := execAll p checkMacroSave m
  m.push32 p.afterCheckPoint

def checkMacro (p : Program) (m : Machine) : Machine :=
  execAll p checkMacroRestore (p.checkPoint (checkMacroCall p m))

-- ---------------------------------------------------------------------------
-- The arguments
-- ---------------------------------------------------------------------------

/-- The structure laid out as the compiler does, bit-fields from the lowest bit. -/
def X87LegacyFPUSaveArea.ofBytes (bs : List Byte) : X87LegacyFPUSaveArea where
  fcw := wordAt 16 bs 0 2
  fcwPadding := wordAt 16 bs 2 2
  fsw := wordAt 16 bs 4 2
  fswPadding := wordAt 16 bs 6 2
  ftw := wordAt 16 bs 8 2
  ftwPadding := wordAt 16 bs 10 2
  ffip0 := wordAt 16 bs 12 2
  ffipPadding := wordAt 16 bs 14 2
  ffop := (wordAt 32 bs 16 4).extractLsb' 0 12
  ffip16 := (wordAt 32 bs 16 4).extractLsb' 12 16
  ffopfipPadding := (wordAt 32 bs 16 4).extractLsb' 28 4
  ffdp0 := wordAt 16 bs 20 2
  ffdpPadding := wordAt 16 bs 22 2
  ffdpPaddingPre := (wordAt 32 bs 24 4).extractLsb' 0 12
  ffdp16 := (wordAt 32 bs 24 4).extractLsb' 12 16
  ffdpPaddingAfter := (wordAt 32 bs 24 4).extractLsb' 28 4
  st80 := .ofFn fun i => bs.getD (28 + i.val) 0

def SSEStateSaveArea.ofBytes (bs : List Byte) : SSEStateSaveArea where
  xmmRegs := .ofFn fun i => ⟨wordAt 64 bs (16 * i.val) 8, wordAt 64 bs (16 * i.val + 8) 8⟩
  mxcsr := wordAt 32 bs 128 4

def X86StandardRegisters.ofBytes (bs : List Byte) : X86StandardRegisters where
  gs := wordAt 16 bs 0 2
  gsPadding := wordAt 16 bs 2 2
  fs := wordAt 16 bs 4 2
  fsPadding := wordAt 16 bs 6 2
  es := wordAt 16 bs 8 2
  esPadding := wordAt 16 bs 10 2
  ds := wordAt 16 bs 12 2
  dsPadding := wordAt 16 bs 14 2
  ss := wordAt 16 bs 16 2
  ssPadding := wordAt 16 bs 18 2
  cs := wordAt 16 bs 20 2
  csPadding := wordAt 16 bs 22 2
  eflags := wordAt 32 bs 24 4
  pc := wordAt 32 bs 28 4
  edi := wordAt 32 bs 32 4
  esi := wordAt 32 bs 36 4
  ebp := wordAt 32 bs 40 4
  esp := wordAt 32 bs 44 4
  ebx := wordAt 32 bs 48 4
  edx := wordAt 32 bs 52 4
  ecx := wordAt 32 bs 56 4
  eax := wordAt 32 bs 60 4

/-- The arguments that a function finds above its return address, a pointer and the
two structures passed by value. -/
def Machine.checkArgs (m : Machine) : CheckArgs where
  ssestate := .ofBytes (load m.data (m.stack32 4) 132)
  x87fpustate := .ofBytes (load m.stack (m.esp + 8) 108)
  x86regs := .ofBytes (load m.stack (m.esp + 116) 64)

end Btrtg
