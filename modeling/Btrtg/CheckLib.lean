import Btrtg.Lib.Initializer
import Btrtg.Verification

/-!
# The check libraries

A test calls one check function at every check point. Linked with `outputlib` the
function prints its arguments as the initialiser of one element of `output`;
linked with `checklib`, compiled with what was printed, it compares them with the
element of its point.
-/

namespace Btrtg

open CInit

-- ---------------------------------------------------------------------------
-- The kinds
-- ---------------------------------------------------------------------------

/-- What a check function checks when it is a single register. -/
inductive CheckReg where
  | ah | bh | ch | dh | al | bl | cl | dl
  | ax | bx | cx | dx | si | di | sp | bp
  | eax | ebx | ecx | edx | esi | edi | esp | ebp
  | cs | ds | ss | es | fs | gs
  | eflags
  | st (i : Fin 8)
  | mm (i : Fin 8)
  | fcw | fsw | ftw | ffop | ffdp | ffip
  | xmm (i : Fin 8)
  | mxcsr
  deriving DecidableEq

/-- The functions of `checkfunctions.h`. -/
inductive CheckKind where
  | reg (r : CheckReg)
  | x86State
  | x87Env
  deriving DecidableEq

def CheckReg.name : CheckReg → String
  | ah => "ah" | bh => "bh" | ch => "ch" | dh => "dh"
  | al => "al" | bl => "bl" | cl => "cl" | dl => "dl"
  | ax => "ax" | bx => "bx" | cx => "cx" | dx => "dx"
  | si => "si" | di => "di" | sp => "sp" | bp => "bp"
  | eax => "eax" | ebx => "ebx" | ecx => "ecx" | edx => "edx"
  | esi => "esi" | edi => "edi" | esp => "esp" | ebp => "ebp"
  | cs => "cs" | ds => "ds" | ss => "ss" | es => "es" | fs => "fs" | gs => "gs"
  | eflags => "eflags"
  | st i => "st" ++ toString i
  | mm i => "mm" ++ toString i
  | fcw => "fcw" | fsw => "fsw" | ftw => "ftw"
  | ffop => "ffop" | ffdp => "ffdp" | ffip => "ffip"
  | xmm i => "xmm" ++ toString i
  | mxcsr => "mxcsr"

-- ---------------------------------------------------------------------------
-- outputlib
-- ---------------------------------------------------------------------------

def x86RegsOutputFormat : List Piece :=
  [.lit "\x7b0x", .hex 4, .lit ",0,0x", .hex 4, .lit ",0,0x", .hex 4, .lit ",0,0x", .hex 4,
    .lit ",0,0x", .hex 4, .lit ",0,0x", .hex 4, .lit ",0,0x", .hex 8, .lit ",0x", .hex 8,
    .lit ",0x", .hex 8, .lit ",0x", .hex 8, .lit ",0x", .hex 8, .lit ",0x", .hex 8,
    .lit ",0x", .hex 8, .lit ",0x", .hex 8, .lit ",0x", .hex 8, .lit ",0x", .hex 8,
    .lit "\x7d,\n"]

def x87RegsOutputFormat : List Piece :=
  [.lit "\x7b0x", .hex 4, .lit ",0x", .hex 4, .lit ",0x", .hex 4, .lit ",0x", .hex 8,
    .lit ",0x", .hex 8, .lit ",0x", .hex 4,
    .lit ",\x7b\x7b0x", .hex 16, .lit ",0x", .hex 4,
    .lit "\x7d,\x7b0x", .hex 16, .lit ",0x", .hex 4,
    .lit "\x7d,\x7b0x", .hex 16, .lit ",0x", .hex 4,
    .lit "\x7d,\x7b0x", .hex 16, .lit ",0x", .hex 4,
    .lit "\x7d,\x7b0x", .hex 16, .lit ",0x", .hex 4,
    .lit "\x7d,\x7b0x", .hex 16, .lit ",0x", .hex 4,
    .lit "\x7d,\x7b0x", .hex 16, .lit ",0x", .hex 4,
    .lit "\x7d,\x7b0x", .hex 16, .lit ",0x", .hex 4,
    .lit "\x7d\x7d\x7d,\n"]

def sseRegsOutputFormat : List Piece :=
  [.lit "\x7b0x", .hex 8, .lit ",0x", .hex 8,
    .lit ",\x7b\x7b0x", .hex 16, .lit ",0x", .hex 16,
    .lit "\x7d,\x7b0x", .hex 16, .lit ",0x", .hex 16,
    .lit "\x7d,\x7b0x", .hex 16, .lit ",0x", .hex 16,
    .lit "\x7d,\x7b0x", .hex 16, .lit ",0x", .hex 16,
    .lit "\x7d,\x7b0x", .hex 16, .lit ",0x", .hex 16,
    .lit "\x7d,\x7b0x", .hex 16, .lit ",0x", .hex 16,
    .lit "\x7d,\x7b0x", .hex 16, .lit ",0x", .hex 16,
    .lit "\x7d,\x7b0x", .hex 16, .lit ",0x", .hex 16,
    .lit "\x7d\x7d\x7d"]

def x86RegsArgs (r : X86StandardRegisters) : List Nat :=
  [r.gs.toNat, r.fs.toNat, r.es.toNat, r.ds.toNat, r.ss.toNat, r.cs.toNat, r.eflags.toNat,
    r.pc.toNat, r.edi.toNat, r.esi.toNat, r.ebp.toNat, r.esp.toNat, r.ebx.toNat, r.edx.toNat,
    r.ecx.toNat, r.eax.toNat]

def x87RegsArgs (a : X87LegacyFPUSaveArea) : List Nat :=
  [a.getFcw.toNat, a.getFsw.toNat, a.getFtw.toNat, a.getFfdp.toNat, a.getFfip.toNat,
    a.getFfop.toNat,
    (a.getSt 0).low.toNat, (a.getSt 0).high.toNat, (a.getSt 1).low.toNat, (a.getSt 1).high.toNat,
    (a.getSt 2).low.toNat, (a.getSt 2).high.toNat, (a.getSt 3).low.toNat, (a.getSt 3).high.toNat,
    (a.getSt 4).low.toNat, (a.getSt 4).high.toNat, (a.getSt 5).low.toNat, (a.getSt 5).high.toNat,
    (a.getSt 6).low.toNat, (a.getSt 6).high.toNat, (a.getSt 7).low.toNat, (a.getSt 7).high.toNat]

def sseRegsArgs (s : SSEStateSaveArea) : List Nat :=
  [s.getMxcsr.toNat, 0,
    (s.getXmm 0).low.toNat, (s.getXmm 0).high.toNat, (s.getXmm 1).low.toNat,
    (s.getXmm 1).high.toNat, (s.getXmm 2).low.toNat, (s.getXmm 2).high.toNat,
    (s.getXmm 3).low.toNat, (s.getXmm 3).high.toNat, (s.getXmm 4).low.toNat,
    (s.getXmm 4).high.toNat, (s.getXmm 5).low.toNat, (s.getXmm 5).high.toNat,
    (s.getXmm 6).low.toNat, (s.getXmm 6).high.toNat, (s.getXmm 7).low.toNat,
    (s.getXmm 7).high.toNat]

/-- `DEFINE_CHECK_FUNCTION` of `outputlib`: every function has this body. -/
def recordPoint (a : CheckArgs) : List Char :=
  "\x7b".toList ++ printf x86RegsOutputFormat (x86RegsArgs a.x86regs) ++
    printf x87RegsOutputFormat (x87RegsArgs a.x87fpustate) ++
    printf sseRegsOutputFormat (sseRegsArgs a.ssestate) ++ "\x7d,\n".toList

/-- What a run linked with `outputlib` prints: the file `stdoutput.rst`. -/
def outputlib (points : List (CheckKind × CheckArgs)) : List Char :=
  points.flatMap fun (_, a) => recordPoint a

-- ---------------------------------------------------------------------------
-- The array output
-- ---------------------------------------------------------------------------

structure X87Regs where
  fcw : BitVec 16
  fsw : BitVec 16
  ftw : BitVec 16
  ffdp : BitVec 32
  ffip : BitVec 32
  ffop : BitVec 16
  fpregs : Vector Floatx80 8

structure SSERegs where
  mxcsr : BitVec 32
  mxcsrMask : BitVec 32
  xmmregs : Vector Xmmreg 8

structure Output where
  X86 : X86StandardRegisters
  X87 : X87Regs
  SSE : SSERegs

/-- The member that the `k`-th initialiser of a list sets. -/
def member (w : Nat) (i : Init) (k : Nat) : BitVec w := .ofNat w (i.item k).value

/-- Unions are initialised through their first member, the whole register. -/
def X86StandardRegisters.ofInit (i : Init) : X86StandardRegisters where
  gs := member 16 i 0
  gsPadding := member 16 i 1
  fs := member 16 i 2
  fsPadding := member 16 i 3
  es := member 16 i 4
  esPadding := member 16 i 5
  ds := member 16 i 6
  dsPadding := member 16 i 7
  ss := member 16 i 8
  ssPadding := member 16 i 9
  cs := member 16 i 10
  csPadding := member 16 i 11
  eflags := member 32 i 12
  pc := member 32 i 13
  edi := member 32 i 14
  esi := member 32 i 15
  ebp := member 32 i 16
  esp := member 32 i 17
  ebx := member 32 i 18
  edx := member 32 i 19
  ecx := member 32 i 20
  eax := member 32 i 21

def Floatx80.ofInit (i : Init) : Floatx80 where
  low := member 64 i 0
  high := member 16 i 1

def X87Regs.ofInit (i : Init) : X87Regs where
  fcw := member 16 i 0
  fsw := member 16 i 1
  ftw := member 16 i 2
  ffdp := member 32 i 3
  ffip := member 32 i 4
  ffop := member 16 i 5
  fpregs := .ofFn fun j => .ofInit ((i.item 6).item j)

def Xmmreg.ofInit (i : Init) : Xmmreg where
  low := member 64 i 0
  high := member 64 i 1

def SSERegs.ofInit (i : Init) : SSERegs where
  mxcsr := member 32 i 0
  mxcsrMask := member 32 i 1
  xmmregs := .ofFn fun j => .ofInit ((i.item 2).item j)

def Output.ofInit (i : Init) : Output where
  X86 := .ofInit (i.item 0)
  X87 := .ofInit (i.item 1)
  SSE := .ofInit (i.item 2)

/-- `output`, its definition being around what is included from `stdoutput.rst`. -/
def readOutput (stdoutput : List Char) : Option (List Output) :=
  match readInit ("\x7b\n".toList ++ stdoutput ++ "    \x7b\x7d\n\x7d".toList) with
  | some (.braces items) => some (items.map .ofInit)
  | _ => none

-- ---------------------------------------------------------------------------
-- checklib
-- ---------------------------------------------------------------------------

/-- A line that `checklib` prints, with the values its format is given. -/
inductive CheckLine where
  | diff (name : String) (check std : List Nat)
  | fail (point : Nat) (name : String) (pc : BitVec 32)
  | pass (point : Nat) (name : String)
  /-- `=====[%d] in [%d] check points fail!=====` -/
  | pointsFail (diffs point : Nat)
  /-- `=====[%d] check points pass!=====` -/
  | pointsPass (point : Nat)

structure CheckLib where
  output : List Output
  verbose : Bool
  diffs : Nat
  point : Nat
  lines : List CheckLine

/-- `output[point]`; the element after the last is cleared. -/
def CheckLib.expected (c : CheckLib) : Output :=
  c.output.getD c.point (.ofInit (.braces []))

/-- The end of every check function, `diffs` being the lines about differences. -/
def CheckLib.close (c : CheckLib) (name : String) (pc : BitVec 32) (diffs : List CheckLine) :
    CheckLib :=
  let diff := if diffs.isEmpty then 0 else 1
  let line :=
    if diff = 1 then [.fail (c.point + 1) name pc]
    else if c.verbose then [.pass (c.point + 1) name]
    else []
  { c with diffs := c.diffs + diff, point := c.point + 1, lines := c.lines ++ diffs ++ line }

/-- One comparison: the line about a value that is not as it should be. -/
def diffLine {w : Nat} (name : String) (check std : BitVec w) : List CheckLine :=
  if std ≠ check then [.diff name [check.toNat] [std.toNat]] else []

/-- `check_point_gprhi`, `check_point_gprlo`, `check_point_reg16` and `check_point_reg32`. -/
def checkPointReg {w : Nat} (name : String) (reg : X86StandardRegisters → BitVec w)
    (a : CheckArgs) (c : CheckLib) : CheckLib :=
  c.close name a.x86regs.pc (diffLine name (reg a.x86regs) (reg c.expected.X86))

def checkPointFpureg (name : String) (index : Fin 8) (a : CheckArgs) (c : CheckLib) : CheckLib :=
  let check := a.x87fpustate.getSt index
  let std := c.expected.X87.fpregs.get index
  c.close name a.x86regs.pc <|
    if std.low ≠ check.low ∨ std.high ≠ check.high then
      [.diff name [check.high.toNat, check.low.toNat] [std.high.toNat, std.low.toNat]]
    else []

def checkPointMmxreg (name : String) (index : Fin 8) (a : CheckArgs) (c : CheckLib) : CheckLib :=
  c.close name a.x86regs.pc <|
    diffLine name (a.x87fpustate.getSt index).low (c.expected.X87.fpregs.get index).low

/-- `check_point_x87status32` and `check_point_x87status16`. -/
def checkPointX87status {w : Nat} (name : String) (get : X87LegacyFPUSaveArea → BitVec w)
    (std : X87Regs → BitVec w) (a : CheckArgs) (c : CheckLib) : CheckLib :=
  c.close name a.x86regs.pc (diffLine name (get a.x87fpustate) (std c.expected.X87))

def checkPointXmmreg (name : String) (index : Fin 8) (a : CheckArgs) (c : CheckLib) : CheckLib :=
  let check := a.ssestate.getXmm index
  let std := c.expected.SSE.xmmregs.get index
  let words (x : Xmmreg) : List Nat :=
    [x.low.toNat % 2 ^ 32, x.low.toNat / 2 ^ 32, x.high.toNat % 2 ^ 32, x.high.toNat / 2 ^ 32]
  c.close name a.x86regs.pc <|
    if std.low ≠ check.low ∨ std.high ≠ check.high then
      [.diff name (words check) (words std)]
    else []

def checkPointMxcsr (a : CheckArgs) (c : CheckLib) : CheckLib :=
  c.close "mxcsr" a.x86regs.pc (diffLine "mxcsr" a.ssestate.getMxcsr c.expected.SSE.mxcsr)

def checkPointX86State (a : CheckArgs) (c : CheckLib) : CheckLib :=
  let x86regs := a.x86regs
  let std := c.expected.X86
  c.close "x86_state" x86regs.pc <|
    diffLine "fs" x86regs.fs std.fs ++
    diffLine "es" x86regs.es std.es ++
    diffLine "ds" x86regs.ds std.ds ++
    diffLine "ss" x86regs.ss std.ss ++
    diffLine "cs" x86regs.cs std.cs ++
    diffLine "eflags" x86regs.eflags std.eflags ++
    diffLine "edi" x86regs.edi std.edi ++
    diffLine "esi" x86regs.esi std.esi ++
    diffLine "ebx" x86regs.ebx std.ebx ++
    diffLine "edx" x86regs.edx std.edx ++
    diffLine "ecx" x86regs.ecx std.ecx ++
    diffLine "eax" x86regs.eax std.eax

def checkPointX87Env (a : CheckArgs) (c : CheckLib) : CheckLib :=
  let x87fpustate := a.x87fpustate
  let std := c.expected.X87
  c.close "x87_env" a.x86regs.pc <|
    diffLine "fcw" x87fpustate.getFcw std.fcw ++
    diffLine "fsw" x87fpustate.getFsw std.fsw ++
    diffLine "ftw" x87fpustate.getFtw std.ftw ++
    diffLine "ffdp" x87fpustate.getFfdp std.ffdp ++
    diffLine "ffip" x87fpustate.getFfip std.ffip ++
    diffLine "ffop" x87fpustate.getFfop std.ffop

def checkPointOfReg (r : CheckReg) : CheckArgs → CheckLib → CheckLib :=
  match r with
  | .ah => checkPointReg r.name (·.ah)
  | .bh => checkPointReg r.name (·.bh)
  | .ch => checkPointReg r.name (·.ch)
  | .dh => checkPointReg r.name (·.dh)
  | .al => checkPointReg r.name (·.al)
  | .bl => checkPointReg r.name (·.bl)
  | .cl => checkPointReg r.name (·.cl)
  | .dl => checkPointReg r.name (·.dl)
  | .ax => checkPointReg r.name (·.ax)
  | .bx => checkPointReg r.name (·.bx)
  | .cx => checkPointReg r.name (·.cx)
  | .dx => checkPointReg r.name (·.dx)
  | .si => checkPointReg r.name (·.si)
  | .di => checkPointReg r.name (·.di)
  | .sp => checkPointReg r.name (·.sp)
  | .bp => checkPointReg r.name (·.bp)
  | .eax => checkPointReg r.name (·.eax)
  | .ebx => checkPointReg r.name (·.ebx)
  | .ecx => checkPointReg r.name (·.ecx)
  | .edx => checkPointReg r.name (·.edx)
  | .esi => checkPointReg r.name (·.esi)
  | .edi => checkPointReg r.name (·.edi)
  | .esp => checkPointReg r.name (·.esp)
  | .ebp => checkPointReg r.name (·.ebp)
  | .cs => checkPointReg r.name (·.cs)
  | .ds => checkPointReg r.name (·.ds)
  | .ss => checkPointReg r.name (·.ss)
  | .es => checkPointReg r.name (·.es)
  | .fs => checkPointReg r.name (·.fs)
  | .gs => checkPointReg r.name (·.gs)
  | .eflags => checkPointReg r.name (·.eflags)
  | .st i => checkPointFpureg r.name i
  | .mm i => checkPointMmxreg r.name i
  | .fcw => checkPointX87status r.name (·.getFcw) (·.fcw)
  | .fsw => checkPointX87status r.name (·.getFsw) (·.fsw)
  | .ftw => checkPointX87status r.name (·.getFtw) (·.ftw)
  | .ffop => checkPointX87status r.name (·.getFfop) (·.ffop)
  | .ffdp => checkPointX87status r.name (·.getFfdp) (·.ffdp)
  | .ffip => checkPointX87status r.name (·.getFfip) (·.ffip)
  | .xmm i => checkPointXmmreg r.name i
  | .mxcsr => checkPointMxcsr

def checkPoint : CheckKind → CheckArgs → CheckLib → CheckLib
  | .reg r => checkPointOfReg r
  | .x86State => checkPointX86State
  | .x87Env => checkPointX87Env

def CheckLib.checkPointEnd (c : CheckLib) : CheckLib :=
  let line := if c.diffs ≠ 0 then .pointsFail c.diffs c.point else .pointsPass c.point
  { c with lines := c.lines ++ [line] }

/-- A run linked with `checklib`, up to its last check point. -/
def checklib (output : List Output) (verbose : Bool) (points : List (CheckKind × CheckArgs)) :
    CheckLib :=
  points.foldl (fun c (k, a) => checkPoint k a c) ⟨output, verbose, 0, 0, []⟩

end Btrtg
