import Btrtg.Operand

/-!
# Operands of an instruction and their initialisation

The nested instruction of an initialisation is generated by `constInsn`, which
stands for `one_insn_gen_const` until that is defined over these functions.
-/

namespace Btrtg

open OpFlags

-- ---------------------------------------------------------------------------
-- Sizes
-- ---------------------------------------------------------------------------

/-- `is_class (MEMORY, ..)` and its kin on the flags of a parsed operand need only the
operand type and the size. -/
def parsedType : Option SizeWord × Opnd → OpFlags
  | (_, .reg r) => register ||| r.flags
  | (size, .imm _) => immediate ||| sizeBits size
  | (size, .mem _) => memory ||| sizeBits size
where
  sizeBits : Option SizeWord → OpFlags
    | some .byte => bits8
    | some .word => bits16
    | some .dword => bits32
    | some .qword => bits64
    | some .tword => bits80
    | _ => 0

def calOperandSize (opcode : Opcode) (opd : List OpFlags) (opdi : Nat) : OpFlags :=
  let own := opd.getD opdi 0 &&& sizeMask
  if own ≠ 0 then own
  else
    match ((opd.takeWhile (· ≠ 0)).map (· &&& sizeMask)).find? (· ≠ 0) with
    | some size => size
    | none =>
      match opcode with
      | .ret | .retf => bits16
      | .enter => if opdi = 1 then bits16 else bits8
      | _ => bits32

def preappendMemSize (size : OpFlags) : SizeWord :=
  if size = bits8 then .byte
  else if size = bits16 then .word
  else if size = bits32 then .dword
  else if size = bits64 then .qword
  else if size = bits80 then .tword
  else .blank

-- ---------------------------------------------------------------------------
-- Memory operands
-- ---------------------------------------------------------------------------

/-- A text of one of the initialisers; a buffer that no case wrote is not defined. -/
def genText (ls : Option (List Line)) : M Unit :=
  match ls with
  | some ls => oneInsnGenCtrl (.lines ls) .after
  | none => throw .uninitialised

def initMemoryOpndFloat (m : ModRM) (flags : OpFlags) (v : ConstNode) : M Unit :=
  let size := flags &&& sizeMask
  let st (off : Nat) (x : BitVec 32) : Line := .store .dword (.opnd m) off x
  genText (
    if size = bits32 then some [st 0x0 v.float32]
    else if size = bits64 then some [st 0x0 (dword v.float64 0), st 0x4 (dword v.float64 1)]
    else if size = bits80 then
      some [st 0x0 (dword v.float80 0), st 0x4 (dword v.float80 1), st 0x8 (dword v.float80 2)]
    else none)

def initMemoryOpndX87env (m : ModRM) (v : ConstNode) : M Unit :=
  genText (some ((List.range 7).map fun i => .store .dword (.opnd m) (4 * i) (dword v.x87env i)))

def initMemoryOpndBcd80 (m : ModRM) (v : ConstNode) : M Unit :=
  genText (some ((List.range 3).map fun i => .store .dword (.opnd m) (4 * i) (dword v.union i)))

def initMemoryOpndImm64 (m : ModRM) (v : ConstNode) : M Unit :=
  genText (some [.store .dword (.opnd m) 0x0 (v.int 0), .store .dword (.opnd m) 0x4 (v.int 1)])

/-- The last case of `init_memory_opnd`. -/
def initMemoryOpndInt (m : ModRM) (flags : OpFlags) (v : Option ConstNode) : M Unit := do
  let val ← match v with
    | none => do
      let r ← nasmRandom64 0x100000000
      pure (BitVec.ofNat 32 r)
    | some v => pure v.imm32
  let size := flags &&& sizeMask
  let val := if size = bits8 then (val.setWidth 8).setWidth 32
    else if size = bits16 then (val.setWidth 16).setWidth 32 else val
  genText (some [.store (preappendMemSize size) (.opnd m) 0x0 val])

def initMemoryOpnd (m : ModRM) (flags : OpFlags) : M Unit := do
  let v ← requestNode
  let size := flags &&& sizeMask
  match v with
  | some v =>
    if v.type = .float then initMemoryOpndFloat m flags v
    else if v.type = .x87env then initMemoryOpndX87env m v
    else if isClass regClassRmMmx flags then do
      let vals ← requestPackedNodes
      genText (initMemoryOpndMmx m vals)
    else if size = bits64 then initMemoryOpndImm64 m v
    else if size = bits80 then initMemoryOpndBcd80 m v
    else if isClass regClassRmXmm flags then do
      let vals ← requestPackedNodes
      genText (initMemoryOpndXmm m vals)
    else initMemoryOpndInt m flags (some v)
  | none =>
    if isClass regClassRmMmx flags then do
      let vals ← requestPackedNodes
      genText (initMemoryOpndMmx m vals)
    else if isClass regClassRmXmm flags then do
      let vals ← requestPackedNodes
      genText (initMemoryOpndXmm m vals)
    else initMemoryOpndInt m flags none

-- ---------------------------------------------------------------------------
-- Registers
-- ---------------------------------------------------------------------------

def initFpuRegisterOpnd (r : Reg) : M Unit := do
  match ← requestNode with
  | none => throw .nullDeref
  | some v =>
    genText (some [.ffree r, .fst r, .fstpSt0,
      .store .dword .floatData 0x0 (dword v.float64 0),
      .store .dword .floatData 0x4 (dword v.float64 1), .fld "qword" .floatData, .fxch r])

section
variable (constInsn : PseudoInsn → M Bool)

/-- The state before an operand of an instruction of this opcode is made or initialised. -/
def logOperand (insn : Opcode) : M Unit := do
  let g ← get
  record (.operand g.nested insn g.who g.opcode g.hasMemOpnd g.trvNodes g.own)

def setNested (n : Nat) : M Unit := modify fun g => { g with nested := n }

def nestedInsn (p : PseudoInsn) : M Unit := do
  let g ← get
  setNested (g.nested + 1)
  let _ ← constInsn p
  setNested g.nested

def movConst (r : Reg) (v : Option ConstNode) : M Unit := do
  let val ← match v with
    | none => do
      let n ← nasmRandom64 0x100000000
      pure (BitVec.ofNat 32 n)
    | some v => pure v.imm32
  nestedInsn constInsn ⟨.mov, [.reg r, .imm val]⟩

def initRegisterOpnd (r : Reg) : M Unit := do
  let v ← requestNode
  movConst constInsn r v

/-- `init_opnd`; `varAddr` is the set-up text of the variable the operand comes from. -/
def initOpnd (o : Opnd) (flags : OpFlags) (varAddr : Option (Option (List Line))) : M Unit := do
  let g ← get
  if !g.needInit then
    return
  modify fun g => { g with needInit := false }
  let hasMemOpnd := g.hasMemOpnd
  modify fun g => { g with hasMemOpnd := false }
  match o with
  | .reg r =>
    if isClass register flags then
      if isClass regClassFpureg flags then initFpuRegisterOpnd r
      else if isClass regClassRmMmx flags then do
        let vals ← requestPackedNodes
        genText (initMmxRegisterOpnd r vals)
      else if isClass regClassRmXmm flags then do
        let vals ← requestPackedNodes
        genText (initXmmRegisterOpnd r vals)
      else initRegisterOpnd constInsn r
  | .mem m =>
    match varAddr with
    | some none => throw .uninitialised
    | some (some ls) => oneInsnGenCtrl (.lines ls) .after
    | none => do
      let g ← get
      oneInsnGenCtrl (.lines g.initMemAddr) .after
    initMemoryOpnd m flags
  | .imm _ => pure ()
  modify fun g => { g with hasMemOpnd := hasMemOpnd }
  modify fun g => { g with needInit := true }

def initSpecificRegister (r : Reg) : M Unit := do
  let v ← requestNode
  let g ← get
  let hasMemOpnd := g.hasMemOpnd
  modify fun g => { g with hasMemOpnd := false }
  match r with
  | .st i =>
    match v with
    | none => throw .nullDeref
    | some v =>
      if v.type = .float32i then
        let st := Line.store .dword .floatData 0x0 v.imm32
        if i = 0 then genText (some [.fstpSt0, st, .fld "dword" .floatData])
        else genText (some [.ffree r, .fst r, .fstpSt0, st, .fld "dword" .floatData, .fxch r])
      else
        let lo := Line.store .dword .floatData 0x0 (dword v.float64 0)
        let hi := Line.store .dword .floatData 0x4 (dword v.float64 1)
        if i = 0 then genText (some [.fstpSt0, lo, hi, .fld "qword" .floatData])
        else genText (some [.ffree r, .fst r, .fstpSt0, lo, hi, .fld "qword" .floatData, .fxch r])
  | _ => movConst constInsn r v
  modify fun g => { g with hasMemOpnd := hasMemOpnd }

-- ---------------------------------------------------------------------------
-- Implied operands
-- ---------------------------------------------------------------------------

/-- One call of `init_implied_operands`. -/
inductive Implied
  | register (r : Reg)
  | fpuDest (r : Reg)
  | mem (r : Reg) (data : Nat)
  | popf
  deriving DecidableEq, Repr

/-- The calls of `init_implied_operands`, in order: `size` is `calOperandSize` of the
first operand. -/
def impliedOperands (opcode : Opcode) (size : OpFlags) (operands : Nat) : List Implied :=
  match opcode with
  | .div | .idiv =>
    if size = bits8 then [.register .ax]
    else if size = bits16 then [.register .dx, .register .ax]
    else if size = bits32 then [.register .edx, .register .eax]
    else []
  | .cmpxchg =>
    if size = bits8 then [.register .al]
    else if size = bits16 then [.register .ax]
    else if size = bits32 then [.register .eax]
    else []
  | .cwd | .cbw => [.register .ax]
  | .cdq | .cwde => [.register .eax]
  | .jcxz | .jecxz => [.register .ecx]
  | .movsb | .movsd | .movsw | .cmpsb | .cmpsd | .cmpsw | .scasb | .scasd | .scasw
  | .lodsb | .lodsd | .lodsw | .stosb | .stosd | .stosw => [.mem .esi 1, .mem .edi 2]
  | .popf => [.popf]
  | .fxtract => [.register (.st 0), .fpuDest (.st 7)]
  | .fbstp | .fchs | .fcos | .fiadd | .ficom | .ficomp | .fidiv | .fidivr | .fimul | .fist
  | .fistp | .fisub | .fisubr | .fptan | .frndint | .fsin | .fsincos | .fsqrt | .ftst | .fabs
  | .f2xm1 => [.register (.st 0)]
  | .fadd | .faddp | .fcmovb | .fcmovbe | .fcmove | .fcmovnb | .fcmovnbe | .fcmovne | .fcmovnu
  | .fcmovu | .fcom | .fcomi | .fcomip | .fcomp | .fcompp | .fdiv | .fdivp | .fdivr | .fdivrp
  | .fmul | .fmulp | .fsub | .fsubp | .fsubr | .fsubrp | .fucom | .fucomi | .fucomip | .fucomp
  | .fucompp | .fxch =>
    if operands = 1 then [.register (.st 0)]
    else if operands = 0 then [.register (.st 0), .register (.st 1)]
    else []
  | .fld => (if operands = 0 then [.register (.st 1)] else []) ++ [.fpuDest (.st 7)]
  | .fpatan | .fprem | .fprem1 | .fscale | .fyl2x | .fyl2xp1 =>
    [.register (.st 0), .register (.st 1)]
  | _ => []

def initPopf : M Unit := do
  match ← requestNode with
  | none => throw .nullDeref
  | some v => genText (some [.push v.imm32])

def Implied.init : Implied → M Unit
  | .register r => initSpecificRegister constInsn r
  | .fpuDest r => genText (some [.ffree r])
  | .mem r data => genText (some [.leaSpecific r data])
  | .popf => initPopf

def initImpliedFrom (opcode : Opcode) (j : Nat) : List Implied → M Unit
  | [] => pure ()
  | i :: is => do
    modify fun g => { g with who := .implied j }
    logOperand opcode
    i.init constInsn
    initImpliedFrom opcode (j + 1) is

def initImpliedOperands (opcode : Opcode) (opnds : List (Option SizeWord × Opnd)) : M Unit := do
  modify fun g => { g with needInit := false }
  let size := calOperandSize opcode (opnds.map parsedType) 0
  initImpliedFrom constInsn opcode 0 (impliedOperands opcode size opnds.length)
  modify fun g => { g with needInit := true }

-- ---------------------------------------------------------------------------
-- Generating an operand
-- ---------------------------------------------------------------------------

/-- What a call of `gen_operand` leaves: no operand could be made, there is none left,
or the operand as it is written. -/
inductive Made
  | failed
  | done
  | opnd (size : Option SizeWord) (o : Opnd) (hasLabel : Bool)

def Opnd.hasLabel : Opnd → Bool
  | .mem m => m.hasLabel
  | _ => false

def wantsSize (opcode : Opcode) (opi : Nat) (flags : OpFlags) (lastOrImm : Bool) : Bool :=
  opcode = .movsx || (opi = 0 && opcode.isShiftOrRotate) ||
    (opi = 0 && isClass memory flags && lastOrImm)

/-- `asm_is_blank` or `asm_is_immediate` of the text behind the comma: a type without a size
is only read where it ends the text. -/
def lastOrImm : List PseudoOpnd → Bool
  | [] => true
  | .imm _ :: _ => true
  | .type flags :: rest => isClass immediate flags && (flags &&& sizeMask ≠ 0 || rest.isEmpty)
  | _ => false

def genOperandPseudoCode (p : PseudoInsn) : M Made := do
  let g ← get
  let opi := g.opi
  match p.opnds[opi]? with
  | none => return .done
  | some po =>
    let (seed, place) ← createOpndSeed po
    let size? (flags : OpFlags) : Option SizeWord :=
      if wantsSize g.opcode opi flags (lastOrImm (p.opnds.drop (opi + 1))) then
        some (preappendMemSize (flags &&& sizeMask))
      else none
    match po, place with
    | .var _, some (blk, i, v) =>
      if !v.valid then
        let (o, flags) ← genOperandInternal seed.opndflags
        match o with
        | none => return .failed
        | some o =>
          let g ← get
          let initMemAddr :=
            if isClass memory flags && flags ≠ memOffs then some g.initMemAddr else v.initMemAddr
          setVar blk i fun v => { v with
            valid := true
            opndflags := flags
            varVal := some o
            initMemAddr := initMemAddr
            isMemOpnd := g.hasMemOpnd
            hasLabel := o.hasLabel }
          initOpnd constInsn o flags (some initMemAddr)
          return .opnd (size? flags) o o.hasLabel
      else
        match v.varVal with
        | none => throw .nullDeref
        | some o =>
          record (.reuse v g.hasMemOpnd g.initMemAddr)
          modify fun g => { g with hasMemOpnd := v.isMemOpnd }
          initOpnd constInsn o v.opndflags (some v.initMemAddr)
          return .opnd (size? v.opndflags) o v.hasLabel
    | .type _, _ =>
      let (o, flags) ← genOperandInternal seed.opndflags
      match o with
      | none => return .failed
      | some o =>
        initOpnd constInsn o flags none
        return .opnd (size? flags) o o.hasLabel
    | .reg r, _ =>
      initOpnd constInsn (.reg r) seed.opndflags none
      return .opnd none (.reg r) false
    | .imm v, _ => return .opnd none (.imm v) false
    | .var _, none => throw .nullDeref

def genOperandInsnSeed (s : InsnSeed) : M Made := do
  let g ← get
  let opi := g.opi
  if s.opd.getD opi 0 = 0 then
    return .done
  let (o, flags) ← genOperandInternal (s.opd.getD opi 0 ||| calOperandSize s.opcode s.opd opi)
  match o with
  | none => return .failed
  | some o =>
    let next := s.opd.getD 1 0
    let size := if wantsSize g.opcode opi flags (next = 0 || isClass immediate next) then
        some (preappendMemSize (flags &&& sizeMask))
      else none
    initOpnd constInsn o flags none
    return .opnd size o o.hasLabel

def genOperand : Source → M Made
  | .seed s => genOperandInsnSeed constInsn s
  | .pseudo p => genOperandPseudoCode constInsn p

end

end Btrtg
