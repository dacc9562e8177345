import Btrtg.Tk
import Btrtg.Packed

/-!
# Operands

Creating an operand of given flags. A creation that gives up returns nothing;
flags that no case covers end the program.
-/

namespace Btrtg

open OpFlags

-- ---------------------------------------------------------------------------
-- Registers
-- ---------------------------------------------------------------------------

def regRandomRange (flags : OpFlags) : M Nat :=
  if flags = regSreg then pure 6
  else if flags = regCreg then pure 4
  else if flags = (regGpr ||| bits16) ∨ flags = (rmGpr ||| bits16) then pure 4
  else if flags = (regGpr ||| bits32) ∨ flags = (rmGpr ||| bits32) then pure 4
  else if flags = (regGpr ||| bits8) ∨ flags = (rmGpr ||| bits8) then pure 8
  else if flags = fpureg ∨ flags = mmxreg ∨ flags = (regClassRmMmx ||| register) ∨
    flags = xmmreg then pure 8
  else throw (.fatal "No register random range found!")

/-- A register of a numbered file: `create_fpu_register`, `create_mmx_register` and
`create_xmm_register`. -/
def createFileRegister (file : Fin 8 → Reg) (flags : OpFlags) : M Opnd := do
  let regn ← regRandomRange flags
  let regi ← nasmRandom32 regn
  if h : regi < 8 then
    pure (.reg (file ⟨regi, h⟩))
  else
    throw .outOfBounds

def createFpuRegister : OpFlags → M Opnd := createFileRegister .st
def createMmxRegister : OpFlags → M Opnd := createFileRegister .mm
def createXmmRegister : OpFlags → M Opnd := createFileRegister .xmm

def createSegmentRegister : M Opnd := do
  let sregn ← regRandomRange regSreg
  let sregi ← nasmRandom32 sregn
  match nasmRdSreg[sregi]? with
  | some r => pure (.reg r)
  | none => throw .outOfBounds

def createGprRegister (flags : OpFlags) : M Opnd := do
  let gprn ← regRandomRange flags
  let g ← get
  let regs :=
    if flags &&& sizeMask = bits8 then nasmRdReg8
    else if flags &&& sizeMask = bits16 then nasmRdReg16
    else nasmRdReg32
  let gpr ← drawUnlocked regs gprn g.patience
  pure (.reg gpr)

/-- `specific_registers` of `gen_register`. -/
def specificRegisters : List (OpFlags × Reg) :=
  [(regAl, .al), (regAx, .ax), (regEax, .eax), (regDl, .dl), (regDx, .dx), (regEdx, .edx),
    (regCl, .cl), (regCx, .cx), (regEcx, .ecx), (fpu0, .st 0), (OpFlags.xmm0, .xmm 0),
    (OpFlags.ymm0, .ymm0), (OpFlags.zmm0, .zmm0), (regEs, .es), (regCs, .cs), (regSs, .ss),
    (regDs, .ds), (regFs, .fs), (regGs, .gs)]

def Opnd.inFile : Opnd → Bool
  | .reg (.st _) | .reg (.mm _) | .reg (.xmm _) => true
  | _ => false

/-- The string that is made for an operand: `create_fpu_register`, `create_mmx_register`
and `create_xmm_register` write a blank first, `create_specific_register` does not. -/
def Opnd.asmOpnd (o : Opnd) (opndflags : OpFlags) : String :=
  if o.inFile && !specificRegisters.any fun (f, _) => isClass f opndflags then " " ++ o.text
  else o.text

def genRegister (flags : OpFlags) : M (Option Opnd) := do
  match specificRegisters.find? fun (f, _) => isClass f flags with
  | some (_, r) => return some (.reg r)
  | none =>
    if isClass regClassCdt flags then
      -- `create_control_register` returns false before anything else
      return none
    else if isClass regClassGpr flags then
      let o ← createGprRegister flags
      return some o
    else if isClass regClassSreg flags then
      let o ← createSegmentRegister
      return some o
    else if isClass regClassFpureg flags then
      let o ← createFpuRegister flags
      return some o
    else if isClass regClassRmMmx flags then
      let o ← createMmxRegister flags
      return some o
    else if isClass regClassRmXmm flags then
      let o ← createXmmRegister flags
      return some o
    else if isClass regClassRmYmm flags || isClass regClassRmZmm flags ||
      isClass regClassBnd flags || isClass regClassRmTmm flags then
      return none
    else
      throw (.fatal "OPFLAGS: register optype without register class")

-- ---------------------------------------------------------------------------
-- Immediates
-- ---------------------------------------------------------------------------

def createUnity (flags : OpFlags) : M Opnd := do
  let size := flags &&& sizeMask
  if size = bits8 then
    let unity ← nasmRandom32 (8 + 1)
    pure (.imm (.ofNat 32 unity))
  else if size = bits16 then
    let unity ← nasmRandom32 (16 + 1)
    pure (.imm (.ofNat 32 unity))
  else if size = bits32 then
    let unity ← nasmRandom32 (32 + 1)
    pure (.imm (.ofNat 32 unity))
  else
    throw .uninitialised

def createSbyteword : M Opnd := do
  let v ← nasmRandom32 0x10000
  pure (.imm (.ofNat 32 v))

def createSbytedword : M Opnd := do
  let v ← nasmRandom64 0x100000000
  pure (.imm (.ofNat 32 v))

def createImmediate (flags : OpFlags) : M Opnd := do
  let size := flags &&& sizeMask
  if size = bits8 ∨ size = bits16 then
    let imm ← nasmRandom64 0x10000
    pure (.imm (.ofNat 32 imm))
  else if size = bits32 then
    let imm ← nasmRandom64 0x100000000
    pure (.imm (.ofNat 32 imm))
  else
    throw (.fatal "wrong immediate size")

/-- `init_immediate_opnd`. Without a constant the text stays what it was. -/
def initImmediateOpnd (flags : OpFlags) : M Opnd := do
  match ← requestNode with
  | none => throw .uninitialised
  | some v =>
    let size := flags &&& sizeMask
    pure (.imm (if size = bits8 then v.imm8.setWidth 32
      else if size = bits16 then v.imm16.setWidth 32 else v.imm32))

def genImmediate (flags : OpFlags) : M Opnd := do
  let g ← get
  if isClass unity flags then
    if g.needInit then initImmediateOpnd flags else createUnity flags
  else if isClass sbytedword flags then
    if g.needInit then initImmediateOpnd flags else createSbytedword
  else if isClass sbyteword flags then
    if g.needInit then initImmediateOpnd flags else createSbyteword
  else if isClass immediate flags then
    if g.needInit then initImmediateOpnd flags else createImmediate flags
  else
    throw (.fatal "OPFLAGS: not immediate optype")

-- ---------------------------------------------------------------------------
-- Memory
-- ---------------------------------------------------------------------------

structure RandomMemAddr where
  base : Nat
  scale : Nat
  index : Nat
  disp : Nat

/-- The redraw of `random_mem_addr_from_data`. -/
def drawNonzero (bound : Nat) : Nat → M Nat
  | 0 => throw .diverges
  | patience + 1 => do
    let r ← nasmRandom32 bound
    if r = 0 then drawNonzero bound patience else pure r

def xmmMemAlignMask : Nat := 0xffffff80

/-- `enum SIB_MODE`, in its order. -/
inductive SibMode
  | d | b | bd | isd | bid | bisd
  deriving DecidableEq, Repr

def sibModes : List SibMode := [.d, .b, .bd, .isd, .bid, .bisd]

def SibMode.hasBase (m : SibMode) : Bool := m == .b || m == .bd || m == .bid || m == .bisd

def SibMode.hasIndex (m : SibMode) : Bool := m == .isd || m == .bid || m == .bisd

def randomMemAddrFromData (mode : SibMode) : M RandomMemAddr := do
  let base ← nasmRandom32 sectionDataNum
  let s ← nasmRandom32 3
  let scale := 1 <<< (s + 1)
  let g ← get
  match g.datasizes[base]? with
  | none => throw .outOfBounds
  | some size =>
    let dataSize := size - 128
    let (index, disp) ← if g.opcode.isSse || g.opcode.isSse2 then do
        let dataSize ← drawNonzero dataSize g.patience
        let r ← nasmRandom32 dataSize
        let disp := r &&& xmmMemAlignMask
        pure (((dataSize - disp) / scale) &&& xmmMemAlignMask, disp)
      else do
        let index ← nasmRandom32 (dataSize / scale)
        pure (index, dataSize - scale * index)
    pure ⟨base, scale, index, if mode = .isd ∨ mode = .d then base else disp⟩

/-- `baseregs` and `indexregs`. -/
def addrRegs : List Reg := [.eax, .ecx, .edx, .ebx, .esi, .edi]

/-- `create_random_modrm`. The base register is locked while the index register is
drawn. -/
def createRandomModrm (flags : OpFlags) : M ModRM := do
  let g ← get
  record (.modrm g.hasMemOpnd)
  let mode ← if isClass memOffs flags then pure SibMode.d else do
    let i ← nasmRandom32 6
    pure (sibModes.getD i .d)
  let addr ← randomMemAddrFromData mode
  modify fun g => { g with initMemAddr := [] }
  let base ← if mode.hasBase then do
      let base ← drawUnlocked addrRegs 6 g.patience
      statLockReg base .mem
      modify fun g => { g with initMemAddr := [.lea base addr.base] }
      pure base
    else pure .eax
  let index ← if mode.hasIndex then do
      let index ← drawUnlocked addrRegs 6 g.patience
      modify fun g => { g with initMemAddr := g.initMemAddr ++ [.movIndex index addr.index] }
      pure index
    else pure .eax
  statUnlockReg .mem
  if mode ≠ .d then
    modify fun g => { g with hasMemOpnd := true }
  pure (match mode with
    | .d => .d addr.base
    | .b => .b base addr.base
    | .bd => .bd base addr.base addr.disp
    | .isd => .isd index addr.scale addr.base addr.index
    | .bid => .bid base index addr.base addr.index addr.disp
    | .bisd => .bisd base index addr.scale addr.base addr.index addr.disp)

def createMemory (flags : OpFlags) : M Opnd := do
  let m ← createRandomModrm flags
  pure (.mem m)

-- ---------------------------------------------------------------------------
-- Operands
-- ---------------------------------------------------------------------------

/-- `gen_reg_mem`, with the flags it leaves in the seed. -/
def genRegMem (flags : OpFlags) : M (Option Opnd × OpFlags) := do
  if isClass memory flags then
    let o ← createMemory flags
    return (some o, flags)
  if ← likelyHappenP 5000 then
    let flags := (flags &&& ~~~optypeMask) ||| memory
    let o ← createMemory flags
    return (some o, flags)
  else
    let flags := flags ||| register
    let o ← genRegister flags
    return (o, flags)

def genOperandInternal (flags : OpFlags) : M (Option Opnd × OpFlags) := do
  if isClass register flags then
    let o ← genRegister flags
    return (o, flags)
  else if isClass immediate flags then
    let o ← genImmediate flags
    return (some o, flags)
  else if isClass regmem flags then
    genRegMem flags
  else
    throw (.fatal "Wrong operand odflags with no optype")

end Btrtg
