import Btrtg.GenData
import Btrtg.Ctrl

/-!
# One instruction

`one_insn_gen` with its operand loop. The nesting of initialisation
instructions is bounded by a depth.
-/

namespace Btrtg

section
variable (constInsn : PseudoInsn → M Bool)

/-- The state before `gen_operand`, if it finds an operand. -/
def logExplicit (src : Source) (opi : Nat) : M Unit :=
  if src.hasOperand opi then logOperand src.opcode else pure ()

/-- The operand loop: the operands that are there when the text ends, or none when an
operand could not be made. -/
def operandLoop (src : Source) :
    Nat → List (Option SizeWord × Opnd) → Bool → M (Option (List (Option SizeWord × Opnd) × Bool))
  | 0, _, _ => throw .outOfBounds
  | room + 1, opnds, isLabel => do
    modify fun g => { g with opi := opnds.length, who := .explicit opnds.length }
    logExplicit src opnds.length
    match ← genOperand constInsn src with
    | .failed => return none
    | .done => return some (opnds, isLabel)
    | .opnd size o hasLabel => operandLoop src room (opnds ++ [(size, o)]) (isLabel || hasLabel)

/-- `one_insn_gen` from the operand loop on. -/
def insnOperands (src : Source) (transferred : Bool) : M Bool := do
  match ← operandLoop constInsn src maxOperands [] false with
  | none => return false
  | some (opnds, isLabel) =>
    let g ← get
    if g.needInit then
      initImpliedOperands constInsn src.opcode opnds
    let g ← get
    let insn : Insn := ⟨src.opcode, opnds, isLabel⟩
    if g.hasMemOpnd then
      oneInsnGenCtrl (.lines g.initMemAddr) .after
      record (.emit insn (some g.initMemAddr) transferred)
    else
      record (.emit insn none transferred)
    statInsertInsn (.insn insn) .after
    return true

def oneInsnGenWith (src : Source) : M Bool := do
  let g ← get
  record (.begin g.hasMemOpnd)
  likelyGenLabel
  modify fun g => { g with opcode := if g.opcode = .none then src.opcode else g.opcode }
  let (label, transferred) ← callControlTransfer .insn src.opcode (-1)
  if label ≥ 0 then
    return true
  insnOperands constInsn src transferred

end

/-- `one_insn_gen_const`, `depth` instructions deep at most. -/
def oneInsnGenConst : Nat → PseudoInsn → M Bool
  | 0, _ => throw .diverges
  | depth + 1, p => oneInsnGenWith (oneInsnGenConst depth) (.pseudo p)

/-- `one_insn_gen`: an initialisation instruction has none of its own. -/
def oneInsnGen (src : Source) : M Bool := oneInsnGenWith (oneInsnGenConst 1) src

end Btrtg
