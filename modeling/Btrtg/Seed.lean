import Btrtg.X86PG

/-!
# Seeds

What an instruction is generated from: a pseudo instruction of a template, or
the operand flags of one of the templates of its opcode.
-/

namespace Btrtg

/-- An operand of a pseudo instruction: `@name`, an operand type by its flags, or
an operand written out. -/
inductive PseudoOpnd
  | var (name : String)
  | type (opndflags : OpFlags)
  | reg (r : Reg)
  | imm (value : BitVec 32)
  deriving DecidableEq, Repr

/-- The text of an `I` element. -/
structure PseudoInsn where
  opcode : Opcode
  opnds : List PseudoOpnd
  deriving DecidableEq, Repr

structure InsnSeed where
  opcode : Opcode
  opd : List OpFlags
  deriving DecidableEq, Repr

/-- The argument of `one_insn_gen`, with the token buffer for a null seed. -/
inductive Source
  | seed (s : InsnSeed)
  | pseudo (p : PseudoInsn)

def Source.opcode : Source → Opcode
  | .seed s => s.opcode
  | .pseudo p => p.opcode

/-- `gen_operand` finds an operand of this index. -/
def Source.hasOperand : Source → Nat → Bool
  | .seed s, opi => s.opd.getD opi 0 ≠ 0
  | .pseudo p, opi => opi < p.opnds.length

structure OperandSeed where
  isVar : Bool := false
  isOpndType : Bool := false
  hasLabel : Bool := false
  opndflags : OpFlags := 0

def maxOperands : Nat := 5

def createInsnSeed (opcode : Opcode) : M InsnSeed := do
  let g ← get
  let itmplt := g.instructions opcode
  let operandsi ← nasmRandom32 itmplt.length
  match itmplt[operandsi]? with
  | some opd => pure ⟨opcode, opd⟩
  | none => throw .outOfBounds

-- ---------------------------------------------------------------------------
-- Variables
-- ---------------------------------------------------------------------------

/-- `blk_search_var`: the block, the index and the variable. -/
def blkSearchVar (vars : BlkId → List BlkVar) (name : String) :
    BlkId → Option (BlkId × Nat × BlkVar)
  | [] => (vars []).findIdx? (·.name = name) |>.bind fun i =>
    (vars [])[i]?.map fun v => ([], i, v)
  | k :: parent =>
    match (vars (k :: parent)).findIdx? (·.name = name) with
    | some i => (vars (k :: parent))[i]?.map fun v => (k :: parent, i, v)
    | none => blkSearchVar vars name parent

/-- `blk_search_var` from the current block, recorded. -/
def searchCurrBlk (check : Bool) (name : String) : M (Option (BlkId × Nat × BlkVar)) := do
  let g ← get
  let found := g.currBlk.bind (blkSearchVar g.vars name)
  record (.resolve check g.place name g.currBlk (found.map fun r => (r.1, r.2.1)))
  pure found

/-- `create_opnd_seed`, with the variable where the operand names one. -/
def createOpndSeed (o : PseudoOpnd) : M (OperandSeed × Option (BlkId × Nat × BlkVar)) := do
  match o with
  | .var name =>
    match ← searchCurrBlk false name with
    | none => throw (.fatal s!"var: @{name} not defined")
    | some (blk, i, v) =>
      pure ({ isVar := true, opndflags := if v.valid then 0 else v.varType }, some (blk, i, v))
  | .type flags => pure ({ isOpndType := true, opndflags := flags }, none)
  | .reg r => pure ({ opndflags := r.flags }, none)
  | .imm _ => pure ({}, none)

def setVar (blk : BlkId) (i : Nat) (f : BlkVar → BlkVar) : M Unit :=
  modify fun g => { g with
    vars := fun b => if b = blk then (g.vars b).modify i f else g.vars b }

def blkInvalidVarAll (blk : BlkId) : M Unit :=
  modify fun g => { g with
    vars := fun b => if b = blk then
      (g.vars b).map fun v => { v with valid := false, varVal := none, initMemAddr := none }
    else g.vars b }

end Btrtg
