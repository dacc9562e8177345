import Btrtg.X86PG

/-!
# Control transfers

The skeletons of labels and jumps. A transfer is written around the insert
position, which is left where the next instruction belongs.
-/

namespace Btrtg

def genLabel (pos : Position) : M Int := do
  let g ← get
  if g.lockCtrl then
    return -1
  oneInsnGenCtrl (.label g.labeli) pos
  modify fun g => { g with
    labeli := g.labeli + 1
    labelspos := g.labelspos ++ [g.insertpos] }
  return g.labeli

def selectOneLabel : M Int := do
  let g ← get
  if g.labeli = 0 then
    return -1
  let label ← nasmRandom32 g.labeli
  return label

/-- `update_insert_pos_to_label`: the array is indexed with whatever it is given. -/
def updateInsertPosToLabel (label : Int) : M Unit := do
  let g ← get
  match label with
  | .ofNat n =>
    match g.labelspos[n]? with
    | some pos => set { g with insertpos := pos }
    | none => throw .outOfBounds
  | .negSucc _ => throw .outOfBounds

def genJmpToLabel (label : Int) : M Unit := do
  updateInsertPosToLabel label
  oneInsnGenCtrl (.jmp label.toNat) .before
  let _ ← genLabel .after

def likelyGenLabel : M Unit := do
  if ← likelyHappenP 100 then
    let _ ← genLabel .after

def genControlTransferInsn (opcode : Opcode) (times : BitVec 32) : M Int := do
  let g ← get
  if g.lockCtrl then
    return -1
  if opcode = .jmp then
    oneInsnGenCtrl (.jmp g.labeli) .after
    let label ← selectOneLabel
    if label = -1 then
      let _ ← genLabel .before
    else
      genJmpToLabel label
    return label
  else if opcode.isJcc then
    oneInsnGenCtrl (.jcc opcode g.labeli) .after
    oneInsnGenCtrl (.jmp g.labeli) .after
    let label ← selectOneLabel
    if label = -1 then
      let _ ← genLabel .before
    else
      genJmpToLabel label
    return label
  else if opcode.isLoop then
    let label ← genLabel .after
    oneInsnGenCtrl (.loop opcode (g.labeli + 1)) .before
    oneInsnGenCtrl (.movEcx times) .before
    let _ ← genLabel .after
    statLockCtrl
    statLockReg .ecx .loop
    return label
  else if opcode = .call then
    oneInsnGenCtrl (.jmp (g.labeli + 1)) .after
    let labeli ← genLabel .after
    oneInsnGenCtrl .ret .after
    let _ ← genLabel .after
    oneInsnGenCtrl (.call labeli.toNat) .after
    let label ← genLabel .after
    updateInsertPosToLabel labeli
    statLockCtrl
    return label
  else
    return -1

/-- A call of `gen_control_transfer_insn`, recorded, and whether it inserted something. -/
def callControlTransfer (caller : Caller) (op : Opcode) (times : BitVec 32) : M (Int × Bool) := do
  let before ← get
  let label ← genControlTransferInsn op times
  let after ← get
  record (.transfer caller op before.toX86PGState label after.toX86PGState)
  return (label, after.instlist.brk != before.instlist.brk)

/-- A call of `update_insert_pos_to_label` by `walkTttBlk`, recorded. -/
def callUpdateInsertPos (label : Int) : M Unit := do
  let g ← get
  record (.leave label g.labelspos.length)
  updateInsertPosToLabel label

def genControlTransferFinish : M Unit := do
  let g ← get
  oneInsnGenCtrl (.jmp g.labeli) .after
  let _ ← genLabel .tail

end Btrtg
