import Btrtg.Seed

/-!
# Testing knowledge

Weighted selection from the trees of constants, and the requests for constants by
operand index. The index is recorded before it is used.
-/

namespace Btrtg

open Wrap

-- ---------------------------------------------------------------------------
-- Weighted selection
-- ---------------------------------------------------------------------------

/-- The loop of `select_subtree`; `accWeight` is an `int`. -/
def accumulate (randomChi : Int) : List Int → Int → Nat
  | [], _ => 0
  | w :: ws, accWeight =>
    let accWeight := wrap 32 (accWeight + w)
    if randomChi < accWeight then 0 else accumulate randomChi ws accWeight + 1

def selectSubtree (weights : List Int) (len : Nat) : M Nat := do
  if weights = [] then
    nasmRandom32 len
  else
    let randomChi ← nasmRandom32 100
    pure (accumulate randomChi (weights.take len) 0)

mutual
def wdtreeSelectLeafNodeRecursive : WdNode → M (Option ConstNode)
  | .leaf cs => do
    if cs = [] then
      return none
    let subtree ← selectSubtree [] cs.length
    match cs[subtree]? with
    | some c => return some c
    | none => throw .outOfBounds
  | .inner weights subs => do
    if subs.length = 0 then
      return none
    let subtree ← selectSubtree weights subs.length
    selectAt subs subtree
def selectAt : List WdNode → Nat → M (Option ConstNode)
  | [], _ => throw .outOfBounds
  | n :: _, 0 => wdtreeSelectLeafNodeRecursive n
  | _ :: ns, i + 1 => selectAt ns i
end

def wdtreeSelectLeafNode (tree : WdRoot) : M (Option ConstNode) :=
  wdtreeSelectLeafNodeRecursive tree.wdNode

-- ---------------------------------------------------------------------------
-- Requests
-- ---------------------------------------------------------------------------

def logRequest (trv packed : Bool) (opi : Nat) : M Unit := do
  let g ← get
  record (.request g.who trv packed opi)

def logSelected (c : ConstNode) : M Unit := do
  let g ← get
  record (.selected g.who c)

/-- `trv_nodes` at an index. -/
def trvValNodes (ref : TrvRef) (opi : Nat) : M (List ConstNode) := do
  let g ← get
  match (g.trvArrays ref)[opi]?.bind g.valArrays with
  | some vals => pure vals
  | none => throw .outOfBounds

def requestTrvNode (opi : Nat) : M (Option ConstNode) := do
  let g ← get
  match g.trvNodes with
  | none => return none
  | some ref =>
    logRequest true false opi
    let vals ← trvValNodes ref opi
    match vals with
    | c :: _ =>
      logSelected c
      return some c
    | [] => throw .outOfBounds

def requestPackedTrvNode (opi : Nat) : M (Option (List ConstNode)) := do
  let g ← get
  match g.trvNodes with
  | none => return none
  | some ref =>
    logRequest true true opi
    let vals ← trvValNodes ref opi
    return some vals

/-- The tree a request goes to: with one tree the index is not used. -/
def tkTreeFor (asmOp : String) (opi : Nat) : M WdRoot := do
  let g ← get
  match g.tks asmOp with
  | none => throw .nullDeref
  | some tkm =>
    let opi := if tkm.tkTrees.length = 1 then 0 else opi
    match tkm.tkTrees[opi]? with
    | some tree => pure tree
    | none => throw .outOfBounds

def requestValNode (asmOp : String) (opi : Nat) : M (Option ConstNode) := do
  logRequest false false opi
  let tree ← tkTreeFor asmOp opi
  let c ← wdtreeSelectLeafNode tree
  match c with
  | some c =>
    logSelected c
    return some c
  | none => return none

/-- The loop of `request_packed_val_node`. -/
def selectPacked (tree : WdRoot) : Nat → M (List ConstNode)
  | 0 => pure []
  | n + 1 => do
    match ← wdtreeSelectLeafNode tree with
    | none => throw .nullDeref
    | some c => do
      let cs ← selectPacked tree n
      pure (c :: cs)

def requestPackedValNode (asmOp : String) (opi : Nat) : M (List ConstNode) := do
  logRequest false true opi
  let tree ← tkTreeFor asmOp opi
  selectPacked tree tree.packedn

/-- The constant for the current operand: the traversed one where there is one. -/
def requestNode : M (Option ConstNode) := do
  let g ← get
  match ← requestTrvNode g.opi with
  | some c => return some c
  | none => requestValNode g.opcode.name g.opi

/-- The packed constants for the current operand. -/
def requestPackedNodes : M (List ConstNode) := do
  let g ← get
  match ← requestPackedTrvNode g.opi with
  | some cs => return cs
  | none => requestPackedValNode g.opcode.name g.opi

end Btrtg
