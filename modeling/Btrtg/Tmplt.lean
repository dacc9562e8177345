import Btrtg.Generator

/-!
# Templates

The blocks of a template and the functions that walk them. A block is known by
its place; the walk of its sub-blocks is passed to the function of the block.
-/

namespace Btrtg

open Wrap

-- ---------------------------------------------------------------------------
-- Blocks
-- ---------------------------------------------------------------------------

/-- What a `C` element checks: a value, or that of a variable. -/
inductive CType
  | text (s : String)
  | var (name : String)

/-- `struct elem_struct`; the probability `inip` in ten-thousandths. -/
inductive Elem
  | g (inip : Nat) (gTree : WdRoot)
  | c (cType : CType)
  | i (inip : Nat) (asmInst : PseudoInsn) (trvNodes : Option TrvRef)

structure TrvState where
  tkTrees : List WdRoot
  trvNodes : TrvRef

/-- `struct blk_struct`. -/
inductive Blk
  | seq (blks : List Blk)
  | sel (tree : WdRoot)
  | ttt (op : Opcode) (times : BitVec 32) (blks : List Blk)
  | rpt (times : Int) (blks : List Blk)
  | trv (state : Option TrvState) (blks : List Blk)
  | elem (e : Elem)

def setCurrBlk (blk : BlkId) : M Unit := modify fun g => { g with currBlk := some blk }

def setPlace (blk : BlkId) : M Unit := modify fun g => { g with place := blk }

-- ---------------------------------------------------------------------------
-- Elements
-- ---------------------------------------------------------------------------

def logSelect (insn : Opcode) : M Unit := do
  let g ← get
  record (.select insn g.toX86PGState)

/-- The instruction that a tree of instruction names selects. -/
def selectInsn (tree : WdRoot) : M InsnSeed := do
  modify fun g => { g with own := none }
  match ← wdtreeSelectLeafNode tree with
  | none => throw .nullDeref
  | some instNode => createInsnSeed instNode.asmOp

/-- A select block once it is entered; its instruction counts as a part of it. -/
def genSelected (blk : BlkId) (tree : WdRoot) : M Unit := do
  setPlace (0 :: blk)
  let seed ← selectInsn tree
  logSelect seed.opcode
  let _ ← oneInsnGen (.seed seed)

def walkGElem (inip : Nat) (gTree : WdRoot) : M Unit := do
  let needInit ← likelyHappenP inip
  modify fun g => { g with needInit := needInit, hasMemOpnd := false }
  let seed ← selectInsn gTree
  let _ ← oneInsnGen (.seed seed)
  modify fun g => { g with needInit := false }

/-- The variable that a `C` element names; whether there is one is not asked. -/
def checkedVar (name : String) : M BlkVar := do
  match ← searchCurrBlk true name with
  | none => throw .nullDeref
  | some (_, _, v) => pure v

def walkCElem (cType : CType) : M Unit := do
  match cType with
  | .text s => oneInsnGenCtrl (.check s) .after
  | .var name =>
    let v ← checkedVar name
    if !v.valid then
      throw (.fatal s!"checking value: @{name} has not been initialized")
    match v.varVal with
    | none => throw .nullDeref
    | some o => oneInsnGenCtrl (.check (o.asmOpnd v.opndflags)) .after

def walkIElem (inip : Nat) (asmInst : PseudoInsn) (trvNodes : Option TrvRef) : M Unit := do
  let needInit ← likelyHappenP inip
  modify fun g => { g with needInit := needInit, hasMemOpnd := false, trvNodes := trvNodes }
  modify fun g => { g with own := trvNodes }
  let _ ← oneInsnGen (.pseudo asmInst)
  modify fun g => { g with needInit := false, trvNodes := none }

def walkElemBlk (e : Elem) : M Unit := do
  modify fun g => { g with opcode := .none }
  match e with
  | .g inip gTree => walkGElem inip gTree
  | .c cType => walkCElem cType
  | .i inip asmInst trvNodes => walkIElem inip asmInst trvNodes

-- ---------------------------------------------------------------------------
-- Blocks with sub-blocks
-- ---------------------------------------------------------------------------

section
variable (blk : BlkId)

def walkSelBlk (tree : WdRoot) : M Unit := do
  setCurrBlk blk
  blkInvalidVarAll blk
  genSelected blk tree

variable (body : M Unit)

def walkSeqBlk : M Unit := do
  setCurrBlk blk
  blkInvalidVarAll blk
  body

def walkTttBlk (op : Opcode) (times : BitVec 32) : M Unit := do
  setCurrBlk blk
  blkInvalidVarAll blk
  let (nextLabel, _) ← callControlTransfer .block op times
  body
  callUpdateInsertPos nextLabel
  statUnlockCtrl

def repeatBody : Nat → M Unit
  | 0 => pure ()
  | k + 1 => do
    blkInvalidVarAll blk
    body
    repeatBody k

def walkRptBlk (times : Int) : M Unit := do
  setCurrBlk blk
  repeatBody blk body times.toNat

end

-- ---------------------------------------------------------------------------
-- Traverse blocks
-- ---------------------------------------------------------------------------

def intMin : Int := -2 ^ 31
def intMax : Int := 2 ^ 31 - 1

def expectedTrvNum : Int := 8192

/-- The loop of `sqrti`. -/
def sqrtiFrom (s : Nat) : Nat → Nat → Nat
  | 0, _ => s
  | fuel + 1, num => if 2 * s + 1 ≤ num then sqrtiFrom (s + 1) fuel (num - (2 * s + 1)) else s

def sqrti (num : Nat) : Nat := sqrtiFrom 0 num num

def isPrime (num : Nat) : Bool :=
  if num ≤ 3 then true
  else if num % 2 = 0 then false
  else (List.range' 3 ((sqrti num - 1) / 2) 2).all fun i => num % i != 0

def greatestPrimeNat : Nat → Nat
  | 0 => 0
  | i + 1 => if isPrime (i + 1) then i + 1 else greatestPrimeNat i

def greatestPrime (limit : Int) : Int :=
  if 0 < limit then greatestPrimeNat limit.toNat else limit

/-- `g_array_append_val` on an array `val_nodes`. -/
def pushVal (v : ValRef) (c : ConstNode) : M Unit := do
  let g ← get
  match g.valArrays v with
  | none => throw .dangling
  | some cs =>
    modify fun g => { g with valArrays := fun r => if r = v then some (cs ++ [c]) else g.valArrays r }

/-- `g_array_remove_index` on an array `val_nodes`. -/
def removeVal (v : ValRef) (i : Nat) : M Unit := do
  let g ← get
  match g.valArrays v with
  | none => throw .dangling
  | some cs =>
    modify fun g => { g with
      valArrays := fun r => if r = v then some (cs.eraseIdx i) else g.valArrays r }

/-- A new array `val_nodes`, appended to `trv_nodes`. -/
def newValNodes (ref : TrvRef) : M ValRef := do
  let g ← get
  modify fun g => { g with
    nextVal := g.nextVal + 1
    valArrays := fun r => if r = g.nextVal then some [] else g.valArrays r
    trvArrays := fun r => if r = ref then g.trvArrays r ++ [g.nextVal] else g.trvArrays r }
  pure g.nextVal

/-- The array at `i` leaves `trv_nodes` and is freed. -/
def freeValNodes (ref : TrvRef) (i : Nat) (v : ValRef) : M Unit :=
  modify fun g => { g with
    valArrays := fun r => if r = v then none else g.valArrays r
    trvArrays := fun r => if r = ref then (g.trvArrays r).eraseIdx i else g.trvArrays r }

mutual
def forLeaves (f : ConstNode → M Unit) : WdNode → M Unit
  | .leaf cs => cs.forM f
  | .inner _ subs => forLeavesList f subs
def forLeavesList (f : ConstNode → M Unit) : List WdNode → M Unit
  | [] => pure ()
  | n :: ns => do
    forLeaves f n
    forLeavesList f ns
end

section
variable (blk : BlkId) (body : M Unit) (ref : TrvRef)

/-- A complete combination: the body is walked when `trv_step` divides the index. The
index wraps; the quotient of the least `int` by -1 is none, and the division traps. -/
def complete : M Unit := do
  let g ← get
  modify fun g => { g with trvIndex := wrap 32 (g.trvIndex + 1) }
  if g.trvStep = 0 then
    throw .divByZero
  if g.trvStep = -1 ∧ g.trvIndex = intMin then
    throw .intOverflow
  let walked := g.trvIndex.tmod g.trvStep = 0
  record (.reached ((g.trvArrays ref).map g.valArrays) walked)
  if walked then
    blkInvalidVarAll blk
    body

/-- `preorder_traverse_tk_trees` in one tree, with `lanes` packed lanes to come after
this one; `next` is what follows the last lane. -/
def traverseLanes (next : M Unit) (tree : WdRoot) (valNodes : ValRef) : Nat → M Unit
  | 0 =>
    tree.wdNode |> forLeaves fun valNode => do
      pushVal valNodes valNode
      next
      removeVal valNodes (tree.packedn - 1)
  | lanes + 1 =>
    tree.wdNode |> forLeaves fun valNode => do
      pushVal valNodes valNode
      traverseLanes next tree valNodes lanes
      removeVal valNodes (tree.packedn - 1 - (lanes + 1))

/-- `preorder_traverse_tk_trees` from the root of the tree `treei`, the first of the
list. With `packedn` less than one no lane is the last one. -/
def traverseTrees : List WdRoot → Nat → ValRef → M Unit
  | [], _, _ => pure ()
  | tree :: trees, treei, valNodes =>
    let next : M Unit := match trees with
      | [] => complete blk body ref
      | _ :: _ => do
        let nextValNodes ← newValNodes ref
        traverseTrees trees (treei + 1) nextValNodes
        freeValNodes ref (treei + 1) nextValNodes
    if tree.packedn = 0 then
      tree.wdNode |> forLeaves fun _ => throw .diverges
    else
      traverseLanes next tree valNodes (tree.packedn - 1)

end

/-- The product that `walkTrvBlk` computes, a `long`. -/
def mulLong (acc k : Int) : Nat → Int
  | 0 => acc
  | j + 1 => mulLong (wrap 64 (acc * k)) k j

def possibleTrvNum : List WdRoot → Int → Int
  | [], acc => acc
  | tree :: trees, acc =>
    possibleTrvNum trees (mulLong acc (getTkTreeLeafNum tree.wdNode) tree.packedn)

/-- `trv_step` for that product; `greatest_prime` takes an `int`. -/
def trvStepOf (possible : Int) : Int :=
  if 0 < possible.tdiv expectedTrvNum then
    greatestPrime (wrap 32 (possible.tdiv expectedTrvNum + 1))
  else 1

def walkTrvBlk (blk : BlkId) (body : M Unit) (state : Option TrvState) : M Unit := do
  setCurrBlk blk
  match state with
  | none => throw .nullDeref
  | some state =>
    if state.tkTrees ≠ [] then
      let trvStep := trvStepOf (possibleTrvNum state.tkTrees 1)
      modify fun g => { g with trvStep := trvStep, trvIndex := 0 }
      let valNodes ← newValNodes state.trvNodes
      traverseTrees blk body state.trvNodes state.tkTrees 0 valNodes
      freeValNodes state.trvNodes 0 valNodes

-- ---------------------------------------------------------------------------
-- The walk
-- ---------------------------------------------------------------------------

mutual
def walkBlk (blk : BlkId) : Blk → M Unit
  | .seq blks => walkSeqBlk blk (walkBlks blk 0 blks)
  | .sel tree => walkSelBlk blk tree
  | .ttt op times blks => walkTttBlk blk (walkBlks blk 0 blks) op times
  | .rpt times blks => walkRptBlk blk (walkBlks blk 0 blks) times
  | .trv state blks => walkTrvBlk blk (walkBlks blk 0 blks) state
  | .elem e => do
    setPlace blk
    walkElemBlk e
/-- The sub-blocks of `parent` from the `k`-th on. -/
def walkBlks (parent : BlkId) (k : Nat) : List Blk → M Unit
  | [] => pure ()
  | b :: bs => do
    walkBlk (k :: parent) b
    walkBlks parent (k + 1) bs
end

/-- `walk_tmplt`, on the root block that `parseTmplts` makes. -/
def walkTmplt (blks : List Blk) : M Unit := walkBlk [] (.seq blks)

def endInsnGen : M Unit := do
  let g ← get
  record (.finish g.lockCtrl)
  genControlTransferFinish

/-- A whole run of the generator on a template. -/
def generate (blks : List Blk) : M Unit := do
  walkTmplt blks
  endInsnGen

end Btrtg
