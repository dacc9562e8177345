import Btrtg.Frame

/-!
# What a walk is put together from

The functions of the blocks, taken apart in the same way. The programs that
only a traverse block uses are kept apart from the others.
-/

namespace Btrtg

open Prog

/-- Only what a traverse block works with may change. -/
structure Shaped (g g' : Gen) : Prop where
  instlist : g'.instlist = g.instlist
  insertpos : g'.insertpos = g.insertpos
  labeli : g'.labeli = g.labeli
  labelspos : g'.labelspos = g.labelspos
  lockCtrl : g'.lockCtrl = g.lockCtrl
  lockRegCases : g'.lockRegCases = g.lockRegCases
  currBlk : g'.currBlk = g.currBlk
  opcode : g'.opcode = g.opcode
  trvNodes : g'.trvNodes = g.trvNodes
  vars : g'.vars = g.vars
  nested : g'.nested = g.nested
  log : g'.log = g.log

/-- Only what an element sets for its instruction may change. -/
structure Own (g g' : Gen) : Prop extends Quiet g g' where
  currBlk : g'.currBlk = g.currBlk
  vars : g'.vars = g.vars
  place : g'.place = g.place
  nested : g'.nested = g.nested

inductive ElemPrim : (α : Type) → M α → Prop
  | rand : ElemPrim _ rand
  | insn (src : Source) : ElemPrim _ (oneInsnGen src)
  | modify {f : Gen → Gen} : (∀ g, Own g (f g)) → ElemPrim _ (modify f)
  | check (cType : String) : ElemPrim _ (oneInsnGenCtrl (.check cType) .after)
  | checked (name : String) : ElemPrim _ (checkedVar name)
  | select (insn : Opcode) : ElemPrim _ (logSelect insn)

/-- The programs of the blocks once they are entered; those of traverse blocks only with
`trv`, and `nested` for the body of a block. -/
inductive BlkPrim (trv : Prop) (nested : (α : Type) → M α → Prop) : (α : Type) → M α → Prop
  | invalidate (blk : BlkId) : BlkPrim trv nested _ (blkInvalidVarAll blk)
  | traverse {f : Gen → Gen} : trv → (∀ g, Shaped g (f g)) → BlkPrim trv nested _ (modify f)
  | reached (vals : List (Option (List ConstNode))) (walked : Bool) : trv →
      BlkPrim trv nested _ (record (.reached vals walked))
  | nested {α : Type} {m : M α} : nested α m → BlkPrim trv nested α m

/-- Only a traverse block does arithmetic. -/
def Faults (trv : Prop) (e : Fault) : Prop := e = .intOverflow → trv

mutual
def Blk.traverseFree : Blk → Bool
  | .seq blks | .ttt _ _ blks | .rpt _ blks => allTraverseFree blks
  | .sel _ | .elem _ => true
  | .trv _ _ => false
def allTraverseFree : List Blk → Bool
  | [] => true
  | b :: bs => b.traverseFree && allTraverseFree bs
end

section
variable {trv : Prop} {nested : (α : Type) → M α → Prop} {α : Type}

@[grind ←] theorem blk_throw {e : Fault} (h : e ≠ .intOverflow) :
    Uses (BlkPrim trv nested) (Faults trv) (throw e : M α) := .throw fun he => absurd he h

@[grind ←] theorem blk_overflow (h : trv) :
    Uses (BlkPrim trv nested) (Faults trv) (throw .intOverflow : M α) := .throw fun _ => h

@[grind ←] theorem elem_likelyHappenP (pivot : Nat) :
    Uses ElemPrim NoOverflow (likelyHappenP pivot) := draws_likelyHappenP .rand pivot

@[grind ←] theorem elem_wdtreeSelectLeafNode (tree : WdRoot) :
    Uses ElemPrim NoOverflow (wdtreeSelectLeafNode tree) := draws_wdtreeSelectLeafNode .rand tree

@[grind ←] theorem elem_createInsnSeed (opcode : Opcode) :
    Uses ElemPrim NoOverflow (createInsnSeed opcode) := draws_createInsnSeed .rand opcode

@[grind ←] theorem elem_modify {f : Gen → Gen} (h : ∀ g, Own g (f g)) :
    Uses ElemPrim NoOverflow (modify f : M PUnit) := .prim (.modify h)

@[grind ←] theorem elem_oneInsnGen (src : Source) :
    Uses ElemPrim NoOverflow (oneInsnGen src) := .prim (.insn src)

@[grind ←] theorem elem_check (cType : String) :
    Uses ElemPrim NoOverflow (oneInsnGenCtrl (.check cType) .after) := .prim (.check cType)

@[grind ←] theorem elem_checkedVar (name : String) :
    Uses ElemPrim NoOverflow (checkedVar name) := .prim (.checked name)

theorem checked_of_closed {K : (α : Type) → M α → Prop} (h : Closed NoOverflow K)
    (hs : ∀ name, K _ (searchCurrBlk true name)) (name : String) : K _ (checkedVar name) := by
  refine h.bind (hs name) fun r => ?_
  cases r with
  | none => exact h.throw nofun
  | some r => exact h.pure _

@[grind ←] theorem elem_logSelect (insn : Opcode) :
    Uses ElemPrim NoOverflow (logSelect insn) := .prim (.select insn)

@[grind ←] theorem elem_selectInsn (tree : WdRoot) :
    Uses ElemPrim NoOverflow (selectInsn tree) := by
  unfold selectInsn
  repeat' first | with_reducible refine .bind ?_ fun _ => ?_ | split | dsimp only
  all_goals grind [Own, Quiet]

theorem elem_walkElemBlk (e : Elem) : Uses ElemPrim NoOverflow (walkElemBlk e) := by
  unfold walkElemBlk walkGElem walkCElem walkIElem
  repeat' first | with_reducible refine .bind ?_ fun _ => ?_ | split | dsimp only
  all_goals grind [Own, Quiet]

/-- An element or a select block, put together from the programs of the elements. -/
theorem elem_of_closed {K : (α : Type) → M α → Prop} (h : Closed NoOverflow K)
    (hplace : ∀ blk, K Unit (setPlace blk)) (hp : ∀ {α : Type} (m : M α), ElemPrim α m → K α m) :
    (∀ blk tree, K Unit (genSelected blk tree)) ∧ ∀ blk e, K Unit (do setPlace blk; walkElemBlk e) := by
  refine ⟨fun blk tree => h.bind (hplace (0 :: blk)) fun _ => Uses.of_closed ?_ h hp,
    fun blk e => h.bind (hplace blk) fun _ => (elem_walkElemBlk e).of_closed h hp⟩
  grind

@[grind ←] theorem blk_blkInvalidVarAll (blk : BlkId) :
    Uses (BlkPrim trv nested) (Faults trv) (blkInvalidVarAll blk) := .prim (.invalidate blk)

variable {blk : BlkId} {body : M Unit} (hb : Uses (BlkPrim trv nested) (Faults trv) body)
include hb

theorem blk_repeatBody (k : Nat) : Uses (BlkPrim trv nested) (Faults trv) (repeatBody blk body k) := by
  induction k with
  | zero => exact .pure _
  | succ k ih => grind [repeatBody]

end

-- ---------------------------------------------------------------------------
-- Traverse blocks
-- ---------------------------------------------------------------------------

section
variable {trv : Prop} {nested : (α : Type) → M α → Prop}

theorem blk_forM {f : ConstNode → M Unit} (hf : ∀ c, Uses (BlkPrim trv nested) (Faults trv) (f c))
    (cs : List ConstNode) : Uses (BlkPrim trv nested) (Faults trv) (cs.forM f) := by
  induction cs with
  | nil => exact .pure _
  | cons c cs ih => exact .bind (hf c) fun _ => ih

mutual
theorem blk_forLeaves {f : ConstNode → M Unit} (hf : ∀ c, Uses (BlkPrim trv nested) (Faults trv) (f c)) :
    (n : WdNode) → Uses (BlkPrim trv nested) (Faults trv) (forLeaves f n)
  | .leaf cs => by
    simpa only [forLeaves] using blk_forM hf cs
  | .inner _ subs => by
    simpa only [forLeaves] using blk_forLeavesList hf subs
theorem blk_forLeavesList {f : ConstNode → M Unit}
    (hf : ∀ c, Uses (BlkPrim trv nested) (Faults trv) (f c)) :
    (ns : List WdNode) → Uses (BlkPrim trv nested) (Faults trv) (forLeavesList f ns)
  | [] => by
    simpa only [forLeavesList] using .pure ()
  | n :: ns => by
    simpa only [forLeavesList] using .bind (blk_forLeaves hf n) fun _ => blk_forLeavesList hf ns
end

variable (ht : trv)
include ht

@[grind ←] theorem blk_traverse {f : Gen → Gen} (h : ∀ g, Shaped g (f g)) :
    Uses (BlkPrim trv nested) (Faults trv) (modify f : M PUnit) := .prim (.traverse ht h)

@[grind ←] theorem blk_pushVal (v : ValRef) (c : ConstNode) :
    Uses (BlkPrim trv nested) (Faults trv) (pushVal v c) := by
  grind [pushVal, Shaped]

@[grind ←] theorem blk_removeVal (v : ValRef) (i : Nat) :
    Uses (BlkPrim trv nested) (Faults trv) (removeVal v i) := by
  grind [removeVal, Shaped]

@[grind ←] theorem blk_newValNodes (ref : TrvRef) :
    Uses (BlkPrim trv nested) (Faults trv) (newValNodes ref) := by
  grind [newValNodes, Shaped]

@[grind ←] theorem blk_freeValNodes (ref : TrvRef) (i : Nat) (v : ValRef) :
    Uses (BlkPrim trv nested) (Faults trv) (freeValNodes ref i v) := by
  grind [freeValNodes, Shaped]

theorem blk_traverseLanes {next : M Unit} (hn : Uses (BlkPrim trv nested) (Faults trv) next)
    (tree : WdRoot) (valNodes : ValRef) (lanes : Nat) :
    Uses (BlkPrim trv nested) (Faults trv) (traverseLanes next tree valNodes lanes) := by
  induction lanes with
  | zero => exact blk_forLeaves (fun c => by grind) _
  | succ lanes ih => exact blk_forLeaves (fun c => by grind) _

variable {blk : BlkId} {body : M Unit} (hb : Uses (BlkPrim trv nested) (Faults trv) body)
include hb

theorem blk_complete (ref : TrvRef) :
    Uses (BlkPrim trv nested) (Faults trv) (complete blk body ref) := by
  have hreached : ∀ vals walked, Uses (BlkPrim trv nested) (Faults trv)
    (record (.reached vals walked)) := fun vals walked => .prim (.reached vals walked ht)
  unfold complete
  repeat' first | with_reducible refine .bind ?_ fun _ => ?_ | split | dsimp only
  all_goals grind [Shaped]

theorem blk_traverseTrees (ref : TrvRef) (trees : List WdRoot) (treei : Nat) (valNodes : ValRef) :
    Uses (BlkPrim trv nested) (Faults trv) (traverseTrees blk body ref trees treei valNodes) := by
  induction trees generalizing treei valNodes with
  | nil => exact .pure _
  | cons tree trees ih =>
    unfold traverseTrees
    dsimp only
    split
    · exact blk_forLeaves (fun c => blk_throw (by decide)) _
    · refine blk_traverseLanes ht ?_ tree valNodes _
      cases trees with
      | nil => exact blk_complete ht hb ref
      | cons tree' trees => grind

/-- `walkTrvBlk` once it is entered. -/
theorem walkTrvBlk_entered (state : Option TrvState) :
    ∃ m, walkTrvBlk blk body state = (do setCurrBlk blk; m) ∧
      Uses (BlkPrim trv nested) (Faults trv) m := by
  have htrees : ∀ ref trees treei v, Uses (BlkPrim trv nested) (Faults trv)
      (traverseTrees blk body ref trees treei v) := blk_traverseTrees ht hb
  refine ⟨_, rfl, ?_⟩
  repeat' first | with_reducible refine .bind ?_ fun _ => ?_ | split | dsimp only
  all_goals grind [Shaped]

end

-- ---------------------------------------------------------------------------
-- The walk
-- ---------------------------------------------------------------------------

/-- A property of what is walked inside a block, with one of the walk of a block from
outside, that a walk has if it is one of its parts: of an element; of what follows the
entry of a block; of a transfer block when its body has it. -/
structure WalkClosed (trv : Prop) (K : BlkId → (α : Type) → M α → Prop)
    (Ko : BlkId → M Unit → Prop) : Prop where
  closed : ∀ blk, Closed (Faults trv) (K blk)
  prim : ∀ blk {α : Type} (m : M α), BlkPrim trv (fun _ _ => False) α m → K blk α m
  selected : ∀ blk tree, K blk Unit (genSelected blk tree)
  elem : ∀ blk e, Ko blk (do setPlace blk; walkElemBlk e)
  enter : ∀ blk m, K blk Unit m → Ko blk (do setCurrBlk blk; m)
  ttt : ∀ blk body op times, K blk Unit body → Ko blk (walkTttBlk blk body op times)
  sub : ∀ parent k m, Ko (k :: parent) m → K parent Unit m

/-- The program that is taken as it is, for a body. -/
inductive IsBody (body : M Unit) : (α : Type) → M α → Prop
  | intro : IsBody body Unit body

section
variable {trv : Prop} {K : BlkId → (α : Type) → M α → Prop} {Ko : BlkId → M Unit → Prop}
  {α : Type} {m : M α}

/-- What follows the entry of a block, over a body that has the property. -/
theorem WalkClosed.body {body : M Unit} (h : WalkClosed trv K Ko) {blk : BlkId}
    (hb : K blk Unit body) (hm : Uses (BlkPrim trv (IsBody body)) (Faults trv) m) : K blk α m := by
  refine hm.of_closed (h.closed blk) fun m hp => ?_
  cases hp with
  | invalidate blk' => exact h.prim blk _ (.invalidate blk')
  | traverse ht hf => exact h.prim blk _ (.traverse ht hf)
  | reached vals walked ht => exact h.prim blk _ (.reached vals walked ht)
  | nested hm =>
    cases hm with
    | intro => exact hb

/-- A sequence once it is entered. -/
theorem WalkClosed.seq {body : M Unit} (h : WalkClosed trv K Ko) {blk : BlkId}
    (hb : K blk Unit body) : K blk Unit (do blkInvalidVarAll blk; body) :=
  (h.closed blk).bind (h.prim blk _ (.invalidate blk)) fun _ => hb

mutual
theorem WalkClosed.walkBlk (h : WalkClosed trv K Ko) (blk : BlkId) :
    (b : Blk) → (b.traverseFree = false → trv) → Ko blk (walkBlk blk b)
  | .seq blks, hf => by
    unfold Btrtg.walkBlk
    exact h.enter blk _ (h.seq (h.walkBlks blk 0 blks hf))
  | .sel tree, _ => by
    unfold Btrtg.walkBlk
    exact h.enter blk _ (h.seq (h.selected blk tree))
  | .ttt op times blks, hf => by
    unfold Btrtg.walkBlk
    exact h.ttt blk _ op times (h.walkBlks blk 0 blks hf)
  | .rpt times blks, hf => by
    unfold Btrtg.walkBlk
    exact h.enter blk _ (h.body (h.walkBlks blk 0 blks hf) (blk_repeatBody (.prim (.nested .intro)) _))
  | .trv state blks, hf => by
    unfold Btrtg.walkBlk
    have hbody : Uses (BlkPrim trv (IsBody (Btrtg.walkBlks blk 0 blks))) (Faults trv)
      (Btrtg.walkBlks blk 0 blks) := .prim (.nested .intro)
    obtain ⟨m, hm, huses⟩ := walkTrvBlk_entered (hf rfl) hbody state
    rw [hm]
    exact h.enter blk _ (h.body (h.walkBlks blk 0 blks fun _ => hf rfl) huses)
  | .elem e, _ => by
    unfold Btrtg.walkBlk
    exact h.elem blk e
theorem WalkClosed.walkBlks (h : WalkClosed trv K Ko) (parent : BlkId) (k : Nat) :
    (bs : List Blk) → (allTraverseFree bs = false → trv) → K parent Unit (walkBlks parent k bs)
  | [], _ => by
    unfold Btrtg.walkBlks
    exact (h.closed parent).pure ()
  | b :: bs, hf => by
    simp only [allTraverseFree, Bool.and_eq_false_iff] at hf
    unfold Btrtg.walkBlks
    exact (h.closed parent).bind (h.sub parent k _ (h.walkBlk (k :: parent) b fun hb => hf (.inl hb)))
      fun _ => h.walkBlks parent (k + 1) bs fun hb => hf (.inr hb)
end

end

/-- One property, the same in every block. -/
structure PartsClosed (trv : Prop) (K : (α : Type) → M α → Prop) : Prop where
  closed : Closed (Faults trv) K
  prim : ∀ {α : Type} (m : M α), BlkPrim trv (fun _ _ => False) α m → K α m
  selected : ∀ blk tree, K Unit (genSelected blk tree)
  elem : ∀ blk e, K Unit (do setPlace blk; walkElemBlk e)
  enter : ∀ blk, K Unit (setCurrBlk blk)
  ttt : ∀ blk body op times, K Unit body → K Unit (walkTttBlk blk body op times)

section
variable {trv : Prop} {K : (α : Type) → M α → Prop}

theorem PartsClosed.walk (h : PartsClosed trv K) :
    WalkClosed trv (fun _ => K) fun _ m => K Unit m where
  closed _ := h.closed
  prim _ _ m hm := h.prim m hm
  selected := h.selected
  elem := h.elem
  enter blk _ hm := h.closed.bind (h.enter blk) fun _ => hm
  ttt := h.ttt
  sub _ _ _ hm := hm

theorem PartsClosed.walkBlk (h : PartsClosed trv K) (blk : BlkId) (b : Blk)
    (hf : b.traverseFree = false → trv) : K Unit (walkBlk blk b) :=
  h.walk.walkBlk blk b hf

theorem PartsClosed.walkBlks (h : PartsClosed trv K) (parent : BlkId) (k : Nat) (bs : List Blk)
    (hf : allTraverseFree bs = false → trv) : K Unit (walkBlks parent k bs) :=
  h.walk.walkBlks parent k bs hf

end

end Btrtg
