import Btrtg.LabelRuns

/-!
# The scope of variables

A name is searched from the current block outwards. The current block is the
last one that was entered, so it is the parent of the element that is walked or
a block somewhere below it that was left before.
-/

namespace Btrtg

open Prog

-- ---------------------------------------------------------------------------
-- Declarations
-- ---------------------------------------------------------------------------

def declared (vars : BlkId → List BlkVar) (b : BlkId) : List String := (vars b).map (·.name)

/-- The nearest block from this one outwards that declares the name, and where. -/
def nearest (names : BlkId → List String) (name : String) : BlkId → Option (BlkId × Nat)
  | [] => ((names []).findIdx? (· = name)).map fun i => ([], i)
  | k :: parent =>
    match (names (k :: parent)).findIdx? (· = name) with
    | some i => some (k :: parent, i)
    | none => nearest names name parent

section
variable {names : BlkId → List String} {name : String} {b c : BlkId} {i : Nat}

theorem nearest_cons (k : Nat) (parent : BlkId) :
    nearest names name (k :: parent) =
      if name ∈ names (k :: parent) then
        ((names (k :: parent)).findIdx? (· = name)).map fun i => (k :: parent, i)
      else nearest names name parent := by
  rw [nearest]
  cases h : (names (k :: parent)).findIdx? (· = name) with
  | none =>
    have hno : name ∉ names (k :: parent) := fun hmem => by
      simpa using List.findIdx?_eq_none_iff.1 h name hmem
    simp [hno]
  | some i =>
    obtain ⟨hi, hname, -⟩ := List.findIdx?_eq_some_iff_getElem.1 h
    have hmem : name ∈ names (k :: parent) := by
      simpa using of_decide_eq_true hname ▸ List.getElem_mem hi
    simp [hmem]

/-- What is found is around the block. -/
theorem suffix_of_nearest (h : nearest names name c = some (b, i)) : b <:+ c := by
  induction c with
  | nil =>
    obtain ⟨j, -, hj⟩ := Option.map_eq_some_iff.1 h
    cases hj
    exact List.suffix_refl _
  | cons k parent ih =>
    rw [nearest_cons] at h
    split at h
    · obtain ⟨j, -, hj⟩ := Option.map_eq_some_iff.1 h
      cases hj
      exact List.suffix_refl _
    · exact (ih h).trans (List.suffix_cons k parent)

/-- From inside a block the same is found as from the block itself, unless a block on the
way declares the name. -/
theorem nearest_eq_iff (p xs : BlkId) :
    nearest names name (xs ++ p) = nearest names name p ↔
      ∀ b, p <:+ b → b <:+ xs ++ p → b ≠ p → name ∉ names b := by
  induction xs with
  | nil =>
    refine iff_of_true rfl fun b hpb hbp hne => absurd ?_ hne
    exact hbp.eq_of_length_le hpb.length_le
  | cons k xs ih =>
    have hlong : k :: (xs ++ p) ≠ p := fun h => by
      have := congrArg List.length h
      simp at this
      omega
    have hp : p <:+ k :: (xs ++ p) := ⟨k :: xs, rfl⟩
    rw [List.cons_append, nearest_cons]
    split
    · rename_i hmem
      refine iff_of_false (fun h => ?_) fun h => h _ hp (List.suffix_refl _) hlong hmem
      obtain ⟨i, hi⟩ : ∃ i, (names (k :: (xs ++ p))).findIdx? (· = name) = some i := by
        rw [← Option.isSome_iff_exists, List.findIdx?_isSome]
        simpa using hmem
      rw [hi] at h
      have hsuf := suffix_of_nearest h.symm
      exact hlong (hsuf.eq_of_length_le hp.length_le)
    · rename_i hno
      rw [ih]
      constructor
      · intro h b hpb hb hne
        rcases List.suffix_cons_iff.1 hb with rfl | hb
        · exact hno
        · exact h b hpb hb hne
      · exact fun h b hpb hb hne => h b hpb (hb.trans (List.suffix_cons k _)) hne

theorem findIdx?_declared (vars : BlkId → List BlkVar) (name : String) (b : BlkId) :
    (declared vars b).findIdx? (· = name) = (vars b).findIdx? (·.name = name) := by
  rw [declared, List.findIdx?_map]
  rfl

theorem blkSearchVar_nearest (vars : BlkId → List BlkVar) (name : String) (b : BlkId) :
    (blkSearchVar vars name b).map (fun r => (r.1, r.2.1)) = nearest (declared vars) name b := by
  have hfound : ∀ (b : BlkId) i, (vars b).findIdx? (·.name = name) = some i →
      ((vars b)[i]?.map fun v => (b, i, v)).map (fun r => (r.1, r.2.1)) = some (b, i) := by
    intro b i h
    obtain ⟨hi, -, -⟩ := List.findIdx?_eq_some_iff_getElem.1 h
    simp [List.getElem?_eq_getElem hi]
  induction b with
  | nil =>
    rw [blkSearchVar, nearest, findIdx?_declared]
    cases h : (vars []).findIdx? (·.name = name) with
    | none => rfl
    | some i => exact hfound [] i h
  | cons k parent ih =>
    rw [blkSearchVar, nearest, findIdx?_declared]
    cases h : (vars (k :: parent)).findIdx? (·.name = name) with
    | none => exact ih
    | some i => exact hfound _ i h

end

-- ---------------------------------------------------------------------------
-- What a search finds
-- ---------------------------------------------------------------------------

/-- How a run ends when no variable is found. -/
def notFound (check : Bool) (name : String) : Fault :=
  if check then .nullDeref else .fatal s!"var: @{name} not defined"

/-- The search began at the parent of the element or below, and the run ended with `r`
if it found nothing. -/
def Event.Searched (names : BlkId → List String) (r : Option Fault) : Event → Prop
  | .resolve check place name currBlk found => ∃ c, currBlk = some c ∧ place.tail <:+ c ∧
    found = nearest names name c ∧ (found = none → r = some (notFound check name))
  | _ => True

/-- The block that is walked is this one or was left below it. -/
structure Inside (names : BlkId → List String) (b : BlkId) (g : Gen) : Prop where
  currBlk : ∃ c, g.currBlk = some c ∧ b <:+ c
  names : declared g.vars = names

/-- An element of this block is walked. -/
structure Placed (names : BlkId → List String) (b : BlkId) (g : Gen) : Prop
    extends Inside names b g where
  place : g.place.tail = b

abbrev Searches (names : BlkId → List String) (r : Option Fault) : Gen → Gen → Prop :=
  Logs (fun _ => True) (Event.Searched names r)

/-- What is walked in an element of the block. -/
abbrev Scoped (names : BlkId → List String) (I : Gen → Prop) {α : Type} (m : M α) : Prop :=
  Outcomes I (Searches names none) (fun f => Searches names (some f)) m

section
variable {names : BlkId → List String} {b : BlkId} {I : Gen → Prop} {g g' : Gen} {α : Type} {m : M α}

theorem Event.Searched.fault {e : Event} (h : e.Searched names none) (f : Fault) :
    e.Searched names (some f) := by
  cases e with
  | resolve =>
    obtain ⟨c, hc, hp, hf, hn⟩ := h
    exact ⟨c, hc, hp, hf, fun h => nomatch hn h⟩
  | _ => trivial

theorem Logs.fault (h : Searches names none g g') (f : Fault) : Searches names (some f) g g' :=
  h.mono (fun _ h => h) fun _ h => h.fault f

theorem closed_scoped {E : Fault → Prop} : Closed E fun _ m => Scoped names I m :=
  closed_outcomes Logs.refl (fun _ _ _ => Logs.trans) (fun _ g _ => .refl g)
    fun f _ _ _ h h' => (h.fault f).trans h'

def Fixed (I : Gen → Prop) : Prop :=
  ∀ ⦃g g' : Gen⦄, I g → g'.currBlk = g.currBlk → g'.vars = g.vars → g'.place = g.place → I g'

theorem fixed_inside : Fixed (Inside names b) := fun _ _ h hc hv _ => ⟨hc ▸ h.currBlk, hv ▸ h.names⟩

theorem fixed_placed : Fixed (Placed names b) := fun _ _ h hc hv hp =>
  ⟨fixed_inside h.toInside hc hv hp, hp ▸ h.place⟩

theorem Fixed.off (hI : Fixed I) (h : I g) (hl : OffList g g') : I g' := by
  obtain ⟨_, _, _, _, _, _, _, rfl⟩ := hl
  exact hI h rfl rfl rfl

section
variable (hI : Fixed I)
include hI

theorem scoped_still {f : Gen → Gen} (hc : ∀ g, (f g).currBlk = g.currBlk)
    (hv : ∀ g, (f g).vars = g.vars) (hp : ∀ g, (f g).place = g.place)
    (hlog : ∀ g, (f g).log = g.log) : Scoped names I (modify f : M PUnit) :=
  fun g h => ⟨hI h (hc g) (hv g) (hp g), .of_eq (hlog g)⟩

theorem scoped_record {e : Event} (he : e.Searched names none) : Scoped names I (record e) :=
  fun _ h => ⟨hI h rfl rfl rfl, .one rfl fun _ => he⟩

theorem scoped_list (h : Uses ListPrim NoOverflow m) : Scoped names I m := fun g hg =>
  (triple_list h g).mono (fun _ _ hl => ⟨hI.off hg hl, .of_eq hl.log⟩) fun _ _ hl => .of_eq hl.log

theorem scoped_transfer (caller : Caller) (op : Opcode) (times : BitVec 32) :
    Scoped names I (callControlTransfer caller op times) := by
  intro g h
  refine (callControlTransfer_frame caller op times g).mono ?_ fun _ g' hl => .of_eq hl.log
  rintro r g' ⟨g₁, label, hl, rfl⟩
  refine ⟨hI (hI.off h hl) rfl rfl rfl, ?_⟩
  exact .one (e := .transfer caller op _ label _) (by rw [hl.log]) fun _ => trivial

theorem scoped_modrm (flags : OpFlags) : Scoped names I (createRandomModrm flags) := by
  refine (modrm_createRandomModrm flags).of_closed closed_scoped fun m hm => ?_
  cases hm with
  | rand => exact scoped_list hI (.prim .rand)
  | record c => exact scoped_record hI trivial
  | modify hf =>
    exact scoped_still hI (fun g => (hf g).currBlk) (fun g => (hf g).vars) (fun g => (hf g).place)
      fun g => (hf g).log

end

/-- A search from the current block, and what follows when it finds a variable. -/
theorem scoped_search {β : Type} {check : Bool} {name : String}
    {f : Option (BlkId × Nat × BlkVar) → M β} (hnone : f none = throw (notFound check name))
    (hf : ∀ r, Scoped names (Placed names b) (f (some r))) :
    Scoped names (Placed names b) (searchCurrBlk check name >>= f) := by
  intro g h
  obtain ⟨c, hc, hb⟩ := h.currBlk
  let found := blkSearchVar g.vars name c
  let e : Event := .resolve check g.place name (some c) (found.map fun r => (r.1, r.2.1))
  have hrun : (searchCurrBlk check name).run g = (.ok found, g.tell e) := by
    have hfound : (searchCurrBlk check name).run g = (.ok (g.currBlk.bind (blkSearchVar g.vars name)),
      g.tell (.resolve check g.place name g.currBlk
        ((g.currBlk.bind (blkSearchVar g.vars name)).map fun r => (r.1, r.2.1)))) := rfl
    rw [hfound, hc]
    rfl
  have hnear : found.map (fun r => (r.1, r.2.1)) = nearest names name c := by
    rw [← h.names]
    exact blkSearchVar_nearest g.vars name c
  have hp : g.place.tail <:+ c := h.place ▸ hb
  refine .bind_run hrun ?_
  have h' : Placed names b (g.tell e) := fixed_placed h rfl rfl rfl
  cases hcase : found with
  | none =>
    rw [hnone]
    exact .one (e := e) rfl fun _ => ⟨c, rfl, hp, hnear, fun _ => rfl⟩
  | some r =>
    have he : e.Searched names none := ⟨c, rfl, hp, hnear, fun hn => by simp [hcase] at hn⟩
    have hlog : Searches names none g (g.tell e) := .one rfl fun _ => he
    exact (hf r _ h').mono (fun _ _ h => ⟨h.1, hlog.trans h.2⟩)
      fun f _ h => (hlog.fault f).trans h

theorem scoped_seed (o : PseudoOpnd) : Scoped names (Placed names b) (createOpndSeed o) := by
  cases o with
  | var name => exact scoped_search rfl fun r => (closed_scoped (E := NoOverflow)).pure _
  | type | reg | imm => exact (closed_scoped (E := NoOverflow)).pure _

theorem scoped_checked (name : String) : Scoped names (Placed names b) (checkedVar name) :=
  scoped_search rfl fun _ => (closed_scoped (E := NoOverflow)).pure _

theorem declared_setVar (blk : BlkId) (i : Nat) {f : BlkVar → BlkVar} (hf : ∀ v, (f v).name = v.name)
    (vars : BlkId → List BlkVar) :
    declared (fun b => if b = blk then (vars b).modify i f else vars b) = declared vars := by
  funext b
  unfold declared
  dsimp only
  split
  · apply List.ext_getElem?
    intro j
    rw [List.getElem?_map, List.getElem?_map, List.getElem?_modify]
    cases (vars b)[j]? with
    | none => rfl
    | some v =>
      simp only [Option.map_eq_map, Option.map_some, Option.some.injEq]
      split
      · exact hf v
      · rfl
  · rfl

theorem declared_invalid (blk : BlkId) (vars : BlkId → List BlkVar) :
    declared (fun b => if b = blk then
      (vars b).map fun v => { v with valid := false, varVal := none, initMemAddr := none }
      else vars b) = declared vars := by
  funext b
  unfold declared
  dsimp only
  split
  · rw [List.map_map]
    rfl
  · rfl

theorem scoped_prim {ev : Event → Prop} {nested : (α : Type) → M α → Prop}
    (hev : ∀ e, ev e → e.Searched names none)
    (hn : ∀ {β : Type} (m : M β), nested β m → Scoped names (Placed names b) m)
    (h : Uses (Prim ev nested) NoOverflow m) : Scoped names (Placed names b) m := by
  refine h.of_closed closed_scoped fun m hm => ?_
  cases hm with
  | rand => exact scoped_list fixed_placed (.prim .rand)
  | modify hf =>
    exact scoped_still fixed_placed (fun g => (hf g).currBlk) (fun g => (hf g).vars)
      (fun g => (hf g).place) fun g => (hf g).log
  | setOpcode op => exact scoped_still fixed_placed (fun _ => rfl) (fun _ => rfl) (fun _ => rfl) fun _ => rfl
  | setVar blk i hf =>
    exact fun g h => ⟨⟨⟨h.currBlk, (declared_setVar blk i hf g.vars).trans h.names⟩, h.place⟩, .of_eq rfl⟩
  | modrm flags => exact scoped_modrm fixed_placed flags
  | seed o => exact scoped_seed o
  | record he => exact scoped_record fixed_placed (hev _ he)
  | insert _ => exact scoped_list fixed_placed (.prim (.insert _ _))
  | label => exact scoped_list fixed_placed (list_genLabel _)
  | transfer op => exact scoped_transfer fixed_placed .insn op (-1)
  | nested hm => exact hn _ hm

theorem scoped_oneInsnGenWith {constInsn : PseudoInsn → M Bool}
    (hc : ∀ p, Scoped names (Placed names b) (constInsn p)) (src : Source) :
    Scoped names (Placed names b) (oneInsnGenWith constInsn src) := by
  have huses : Uses (Prim (fun e => e.Searched names none) (IsInsn constInsn)) NoOverflow
      (oneInsnGenWith constInsn src) := by
    refine prim_oneInsnGenWith (fun e he => ?_) src fun _ _ _ => trivial
    cases e <;> trivial
  refine scoped_prim (fun _ h => h) (fun m hm => ?_) huses
  cases hm with
  | const p =>
    refine nested_of_closed (closed_scoped (E := NoOverflow)) (fun n => ?_) hc p
    exact scoped_still fixed_placed (fun _ => rfl) (fun _ => rfl) (fun _ => rfl) fun _ => rfl
  | operand insn =>
    exact fun g h => ⟨fixed_placed h rfl rfl rfl,
      .one (e := .operand _ _ _ _ _ _ _) rfl fun _ => trivial⟩

theorem scoped_oneInsnGen (src : Source) : Scoped names (Placed names b) (oneInsnGen src) := by
  have hconst : ∀ depth p, Scoped names (Placed names b) (oneInsnGenConst depth p) := by
    intro depth
    induction depth with
    | zero => exact fun p g _ => .refl g
    | succ depth ih => exact fun p => scoped_oneInsnGenWith ih (.pseudo p)
  exact scoped_oneInsnGenWith (hconst 1) src

theorem scoped_elem (h : ElemPrim α m) : Scoped names (Placed names b) m := by
  cases h with
  | rand => exact scoped_list fixed_placed (.prim .rand)
  | insn src => exact scoped_oneInsnGen src
  | modify hf =>
    exact scoped_still fixed_placed (fun g => (hf g).currBlk) (fun g => (hf g).vars)
      (fun g => (hf g).place) fun g => (hf g).log
  | check cType => exact scoped_list fixed_placed (.prim (.insert _ _))
  | checked name => exact scoped_checked name
  | select insn =>
    exact fun g h => ⟨fixed_placed h rfl rfl rfl,
      .one (e := .select _ _) rfl fun _ => trivial⟩

end

-- ---------------------------------------------------------------------------
-- Blocks
-- ---------------------------------------------------------------------------

section
variable {names : BlkId → List String} {b : BlkId} {g g' : Gen} {α : Type} {m : M α}

/-- What is walked in an element of the block. -/
theorem scoped_place (hm : Scoped names (Placed names b) m) (k : Nat) :
    Scoped names (Inside names b) (do setPlace (k :: b); m) := fun g h =>
  .bind_run rfl ((hm { g with place := k :: b } ⟨⟨h.currBlk, h.names⟩, rfl⟩).mono
    (fun _ _ h => ⟨h.1.toInside, h.2⟩) fun _ _ h => h)

/-- A block is entered from its parent or below, and left there. -/
theorem scoped_enter (k : Nat) (hm : Scoped names (Inside names (k :: b)) m) :
    Scoped names (Inside names b) (do setCurrBlk (k :: b); m) := by
  intro g h
  refine .bind_run rfl ((hm { g with currBlk := some (k :: b) } ⟨⟨_, rfl, List.suffix_refl _⟩, h.names⟩).mono
    (fun _ _ h => ⟨?_, h.2⟩) fun _ _ h => h)
  obtain ⟨c, hc, hb⟩ := h.1.currBlk
  exact ⟨⟨c, hc, (List.suffix_cons k b).trans hb⟩, h.1.names⟩

theorem scoped_blkInvalidVarAll (blk : BlkId) :
    Scoped names (Inside names b) (blkInvalidVarAll blk) :=
  fun g h => ⟨⟨h.currBlk, (declared_invalid blk g.vars).trans h.names⟩, .of_eq rfl⟩

theorem scoped_leave (label : Int) :
    Scoped names (Inside names b) (do callUpdateInsertPos label; statUnlockCtrl : M Unit) := by
  have hclosed : Closed NoOverflow fun _ m => Scoped names (Inside names b) m := closed_scoped
  have hcall : Scoped names (Inside names b) (callUpdateInsertPos label) :=
    hclosed.bind hclosed.get fun g => hclosed.bind (scoped_record fixed_inside trivial) fun _ =>
      scoped_list fixed_inside (.prim (.moveTo label))
  exact hclosed.bind hcall fun _ => scoped_list fixed_inside (list_modify fun _ => ⟨_, _, _, _, _, _, _, rfl⟩)

theorem scope_walk : WalkClosed True (fun b _ m => Scoped names (Inside names b) m)
    fun b m => ∀ k parent, b = k :: parent → Scoped names (Inside names parent) m where
  closed _ := closed_scoped
  prim b _ m hm := by
    cases hm with
    | invalidate blk => exact scoped_blkInvalidVarAll blk
    | traverse _ hf =>
      exact fun g h => ⟨⟨(hf g).currBlk ▸ h.currBlk, (hf g).vars ▸ h.names⟩, .of_eq (hf g).log⟩
    | reached vals walked => exact scoped_record fixed_inside trivial
    | nested hm => exact hm.elim
  selected b tree := by
    have huses : Uses ElemPrim NoOverflow (do
        let seed ← selectInsn tree
        logSelect seed.opcode
        let _ ← oneInsnGen (.seed seed)) := by grind
    exact scoped_place (huses.of_closed closed_scoped fun _ => scoped_elem) 0
  elem b e := by
    rintro k parent rfl
    exact scoped_place ((elem_walkElemBlk e).of_closed closed_scoped fun _ => scoped_elem) k
  enter b m hm := by
    rintro k parent rfl
    exact scoped_enter k hm
  ttt b body op times hb := by
    rintro k parent rfl
    have hclosed : Closed NoOverflow fun _ m => Scoped names (Inside names (k :: parent)) m :=
      closed_scoped
    exact scoped_enter k (hclosed.bind (scoped_blkInvalidVarAll _) fun _ =>
      hclosed.bind (scoped_transfer fixed_inside .block op times) fun r =>
      hclosed.bind hb fun _ => scoped_leave r.1)
  sub parent k m h := h k parent rfl

/-- A whole run. -/
theorem scoped_generate (blks : List Blk) (g : Gen) :
    Triple (generate blks) g (fun _ g' => Searches (declared g.vars) none g g')
      fun f g' => Searches (declared g.vars) (some f) g g' := by
  have hclosed : Closed NoOverflow fun _ m => Scoped (declared g.vars) (Inside (declared g.vars) []) m :=
    closed_scoped
  have hend : Scoped (declared g.vars) (Inside (declared g.vars) []) endInsnGen :=
    hclosed.bind hclosed.get fun g => hclosed.bind (scoped_record fixed_inside trivial) fun _ =>
      scoped_list fixed_inside (.bind .get fun _ => .bind (.prim (.insert _ _)) fun _ =>
        .bind (list_genLabel _) fun _ => .pure _)
  have hbody : Scoped (declared g.vars) (Inside (declared g.vars) [])
      (do blkInvalidVarAll []; walkBlks [] 0 blks) :=
    hclosed.bind (scoped_blkInvalidVarAll []) fun _ => scope_walk.walkBlks [] 0 blks fun _ => trivial
  have hstart : Inside (declared g.vars) [] { g with currBlk := some [] } :=
    ⟨⟨[], rfl, List.suffix_refl _⟩, rfl⟩
  refine Triple.bind (.bind_run rfl ((hbody _ hstart).mono (fun _ _ h => h) fun _ _ h => h))
    fun _ g₁ ⟨h₁, hl₁⟩ => (hend g₁ h₁).mono ?_ ?_
  · exact fun _ g₂ h₂ => hl₁.trans h₂.2
  · exact fun f g₂ h₂ => (hl₁.fault f).trans h₂

end

-- ---------------------------------------------------------------------------
-- References
-- ---------------------------------------------------------------------------

/-- The search found the variable of the nearest block around the element, and a name that
no block around it declares was reported. -/
def Event.InScope (names : BlkId → List String) (r : Except Fault Unit) : Event → Prop
  | .resolve _ place name _ found => found = nearest names name place.tail ∧
    (nearest names name place.tail = none → r = .error (.fatal s!"var: @{name} not defined"))
  | _ => True

/-- No block between the current one and the parent of the element declares the name, and a
`C` element names a variable that is declared around it. -/
def Event.Unhidden (names : BlkId → List String) : Event → Prop
  | .resolve check place name currBlk _ =>
    (∀ c, currBlk = some c → ∀ b, place.tail <:+ b → b <:+ c → b ≠ place.tail → name ∉ names b) ∧
    (check = true → nearest names name place.tail ≠ none)
  | _ => True

section
variable {names : BlkId → List String} {r : Except Fault Unit} {e : Event}

def faultOf : Except Fault Unit → Option Fault
  | .ok _ => none
  | .error f => some f

theorem Event.Searched.inScope_iff (h : e.Searched names (faultOf r)) :
    e.InScope names r ↔ e.Unhidden names := by
  cases e with
  | resolve check place name currBlk found =>
    obtain ⟨c, rfl, ⟨xs, rfl⟩, rfl, hr⟩ := h
    have hnear : nearest names name (xs ++ place.tail) = nearest names name place.tail ↔
        ∀ c, some (xs ++ place.tail) = some c → ∀ b, place.tail <:+ b → b <:+ c →
          b ≠ place.tail → name ∉ names b := by
      rw [nearest_eq_iff]
      simp
    unfold InScope Unhidden
    dsimp only
    rw [hnear]
    refine and_congr_right fun hv => ?_
    rw [← hnear] at hv
    rw [hv] at hr
    constructor
    · rintro h rfl hn
      have hres := h hn
      rw [hres] at hr
      cases hr hn
    · intro h hn
      have hcheck : check = false := Bool.eq_false_iff.2 fun hc => h hc hn
      subst hcheck
      cases r with
      | ok u => cases hr hn
      | error f => exact congrArg Except.error (Option.some.inj (hr hn))
  | _ => exact Iff.rfl

end

section
variable (rand : Nat → Fin (2 ^ 31)) (patience : Nat) (tks : String → Option TkModel)
  (instructions : Opcode → List (List OpFlags)) (vars : BlkId → List BlkVar) (blks : List Blk)

/-- In every run, a reference resolves to the variable of the nearest block around its
element exactly where no block that was left hides it. -/
theorem references_in_scope (e : Event)
    (he : e ∈ eventsOf blks (.start rand patience tks instructions vars)) :
    e.InScope (declared vars) ((generate blks).run (.start rand patience tks instructions vars)).1 ↔
      e.Unhidden (declared vars) := by
  have h := scoped_generate blks (.start rand patience tks instructions vars)
  refine Event.Searched.inScope_iff ?_
  unfold eventsOf at he
  unfold Triple at h
  rcases hr : (generate blks).run (.start rand patience tks instructions vars) with ⟨f | u, g'⟩ <;>
    rw [hr] at h he <;> obtain ⟨es, hes, hall⟩ := h <;>
    exact hall (fun _ _ => trivial) e (by simpa [hes, Gen.start] using he)

end

/-- The root declares `@v`, and so does the empty block before the element. -/
def twiceDeclared : BlkId → List BlkVar
  | [] | [0] => [{ name := "v", varType := OpFlags.regGpr ||| OpFlags.bits32 }]
  | _ => []

def twiceStart : Gen := .start (fun _ => 200) 1 (fun _ => none) (fun _ => []) twiceDeclared

def twiceBlks : List Blk := [.seq [], .elem (.i 0 ⟨.mov, [.var "v", .imm 5]⟩ none)]

/-- The block that is left declares what the element refers to. -/
def Event.isLeft : Event → Bool
  | .resolve _ [1] "v" _ (some ([0], 0)) => true
  | _ => false

/-- The reference is searched from the block that was left. -/
theorem twice_resolves_left : ∃ e ∈ eventsOf twiceBlks twiceStart,
    ∃ check currBlk, e = .resolve check [1] "v" currBlk (some ([0], 0)) := by
  have hany : (eventsOf twiceBlks twiceStart).any Event.isLeft = true := by decide +kernel
  obtain ⟨e, he, hm⟩ := List.any_eq_true.1 hany
  refine ⟨e, he, ?_⟩
  unfold Event.isLeft at hm
  split at hm
  · exact ⟨_, _, rfl⟩
  · cases hm

theorem references_in_scope_left : ∃ e ∈ eventsOf twiceBlks twiceStart,
    (e.InScope (declared twiceDeclared) ((generate twiceBlks).run twiceStart).1 ↔
      e.Unhidden (declared twiceDeclared)) := by
  obtain ⟨e, he, -⟩ := twice_resolves_left
  exact ⟨e, he, references_in_scope _ _ _ _ _ _ e he⟩

/-- Behind a block that was left its variables are still visible. -/
theorem left_block_hides_variable : ¬ ∀ e ∈ eventsOf twiceBlks twiceStart,
    e.InScope (declared twiceDeclared) ((generate twiceBlks).run twiceStart).1 := by
  intro h
  obtain ⟨e, he, check, currBlk, rfl⟩ := twice_resolves_left
  exact absurd (h _ he).1 (by decide)

end Btrtg
