import Btrtg.BlkFrame

/-!
# What a traverse keeps

The enumeration of a traverse block works on the arrays of its combination and
on two static variables. Nothing that is walked in its body touches these when
there is no other traverse block in it.
-/

namespace Btrtg

open Prog

/-- The combinations that traverses have completed, and whether the body was walked. -/
def Event.reached? : Event → Option (List (Option (List ConstNode)) × Bool)
  | .reached vals walked => some (vals, walked)
  | _ => none

def Gen.reached (g : Gen) : List (List (Option (List ConstNode)) × Bool) :=
  g.log.filterMap Event.reached?

/-- What only a traverse block changes is as it was. -/
structure Calm (g g' : Gen) : Prop where
  trvArrays : g'.trvArrays = g.trvArrays
  valArrays : g'.valArrays = g.valArrays
  nextVal : g'.nextVal = g.nextVal
  trvStep : g'.trvStep = g.trvStep
  trvIndex : g'.trvIndex = g.trvIndex
  reached : g'.reached = g.reached

theorem Calm.refl (g : Gen) : Calm g g := ⟨rfl, rfl, rfl, rfl, rfl, rfl⟩

theorem Calm.trans (h : Calm g₁ g₂) (h' : Calm g₂ g₃) : Calm g₁ g₃ where
  trvArrays := h'.trvArrays.trans h.trvArrays
  valArrays := h'.valArrays.trans h.valArrays
  nextVal := h'.nextVal.trans h.nextVal
  trvStep := h'.trvStep.trans h.trvStep
  trvIndex := h'.trvIndex.trans h.trvIndex
  reached := h'.reached.trans h.reached

theorem Quiet.calm (h : Quiet g g') : Calm g g' where
  trvArrays := h.trvArrays
  valArrays := h.valArrays
  nextVal := h.nextVal
  trvStep := h.trvStep
  trvIndex := h.trvIndex
  reached := by rw [Gen.reached, h.log, Gen.reached]

theorem OffList.calm (h : OffList g g') : Calm g g' := by
  obtain ⟨_, _, _, _, _, _, _, rfl⟩ := h
  exact ⟨rfl, rfl, rfl, rfl, rfl, rfl⟩

/-- The programs that leave what a traverse works with alone. -/
inductive CalmPrim : (α : Type) → M α → Prop
  | rand : CalmPrim _ rand
  | modify {f : Gen → Gen} : (∀ g, Calm g (f g)) → CalmPrim _ (modify f)
  | record {e : Event} : e.reached? = none → CalmPrim _ (record e)
  | list {α : Type} {m : M α} : ListPrim α m → CalmPrim α m

section
variable {α : Type}

theorem CalmPrim.keeps {m : M α} (h : Uses CalmPrim NoOverflow m) : Keeps Calm NoOverflow m := by
  refine h.keeps Calm.refl (fun _ _ _ => Calm.trans) fun m hm => ?_
  cases hm with
  | rand => exact fun g => ⟨⟨rfl, rfl, rfl, rfl, rfl, rfl⟩, nofun⟩
  | modify hf => exact fun g => ⟨hf g, nofun⟩
  | record he =>
    refine fun g => ⟨⟨rfl, rfl, rfl, rfl, rfl, ?_⟩, nofun⟩
    simp [Prog.run_modify, Btrtg.record, Gen.reached, he]
  | list hm => exact fun g => ⟨((hm.keeps g).1).calm, (hm.keeps g).2⟩

theorem calm_list {m : M α} (h : Uses ListPrim NoOverflow m) : Uses CalmPrim NoOverflow m :=
  h.mono (fun _ hm => .prim (.list hm)) fun _ he => he

attribute [local grind ←] CalmPrim.rand

@[local grind ←] theorem calm_modify {f : Gen → Gen} (h : ∀ g, Calm g (f g)) :
    Uses CalmPrim NoOverflow (modify f : M PUnit) := .prim (.modify h)

@[local grind ←] theorem calm_moveTo (label : Int) :
    Uses CalmPrim NoOverflow (updateInsertPosToLabel label) := .prim (.list (.moveTo label))

@[local grind ←] theorem calm_genControlTransferInsn (op : Opcode) (times : BitVec 32) :
    Uses CalmPrim NoOverflow (genControlTransferInsn op times) :=
  calm_list (list_genControlTransferInsn op times)

@[local grind ←] theorem calm_record {e : Event} (h : e.reached? = none) :
    Uses CalmPrim NoOverflow (record e) := .prim (.record h)

@[local grind ←] theorem calm_callControlTransfer (caller : Caller) (op : Opcode)
    (times : BitVec 32) : Uses CalmPrim NoOverflow (callControlTransfer caller op times) := by
  unfold callControlTransfer
  repeat' first | with_reducible refine .bind ?_ fun _ => ?_ | split | dsimp only
  all_goals grind [Event.reached?]

theorem calm_createRandomModrm (flags : OpFlags) :
    Uses CalmPrim NoOverflow (createRandomModrm flags) := by
  refine (modrm_createRandomModrm flags).mono (fun m hm => ?_) fun _ h => h
  cases hm with
  | rand => exact .prim .rand
  | modify hf =>
    refine calm_modify fun g => ⟨(hf g).trvArrays, (hf g).valArrays, (hf g).nextVal,
      (hf g).trvStep, (hf g).trvIndex, ?_⟩
    rw [Gen.reached, (hf g).log, Gen.reached]
  | record b => exact calm_record rfl

theorem calm_searchCurrBlk (check : Bool) (name : String) :
    Uses CalmPrim NoOverflow (searchCurrBlk check name) :=
  .bind .get fun _ => .bind (calm_record rfl) fun _ => .pure _

theorem closed_calm : Closed NoOverflow fun _ m => Keeps Calm NoOverflow m :=
  closed_keeps Calm.refl (fun _ _ _ => Calm.trans) fun _ h => h

/-- One instruction. -/
theorem calm_prim {ev : Event → Prop} {nested : (α : Type) → M α → Prop} {m : M α}
    (hev : ∀ e, ev e → e.reached? = none)
    (hn : ∀ {β : Type} (m : M β), nested β m → Keeps Calm NoOverflow m)
    (h : Uses (Prim ev nested) NoOverflow m) : Keeps Calm NoOverflow m := by
  refine h.keeps Calm.refl (fun _ _ _ => Calm.trans) fun m hm => ?_
  cases hm with
  | rand => exact CalmPrim.keeps (.prim .rand)
  | modify hf => exact CalmPrim.keeps (calm_modify fun g => (hf g).calm)
  | setOpcode op => exact CalmPrim.keeps (calm_modify fun g => ⟨rfl, rfl, rfl, rfl, rfl, rfl⟩)
  | setVar blk i _ => exact CalmPrim.keeps (calm_modify fun g => ⟨rfl, rfl, rfl, rfl, rfl, rfl⟩)
  | modrm flags => exact CalmPrim.keeps (calm_createRandomModrm flags)
  | seed o =>
    exact seed_of_closed closed_calm (fun name => CalmPrim.keeps (calm_searchCurrBlk false name)) o
  | record he => exact CalmPrim.keeps (calm_record (hev _ he))
  | insert _ => exact CalmPrim.keeps (.prim (.list (.insert _ _)))
  | label => exact CalmPrim.keeps (calm_list (list_genLabel _))
  | transfer op => exact CalmPrim.keeps (calm_callControlTransfer _ op _)
  | nested hm => exact hn _ hm

theorem calm_oneInsnGenWith {constInsn : PseudoInsn → M Bool}
    (hc : ∀ p, Keeps Calm NoOverflow (constInsn p)) (src : Source) :
    Keeps Calm NoOverflow (oneInsnGenWith constInsn src) := by
  have huses : Uses (Prim (fun e => e.reached? = none) (IsInsn constInsn)) NoOverflow
      (oneInsnGenWith constInsn src) := by
    refine prim_oneInsnGenWith (fun e he => ?_) src fun _ _ _ => rfl
    cases e <;> first | rfl | cases he
  refine calm_prim (fun _ h => h) (fun m hm => ?_) huses
  cases hm with
  | const p =>
    refine nested_of_closed closed_calm (fun n => ?_) hc p
    exact CalmPrim.keeps (calm_modify fun g => ⟨rfl, rfl, rfl, rfl, rfl, rfl⟩)
  | operand insn => exact CalmPrim.keeps (.bind .get fun g => calm_record rfl)

theorem calm_oneInsnGen (src : Source) : Keeps Calm NoOverflow (oneInsnGen src) := by
  have hconst : ∀ depth p, Keeps Calm NoOverflow (oneInsnGenConst depth p) := by
    intro depth
    induction depth with
    | zero => exact fun p => CalmPrim.keeps (.throw nofun)
    | succ depth ih => exact fun p => calm_oneInsnGenWith ih (.pseudo p)
  exact calm_oneInsnGenWith (hconst 1) src

theorem calm_elem {m : M α} (h : ElemPrim α m) : Keeps Calm NoOverflow m := by
  cases h with
  | rand => exact CalmPrim.keeps (.prim .rand)
  | insn src => exact calm_oneInsnGen src
  | modify hf => exact CalmPrim.keeps (calm_modify fun g => (hf g).calm)
  | check cType => exact CalmPrim.keeps (.prim (.list (.insert _ _)))
  | checked name =>
    exact checked_of_closed closed_calm (fun name => CalmPrim.keeps (calm_searchCurrBlk true name)) name
  | select insn => exact CalmPrim.keeps (.bind .get fun _ => calm_record rfl)

theorem calm_setPlace (blk : BlkId) : Keeps Calm NoOverflow (setPlace blk) :=
  CalmPrim.keeps (calm_modify fun _ => ⟨rfl, rfl, rfl, rfl, rfl, rfl⟩)

/-- What is walked in a block without a traverse block. -/
theorem calm_walk : PartsClosed False fun _ m => Keeps Calm NoOverflow m where
  closed := closed_keeps Calm.refl (fun _ _ _ => Calm.trans) fun e he h => he h
  prim m hm := by
    cases hm with
    | invalidate blk => exact CalmPrim.keeps (calm_modify fun g => ⟨rfl, rfl, rfl, rfl, rfl, rfl⟩)
    | traverse ht => exact ht.elim
    | reached _ _ ht => exact ht.elim
    | nested h => exact h.elim
  selected := (elem_of_closed closed_calm calm_setPlace fun _ => calm_elem).1
  elem := (elem_of_closed closed_calm calm_setPlace fun _ => calm_elem).2
  enter blk := CalmPrim.keeps (calm_modify fun g => ⟨rfl, rfl, rfl, rfl, rfl, rfl⟩)
  ttt blk body op times hb := by
    have trans : ∀ g₁ g₂ g₃, Calm g₁ g₂ → Calm g₂ g₃ → Calm g₁ g₃ := fun _ _ _ => Calm.trans
    unfold walkTttBlk
    refine (CalmPrim.keeps (.prim (.modify fun g => ?_))).bind trans fun _ => ?_
    · exact ⟨rfl, rfl, rfl, rfl, rfl, rfl⟩
    refine (CalmPrim.keeps (.prim (.modify fun g => ?_))).bind trans fun _ => ?_
    · exact ⟨rfl, rfl, rfl, rfl, rfl, rfl⟩
    refine (CalmPrim.keeps (calm_callControlTransfer ..)).bind trans fun _ => ?_
    refine hb.bind trans fun _ => CalmPrim.keeps ?_
    unfold callUpdateInsertPos statUnlockCtrl
    repeat' first | with_reducible refine .bind ?_ fun _ => ?_ | split | dsimp only
    all_goals grind [Event.reached?, Gen.reached, Calm]

end
end Btrtg
