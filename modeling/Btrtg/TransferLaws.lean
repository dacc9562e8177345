import Btrtg.CtrlLaws
import Btrtg.FlowLaws

/-!
# Where control goes in the skeletons

For a jump the new insert position is a new label, and control comes to it
from the old one, whichever of the leaving jumps it takes. The label that was
chosen is entered as before, by one jump more.
-/

namespace Btrtg

open Insnlist

variable {sem : Sem} {g g' : Gen} {l l₁ l₂ l₃ : Insnlist} {pos : Option Addr} {a b d q : Addr}
  {n : Nat} {op : Opcode}

-- ---------------------------------------------------------------------------
-- The leaving jumps
-- ---------------------------------------------------------------------------

namespace Leaving

theorem isJump (h : Leaving l l₁ pos n a op) : op.isJump := by
  cases h with
  | jmp => rfl
  | jcc hop => exact Opcode.isJump_iff.2 (.inr hop)

theorem entry_new (h : Leaving l l₁ pos n a op) : l₁.entry? a = some (.jmp n) := by
  cases h with
  | jmp hi => exact hi.entry_new
  | jcc _ _ hi => exact hi.entry_new

theorem fresh (h : Leaving l l₁ pos n a op) : l.entry? a = none := by
  cases h with
  | jmp hi => exact hi.fresh
  | jcc _ hi₀ hi =>
    cases ha : l.entry? a with
    | none => rfl
    | some e =>
      have := hi₀.entry_mono ha
      rw [hi.fresh] at this; cases this

theorem wellLabelled (w : g.WellLabelled) (h : Leaving g.instlist l₁ g.insertpos n a op) :
    (g.put l₁ a).WellLabelled := by
  cases h with
  | jmp hi => exact put_wellLabelled w hi.toAdds nofun
  | jcc _ hi₀ hi =>
    have w₀ := put_wellLabelled w hi₀.toAdds nofun
    have w₁ := put_wellLabelled w₀ hi.toAdds nofun
    exact w₁

theorem label_keep (h : Leaving l l₁ pos n a op) (m : Nat) :
    l₁.labelAddr? m = l.labelAddr? m := by
  cases h with
  | jmp hi => exact hi.label_keep nofun m
  | jcc _ hi₀ hi => rw [hi.label_keep nofun, hi₀.label_keep nofun]

theorem ext (h : Leaving l l₁ pos n a op) : Extends l l₁ pos := by
  cases h with
  | jmp hi => exact (Extends.refl l pos).after hi (.inl rfl) nofun
  | jcc _ hi₀ hi =>
    exact ((Extends.refl l pos).after hi₀ (.inl rfl) nofun).after hi
      (.inr ⟨_, rfl, hi₀.fresh⟩) nofun

/-- The first label of a program stands in front of the last leaving jump. -/
theorem comes_first (h : Leaving l l₁ pos n a op) (hp : l.Placed pos)
    (hb : l₁.IsBefore l₂ a b (.label n)) (hn : l.labelAddr? n = none) :
    ∃ x, l₂.succ? pos = some x ∧ Comes l₂ b x := by
  have hl : l₂.labelAddr? n = some b := by
    rw [hb.label n fun _ => (h.label_keep n).trans hn, if_pos rfl]
  cases h with
  | jmp hi => exact ⟨b, hb.succ_moved hi.succ_pos, .here⟩
  | @jcc _ _ a₀ _ hi₀ hi =>
    have hs := hi.succ_keep hi₀.succ_pos (placed_ne hp hi₀.fresh)
    have hne : a₀ ≠ a := by
      rintro rfl
      have := hi.fresh
      rw [hi₀.entry_new] at this; cases this
    exact ⟨a₀, hb.succ_keep hs hne,
      .jcc (hb.entry_mono (hi.entry_mono hi₀.entry_new)) hl (hb.succ_moved hi.succ_pos) .here .here⟩

/-- A later label stands behind a jump to the chosen one. -/
theorem comes_later {m : Nat} (h : Leaving l l₁ pos n a op) (hp : l.Placed pos)
    (hq : l₁.labelAddr? m = some q) (hd : l₁.IsBefore l₂ q d (.jmp m))
    (hb : l₂.IsAfter l₃ (some d) b (.label n)) (hn : l.labelAddr? n = none) :
    ∃ x, l₃.succ? pos = some x ∧ Comes l₃ b x := by
  have hl : l₃.labelAddr? n = some b := by
    rw [hb.label n fun _ => (hd.label_keep nofun n).trans ((h.label_keep n).trans hn), if_pos rfl]
  have hqe := entry_of_labelAddr hq
  -- what control falls into before the two insertions it falls into after them
  have keep : ∀ {x y e}, l₁.succ? x = some y → l₁.entry? y = some e → (∀ k, e ≠ .label k) →
      l₃.succ? x = some y := by
    intro x y e hs he hne
    refine hb.succ_keep (hd.succ_keep hs ?_) ?_
    · rintro rfl
      rw [hqe] at he
      exact hne m (Option.some.inj he).symm
    · exact hd.ne_new hs
  cases h with
  | jmp hi =>
    refine ⟨a, keep hi.succ_pos hi.entry_new nofun, ?_⟩
    exact .jmp (hb.entry_mono (hd.entry_mono hi.entry_new)) hl .here
  | @jcc _ _ a₀ _ hi₀ hi =>
    have he₀ := hi.entry_mono hi₀.entry_new
    refine ⟨a₀, keep (hi.succ_keep hi₀.succ_pos (placed_ne hp hi₀.fresh)) he₀ nofun, ?_⟩
    exact .jcc (hb.entry_mono (hd.entry_mono he₀)) hl (keep hi.succ_pos hi.entry_new nofun) .here
      (.jmp (hb.entry_mono (hd.entry_mono hi.entry_new)) hl .here)

end Leaving

-- ---------------------------------------------------------------------------
-- Jumps
-- ---------------------------------------------------------------------------

theorem Transferred.wellLabelled_jump (w : g.WellLabelled) (t : Transferred g times op r g')
    (hop : op.isJump) : g'.WellLabelled := by
  cases t with
  | locked => exact w
  | other _ hno => exact absurd hop hno
  | first _ h0 hl hb =>
    have w₁ := hl.wellLabelled w
    exact pushLabel_wellLabelled w₁ (g := g.put _ _) (by simpa [Gen.put, h0] using hb.toAdds)
  | jump _ hq hl hd hb =>
    have w₁ := hl.wellLabelled w
    have w₂ := put_wellLabelled w₁ hd.toAdds fun _ h => by cases h
    have w₃ := pushLabel_wellLabelled w₂ hb.toAdds
    exact ⟨w₃.placed, w₃.len, w₃.pos, w₃.uniq⟩
  | loop _ hl => exact absurd hl (Opcode.not_isLoop_of_isJump hop)
  | call => simp [Opcode.isJump, Opcode.isJcc] at hop

theorem Transferred.reaches_jump (w : g.WellLabelled) (t : Transferred g times op r g')
    (hop : op.isJump) (h : Reaches sem g.instlist g.insertpos done) :
    Reaches sem g'.instlist g'.insertpos done := by
  cases t with
  | locked => exact h
  | other _ hno => exact absurd hop hno
  | first _ h0 hl hb =>
    have hfresh : ∀ m, Entry.label 0 = .label m → g.instlist.labelAddr? m = none := by
      rintro m ⟨⟩
      exact labelAddr_fresh w (Nat.le_of_eq h0)
    obtain ⟨x, hs, hc⟩ := hl.comes_first w.placed hb (hfresh 0 rfl)
    have hnew : ∀ m, Entry.label 0 = .label m → _ :=
      fun m hm => (hl.label_keep m).trans (hfresh m hm)
    refine h.jump w.placed (hl.ext.before hb hl.fresh ?_ hnew) (hl.ext.entry_none hb.fresh)
      hb.entry_new hs hc
    intro m hm
    rw [hl.entry_new] at hm
    cases hm
    exact hnew 0 rfl
  | jump _ hq hl hd hb =>
    have hq₁ := (hl.label_keep _).trans (labelAddr_of_labelspos w hq)
    have hfresh := labelAddr_fresh w (Nat.le_refl g.labeli)
    have hx₂ := hl.ext.detour hd hq₁
    obtain ⟨x, hs, hc⟩ := hl.comes_later w.placed hq₁ hd hb hfresh
    refine h.jump w.placed (hx₂.after hb (.inr ⟨_, rfl, hl.ext.entry_none hd.fresh⟩) ?_)
      (hx₂.entry_none hb.fresh) hb.entry_new hs hc
    rintro m ⟨⟩
    exact (hd.label_keep nofun _).trans ((hl.label_keep _).trans hfresh)
  | loop _ hl => exact absurd hl (Opcode.not_isLoop_of_isJump hop)
  | call => simp [Opcode.isJump, Opcode.isJcc] at hop

theorem Transferred.unlocked_jump (t : Transferred g times op r g') (hop : op.isJump)
    (hu : g.lockCtrl = false) : g'.lockCtrl = false := by
  cases t with
  | locked | other | first | jump => exact hu
  | loop _ hl => exact absurd hl (Opcode.not_isLoop_of_isJump hop)
  | call => simp [Opcode.isJump, Opcode.isJcc] at hop

/-- The jump to the tail. -/
theorem finish_run (w : g.WellLabelled) (hu : g.lockCtrl = false) :
    ∃ l₁ l₂ a b, g.instlist.IsAfter l₁ g.insertpos a (.jmp g.labeli) ∧
      l₁.IsLast l₂ b (.label g.labeli) ∧
      genControlTransferFinish.run g = (.ok (), (g.put l₂ b).pushLabel) := by
  obtain ⟨l₁, hi, hr⟩ := insertAfter_run w.placed (.jmp g.labeli)
  obtain ⟨l₂, hb, hr₂⟩ := insertTail_run (g.put l₁ g.instlist.brk) (.label g.labeli)
  refine ⟨l₁, l₂, _, _, hi, hb, ?_⟩
  have hlab := genLabel_run (g := g.put l₁ g.instlist.brk) hu hr₂
  refine (Prog.run_bind_ok (Prog.run_get g)).trans ?_
  exact (Prog.run_bind_ok hr).trans (Prog.run_bind_ok hlab)

theorem Reaches.finish (w : g.WellLabelled) (h : Reaches sem g.instlist g.insertpos done)
    (hi : g.instlist.IsAfter l₁ g.insertpos a (.jmp g.labeli))
    (hb : l₁.IsLast l₂ b (.label g.labeli)) : Reaches sem l₂ (some b) done := by
  have hfresh := labelAddr_fresh w (Nat.le_refl g.labeli)
  have hnew : ∀ m, Entry.label g.labeli = .label m → l₁.labelAddr? m = none := by
    rintro m ⟨⟩
    exact (hi.label_keep nofun _).trans hfresh
  have hx := (Extends.refl g.instlist g.insertpos).after hi (.inl rfl) nofun
  have hl : l₂.labelAddr? g.labeli = some b := by
    rw [hb.label _ (hnew _), if_pos rfl]
  exact h.jump w.placed (hx.last hb hnew) (hx.entry_none hb.fresh) hb.entry_new
    (hb.succ_old _ _ hi.succ_pos) (.jmp (hb.entry_mono hi.entry_new) hl .here)

end Btrtg
