import Btrtg.Ctrl

/-!
# Labels and the control functions

`WellLabelled` is the invariant of the label table. Each control function is
described once by the insertions it makes.
-/

namespace Btrtg

open Insnlist

-- ---------------------------------------------------------------------------
-- The label table
-- ---------------------------------------------------------------------------

/-- The insert position is in the list, and `labelspos` is the table of the
label entries. -/
structure X86PGState.WellLabelled (g : X86PGState) : Prop where
  placed : g.instlist.Placed g.insertpos
  len : g.labelspos.length = g.labeli
  pos : ∀ n a, g.labelspos[n]? = some a → ∃ x, a = some x ∧ g.instlist.entry? x = some (.label n)
  uniq : ∀ x n, g.instlist.entry? x = some (.label n) → g.labelspos[n]? = some (some x)

def Gen.chosen (g : Gen) : Nat := (g.rand g.randi).val % g.labeli

/-- `gen_label` after its insertion. -/
def Gen.pushLabel (g : Gen) : Gen :=
  { g with labeli := g.labeli + 1, labelspos := g.labelspos ++ [g.insertpos] }

section
variable {g : Gen} {l : Insnlist} {b x : Addr} {e : Entry} {n : Nat}

theorem initX86PGState_wellLabelled : initX86PGState.WellLabelled where
  placed := rfl
  len := rfl
  pos _ _ h := by simp [initX86PGState] at h
  uniq _ _ h := by simp [initX86PGState, create, entry?, entryIn] at h

theorem labelAddr_of_labelspos (w : g.WellLabelled) (h : g.labelspos[n]? = some (some x)) :
    g.instlist.labelAddr? n = some x := by
  obtain ⟨y, hy, he⟩ := w.pos n _ h
  cases hy
  obtain ⟨z, hz⟩ := labelAddr_of_entry he
  have hzx := w.uniq z n (entry_of_labelAddr hz)
  rw [h] at hzx
  cases hzx
  exact hz

theorem labelAddr_fresh (w : g.WellLabelled) (h : g.labeli ≤ n) :
    g.instlist.labelAddr? n = none := by
  cases hl : g.instlist.labelAddr? n with
  | none => rfl
  | some y =>
    have hy := w.uniq y n (entry_of_labelAddr hl)
    rw [List.getElem?_eq_none (w.len ▸ h)] at hy
    cases hy

theorem labelspos_lt (w : g.WellLabelled) (h : n < g.labeli) :
    ∃ x, g.labelspos[n]? = some (some x) ∧ g.instlist.entry? x = some (.label n) := by
  have hn : n < g.labelspos.length := w.len ▸ h
  obtain ⟨x, hx, he⟩ := w.pos n _ (List.getElem?_eq_getElem hn)
  exact ⟨x, hx ▸ List.getElem?_eq_getElem hn, he⟩

theorem placed_new (h : g.instlist.Adds l b e) : l.Placed (some b) :=
  placed_iff_entry.2 ⟨e, h.entry_new⟩

/-- An entry that is no label leaves the table as it is. -/
theorem put_wellLabelled (w : g.WellLabelled) (h : g.instlist.Adds l b e) (he : ∀ n, e ≠ .label n) :
    (g.put l b).WellLabelled where
  placed := placed_new h
  len := w.len
  pos n a ha := by
    obtain ⟨x, hx, hl⟩ := w.pos n a ha
    exact ⟨x, hx, h.entry_mono hl⟩
  uniq x n hx := by
    by_cases hxb : x = b
    · subst hxb
      rw [show (g.put l x).instlist = l from rfl, h.entry_new] at hx
      cases hx
      exact absurd rfl (he n)
    · exact w.uniq x n (h.entry_old x hxb ▸ hx)

/-- The next label gets the next place in the table. -/
theorem pushLabel_wellLabelled (w : g.WellLabelled)
    (h : g.instlist.Adds l b (.label g.labeli)) : (g.put l b).pushLabel.WellLabelled where
  placed := placed_new h
  len := by simp [Gen.pushLabel, Gen.put, w.len]
  pos n a ha := by
    change (g.labelspos ++ [some b])[n]? = some a at ha
    rcases Nat.lt_trichotomy n g.labelspos.length with hn | hn | hn
    · rw [List.getElem?_append_left hn] at ha
      obtain ⟨x, hx, hl⟩ := w.pos n a ha
      exact ⟨x, hx, h.entry_mono hl⟩
    · subst hn
      rw [List.getElem?_concat_length] at ha
      cases ha
      exact ⟨b, rfl, w.len ▸ h.entry_new⟩
    · rw [List.getElem?_eq_none (by simpa using Nat.succ_le_of_lt hn)] at ha
      cases ha
  uniq x n hx := by
    change l.entry? x = some (.label n) at hx
    change (g.labelspos ++ [some b])[n]? = _
    by_cases hxb : x = b
    · subst hxb
      rw [h.entry_new] at hx
      cases hx
      rw [← w.len, List.getElem?_concat_length]
    · have hn := w.uniq x n (h.entry_old x hxb ▸ hx)
      rw [List.getElem?_append_left (List.getElem?_eq_some_iff.1 hn).1, hn]

end

-- ---------------------------------------------------------------------------
-- Runs
-- ---------------------------------------------------------------------------

section
variable {g : Gen} {l : Insnlist} {b : Addr} {n : Nat} {p : Position}

theorem genLabel_locked (h : g.lockCtrl = true) : (genLabel p).run g = (.ok (-1), g) := by
  simp only [genLabel, Prog.run_bind, Prog.run_get, h, ↓reduceIte, Prog.run_pure]

theorem genLabel_run (hu : g.lockCtrl = false)
    (hr : (oneInsnGenCtrl (.label g.labeli) p).run g = (.ok (), g.put l b)) :
    (genLabel p).run g = (.ok (g.labeli : Int), (g.put l b).pushLabel) := by
  simp only [genLabel, Prog.run_bind, Prog.run_get, hu, Bool.false_eq_true, ↓reduceIte, hr,
    Prog.run_modify, Prog.run_pure]
  rfl

theorem selectOneLabel_zero (h : g.labeli = 0) : selectOneLabel.run g = (.ok (-1), g) := by
  simp only [selectOneLabel, Prog.run_bind, Prog.run_get, h, ↓reduceIte, Prog.run_pure]

theorem nasmRandom32_run (h : n ≠ 0) :
    (nasmRandom32 n).run g =
      (.ok ((g.rand g.randi).val % n), { g with randi := g.randi + 1 }) := by
  simp only [nasmRandom32, h, ↓reduceIte]
  rfl

theorem chosen_lt (h : g.labeli ≠ 0) : g.chosen < g.labeli :=
  Nat.mod_lt _ (Nat.pos_of_ne_zero h)

theorem selectOneLabel_run (h : g.labeli ≠ 0) :
    selectOneLabel.run g = (.ok (g.chosen : Int), { g with randi := g.randi + 1 }) := by
  simp only [selectOneLabel, Prog.run_bind, Prog.run_get, h, ↓reduceIte, nasmRandom32_run h,
    Prog.run_pure]
  rfl

theorem updateInsertPosToLabel_run {a : Option Addr} (h : g.labelspos[n]? = some a) :
    (updateInsertPosToLabel n).run g = (.ok (), { g with insertpos := a }) := by
  change (updateInsertPosToLabel (.ofNat n)).run g = _
  simp only [updateInsertPosToLabel, Prog.run_bind, Prog.run_get, h]
  rfl

theorem updateInsertPosToLabel_error {label : Int}
    (h : ∀ n : Nat, label = n → g.labelspos[n]? = none) :
    (updateInsertPosToLabel label).run g = (.error .outOfBounds, g) := by
  cases label with
  | negSucc n => rfl
  | ofNat n =>
    simp only [updateInsertPosToLabel, Prog.run_bind, Prog.run_get, h n rfl]
    rfl

end

-- ---------------------------------------------------------------------------
-- Transfers
-- ---------------------------------------------------------------------------

/-- The opcodes whose transfer names an existing label. -/
def Opcode.isJump (op : Opcode) : Bool := op == .jmp || op.isJcc

theorem Opcode.isJump_iff {op : Opcode} : op.isJump ↔ op = .jmp ∨ op.isJcc := by
  simp [isJump]

theorem Opcode.not_isLoop_of_isJump {op : Opcode} (h : op.isJump) : ¬ op.isLoop := by
  cases op <;> simp_all [isJump, isJcc, isLoop]

/-- The jumps to `labelN` that `gen_control_transfer_insn` writes after the
insert position for a `jmp`, and for a `jcc`; `a` is the last one. -/
inductive Leaving (l l₁ : Insnlist) (pos : Option Addr) (n : Nat) (a : Addr) : Opcode → Prop
  | jmp : l.IsAfter l₁ pos a (.jmp n) → Leaving l l₁ pos n a .jmp
  | jcc {op : Opcode} {l₀ : Insnlist} {a₀ : Addr} : op.isJcc → l.IsAfter l₀ pos a₀ (.jcc op n) →
      l₀.IsAfter l₁ (some a₀) a (.jmp n) → Leaving l l₁ pos n a op

/-- What a call of `gen_control_transfer_insn` on `g` inserts, returns and
leaves. -/
inductive Transferred (g : Gen) (times : BitVec 32) : Opcode → Int → Gen → Prop
  | locked : g.lockCtrl = true → Transferred g times op (-1) g
  | other : g.lockCtrl = false → ¬ op.isJump → ¬ op.isLoop → op ≠ .call →
      Transferred g times op (-1) g
  | first : g.lockCtrl = false → g.labeli = 0 → Leaving g.instlist l₁ g.insertpos 0 a op →
      l₁.IsBefore l₂ a b (.label 0) → Transferred g times op (-1) (g.put l₂ b).pushLabel
  | jump : g.lockCtrl = false → g.labelspos[g.chosen]? = some (some q) →
      Leaving g.instlist l₁ g.insertpos g.labeli a op →
      l₁.IsBefore l₂ q d (.jmp g.chosen) → l₂.IsAfter l₃ (some d) b (.label g.labeli) →
      Transferred g times op g.chosen ({ g with randi := g.randi + 1 }.put l₃ b).pushLabel
  | loop : g.lockCtrl = false → op.isLoop →
      g.instlist.IsAfter l₁ g.insertpos b₁ (.label g.labeli) →
      l₁.IsBefore l₂ b₁ b₂ (.loop op (g.labeli + 1)) →
      l₂.IsBefore l₃ b₂ b₃ (.movEcx times) →
      l₃.IsAfter l₄ (some b₃) b₄ (.label (g.labeli + 1)) →
      Transferred g times op g.labeli
        { ((g.put l₁ b₁).pushLabel.put l₄ b₄).pushLabel with
          lockCtrl := true
          lockRegCases := fun t => if t = .cx then .loop else g.lockRegCases t }
  | call : g.lockCtrl = false →
      g.instlist.IsAfter l₁ g.insertpos b₁ (.jmp (g.labeli + 1)) →
      l₁.IsAfter l₂ (some b₁) b₂ (.label g.labeli) →
      l₂.IsAfter l₃ (some b₂) b₃ .ret →
      l₃.IsAfter l₄ (some b₃) b₄ (.label (g.labeli + 1)) →
      l₄.IsAfter l₅ (some b₄) b₅ (.call g.labeli) →
      l₅.IsAfter l₆ (some b₅) b₆ (.label (g.labeli + 2)) →
      Transferred g times .call (g.labeli + 2)
        { (((g.put l₂ b₂).pushLabel.put l₄ b₄).pushLabel.put l₆ b₆).pushLabel with
          insertpos := some b₂
          lockCtrl := true }

section
variable {g : Gen}

theorem genJmpToLabel_run (w : g.WellLabelled) (hu : g.lockCtrl = false)
    (hq : g.labelspos[n]? = some (some q)) :
    ∃ l₂ l₃ d b, g.instlist.IsBefore l₂ q d (.jmp n) ∧
      l₂.IsAfter l₃ (some d) b (.label g.labeli) ∧
      (genJmpToLabel n).run g = (.ok (), (g.put l₃ b).pushLabel) := by
  have he := entry_of_labelAddr (labelAddr_of_labelspos w hq)
  let g₁ : Gen := { g with insertpos := some q }
  obtain ⟨l₂, hd, hr₂⟩ := insertBefore_run (g := g₁) rfl (placed_iff_entry.2 ⟨_, he⟩) (.jmp n)
  obtain ⟨l₃, hb, hr₃⟩ := insertAfter_run (g := g₁.put l₂ g.instlist.brk)
    (placed_new hd.toAdds) (.label g.labeli)
  refine ⟨l₂, l₃, _, _, hd, hb, ?_⟩
  have hup : (updateInsertPosToLabel n).run g = (.ok (), g₁) := updateInsertPosToLabel_run hq
  have hlab := genLabel_run (g := g₁.put l₂ g.instlist.brk) hu hr₃
  exact (Prog.run_bind_ok hup).trans ((Prog.run_bind_ok hr₂).trans (Prog.run_bind_ok hlab))

/-- The choice of a label after the leaving jumps. -/
theorem chooseLabel_run (times : BitVec 32) (hu : g.lockCtrl = false)
    (hl : Leaving g.instlist l₁ g.insertpos g.labeli a op) (w₁ : (g.put l₁ a).WellLabelled) :
    ∃ r g', (do
      let label ← selectOneLabel
      if label = -1 then
        let _ ← genLabel .before
      else
        genJmpToLabel label
      return label : M Int).run (g.put l₁ a) = (.ok r, g') ∧ Transferred g times op r g' := by
  by_cases h0 : g.labeli = 0
  · obtain ⟨l₂, hb, hr⟩ := insertBefore_run (g := g.put l₁ a) rfl w₁.placed (.label g.labeli)
    refine ⟨-1, _, ?_, .first hu h0 (h0 ▸ hl) (h0 ▸ hb)⟩
    refine (Prog.run_bind_ok (selectOneLabel_zero (g := g.put l₁ a) h0)).trans ?_
    exact Prog.run_bind_ok (genLabel_run (g := g.put l₁ a) hu hr)
  · have hsel := selectOneLabel_run (g := g.put l₁ a) h0
    obtain ⟨q, hq, -⟩ := labelspos_lt w₁ (chosen_lt (g := g.put l₁ a) h0)
    let g₁ : Gen := { g with randi := g.randi + 1 }
    have w₂ : (g₁.put l₁ a).WellLabelled := ⟨w₁.placed, w₁.len, w₁.pos, w₁.uniq⟩
    obtain ⟨l₂, l₃, d, b, hd, hb, hrun⟩ := genJmpToLabel_run w₂ hu hq
    refine ⟨g.chosen, _, ?_, .jump hu hq hl hd hb⟩
    have hne : ¬ ((g.put l₁ a).chosen : Int) = -1 := by omega
    refine (Prog.run_bind_ok hsel).trans ?_
    rw [if_neg hne]
    exact Prog.run_bind_ok hrun

theorem genControlTransferInsn_run (w : g.WellLabelled) (op : Opcode) (times : BitVec 32) :
    ∃ r g', (genControlTransferInsn op times).run g = (.ok r, g') ∧
      Transferred g times op r g' := by
  unfold genControlTransferInsn
  by_cases hlock : g.lockCtrl = true
  · refine ⟨-1, g, ?_, .locked hlock⟩
    exact (Prog.run_bind_ok (Prog.run_get g)).trans (by rw [if_pos hlock]; rfl)
  have hu : g.lockCtrl = false := by simpa using hlock
  simp only [Prog.run_bind_ok (Prog.run_get g), hlock, Bool.false_eq_true, ↓reduceIte]
  by_cases hjmp : op = .jmp
  · subst hjmp
    obtain ⟨l₁, hi, hr⟩ := insertAfter_run w.placed (.jmp g.labeli)
    have w₁ := put_wellLabelled w hi.toAdds nofun
    obtain ⟨r, g', hrun, ht⟩ := chooseLabel_run times hu (.jmp hi) w₁
    exact ⟨r, g', (Prog.run_bind_ok hr).trans hrun, ht⟩
  by_cases hjcc : op.isJcc
  · obtain ⟨l₀, hi₀, hr₀⟩ := insertAfter_run w.placed (.jcc op g.labeli)
    have w₀ := put_wellLabelled w hi₀.toAdds nofun
    obtain ⟨l₁, hi₁, hr₁⟩ := insertAfter_run w₀.placed (.jmp g.labeli)
    have w₁ := put_wellLabelled w₀ hi₁.toAdds nofun
    obtain ⟨r, g', hrun, ht⟩ := chooseLabel_run times hu (.jcc hjcc hi₀ hi₁) w₁
    refine ⟨r, g', ?_, ht⟩
    rw [if_neg hjmp, if_pos hjcc]
    exact (Prog.run_bind_ok hr₀).trans ((Prog.run_bind_ok hr₁).trans hrun)
  by_cases hloop : op.isLoop
  · obtain ⟨l₁, hi₁, hr₁⟩ := insertAfter_run w.placed (.label g.labeli)
    have w₁ := pushLabel_wellLabelled w hi₁.toAdds
    have hlab₁ := genLabel_run hu hr₁
    obtain ⟨l₂, hi₂, hr₂⟩ := insertBefore_run (g := (g.put l₁ g.instlist.brk).pushLabel) rfl
      w₁.placed (.loop op (g.labeli + 1))
    have w₂ := put_wellLabelled w₁ hi₂.toAdds nofun
    obtain ⟨l₃, hi₃, hr₃⟩ := insertBefore_run rfl w₂.placed (.movEcx times)
    have w₃ := put_wellLabelled w₂ hi₃.toAdds nofun
    obtain ⟨l₄, hi₄, hr₄⟩ := insertAfter_run w₃.placed (.label (g.labeli + 1))
    have hlab₂ := genLabel_run (g := (((g.put l₁ _).pushLabel.put l₂ _).put l₃ _)) hu hr₄
    refine ⟨_, _, ?_, .loop hu hloop hi₁ hi₂ hi₃ hi₄⟩
    rw [if_neg hjmp, if_neg hjcc, if_pos hloop]
    refine (Prog.run_bind_ok hlab₁).trans ?_
    refine (Prog.run_bind_ok hr₂).trans ?_
    refine (Prog.run_bind_ok hr₃).trans ?_
    exact Prog.run_bind_ok hlab₂
  by_cases hcall : op = .call
  · subst hcall
    obtain ⟨l₁, hi₁, hr₁⟩ := insertAfter_run w.placed (.jmp (g.labeli + 1))
    have w₁ := put_wellLabelled w hi₁.toAdds nofun
    obtain ⟨l₂, hi₂, hr₂⟩ := insertAfter_run w₁.placed (.label g.labeli)
    have hlab₂ := genLabel_run (g := g.put l₁ _) hu hr₂
    have w₂ := pushLabel_wellLabelled w₁ hi₂.toAdds
    obtain ⟨l₃, hi₃, hr₃⟩ := insertAfter_run w₂.placed .ret
    have w₃ := put_wellLabelled w₂ hi₃.toAdds nofun
    obtain ⟨l₄, hi₄, hr₄⟩ := insertAfter_run w₃.placed (.label (g.labeli + 1))
    have hlab₄ := genLabel_run (g := ((g.put l₁ _).put l₂ _).pushLabel.put l₃ _) hu hr₄
    have w₄ := pushLabel_wellLabelled w₃ hi₄.toAdds
    obtain ⟨l₅, hi₅, hr₅⟩ := insertAfter_run w₄.placed (.call g.labeli)
    have w₅ := put_wellLabelled w₄ hi₅.toAdds nofun
    obtain ⟨l₆, hi₆, hr₆⟩ := insertAfter_run w₅.placed (.label (g.labeli + 2))
    have hlab₆ := genLabel_run
      (g := (((g.put l₁ _).put l₂ _).pushLabel.put l₃ _ |>.put l₄ _).pushLabel.put l₅ _) hu hr₆
    have w₆ := pushLabel_wellLabelled w₅ hi₆.toAdds
    refine ⟨_, _, ?_, .call hu hi₁ hi₂ hi₃ hi₄ hi₅ hi₆⟩
    refine (Prog.run_bind_ok hr₁).trans ?_
    refine (Prog.run_bind_ok hlab₂).trans ?_
    refine (Prog.run_bind_ok hr₃).trans ?_
    refine (Prog.run_bind_ok hlab₄).trans ?_
    refine (Prog.run_bind_ok hr₅).trans ?_
    refine (Prog.run_bind_ok hlab₆).trans ?_
    have he := hi₆.entry_mono (hi₅.entry_mono (hi₄.entry_mono (hi₃.entry_mono hi₂.entry_new)))
    refine (Prog.run_bind_ok (updateInsertPosToLabel_run (w₆.uniq _ _ he))).trans ?_
    rfl
  · refine ⟨-1, g, ?_, .other hu ?_ hloop hcall⟩
    · rw [if_neg hjmp, if_neg hjcc, if_neg hloop, if_neg hcall]
      rfl
    · rw [Opcode.isJump_iff]
      rintro (h | h)
      · exact hjmp h
      · exact hjcc h

end

end Btrtg
