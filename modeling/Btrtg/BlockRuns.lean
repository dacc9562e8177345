import Btrtg.Arrivals
import Btrtg.JumpRuns
import Btrtg.LabelRuns

/-!
# Executing transfer blocks

The body of a transfer block is appended inside the skeleton, behind a label of
its own. In a loop and in a call control comes to it from the insert position
and leaves it for the new one; after a jump the new insert position is the old
label that was chosen.
-/

namespace Btrtg

open Insnlist

-- ---------------------------------------------------------------------------
-- Bodies
-- ---------------------------------------------------------------------------

/-- The entries stand one after the other behind `p`, the last of them at `p'`. -/
inductive Insnlist.Chain (l : Insnlist) : Option Addr → List Entry → Option Addr → Prop
  | nil : Chain l p [] p
  | cons : l.succ? p = some y → l.entry? y = some e → Chain l (some y) es p' →
      Chain l p (e :: es) p'

/-- `l'` is `l` with a chain put behind `p`. -/
structure Insnlist.Grows (l l' : Insnlist) (p : Option Addr) (es : List Entry)
    (p' : Option Addr) : Prop where
  entry : ∀ x e, l.entry? x = some e → l'.entry? x = some e
  label : ∀ n, l'.labelAddr? n = l.labelAddr? n
  chain : l'.Chain p es p'
  succ_old : ∀ x ≠ p, ∀ y, l.succ? x = some y → l'.succ? x = some y
  succ_last : ∀ y, l.succ? p = some y → l'.succ? p' = some y
  ext : ∀ l₀ pos, Extends l₀ l pos → (p = pos ∨ ∃ y, p = some y ∧ l₀.entry? y = none) →
    Extends l₀ l' pos

variable {sem : Sem} {l l' : Insnlist} {p p' pos : Option Addr} {b q : Addr} {es : List Entry}

theorem Insnlist.Grows.nil (l : Insnlist) (p : Option Addr) : Grows l l p [] p :=
  ⟨fun _ _ h => h, fun _ => rfl, .nil, fun _ _ _ h => h, fun _ h => h, fun _ _ h _ => h⟩

theorem Insnlist.Grows.cons {l₁ : Insnlist} (hi : l.IsAfter l₁ p b e) (he : ∀ n, e ≠ .label n)
    (hp : p ≠ some b) (h : Grows l₁ l' (some b) es p') : Grows l l' p (e :: es) p' where
  entry x e hx := h.entry x e (hi.entry_mono hx)
  label n := (h.label n).trans (hi.label_keep he n)
  chain := .cons (h.succ_old p hp b hi.succ_pos) (h.entry b e hi.entry_new) h.chain
  succ_old x hx y hy := h.succ_old x (hi.ne_new hy) y (hi.succ_keep hy hx)
  succ_last y hy := h.succ_last y (hi.succ_new.trans hy)
  ext l₀ pos hx hpos := by
    refine h.ext l₀ pos (hx.after hi hpos fun n hn => absurd hn (he n)) (.inr ⟨b, rfl, ?_⟩)
    exact hx.entry_none hi.fresh

def insertAll : List Entry → M Unit
  | [] => pure ()
  | e :: es => do
    statInsertInsn e .after
    insertAll es

theorem insertAll_run {g : Gen} (hp : g.instlist.Placed g.insertpos)
    (hes : ∀ e ∈ es, ∀ n, e ≠ .label n) :
    ∃ l' p', (insertAll es).run g = (.ok (), { g with instlist := l', insertpos := p' }) ∧
      g.instlist.Grows l' g.insertpos es p' := by
  induction es generalizing g with
  | nil => exact ⟨g.instlist, g.insertpos, rfl, .nil _ _⟩
  | cons e es ih =>
    obtain ⟨he, hes⟩ := List.forall_mem_cons.1 hes
    obtain ⟨l₁, hi, hr⟩ := insertAfter_run hp e
    obtain ⟨l', p', hr', hg⟩ := ih (g := g.put l₁ g.instlist.brk)
      (placed_iff_entry.2 ⟨e, hi.entry_new⟩) hes
    refine ⟨l', p', (Prog.run_bind_ok hr).trans hr', .cons hi he ?_ hg⟩
    rintro heq
    rw [heq] at hp
    exact g.instlist.brk_notMem hp

/-- Control falls through a body. -/
theorem Insnlist.Chain.inevitably {goal post : Config → Prop} {trace out : List Entry} {cpu : Cpu}
    (hc : l.Chain p es p') (hes : ∀ e ∈ es, e.isOrdinary ∧ sem.Spares e)
    (hs : l.succ? p' = some b) (hout : l.output? p = some out) (hsp : ∀ e ∈ out, sem.Spares e)
    (hg : ∀ y e trace cpu, l.entry? y = some e → e.isOrdinary → ¬ goal (.run (some y) trace cpu))
    (hp : ¬ goal (.run p trace cpu))
    (hk : Inevitably (Step sem l) goal post (.run (some b) (trace ++ out ++ es) cpu)) :
    Inevitably (Step sem l) goal post (.run p trace cpu) := by
  induction hc generalizing trace out with
  | nil =>
    refine inevitably_fall hout hs hp fun cpu' hcpu => ?_
    rw [hcpu hsp]
    simpa using hk
  | @cons p y e es p' hy he _ ih =>
    obtain ⟨⟨ho, hsp'⟩, hes⟩ := List.forall_mem_cons.1 hes
    refine inevitably_fall hout hy hp fun cpu' hcpu => ?_
    rw [hcpu hsp]
    have hout' : l.output? (some y) = some [e] :=
      output?_ordinary he ho
    refine ih hes hs hout' ?_ (hg y e _ _ he ho) (by simpa using hk)
    simpa using hsp'

-- ---------------------------------------------------------------------------
-- Loops
-- ---------------------------------------------------------------------------

/-- The entries of a loop with its body, where control comes from `pos` and leaves for
`b₁`. -/
structure LoopCode (l : Insnlist) (pos : Option Addr) (b₁ : Addr) (times : BitVec 32) (n : Nat)
    (es : List Entry) : Prop where
  code : ∃ b₂ b₃ b₄ p', l.succ? pos = some b₃ ∧ l.entry? b₃ = some (.movEcx times) ∧
    l.succ? (some b₃) = some b₄ ∧ l.entry? b₄ = some (.label (n + 1)) ∧
    l.labelAddr? (n + 1) = some b₄ ∧ l.Chain (some b₄) es p' ∧ l.succ? p' = some b₂ ∧
    l.entry? b₂ = some (.loop .loop (n + 1)) ∧ l.succ? (some b₂) = some b₁
  exit : l.entry? b₁ = some (.label n)

variable {g g' : Gen} {l₁ l₂ l₃ l₄ l₅ l₆ : Insnlist} {b₁ b₂ b₃ b₄ b₅ b₆ : Addr} {n : Nat}
  {times : BitVec 32} {done : List Entry} {op : Opcode}

theorem ne_of_entry (ha : l.entry? a = some e) (hb : l.entry? b = none) : some a ≠ some b := by
  rintro ⟨⟩
  rw [ha] at hb
  cases hb

theorem loopCode_of_grows (w : g.WellLabelled)
    (hi₁ : g.instlist.IsAfter l₁ g.insertpos b₁ (.label g.labeli))
    (hi₂ : l₁.IsBefore l₂ b₁ b₂ (.loop .loop (g.labeli + 1)))
    (hi₃ : l₂.IsBefore l₃ b₂ b₃ (.movEcx times))
    (hi₄ : l₃.IsAfter l₄ (some b₃) b₄ (.label (g.labeli + 1)))
    (hg : l₄.Grows l' (some b₄) es p') :
    LoopCode l' g.insertpos b₁ times g.labeli es ∧ Extends g.instlist l' g.insertpos := by
  have hfresh : ∀ k, g.labeli ≤ k → g.instlist.labelAddr? k = none := fun k hk =>
    labelAddr_fresh w hk
  have hlab₃ : l₃.labelAddr? (g.labeli + 1) = none := by
    rw [hi₃.label_keep nofun, hi₂.label_keep nofun, hi₁.label _ (fun _ => hfresh _ (by omega)),
      if_neg (by simp), hfresh _ (by omega)]
  have hl₄ : l₄.labelAddr? (g.labeli + 1) = some b₄ := by
    rw [hi₄.label _ fun _ => hlab₃, if_pos rfl]
  -- the order of the entries, insertion by insertion
  have hpos₃ : g.insertpos ≠ some b₃ :=
    placed_ne w.placed (hi₁.fresh_old (hi₂.fresh_old hi₃.fresh))
  have hpos₄ : g.insertpos ≠ some b₄ :=
    placed_ne w.placed (hi₁.fresh_old (hi₂.fresh_old (hi₃.fresh_old hi₄.fresh)))
  have h₂₁ : l₃.succ? (some b₂) = some b₁ := hi₃.succ_keep hi₂.succ_new (by
    rintro rfl
    exact ne_of_entry hi₁.entry_new hi₂.fresh rfl)
  have hp₃ : l₃.succ? g.insertpos = some b₃ := hi₃.succ_moved (hi₂.succ_moved hi₁.succ_pos)
  have h₂ne₃ : some b₂ ≠ some b₃ := ne_of_entry hi₂.entry_new hi₃.fresh
  have h₂ne₄ : some b₂ ≠ some b₄ := ne_of_entry (hi₃.entry_mono hi₂.entry_new) hi₄.fresh
  have h₃ne₄ : some b₃ ≠ some b₄ := ne_of_entry hi₃.entry_new hi₄.fresh
  refine ⟨⟨⟨b₂, b₃, b₄, p', ?_, ?_, ?_, ?_, ?_, hg.chain, ?_, ?_, ?_⟩, ?_⟩, ?_⟩
  · exact hg.succ_old _ hpos₄ _ (hi₄.succ_keep hp₃ hpos₃)
  · exact hg.entry _ _ (hi₄.entry_mono hi₃.entry_new)
  · exact hg.succ_old _ h₃ne₄ _ hi₄.succ_pos
  · exact hg.entry _ _ hi₄.entry_new
  · exact (hg.label _).trans hl₄
  · exact hg.succ_last _ (hi₄.succ_new.trans hi₃.succ_new)
  · exact hg.entry _ _ (hi₄.entry_mono (hi₃.entry_mono hi₂.entry_new))
  · exact hg.succ_old _ h₂ne₄ _ (hi₄.succ_keep h₂₁ h₂ne₃)
  · exact hg.entry _ _ (hi₄.entry_mono (hi₃.entry_mono (hi₂.entry_mono hi₁.entry_new)))
  · have hx₁ := (Extends.refl g.instlist g.insertpos).after hi₁ (.inl rfl) fun k hk => by
      cases hk
      exact hfresh _ (Nat.le_refl _)
    have hx₂ := hx₁.before hi₂ hi₁.fresh (fun k hk => by
      rw [hi₁.entry_new] at hk
      cases hk) nofun
    have hx₃ := hx₂.before hi₃ (hi₁.fresh_old hi₂.fresh) (fun k hk => by
      rw [hi₂.entry_new] at hk
      cases hk) nofun
    have hx₄ := hx₃.after hi₄ (.inr ⟨b₃, rfl, hi₁.fresh_old (hi₂.fresh_old hi₃.fresh)⟩)
      fun k hk => by
        cases hk
        exact hlab₃
    exact hg.ext _ _ hx₄ (.inr ⟨b₄, rfl, hi₁.fresh_old (hi₂.fresh_old (hi₃.fresh_old hi₄.fresh))⟩)

/-- The rounds of a loop, on what is left in `ecx`. -/
theorem loop_rounds (he₄ : l.entry? b₄ = some (.label (n + 1)))
    (hl₄ : l.labelAddr? (n + 1) = some b₄) (hc : l.Chain (some b₄) es p')
    (hes : ∀ e ∈ es, e.isOrdinary ∧ sem.Spares e) (hp' : l.succ? p' = some b₂)
    (he₂ : l.entry? b₂ = some (.loop .loop (n + 1))) (hs₂ : l.succ? (some b₂) = some b₁)
    (he₁ : l.entry? b₁ = some (.label n)) :
    ∀ k trace cpu, cpu.ecx.toNat = k + 1 →
      Inevitably (Step sem l) (At (some b₁))
        (fun c => c.trace = trace ++ (List.replicate (k + 1) es).flatten)
        (.run (some b₄) trace cpu) := by
  have hgoal : ∀ {y e trace cpu}, l.entry? y = some e → e ≠ .label n →
      ¬ At (some b₁) (.run (some y) trace cpu) := by
    rintro y e trace cpu he hne ⟨⟩
    rw [he₁] at he
    exact hne (Option.some.inj he).symm
  -- one round, up to the decrement
  have round : ∀ {post trace cpu}, Inevitably (Step sem l) (At (some b₁)) post
      (.run (some b₂) (trace ++ es) cpu) →
      Inevitably (Step sem l) (At (some b₁)) post (.run (some b₄) trace cpu) := by
    intro post trace cpu hk
    have hout : l.output? (some b₄) = some [] :=
      output?_label he₄
    refine hc.inevitably hes hp' hout (List.forall_mem_nil _) ?_ (hgoal he₄ (by simp)) (by simpa using hk)
    rintro y e trace cpu he ho
    refine hgoal he ?_
    rintro rfl
    simp [Entry.isOrdinary] at ho
  have hd₁ : ∀ cpu, l.dest? b₂ cpu .next = some (b₁, cpu) := fun cpu => by simp [dest?, hs₂]
  have hd₄ : ∀ cpu, l.dest? b₂ cpu (.goto (n + 1)) = some (b₄, cpu) := fun cpu => by
    simp [dest?, hl₄]
  intro k
  induction k with
  | zero =>
    intro trace cpu hecx
    have h0 : cpu.ecx - 1 = 0 := by bv_omega
    refine round (inevitably_exec he₂ (hgoal he₂ (by rintro ⟨⟩)) ⟨_, _, _, .loopDone h0⟩ ?_)
    intro out cpu' mv hdo
    cases hdo with
    | ordinary ho => simp [Entry.isOrdinary] at ho
    | loopTaken hne => exact absurd h0 hne
    | loopDone => exact ⟨b₁, _, hd₁ _, .here rfl (by simp [Config.trace])⟩
    | loopLeft hne => exact absurd rfl hne
  | succ k ih =>
    intro trace cpu hecx
    have h0 : cpu.ecx - 1 ≠ 0 := by bv_omega
    refine round (inevitably_exec he₂ (hgoal he₂ (by rintro ⟨⟩)) ⟨_, _, _, .loopTaken h0⟩ ?_)
    intro out cpu' mv hdo
    cases hdo with
    | ordinary ho => simp [Entry.isOrdinary] at ho
    | loopTaken =>
      refine ⟨b₄, _, hd₄ _, (ih _ _ ?_).mono fun c _ h => ?_⟩
      · show (cpu.ecx - 1).toNat = k + 1
        bv_omega
      · rw [h, List.replicate_succ (n := k + 1)]
        simp
    | loopDone h => exact absurd h h0
    | loopLeft hne => exact absurd rfl hne

theorem LoopCode.reaches (h : Reaches sem l pos done) (hp : l.Placed pos)
    (hx : Extends l l' pos) (hc : LoopCode l' pos b₁ times n es)
    (hes : ∀ e ∈ es, e.isOrdinary ∧ sem.Spares e) (ht : times ≠ 0) (hb : l.entry? b₁ = none) :
    Reaches sem l' (some b₁) (done ++ (List.replicate times.toNat es).flatten) := by
  obtain ⟨⟨b₂, b₃, b₄, p', hs, he₃, hs₃, he₄, hl₄, hch, hp', he₂, hs₂⟩, he₁⟩ := hc
  refine h.extend hp hx (· = b₁) ?_ (fun c hc => ⟨b₁, rfl, hc⟩) ?_
  · rintro _ rfl
    exact ⟨hb, fun k hk => by rw [he₁] at hk; cases hk⟩
  · intro out trace cpu hout hdone
    have hne : ¬ At (some b₁) (.run pos trace cpu) := fun h => placed_ne hp hb h
    refine inevitably_fall hout hs hne fun cpu' _ => ?_
    refine inevitably_exec he₃ ?_ ⟨_, _, _, .movEcx⟩ ?_
    · rintro ⟨⟩
      rw [he₁] at he₃
      cases he₃
    · intro out' cpu'' mv hdo
      cases hdo with
      | ordinary ho => simp [Entry.isOrdinary] at ho
      | movEcx =>
        refine ⟨b₄, ⟨times, cpu'.stack⟩, by simp [dest?, hs₃], ?_⟩
        obtain ⟨k, hk⟩ : ∃ k, times.toNat = k + 1 :=
          Nat.exists_eq_succ_of_ne_zero fun h => ht (BitVec.eq_of_toNat_eq (by simpa using h))
        rw [hk]
        refine (loop_rounds he₄ hl₄ hch hes hp' he₂ hs₂ he₁ k _ _ hk).mono fun c _ h => ?_
        refine ⟨[], ?_, ?_⟩
        · exact output?_label he₁
        · rw [h, ← hdone]
          simp

-- ---------------------------------------------------------------------------
-- Calls
-- ---------------------------------------------------------------------------

/-- The entries of a call with its body, where control comes from `pos` and leaves for
`b₆`. -/
structure CallCode (l : Insnlist) (pos : Option Addr) (b₆ : Addr) (n : Nat) (es : List Entry) :
    Prop where
  code : ∃ b₁ b₂ b₃ b₄ b₅ p', l.succ? pos = some b₁ ∧ l.entry? b₁ = some (.jmp (n + 1)) ∧
    l.labelAddr? (n + 1) = some b₄ ∧ l.entry? b₄ = some (.label (n + 1)) ∧
    l.succ? (some b₄) = some b₅ ∧ l.entry? b₅ = some (.call n) ∧ l.succ? (some b₅) = some b₆ ∧
    l.labelAddr? n = some b₂ ∧ l.entry? b₂ = some (.label n) ∧ l.Chain (some b₂) es p' ∧
    l.succ? p' = some b₃ ∧ l.entry? b₃ = some .ret
  exit : l.entry? b₆ = some (.label (n + 2))

theorem callCode_of_grows (w : g.WellLabelled)
    (hi₁ : g.instlist.IsAfter l₁ g.insertpos b₁ (.jmp (g.labeli + 1)))
    (hi₂ : l₁.IsAfter l₂ (some b₁) b₂ (.label g.labeli))
    (hi₃ : l₂.IsAfter l₃ (some b₂) b₃ .ret)
    (hi₄ : l₃.IsAfter l₄ (some b₃) b₄ (.label (g.labeli + 1)))
    (hi₅ : l₄.IsAfter l₅ (some b₄) b₅ (.call g.labeli))
    (hi₆ : l₅.IsAfter l₆ (some b₅) b₆ (.label (g.labeli + 2)))
    (hg : l₆.Grows l' (some b₂) es p') :
    CallCode l' g.insertpos b₆ g.labeli es ∧ Extends g.instlist l' g.insertpos := by
  have hfresh : ∀ k, g.labeli ≤ k → g.instlist.labelAddr? k = none := fun k hk =>
    labelAddr_fresh w hk
  have hlab₁ : ∀ k, g.labeli ≤ k → l₁.labelAddr? k = none := fun k hk =>
    (hi₁.label_keep nofun k).trans (hfresh k hk)
  have hlab₂ : ∀ k, g.labeli < k → l₂.labelAddr? k = none := fun k hk => by
    rw [hi₂.label _ fun _ => hlab₁ _ (by omega), if_neg (by simp; omega), hlab₁ _ (by omega)]
  have hlab₃ : ∀ k, g.labeli < k → l₃.labelAddr? k = none := fun k hk =>
    (hi₃.label_keep nofun k).trans (hlab₂ k hk)
  have hlab₅ : ∀ k, g.labeli + 1 < k → l₅.labelAddr? k = none := fun k hk => by
    rw [hi₅.label_keep nofun, hi₄.label _ fun _ => hlab₃ _ (by omega), if_neg (by simp; omega),
      hlab₃ _ (by omega)]
  have hn : l₆.labelAddr? g.labeli = some b₂ := by
    rw [hi₆.label _ (by simp), if_neg (by simp), hi₅.label_keep nofun, hi₄.label _ (by simp),
      if_neg (by simp), hi₃.label_keep nofun, hi₂.label _ fun _ => hlab₁ _ (Nat.le_refl _),
      if_pos rfl]
  have hn₁ : l₆.labelAddr? (g.labeli + 1) = some b₄ := by
    rw [hi₆.label _ (by simp), if_neg (by simp), hi₅.label_keep nofun,
      hi₄.label _ fun _ => hlab₃ _ (by omega), if_pos rfl]
  have hf₁ := hi₁.fresh
  have hf₂ := hi₁.fresh_old hi₂.fresh
  have hf₃ := hi₁.fresh_old (hi₂.fresh_old hi₃.fresh)
  have hf₄ := hi₁.fresh_old (hi₂.fresh_old (hi₃.fresh_old hi₄.fresh))
  have hf₅ := hi₁.fresh_old (hi₂.fresh_old (hi₃.fresh_old (hi₄.fresh_old hi₅.fresh)))
  have hpos : ∀ {x}, g.instlist.entry? x = none → g.insertpos ≠ some x := placed_ne w.placed
  have he₂ := hi₆.entry_mono (hi₅.entry_mono (hi₄.entry_mono (hi₃.entry_mono hi₂.entry_new)))
  have he₄ := hi₆.entry_mono (hi₅.entry_mono hi₄.entry_new)
  have h₂₃ := ne_of_entry hi₂.entry_new hi₃.fresh
  have h₂₄ := ne_of_entry (hi₃.entry_mono hi₂.entry_new) hi₄.fresh
  have h₂₅ := ne_of_entry (hi₄.entry_mono (hi₃.entry_mono hi₂.entry_new)) hi₅.fresh
  have h₄₅ := ne_of_entry hi₄.entry_new hi₅.fresh
  have hs₂ : l₆.succ? (some b₂) = some b₃ :=
    hi₆.succ_keep (hi₅.succ_keep (hi₄.succ_keep hi₃.succ_pos h₂₃) h₂₄) h₂₅
  have hs₁ : l₆.succ? g.insertpos = some b₁ := by
    refine hi₆.succ_keep (hi₅.succ_keep (hi₄.succ_keep (hi₃.succ_keep (hi₂.succ_keep hi₁.succ_pos
      (hpos hf₁)) (hpos hf₂)) (hpos hf₃)) (hpos hf₄)) (hpos hf₅)
  refine ⟨⟨⟨b₁, b₂, b₃, b₄, b₅, p', ?_, ?_, ?_, ?_, ?_, ?_, ?_, ?_, ?_, hg.chain, ?_, ?_⟩, ?_⟩, ?_⟩
  · exact hg.succ_old _ (hpos hf₂) _ hs₁
  · exact hg.entry _ _ (hi₆.entry_mono (hi₅.entry_mono (hi₄.entry_mono (hi₃.entry_mono
      (hi₂.entry_mono hi₁.entry_new)))))
  · exact (hg.label _).trans hn₁
  · exact hg.entry _ _ he₄
  · exact hg.succ_old _ h₂₄.symm _ (hi₆.succ_keep hi₅.succ_pos h₄₅)
  · exact hg.entry _ _ (hi₆.entry_mono hi₅.entry_new)
  · exact hg.succ_old _ h₂₅.symm _ hi₆.succ_pos
  · exact (hg.label _).trans hn
  · exact hg.entry _ _ he₂
  · exact hg.succ_last _ hs₂
  · exact hg.entry _ _ (hi₆.entry_mono (hi₅.entry_mono (hi₄.entry_mono hi₃.entry_new)))
  · exact hg.entry _ _ hi₆.entry_new
  · have hx₁ := (Extends.refl g.instlist g.insertpos).after hi₁ (.inl rfl) nofun
    have hx₂ := hx₁.after hi₂ (.inr ⟨b₁, rfl, hf₁⟩) fun k hk => by
      cases hk
      exact hlab₁ _ (Nat.le_refl _)
    have hx₃ := hx₂.after hi₃ (.inr ⟨b₂, rfl, hf₂⟩) nofun
    have hx₄ := hx₃.after hi₄ (.inr ⟨b₃, rfl, hf₃⟩) fun k hk => by
      cases hk
      exact hlab₃ _ (Nat.lt_succ_self _)
    have hx₅ := hx₄.after hi₅ (.inr ⟨b₄, rfl, hf₄⟩) nofun
    have hx₆ := hx₅.after hi₆ (.inr ⟨b₅, rfl, hf₅⟩) fun k hk => by
      cases hk
      exact hlab₅ _ (Nat.lt_succ_self _)
    exact hg.ext _ _ hx₆ (.inr ⟨b₂, rfl, hf₂⟩)

theorem CallCode.reaches (h : Reaches sem l pos done) (hp : l.Placed pos)
    (hx : Extends l l' pos) (hc : CallCode l' pos b₆ n es)
    (hes : ∀ e ∈ es, e.isOrdinary ∧ sem.Spares e) (hb : l.entry? b₆ = none) :
    Reaches sem l' (some b₆) (done ++ es) := by
  obtain ⟨⟨b₁, b₂, b₃, b₄, b₅, p', hs, he₁, hl₄, he₄, hs₄, he₅, hs₅, hl₂, he₂, hch, hp', he₃⟩, he₆⟩ :=
    hc
  have hgoal : ∀ {y e trace cpu}, l'.entry? y = some e → e ≠ .label (n + 2) →
      ¬ At (some b₆) (.run (some y) trace cpu) := by
    rintro y e trace cpu he hne ⟨⟩
    rw [he₆] at he
    exact hne (Option.some.inj he).symm
  refine h.extend hp hx (· = b₆) ?_ (fun c hc => ⟨b₆, rfl, hc⟩) ?_
  · rintro _ rfl
    exact ⟨hb, fun k hk => by rw [he₆] at hk; cases hk⟩
  · intro out trace cpu hout hdone
    have hne : ¬ At (some b₆) (.run pos trace cpu) := fun h => placed_ne hp hb h
    refine inevitably_fall hout hs hne fun cpu' _ => ?_
    refine inevitably_jmp he₁ hl₄ (hgoal he₁ (by rintro ⟨⟩)) ?_
    have hout₄ : l'.output? (some b₄) = some [] :=
      output?_label he₄
    refine inevitably_fall hout₄ hs₄ (hgoal he₄ (by simp)) fun cpu₄ _ => ?_
    -- the call leaves the address of the exit, which `ret` takes
    refine inevitably_exec he₅ (hgoal he₅ (by rintro ⟨⟩)) ⟨_, _, _, .call⟩ ?_
    intro out₅ cpu₅ mv hdo
    cases hdo with
    | ordinary ho => simp [Entry.isOrdinary] at ho
    | call =>
      refine ⟨b₂, ⟨cpu₄.ecx, some b₆ :: cpu₄.stack⟩, by simp [dest?, hl₂, hs₅], ?_⟩
      have hout₂ : l'.output? (some b₂) = some [] :=
      output?_label he₂
      refine hch.inevitably hes hp' hout₂ (List.forall_mem_nil _) ?_ (hgoal he₂ (by simp)) ?_
      · rintro y e trace cpu he ho
        refine hgoal he ?_
        rintro rfl
        simp [Entry.isOrdinary] at ho
      · refine inevitably_exec he₃ (hgoal he₃ (by rintro ⟨⟩)) ⟨_, _, _, .ret⟩ ?_
        intro out₃ cpu₃ mv hdo
        cases hdo with
        | ordinary ho => simp [Entry.isOrdinary] at ho
        | ret =>
          refine ⟨b₆, ⟨cpu₄.ecx, cpu₄.stack⟩, by simp [dest?], .here rfl ⟨[], ?_, ?_⟩⟩
          · exact output?_label he₆
          · simp [Config.trace, ← hdone]

-- ---------------------------------------------------------------------------
-- Jumps
-- ---------------------------------------------------------------------------

/-- What comes to the label comes to it with the body behind it. -/
theorem Comes.grows (hc : Comes l b a) (hb : l.entry? b = some (.label n))
    (hg : l.Grows l' (some b) es p') : Comes l' b a := by
  induction hc with
  | here => exact .here
  | jmp he hl _ ih => exact .jmp (hg.entry _ _ he) ((hg.label _).trans hl) ih
  | @jcc x _ _ _ _ he hl hs _ _ ih₁ ih₂ =>
    have hx : some x ≠ some b := by
      rintro ⟨⟩
      rw [he] at hb
      cases hb
    exact .jcc (hg.entry _ _ he) ((hg.label _).trans hl) (hg.succ_old _ hx _ hs) ih₁ ih₂

/-- After a jump and its body, the chosen label is reached with the body executed exactly
when nothing had come to it before. -/
theorem jump_reaches_iff (w : g.WellLabelled) (h : Reaches sem g.instlist g.insertpos done)
    (hq : g.labelspos[n]? = some (some q))
    (hl : Leaving g.instlist l₁ g.insertpos g.labeli a op)
    (hd : l₁.IsBefore l₂ q d (.jmp n)) (hb : l₂.IsAfter l₃ (some d) b (.label g.labeli))
    (hg : l₃.Grows l' (some b) es p') (hes : ∀ e ∈ es, e.isOrdinary ∧ sem.Spares e) :
    Reaches sem l' (some q) (done ++ es) ↔
      ArrivesWith sem g.instlist g.insertpos q (done ++ es) := by
  have hqe := entry_of_labelAddr (labelAddr_of_labelspos w hq)
  have hq₁ := (hl.label_keep _).trans (labelAddr_of_labelspos w hq)
  have hfresh := labelAddr_fresh w (Nat.le_refl g.labeli)
  have hx₂ := hl.ext.detour hd hq₁
  obtain ⟨x, hs, hc⟩ := hl.comes_later w.placed hq₁ hd hb hfresh
  have hx₃ := hx₂.after hb (.inr ⟨_, rfl, hl.ext.entry_none hd.fresh⟩) fun k hk => by
    cases hk
    exact (hd.label_keep nofun _).trans ((hl.label_keep _).trans hfresh)
  have hbn := hx₂.entry_none hb.fresh
  have hx := hg.ext _ _ hx₃ (.inr ⟨b, rfl, hbn⟩)
  have hs' := hg.succ_old _ (placed_ne w.placed hbn) _ hs
  have hbe := hg.entry _ _ hb.entry_new
  have hqb : some q ≠ some b := ne_of_entry hqe hbn
  refine hx.reaches_iff w.placed h hqe fun hpq out trace cpu hout hdone => ?_
  refine inevitably_fall hout hs' (fun h => hpq h) fun cpu' _ => ?_
  have hqe' := hx.entry _ _ hqe
  refine (hc.grows hb.entry_new hg).inevitably hqe' (fun c h => h) ?_
  have hlast := hg.succ_last _ (hb.succ_new.trans hd.succ_new)
  have hout_b : l'.output? (some b) = some [] :=
      output?_label hbe
  refine hg.chain.inevitably hes hlast hout_b nofun ?_ (fun h => hqb h.symm) ?_
  · rintro y e trace cpu he ho ⟨⟩
    rw [hqe'] at he
    cases he
    simp [Entry.isOrdinary] at ho
  · refine .here rfl ⟨[], ?_, ?_⟩
    · exact output?_label hqe'
    · simp [Config.trace, ← hdone]

-- ---------------------------------------------------------------------------
-- Blocks
-- ---------------------------------------------------------------------------

def rounds (op : Opcode) (times : BitVec 32) : Nat := if op = .loop then times.toNat else 1

/-- The state a transfer block leaves. -/
def Gen.leave (g : Gen) (k : Nat) (x : Option Addr) : Gen :=
  { g.tell (.leave k g.labelspos.length) with
    insertpos := x
    lockCtrl := false }

/-- The moves of a transfer block around its transfer. -/
theorem walkTttBlk_run {g₁ : Gen} {t : Bool} {body : M Unit} {blk : BlkId} {x : Option Addr}
    {k : Nat}
    (hr : (callControlTransfer .block op times).run
      ((do setCurrBlk blk; blkInvalidVarAll blk : M Unit).run g).2 = (.ok (k, t), g₁))
    (hb : body.run g₁ = (.ok (), g')) (hx : g'.labelspos[k]? = some x) :
    (walkTttBlk blk body op times).run g = (.ok (), g'.leave k x) := by
  have hup : (callUpdateInsertPos k).run g' =
      (.ok (), { g'.tell (.leave k g'.labelspos.length) with insertpos := x }) :=
    updateInsertPosToLabel_run (g := g'.tell _) hx
  exact (Prog.run_bind_ok hr).trans ((Prog.run_bind_ok hb).trans (Prog.run_bind_ok hup))

theorem not_label_of_ordinary (hes : ∀ e ∈ es, e.isOrdinary ∧ sem.Spares e) :
    ∀ e ∈ es, ∀ k, e ≠ .label k := by
  rintro e he k rfl
  have := (hes _ he).1
  simp [Entry.isOrdinary] at this

theorem getElem?_pushed {α : Type} {xs : List α} (x : α) (ys : List α) (h : xs.length = n) :
    (xs ++ [x] ++ ys)[n]? = some x := by
  subst h
  simp

/-- A transfer block over a body of ordinary entries that spare `ecx` and `esp`: a loop and
a call run it as often as they should, and so does a jump exactly when nothing comes to
the chosen label before the insert position. -/
theorem walkTttBlk_reaches_iff (w : g.WellLabelled) (hu : g.lockCtrl = false)
    (h0 : g.labeli ≠ 0) (h : Reaches sem g.instlist g.insertpos done)
    (hop : op.isJump ∨ op = .loop ∨ op = .call) (ht : op = .loop → times ≠ 0)
    (hes : ∀ e ∈ es, e.isOrdinary ∧ sem.Spares e) (blk : BlkId) :
    ∃ g', (walkTttBlk blk (insertAll es) op times).run g = (.ok (), g') ∧
      (Reaches sem g'.instlist g'.insertpos
          (done ++ (List.replicate (rounds op times) es).flatten) ↔
        (op.isJump → ∀ q, g.labelspos[g.chosen]? = some (some q) →
          ArrivesWith sem g.instlist g.insertpos q (done ++ es))) := by
  let g₀ := ((do setCurrBlk blk; blkInvalidVarAll blk : M Unit).run g).2
  have w₀ : g₀.WellLabelled := ⟨w.placed, w.len, w.pos, w.uniq⟩
  obtain ⟨label, g₁, e, htr, -, -, -, hr⟩ := callControlTransfer_run w₀ .block op times
  obtain ⟨l', p', hb, hg⟩ := insertAll_run (g := g₁.tell e) (htr.wellLabelled w₀).placed
    (not_label_of_ordinary hes)
  cases htr with
  | locked hl => exact absurd hl (Bool.eq_false_iff.1 hu)
  | other _ hj hl hc =>
    exact (hop.elim hj (Or.rec (fun h => hl (h ▸ rfl)) hc)).elim
  | first _ hz => exact absurd hz h0
  | jump _ hq hl hd hi =>
    have hlt := (List.getElem?_eq_some_iff.1 hq).1
    have hx : ∀ b : Addr, (g₀.labelspos ++ [some b])[g₀.chosen]? = some (some _) :=
      fun _ => (List.getElem?_append_left hlt).trans hq
    refine ⟨_, walkTttBlk_run hr hb (hx _), ?_⟩
    have hn : op ≠ .loop := by
      rintro rfl
      cases hl.isJump
    have hiff := jump_reaches_iff w₀ h hq hl hd hi hg hes
    rw [rounds, if_neg hn, List.replicate_one, List.flatten_singleton]
    refine hiff.trans ⟨fun ha _ q hq' => ?_, fun ha => ha hl.isJump _ hq⟩
    cases (Option.some.inj (Option.some.inj (hq'.symm.trans hq)))
    exact ha
  | loop _ hop' hi₁ hi₂ hi₃ hi₄ =>
    have hol : op = .loop := by
      rcases hop with hj | rfl | rfl
      · exact absurd hop' (Opcode.not_isLoop_of_isJump hj)
      · rfl
      · cases hop'
    subst hol
    obtain ⟨hcode, hx⟩ := loopCode_of_grows w₀ hi₁ hi₂ hi₃ hi₄ hg
    have hx' := fun x y : Addr => getElem?_pushed (some x) [some y] w₀.len
    refine ⟨_, walkTttBlk_run hr hb (hx' _ _), iff_of_true ?_ fun h => absurd h nofun⟩
    rw [rounds, if_pos rfl]
    exact hcode.reaches h w.placed hx hes (ht rfl) hi₁.fresh
  | call _ hi₁ hi₂ hi₃ hi₄ hi₅ hi₆ =>
    obtain ⟨hcode, hx⟩ := callCode_of_grows w₀ hi₁ hi₂ hi₃ hi₄ hi₅ hi₆ hg
    have hlen : ∀ x y, (g₀.labelspos ++ [some x] ++ [some y]).length = g₀.labeli + 2 := by
      simp [w₀.len]
    have hx' := fun x y z : Addr => getElem?_pushed (some z) [] (hlen x y)
    simp only [List.append_nil] at hx'
    have hr' : (callControlTransfer .block .call times).run g₀ =
      (.ok ((g₀.labeli + 2 : Nat), _), _) := hr
    refine ⟨_, walkTttBlk_run hr' hb (hx' _ _ _), iff_of_true ?_ fun h => absurd h nofun⟩
    rw [rounds, if_neg nofun, List.replicate_one, List.flatten_singleton]
    refine hcode.reaches h w.placed hx hes ?_
    exact hi₁.fresh_old (hi₂.fresh_old (hi₃.fresh_old (hi₄.fresh_old (hi₅.fresh_old hi₆.fresh))))

/-- A label that the first entry jumps to is reached with nothing executed. -/
theorem not_reaches_of_jmp {a : Addr} {n : Nat} (hs : l.succ? none = some a)
    (he : l.entry? a = some (.jmp n)) (hl : l.labelAddr? n = some q) (hd : done ≠ []) :
    ¬ Reaches sem l (some q) done := by
  intro h
  have hqe := entry_of_labelAddr hl
  have haq : ¬ At (some q) (.run (some a) [] ⟨0, []⟩) := by
    rintro ⟨⟩
    rw [he] at hqe
    cases hqe
  have hstep : Step sem l (.run (some a) [] ⟨0, []⟩) (.run (some q) [] ⟨0, []⟩) :=
    .entry he .jmp (show l.dest? a _ (.goto n) = some (q, _) by simp [dest?, hl])
  obtain ⟨out, hout, hdone⟩ :=
    (((h 0).along (.single ⟨by rintro ⟨⟩, .start hs⟩)).along (.single ⟨haq, hstep⟩)).post_of_goal rfl
  rw [output?_label hqe] at hout
  cases hout
  exact hd hdone.symm

def oneLabel : Gen := ((runCmds [.label, .insn (.check "x") rfl]).run (Gen.plain 200)).2

theorem oneLabel_inv (sem : Sem) : JumpInv sem oneLabel [.check "x"] := by
  have h0 : JumpInv sem (Gen.plain 200) [] := jumpInv_init (plain_init 200)
  obtain ⟨g, hr, hi⟩ := runCmds_inv h0 [.label, .insn (.check "x") rfl]
  have hg : oneLabel = g := by
    unfold oneLabel
    rw [hr]
  rw [hg]
  exact hi

/-- A loop of three rounds behind it. -/
theorem walkTttBlk_reaches_iff_loop :
    ∃ g', (walkTttBlk [] (insertAll [.check "y"]) .loop 3).run oneLabel = (.ok (), g') ∧
      (Reaches .idle g'.instlist g'.insertpos
          ([.check "x"] ++ (List.replicate (rounds .loop 3) [.check "y"]).flatten) ↔
        (Opcode.loop.isJump → ∀ q, oneLabel.labelspos[oneLabel.chosen]? = some (some q) →
          ArrivesWith .idle oneLabel.instlist oneLabel.insertpos q
            ([.check "x"] ++ [.check "y"]))) := by
  have hi := oneLabel_inv .idle
  have h0 : oneLabel.labeli ≠ 0 := by decide +kernel
  have hes : ∀ e ∈ [Entry.check "y"], e.isOrdinary ∧ Sem.idle.Spares e := by
    simp only [List.mem_singleton, forall_eq]
    exact ⟨rfl, fun _ _ _ _ h => h⟩
  exact walkTttBlk_reaches_iff hi.labelled hi.unlocked h0 hi.reaches
    (.inr (.inl rfl)) (fun _ => by decide) hes []

/-- What a jump block with one more entry in its body makes of it. -/
def oneLabelJumped : Gen :=
  ((walkTttBlk [] (insertAll [.check "y"]) .jmp (-1)).run oneLabel).2

theorem oneLabel_jumps :
    (walkTttBlk [] (insertAll [.check "y"]) .jmp (-1)).run oneLabel = (.ok (), oneLabelJumped) := by
  unfold oneLabelJumped
  exact Prog.run_eq (by decide +kernel)

/-- The new insert position of the jump block is `label0`, to which the first entry of the
list jumps now. -/
theorem jump_block_ends_at_passed_label :
    oneLabel.WellLabelled ∧ oneLabel.lockCtrl = false ∧ oneLabel.labeli ≠ 0 ∧
      Reaches .idle oneLabel.instlist oneLabel.insertpos [.check "x"] ∧
      ∃ g', (walkTttBlk [] (insertAll [.check "y"]) .jmp (-1)).run oneLabel = (.ok (), g') ∧
        ¬ Reaches .idle g'.instlist g'.insertpos [.check "x", .check "y"] := by
  have hi := oneLabel_inv .idle
  refine ⟨hi.labelled, hi.unlocked, by decide +kernel, hi.reaches, oneLabelJumped,
    oneLabel_jumps, ?_⟩
  have hpos : oneLabelJumped.insertpos = some 0 := by decide +kernel
  have hs : oneLabelJumped.instlist.succ? none = some 3 := by decide +kernel
  have he : oneLabelJumped.instlist.entry? 3 = some (.jmp 0) := by decide +kernel
  have hl : oneLabelJumped.instlist.labelAddr? 0 = some 0 := by decide +kernel
  rw [hpos]
  exact not_reaches_of_jmp hs he hl nofun

end Btrtg
