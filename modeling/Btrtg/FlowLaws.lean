import Btrtg.Flow
import Btrtg.InsnlistLaws

/-!
# Insertions and executions

`Extends l l' pos`: everything of `l` is still where it was in `l'`, except
that something was put right after `pos`, and that control falling into an
entry may take a detour through a jump put in front of it. An execution of `l`
that has not left `pos` yet is then an execution of `l'`.
-/

namespace Btrtg

open Insnlist

variable {sem : Sem} {l l' l'' : Insnlist} {pos : Option Addr} {a b q : Addr} {e : Entry}

-- ---------------------------------------------------------------------------
-- Extensions
-- ---------------------------------------------------------------------------

/-- Control at `y'` in `l'` comes to `y`: it is there, or at a jump to it that `l`
does not have. -/
def Leads (l l' : Insnlist) (y' y : Addr) : Prop :=
  y' = y ∨ l.entry? y' = none ∧ ∃ n, l'.entry? y' = some (.jmp n) ∧ l'.labelAddr? n = some y

structure Extends (l l' : Insnlist) (pos : Option Addr) : Prop where
  entry : ∀ x e, l.entry? x = some e → l'.entry? x = some e
  label : ∀ n x, l.labelAddr? n = some x → l'.labelAddr? n = some x
  succ : ∀ x ≠ pos, ∀ y, l.succ? x = some y → ∃ y', l'.succ? x = some y' ∧ Leads l l' y' y

theorem Leads.trans (hl : Leads l l' a b) (he : ∀ x e, l'.entry? x = some e → l''.entry? x = some e)
    (hn : ∀ n x, l'.labelAddr? n = some x → l''.labelAddr? n = some x) : Leads l l'' a b := by
  rcases hl with rfl | ⟨hnew, n, hj, hb⟩
  · exact .inl rfl
  · exact .inr ⟨hnew, n, he _ _ hj, hn _ _ hb⟩

theorem Extends.refl (l : Insnlist) (pos : Option Addr) : Extends l l pos where
  entry _ _ h := h
  label _ _ h := h
  succ _ _ y h := ⟨y, h, .inl rfl⟩

namespace Extends

/-- A new entry has no place in the smaller list. -/
theorem entry_none (h : Extends l l' pos) (hb : l'.entry? b = none) : l.entry? b = none := by
  cases hl : l.entry? b with
  | none => rfl
  | some e => rw [h.entry _ _ hl] at hb; cases hb

/-- A position with something behind it is no new entry. -/
theorem ne_new (h : Extends l l' pos) (hb : l'.entry? b = none) (hy : l.succ? z = some y) :
    z ≠ some b := by
  rintro rfl
  obtain ⟨e, he⟩ := placed_of_succ_some hy
  rw [h.entry_none hb] at he; cases he

/-- Something more after `pos`, or after an entry that is itself new. -/
theorem after (h : Extends l l' pos) (hi : l'.IsAfter l'' x b e)
    (hx : x = pos ∨ ∃ y, x = some y ∧ l.entry? y = none)
    (hnew : ∀ n, e = .label n → l'.labelAddr? n = none) : Extends l l'' pos where
  entry x e hl := hi.entry_mono (h.entry x e hl)
  label n x hl := hi.label_mono hnew (h.label n x hl)
  succ z hz y hy := by
    obtain ⟨y', hy', hlead⟩ := h.succ z hz y hy
    refine ⟨y', ?_, hlead.trans (fun _ _ => hi.entry_mono) (fun _ _ => hi.label_mono hnew)⟩
    rw [hi.succ_old z ?_ (h.ne_new hi.fresh hy), hy']
    rintro rfl
    rcases hx with hx | ⟨w, rfl, hw⟩
    · exact hz hx
    · obtain ⟨e, he⟩ := placed_of_succ_some hy
      rw [he] at hw; cases hw

/-- A jump to `q` in front of `q`. -/
theorem detour (h : Extends l l' pos) (hi : l'.IsBefore l'' q b (.jmp n))
    (hq : l'.labelAddr? n = some q) : Extends l l'' pos where
  entry x e hl := hi.entry_mono (h.entry x e hl)
  label n x hl := hi.label_mono nofun (h.label n x hl)
  succ z hz y hy := by
    obtain ⟨y', hy', hlead⟩ := h.succ z hz y hy
    rw [hi.succ_old z (h.ne_new hi.fresh hy), hy']
    by_cases hyq : y' = q
    · subst hyq
      have hyy : y' = y := by
        rcases hlead with h | ⟨_, m, hj, _⟩
        · exact h
        · rw [entry_of_labelAddr hq] at hj; cases hj
      subst hyy
      exact ⟨b, by simp, .inr ⟨h.entry_none hi.fresh, n, hi.entry_new, hi.label_mono nofun hq⟩⟩
    · exact ⟨y', by simp [hyq], hlead.trans (fun _ _ => hi.entry_mono) (fun _ _ => hi.label_mono nofun)⟩

/-- Something more in front of a new entry that nothing falls into. -/
theorem before (h : Extends l l' pos) (hi : l'.IsBefore l'' q b e) (hq : l.entry? q = none)
    (hqe : ∀ n, l'.entry? q = some (.jmp n) → l'.labelAddr? n = none)
    (hnew : ∀ n, e = .label n → l'.labelAddr? n = none) : Extends l l'' pos where
  entry x e hl := hi.entry_mono (h.entry x e hl)
  label n x hl := hi.label_mono hnew (h.label n x hl)
  succ z hz y hy := by
    obtain ⟨y', hy', hlead⟩ := h.succ z hz y hy
    have hyq : y' ≠ q := by
      rintro rfl
      rcases hlead with rfl | ⟨_, m, hj, hl⟩
      · obtain ⟨e, he⟩ := placed_iff_entry.1 (placed_succ hy)
        rw [he] at hq; cases hq
      · rw [hqe m hj] at hl; cases hl
    refine ⟨y', ?_, hlead.trans (fun _ _ => hi.entry_mono) (fun _ _ => hi.label_mono hnew)⟩
    rw [hi.succ_old z (h.ne_new hi.fresh hy), hy', if_neg (by simpa using hyq)]

/-- Something more at the end. -/
theorem last (h : Extends l l' pos) (hi : l'.IsLast l'' b e)
    (hnew : ∀ n, e = .label n → l'.labelAddr? n = none) : Extends l l'' pos where
  entry x e hl := hi.entry_mono (h.entry x e hl)
  label n x hl := hi.label_mono hnew (h.label n x hl)
  succ z hz y hy := by
    obtain ⟨y', hy', hlead⟩ := h.succ z hz y hy
    exact ⟨y', hi.succ_old z y' hy',
      hlead.trans (fun _ _ => hi.entry_mono) (fun _ _ => hi.label_mono hnew)⟩

end Extends

-- ---------------------------------------------------------------------------
-- Simulation
-- ---------------------------------------------------------------------------

/-- The same program counter and the same return addresses, up to detours. -/
abbrev LeadsO (l l' : Insnlist) : Option Addr → Option Addr → Prop :=
  Option.Rel fun y y' => Leads l l' y' y

inductive Sim (l l' : Insnlist) : Config → Config → Prop
  | run : LeadsO l l' pc pc' → List.Forall₂ (LeadsO l l') stack stack' →
      Sim l l' (.run pc trace ⟨ecx, stack⟩) (.run pc' trace ⟨ecx, stack'⟩)

theorem Sim.trace (h : Sim l l' c c') : c'.trace = c.trace := by
  cases h; rfl

theorem forall₂_replicate_drop {r : Option Addr → Option Addr → Prop} (hr : r none none)
    (h : List.Forall₂ r st st') (k m : Nat) :
    List.Forall₂ r (List.replicate k none ++ st.drop m) (List.replicate k none ++ st'.drop m) := by
  induction k with
  | zero => simpa using List.forall₂_drop m h
  | succ k ih => simpa [List.replicate_succ] using ⟨hr, ih⟩

/-- What an entry does depends on the stack only through `dest?`. -/
theorem Entry.Does.rel {r : Option Addr → Option Addr → Prop} (hr : r none none)
    (h : e.Does sem ⟨ecx, st⟩ out cpu mv) (hs : List.Forall₂ r st st') :
    ∃ cpu', e.Does sem ⟨ecx, st'⟩ out cpu' mv ∧ cpu'.ecx = cpu.ecx ∧
      List.Forall₂ r cpu.stack cpu'.stack := by
  cases h with
  | ordinary ho hrun => exact ⟨_, .ordinary ho hrun, rfl, forall₂_replicate_drop hr hs _ _⟩
  | label => exact ⟨_, .label, rfl, hs⟩
  | jmp => exact ⟨_, .jmp, rfl, hs⟩
  | jccTaken => exact ⟨_, .jccTaken, rfl, hs⟩
  | jccNot => exact ⟨_, .jccNot, rfl, hs⟩
  | loopTaken h => exact ⟨_, .loopTaken h, rfl, hs⟩
  | loopDone h => exact ⟨_, .loopDone h, rfl, hs⟩
  | loopLeft h => exact ⟨_, .loopLeft h, rfl, hs⟩
  | movEcx => exact ⟨_, .movEcx, rfl, hs⟩
  | call => exact ⟨_, .call, rfl, hs⟩
  | ret => exact ⟨_, .ret, rfl, hs⟩

theorem Extends.dest (h : Extends l l' pos) (ha : some a ≠ pos)
    (hd : l.dest? a ⟨ecx, st⟩ mv = some (b, cpu)) (hs : List.Forall₂ (LeadsO l l') st st') :
    ∃ b' cpu', l'.dest? a ⟨ecx, st'⟩ mv = some (b', cpu') ∧ Leads l l' b' b ∧
      cpu'.ecx = cpu.ecx ∧ List.Forall₂ (LeadsO l l') cpu.stack cpu'.stack := by
  cases mv with
  | next =>
    simp only [dest?, Option.bind_eq_bind, Option.bind_eq_some_iff, Option.some.injEq,
      Prod.mk.injEq] at hd
    obtain ⟨y, hy, rfl, rfl⟩ := hd
    obtain ⟨y', hy', hlead⟩ := h.succ _ ha y hy
    exact ⟨y', ⟨ecx, st'⟩, by simp [dest?, hy'], hlead, rfl, hs⟩
  | goto n =>
    simp only [dest?, Option.bind_eq_bind, Option.bind_eq_some_iff, Option.some.injEq,
      Prod.mk.injEq] at hd
    obtain ⟨y, hy, rfl, rfl⟩ := hd
    exact ⟨y, ⟨ecx, st'⟩, by simp [dest?, h.label _ _ hy], .inl rfl, rfl, hs⟩
  | call n =>
    simp only [dest?, Option.bind_eq_bind, Option.bind_eq_some_iff, Option.some.injEq,
      Prod.mk.injEq] at hd
    obtain ⟨y, hy, r, hr, rfl, rfl⟩ := hd
    obtain ⟨r', hr', hlead⟩ := h.succ _ ha r hr
    exact ⟨y, ⟨ecx, some r' :: st'⟩, by simp [dest?, h.label _ _ hy, hr'], .inl rfl, rfl,
      .cons (.some hlead) hs⟩
  | ret =>
    cases hs with
    | nil => simp [dest?] at hd
    | cons hw hs =>
      cases hw with
      | none => simp [dest?] at hd
      | some hlead =>
        simp only [dest?, Option.some.injEq, Prod.mk.injEq] at hd
        obtain ⟨rfl, rfl⟩ := hd
        exact ⟨_, ⟨ecx, _⟩, rfl, hlead, rfl, hs⟩

theorem fault_not_inevitable {S : Option Addr → Prop} :
    ¬ Inevitably (Step sem l) (AtAny S) post .fault := by
  intro h
  obtain ⟨d, hd⟩ := h.not_stuck id
  cases hd

/-- One entry executes: wherever it goes, the rest follows. -/
theorem inevitably_exec {goal post : Config → Prop} (he : l.entry? a = some e)
    (hg : ¬ goal (.run (some a) trace cpu)) (hex : ∃ out cpu' mv, e.Does sem cpu out cpu' mv)
    (hk : ∀ out cpu' mv, e.Does sem cpu out cpu' mv → ∃ b cpu'',
      l.dest? a cpu' mv = some (b, cpu'') ∧
        Inevitably (Step sem l) goal post (.run (some b) (trace ++ out) cpu'')) :
    Inevitably (Step sem l) goal post (.run (some a) trace cpu) := by
  refine .next hg ?_ ?_
  · obtain ⟨out, cpu', mv, hdo⟩ := hex
    obtain ⟨b, cpu'', hd, -⟩ := hk _ _ _ hdo
    exact ⟨_, .entry he hdo hd⟩
  · intro d hd
    cases hd with
    | entry he₁ hdo hdest =>
      rw [he] at he₁; cases he₁
      obtain ⟨b, cpu'', hd, h⟩ := hk _ _ _ hdo
      rw [hd] at hdest; cases hdest
      exact h
    | fault he₁ hdo hdest =>
      rw [he] at he₁; cases he₁
      obtain ⟨b, cpu'', hd, h⟩ := hk _ _ _ hdo
      rw [hd] at hdest; cases hdest

theorem inevitably_start {goal post : Config → Prop} (hs : l.succ? none = some b)
    (hg : ¬ goal (.run none trace cpu))
    (hk : Inevitably (Step sem l) goal post (.run (some b) trace cpu)) :
    Inevitably (Step sem l) goal post (.run none trace cpu) := by
  refine .step_to hg (.start hs) ?_ hk
  intro d hd
  cases hd with
  | start hs' => rw [hs] at hs'; cases hs'; rfl

theorem inevitably_jmp {goal post : Config → Prop} (he : l.entry? a = some (.jmp n))
    (hl : l.labelAddr? n = some b) (hg : ¬ goal (.run (some a) trace cpu))
    (hk : Inevitably (Step sem l) goal post (.run (some b) trace cpu)) :
    Inevitably (Step sem l) goal post (.run (some a) trace cpu) := by
  refine inevitably_exec he hg ⟨_, _, _, .jmp⟩ ?_
  intro out cpu' mv hdo
  cases hdo with
  | ordinary ho => simp [Entry.isOrdinary] at ho
  | jmp => exact ⟨b, cpu, by simp [dest?, hl], by simpa using hk⟩

/-- The executions of `l` up to one of the positions `S` are executions of `l'`,
and they do not come to the new entries `new` before that. -/
theorem Extends.simulate {S : Option Addr → Prop} (h : Extends l l' pos) (hpos : S pos)
    (hS : ∀ p, S (some p) → ∃ e, l.entry? p = some e)
    (new : Addr → Prop) (hnew : ∀ a, new a → l.entry? a = none ∧ ∀ n, l'.entry? a ≠ some (.jmp n))
    (hin : Inevitably (Step sem l) (AtAny S) post c) (hr : Sim l l' c c') :
    Inevitably (Step sem l') (fun d => AtAny S d ∨ ∃ a, new a ∧ At (some a) d)
      (fun d' => AtAny S d' ∧ ∃ d, Sim l l' d d' ∧ post d) c' := by
  -- a detour is one more step, to the entry it leads to
  have detour : ∀ {y y' n trace cpu}, l.entry? y' = none → l'.entry? y' = some (.jmp n) →
      l'.labelAddr? n = some y →
      Inevitably (Step sem l') (fun d => AtAny S d ∨ ∃ a, new a ∧ At (some a) d)
        (fun d' => AtAny S d' ∧ ∃ d, Sim l l' d d' ∧ post d) (.run (some y) trace cpu) →
      Inevitably (Step sem l') (fun d => AtAny S d ∨ ∃ a, new a ∧ At (some a) d)
        (fun d' => AtAny S d' ∧ ∃ d, Sim l l' d d' ∧ post d) (.run (some y') trace cpu) := by
    intro y y' n trace cpu hno hj hl hk
    refine inevitably_jmp hj hl ?_ hk
    rintro (hg | ⟨a, ha, hg⟩)
    · obtain ⟨e, he⟩ := hS y' hg
      rw [he] at hno; cases hno
    · cases hg
      exact (hnew _ ha).2 n hj
  refine hin.simulate hr ?_ ?_
  · intro c c' hr hg hp
    cases hr with
    | run hpc hst =>
      cases hpc with
      | none => exact .here (.inl hg) ⟨hg, _, .run .none hst, hp⟩
      | some hlead =>
        rcases hlead with rfl | ⟨hno, n, hj, hl⟩
        · exact .here (.inl hg) ⟨hg, _, .run (.some (.inl rfl)) hst, hp⟩
        · exact detour hno hj hl (.here (.inl hg) ⟨hg, _, .run (.some (.inl rfl)) hst, hp⟩)
  · intro c c' hr hg hex hall ih
    -- from the same program counter the two lists step alike
    have same : ∀ {y trace ecx st st'}, c = .run (some y) trace ⟨ecx, st⟩ →
        List.Forall₂ (LeadsO l l') st st' →
        Inevitably (Step sem l') (fun d => AtAny S d ∨ ∃ a, new a ∧ At (some a) d)
          (fun d' => AtAny S d' ∧ ∃ d, Sim l l' d d' ∧ post d) (.run (some y) trace ⟨ecx, st'⟩) := by
      rintro y trace ecx st st' rfl hst
      have hy : some y ≠ pos := fun h => hg (by rw [AtAny, h]; exact hpos)
      obtain ⟨e, out, cpu', mv, he, hdoes⟩ :
          ∃ e out cpu' mv, l.entry? y = some e ∧ e.Does sem ⟨ecx, st⟩ out cpu' mv := by
        obtain ⟨d, hd⟩ := hex
        cases hd with
        | entry he hdo => exact ⟨_, _, _, _, he, hdo⟩
        | fault he hdo => exact ⟨_, _, _, _, he, hdo⟩
      refine inevitably_exec (h.entry _ _ he) ?_ ?_ ?_
      · rintro (hat | ⟨a, ha, hat⟩)
        · exact hg hat
        · cases hat
          rw [(hnew _ ha).1] at he; cases he
      · obtain ⟨cpu₁, hdo₁, -, -⟩ := hdoes.rel (r := LeadsO l l') .none hst
        exact ⟨_, _, _, hdo₁⟩
      · intro out cpu' mv hdo
        obtain ⟨⟨ecx₁, st₁⟩, hdo₁, hecx, hst₁⟩ :=
          hdo.rel (r := flip (LeadsO l l')) .none hst.flip
        cases hdest : l.dest? y ⟨ecx₁, st₁⟩ mv with
        | none => exact absurd (hall _ (.fault he hdo₁ hdest)) fault_not_inevitable
        | some bc =>
          obtain ⟨b, ⟨ecx₂, st₂⟩⟩ := bc
          cases hecx
          obtain ⟨b', ⟨ecx₃, st₃⟩, hdest', hlead, hecx₃, hst₃⟩ := h.dest hy hdest hst₁.flip
          cases hecx₃
          exact ⟨b', _, hdest', ih _ _ (.entry he hdo₁ hdest) (.run (.some hlead) hst₃)⟩
    cases hr with
    | run hpc hst =>
      cases hpc with
      | none =>
        have hy : none ≠ pos := fun h => hg (by rw [AtAny, h]; exact hpos)
        obtain ⟨y, hy₁⟩ : ∃ y, l.succ? none = some y := by
          obtain ⟨d, hd⟩ := hex
          cases hd with
          | start hs => exact ⟨_, hs⟩
        obtain ⟨y', hy', hlead⟩ := h.succ none hy y hy₁
        refine inevitably_start hy' ?_ (ih _ _ (.start hy₁) (.run (.some hlead) hst))
        rintro (hat | ⟨a, ha, hat⟩)
        · exact hg hat
        · cases hat
      | some hlead =>
        rcases hlead with rfl | ⟨hno, n, hj, hl⟩
        · exact same rfl hst
        · exact detour hno hj hl (same rfl hst)

/-- Control falls through a position. -/
theorem inevitably_fall {goal post : Config → Prop} (hout : l.output? pos = some out)
    (hs : l.succ? pos = some b) (hg : ¬ goal (.run pos trace cpu))
    (hk : ∀ cpu', ((∀ e ∈ out, sem.Spares e) → cpu' = cpu) →
      Inevitably (Step sem l) goal post (.run (some b) (trace ++ out) cpu')) :
    Inevitably (Step sem l) goal post (.run pos trace cpu) := by
  cases pos with
  | none =>
    cases hout
    exact inevitably_start hs hg (by simpa using hk cpu fun _ => rfl)
  | some a =>
    simp only [Insnlist.output?, Option.bind_eq_some_iff] at hout
    obtain ⟨e, he, hout⟩ := hout
    have hd : ∀ cpu', l.dest? a cpu' .next = some (b, cpu') := fun cpu' => by simp [dest?, hs]
    rcases Entry.output?_some.1 hout with ⟨ho, rfl⟩ | ⟨n, rfl, rfl⟩
    · refine inevitably_exec he hg ?_ ?_
      · obtain ⟨_, _, _, hrun⟩ := sem.total e cpu.ecx
        exact ⟨_, _, _, .ordinary ho hrun⟩
      · intro out cpu' mv hdo
        cases hdo with
        | ordinary _ hrun =>
          refine ⟨b, _, hd _, hk _ fun hsp => ?_⟩
          obtain ⟨rfl, rfl, rfl⟩ := hsp e (by simp) _ _ _ _ hrun
          simp
        | _ => simp [Entry.isOrdinary] at ho
    · refine inevitably_exec he hg ⟨_, _, _, .label⟩ ?_
      intro out cpu' mv hdo
      cases hdo with
      | ordinary ho => simp [Entry.isOrdinary] at ho
      | label => exact ⟨b, _, hd _, hk _ fun _ => rfl⟩

-- ---------------------------------------------------------------------------
-- Reaching the insert position
-- ---------------------------------------------------------------------------

/-- Control at `x` comes to `y` through jumps alone. -/
inductive Comes (l : Insnlist) (y : Addr) : Addr → Prop
  | here : Comes l y y
  | jmp : l.entry? x = some (.jmp n) → l.labelAddr? n = some x' → Comes l y x' → Comes l y x
  | jcc : l.entry? x = some (.jcc op n) → l.labelAddr? n = some x₁ → l.succ? (some x) = some x₂ →
      Comes l y x₁ → Comes l y x₂ → Comes l y x

theorem Comes.inevitably {goal post : Config → Prop} (h : Comes l b a)
    (hb : l.entry? q = some (.label n)) (hg : ∀ c, goal c → At (some q) c)
    (hk : Inevitably (Step sem l) goal post (.run (some b) trace cpu)) :
    Inevitably (Step sem l) goal post (.run (some a) trace cpu) := by
  induction h with
  | here => exact hk
  | jmp he hl _ ih =>
    refine inevitably_jmp he hl (fun h => ?_) ih
    cases hg _ h
    rw [hb] at he; cases he
  | @jcc x _ n x₁ x₂ he hl hs _ _ ih₁ ih₂ =>
    have hd₁ : l.dest? x cpu (.goto n) = some (x₁, cpu) := by simp [dest?, hl]
    have hd₂ : l.dest? x cpu .next = some (x₂, cpu) := by simp [dest?, hs]
    refine inevitably_exec he (fun h => ?_) ⟨_, _, _, .jccNot⟩ ?_
    · cases hg _ h
      rw [hb] at he; cases he
    · intro out cpu' mv hdo
      cases hdo with
      | ordinary ho => simp [Entry.isOrdinary] at ho
      | jccTaken => exact ⟨_, cpu, hd₁, by simpa using ih₁⟩
      | jccNot => exact ⟨_, cpu, hd₂, by simpa using ih₂⟩

theorem Extends.output (h : Extends l l' pos) (ho : l.output? pos = some out) :
    l'.output? pos = some out := by
  cases pos with
  | none => exact ho
  | some a =>
    simp only [Insnlist.output?, Option.bind_eq_some_iff] at ho ⊢
    obtain ⟨e, he, ho⟩ := ho
    exact ⟨e, h.entry _ _ he, ho⟩

/-- Control reaches the old insert position in the longer list too; what it
does from there decides where it goes on to. -/
theorem Reaches.extend {goal post : Config → Prop} (h : Reaches sem l pos done)
    (hp : l.Placed pos) (hx : Extends l l' pos) (new : Addr → Prop)
    (hnew : ∀ a, new a → l.entry? a = none ∧ ∀ n, l'.entry? a ≠ some (.jmp n))
    (hgoal : ∀ c, goal c → ∃ a, new a ∧ At (some a) c)
    (hk : ∀ out trace cpu, l'.output? pos = some out → trace ++ out = done →
      Inevitably (Step sem l') goal post (.run pos trace cpu)) (ecx : BitVec 32) :
    Inevitably (Step sem l') goal post (.run none [] ⟨ecx, []⟩) := by
  have hsim : Sim l l' (.run none [] ⟨ecx, []⟩) (.run none [] ⟨ecx, []⟩) := .run .none .nil
  have hS : ∀ p, some p = pos → ∃ e, l.entry? p = some e := by
    rintro p rfl
    exact placed_iff_entry.1 hp
  refine (hx.simulate (S := (· = pos)) rfl hS new hnew (h ecx) hsim).bind (fun c hc => .inr (hgoal c hc)) ?_
  rintro c' - ⟨hat, c, hsim, out, hout, hdone⟩
  cases c' with
  | fault => cases hat
  | run pc trace cpu =>
    cases hat
    exact hk out trace cpu (hx.output hout) (by rw [← hdone, ← hsim.trace]; rfl)

/-- An entry that falls through, right after the insert position. -/
theorem Reaches.append (h : Reaches sem l pos done) (hp : l.Placed pos)
    (hi : l.IsAfter l' pos b e) (he : e.output? = some out)
    (hnew : ∀ n, e = .label n → l.labelAddr? n = none) :
    Reaches sem l' (some b) (done ++ out) := by
  have hx : Extends l l' pos := (Extends.refl l pos).after hi (.inl rfl) hnew
  refine h.extend hp hx (· = b) ?_ (fun c hc => ⟨b, rfl, hc⟩) ?_
  · rintro _ rfl
    refine ⟨hi.fresh, fun n hj => ?_⟩
    rw [hi.entry_new] at hj
    cases hj
    cases he
  · intro out' trace cpu hout hdone
    have hne : ¬ At (some b) (.run pos trace cpu) := by
      rintro rfl
      obtain ⟨e', he'⟩ := placed_iff_entry.1 hp
      rw [hi.fresh] at he'; cases he'
    refine inevitably_fall hout hi.succ_pos hne fun cpu' _ => .here rfl ⟨out, ?_, ?_⟩
    · simp [Insnlist.output?, hi.entry_new, he]
    · rw [← hdone]; rfl

/-- Jumps from the insert position to a new label. -/
theorem Reaches.jump (h : Reaches sem l pos done) (hp : l.Placed pos) (hx : Extends l l' pos)
    (hb : l.entry? b = none) (hl : l'.entry? b = some (.label n))
    (hs : l'.succ? pos = some a) (hc : Comes l' b a) : Reaches sem l' (some b) done := by
  refine h.extend hp hx (· = b) ?_ (fun c hc => ⟨b, rfl, hc⟩) ?_
  · rintro _ rfl
    exact ⟨hb, fun n hj => by rw [hl] at hj; cases hj⟩
  · intro out trace cpu hout hdone
    have hne : ¬ At (some b) (.run pos trace cpu) := by
      rintro rfl
      obtain ⟨e', he'⟩ := placed_iff_entry.1 hp
      rw [hb] at he'; cases he'
    refine inevitably_fall hout hs hne fun cpu' _ => ?_
    refine hc.inevitably hl (fun c h => h) (.here rfl ⟨[], ?_, ?_⟩)
    · exact output?_label hl
    · simpa [Config.trace] using hdone

end Btrtg
