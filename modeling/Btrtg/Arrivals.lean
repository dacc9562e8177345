import Btrtg.FlowLaws

/-!
# Arriving before the insert position

A longer list may be left at a position that control of the shorter one had
passed already. `Extends.reaches_iff` says when what is reached there is still
what has been generated.
-/

namespace Btrtg

open Insnlist Relation

variable {sem : Sem} {l l' : Insnlist} {pos : Option Addr} {q : Addr}

/-- One step while control has come neither to `pos` nor to `q`. -/
def Before (sem : Sem) (l : Insnlist) (pos : Option Addr) (q : Addr) (a b : Config) : Prop :=
  ¬ AtAny (fun p => p = pos ∨ p = some q) a ∧ Step sem l a b

/-- Control that comes to `q` no later than to `pos` has executed exactly `done` then. -/
def ArrivesWith (sem : Sem) (l : Insnlist) (pos : Option Addr) (q : Addr) (done : List Entry) :
    Prop :=
  ∀ ecx c, ReflTransGen (Before sem l pos q) (.run none [] ⟨ecx, []⟩) c → At (some q) c →
    c.trace = done

/-- The same position, up to the detours of the return addresses. -/
inductive Same (l l' : Insnlist) : Config → Config → Prop
  | run : List.Forall₂ (LeadsO l l') stack stack' →
      Same l l' (.run pc trace ⟨ecx, stack⟩) (.run pc trace ⟨ecx, stack'⟩)

/-- Control that leads to `y` comes to `y`. -/
theorem Leads.comes {trace : List Entry} {cpu : Cpu} {y y' : Addr} (h : Leads l l' y' y)
    (hq : l.entry? q ≠ none) :
    ReflTransGen (fun a b => ¬ At (some q) a ∧ Step sem l' a b)
      (.run (some y') trace cpu) (.run (some y) trace cpu) := by
  rcases h with rfl | ⟨hno, n, hj, hl⟩
  · exact .refl
  · refine .single ⟨?_, ?_⟩
    · rintro ⟨⟩
      exact hq hno
    · simpa using Step.entry hj .jmp (show l'.dest? y' cpu (.goto n) = some (y, cpu) by
        simp [dest?, hl])

/-- An execution of the shorter list up to one of the positions is one of the longer. -/
theorem Extends.lift (hx : Extends l l' pos) (hq : l.entry? q ≠ none) {c₀ c c₀' : Config}
    (hp : ReflTransGen (Before sem l pos q) c₀ c) (hc : c ≠ .fault) (h0 : Same l l' c₀ c₀') :
    ∃ c', ReflTransGen (fun a b => ¬ At (some q) a ∧ Step sem l' a b) c₀' c' ∧ Same l l' c c' := by
  induction hp with
  | refl => exact ⟨_, .refl, h0⟩
  | @tail a b _ hab ih =>
    obtain ⟨hnot, hstep⟩ := hab
    obtain ⟨a', hpath, hsame⟩ := ih (by rintro rfl; cases hstep)
    cases hsame with
    | @run st st' pc trace ecx hst =>
      have hpc : pc ≠ pos := fun h => hnot (.inl h)
      have hnq : ¬ At (some q) (.run pc trace ⟨ecx, st'⟩) := fun h => hnot (.inr h)
      cases hstep with
      | start hs =>
        obtain ⟨y', hy', hlead⟩ := hx.succ _ hpc _ hs
        exact ⟨_, (hpath.tail ⟨hnq, .start hy'⟩).trans (hlead.comes hq), .run hst⟩
      | fault => exact absurd rfl hc
      | @entry x e _ out cpu mv b _ cpu₂ he hdo hdest =>
        obtain ⟨⟨ecx₁, st₁⟩, hdo', hecx, hst₁⟩ := hdo.rel (r := LeadsO l l') .none hst
        cases hecx
        obtain ⟨b', ⟨ecx₂, st₂⟩, hdest', hlead, hecx₂, hst₂⟩ := hx.dest hpc hdest hst₁
        cases hecx₂
        exact ⟨_, (hpath.tail ⟨hnq, .entry (hx.entry _ _ he) hdo' hdest'⟩).trans (hlead.comes hq),
          .run hst₂⟩

/-- At a position that both lists have, the simulation is exact. -/
theorem Sim.same {c' : Config} {c : Config} (h : Sim l l' c c') {S : Option Addr → Prop}
    (hS : ∀ x, S (some x) → l.entry? x ≠ none) (hat : AtAny S c') : Same l l' c c' := by
  cases h with
  | run hpc hst =>
    cases hpc with
    | none => exact .run hst
    | some hlead =>
      rcases hlead with rfl | ⟨hno, -⟩
      · exact .run hst
      · exact absurd hno (hS _ hat)

/-- Control of the longer list reaches `q` with `done'` executed exactly when every
arrival at `q` before `pos` was with `done'`; `hk` is what happens from `pos` on. -/
theorem Extends.reaches_iff {n : Nat} (hx : Extends l l' pos) (hp : l.Placed pos)
    (h : Reaches sem l pos done) (hq : l.entry? q = some (.label n))
    (hk : pos ≠ some q → ∀ out trace cpu, l'.output? pos = some out → trace ++ out = done →
      Inevitably (Step sem l') (At (some q)) (Done l' (some q) done') (.run pos trace cpu)) :
    Reaches sem l' (some q) done' ↔ ArrivesWith sem l pos q done' := by
  have hqn : l.entry? q ≠ none := by
    rw [hq]
    nofun
  have hout : l'.output? (some q) = some [] :=
      output?_label (hx.entry _ _ hq)
  constructor
  · intro hr ecx c hpath hat
    have hc : c ≠ .fault := by
      rintro rfl
      exact hat
    obtain ⟨c', hpath', hsame⟩ := hx.lift hqn hpath hc (.run .nil)
    cases hsame with
    | @run st st' pc trace ecx' hst =>
      obtain ⟨out, ho, hd⟩ := ((hr ecx).along hpath').post_of_goal hat
      rw [hout] at ho
      cases ho
      exact (List.append_nil trace).symm.trans hd
  · intro harr ecx
    have hS : ∀ p, (some p = pos ∨ some p = some q) → ∃ e, l.entry? p = some e := by
      rintro p (rfl | hpq)
      · exact placed_iff_entry.1 hp
      · cases hpq
        exact ⟨_, hq⟩
    have hSn : ∀ p, (some p = pos ∨ some p = some q) → l.entry? p ≠ none := by
      intro p hp h
      obtain ⟨e, he⟩ := hS p hp
      rw [h] at he
      cases he
    have hsub : ∀ d, At pos d → AtAny (fun p => p = pos ∨ p = some q) d := by
      intro d hd
      cases d with
      | run => exact .inl hd
      | fault => exact hd
    have hin := (h ecx).earlier hsub .refl
    have hsim : Sim l l' (.run none [] ⟨ecx, []⟩) (.run none [] ⟨ecx, []⟩) := .run .none .nil
    refine (hx.simulate (.inl rfl) hS (fun _ => False) (fun _ h => h.elim) hin hsim).bind ?_ ?_
    · rintro d hd
      cases d with
      | run => exact .inl (.inr hd)
      | fault => exact hd.elim
    · rintro d' - ⟨hat, d, hsim, hgoal, hpath, hdone⟩
      have hsame := hsim.same hSn hat
      cases hsame with
      | @run st st' pc trace ecx' hst =>
        by_cases hpq : pc = some q
        · exact .here hpq ⟨[], hout, (List.append_nil trace).trans (harr ecx _ hpath hpq)⟩
        · have hpp : pc = pos := hat.resolve_right hpq
          subst hpp
          obtain ⟨out, ho, hd⟩ := hdone rfl
          exact hk hpq out trace _ (hx.output ho) hd

end Btrtg
