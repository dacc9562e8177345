import Btrtg.Lib.Product
import Btrtg.Traverse

/-!
# The combinations of a traverse

What `preorder_traverse_tk_trees` completes, in its order, with the flag of
those for which the body is walked.
-/

namespace Btrtg

open Prog List Wrap

/-- The lists of constants for one operand. -/
def WdRoot.lanes (t : WdRoot) : List (List ConstNode) :=
  lexProduct (replicate t.packedn t.wdNode.leaves)

def combos (trees : List WdRoot) : List (List (List ConstNode)) := lexProduct (trees.map WdRoot.lanes)

/-- `trv_index` after `n` combinations. -/
def indexFrom (i : Int) (n : Nat) : Int := (fun i => wrap 32 (i + 1))^[n] i

theorem indexFrom_add (i : Int) (m n : Nat) :
    indexFrom i (m + n) = indexFrom (indexFrom i m) n := by
  rw [indexFrom, Nat.add_comm, Function.iterate_add_apply]
  rfl

theorem indexFrom_zero (n : Nat) : indexFrom 0 n = counter (2 ^ 31) n := by
  rw [← wrap_natCast]
  induction n with
  | zero => rfl
  | succ n ih =>
    rw [indexFrom_add, ih]
    exact wrap_wrap_add 32 n 1

/-- The completed combinations, from the index `i` on, with the flag of those whose index is
a multiple of `step`. -/
def flagged (step i : Int) (es : List (List (List ConstNode))) :
    List (List (Option (List ConstNode)) × Bool) :=
  es.mapIdx fun r vals => (vals.map some, step ∣ indexFrom i r)

theorem flagged_append (step i : Int) (es es' : List (List (List ConstNode))) :
    flagged step i (es ++ es') = flagged step i es ++ flagged step (indexFrom i es.length) es' := by
  simp only [flagged, mapIdx_append, Nat.add_comm _ es.length, indexFrom_add]

theorem flagged_singleton (step i : Int) (vals : List (List ConstNode)) :
    flagged step i [vals] = [(vals.map some, decide (i.tmod step = 0))] := by
  have hd : decide (step ∣ i) = decide (i.tmod step = 0) :=
    decide_eq_decide.2 Int.dvd_iff_tmod_eq_zero
  rw [← hd]
  rfl

/-- The division of the index by `trv_step` traps. -/
def Traps (step i : Int) : Prop := step = 0 ∨ step = -1 ∧ i = intMin

/-- None of the divisions for `n` combinations traps. -/
def TrapFree (step i : Int) (n : Nat) : Prop := ∀ j < n, ¬ Traps step (indexFrom i j)

theorem TrapFree.add {step i : Int} {m n : Nat} (h : TrapFree step i m)
    (h' : TrapFree step (indexFrom i m) n) : TrapFree step i (m + n) := by
  intro j hj
  by_cases hm : j < m
  · exact h j hm
  · have hsplit : j = m + (j - m) := by omega
    rw [hsplit, indexFrom_add]
    exact h' _ (by omega)

/-- A part of a traverse completed `es` and left the arrays as they were. -/
structure Completed (g g' : Gen) (es : List (List (List ConstNode))) : Prop where
  trvArrays : g'.trvArrays = g.trvArrays
  valArrays : g'.valArrays = g.valArrays
  nextVal : g.nextVal ≤ g'.nextVal
  trvStep : g'.trvStep = g.trvStep
  trvIndex : g'.trvIndex = indexFrom g.trvIndex es.length
  trapFree : TrapFree g.trvStep g.trvIndex es.length
  reached : g'.reached = g.reached ++ flagged g.trvStep g.trvIndex es

theorem Completed.trans (h : Completed g₁ g₂ es) (h' : Completed g₂ g₃ es') :
    Completed g₁ g₃ (es ++ es') where
  trvArrays := h'.trvArrays.trans h.trvArrays
  valArrays := h'.valArrays.trans h.valArrays
  nextVal := Nat.le_trans h.nextVal h'.nextVal
  trvStep := h'.trvStep.trans h.trvStep
  trvIndex := by rw [h'.trvIndex, h.trvIndex, length_append, indexFrom_add]
  trapFree := by
    rw [length_append]
    refine h.trapFree.add ?_
    rw [← h.trvIndex, ← h.trvStep]
    exact h'.trapFree
  reached := by
    rw [h'.reached, h.reached, flagged_append, append_assoc, h.trvStep, h.trvIndex]

theorem Calm.completed (h : Calm g g') : Completed g g' [] where
  trvArrays := h.trvArrays
  valArrays := h.valArrays
  nextVal := Nat.le_of_eq h.nextVal.symm
  trvStep := h.trvStep
  trvIndex := h.trvIndex
  trapFree := fun j hj => absurd hj (Nat.not_lt_zero j)
  reached := by simp [h.reached, flagged]

/-- A division trapped after some of `es`. -/
structure Trapped (g g' : Gen) (es : List (List (List ConstNode))) (n : Nat) : Prop where
  lt : n < es.length
  trapFree : TrapFree g.trvStep g.trvIndex n
  traps : Traps g.trvStep (indexFrom g.trvIndex n)
  reached : g'.reached = g.reached ++ flagged g.trvStep g.trvIndex (es.take n)

theorem Trapped.append (h : Trapped g g' es n) (es' : List (List (List ConstNode))) :
    Trapped g g' (es ++ es') n where
  lt := by
    rw [length_append]
    exact Nat.lt_add_right _ h.lt
  trapFree := h.trapFree
  traps := h.traps
  reached := by rw [take_append_of_le_length (Nat.le_of_lt h.lt), h.reached]

theorem Completed.trapped (h : Completed g₁ g₂ es) (h' : Trapped g₂ g₃ es' n) :
    Trapped g₁ g₃ (es ++ es') (es.length + n) where
  lt := by
    rw [length_append]
    exact Nat.add_lt_add_left h'.lt _
  trapFree := by
    refine h.trapFree.add ?_
    rw [← h.trvIndex, ← h.trvStep]
    exact h'.trapFree
  traps := by
    rw [indexFrom_add, ← h.trvIndex, ← h.trvStep]
    exact h'.traps
  reached := by
    rw [h'.reached, h.reached, take_length_add_append, flagged_append, append_assoc, h.trvStep,
      h.trvIndex]

def OwnFault (e : Fault) (step : Int) : Prop := e = .intOverflow ∨ e = .divByZero ∧ step = 0

/-- How a part of a traverse ends in a fault: a division trapped, or it is a fault of the
body. -/
structure Faulted (body : M Unit) (e : Fault) (g g' : Gen) (es : List (List (List ConstNode))) :
    Prop where
  trvStep : g'.trvStep = g.trvStep
  own : OwnFault e g.trvStep → ∃ n, Trapped g g' es n
  body : ¬ OwnFault e g.trvStep → ∃ g₁ g₂, body.run g₁ = (.error e, g₂)

/-- From `g` the program completes `es`, unless it faults. -/
structure Enumerates (body m : M Unit) (g : Gen) (es : List (List (List ConstNode))) : Prop where
  ok : ∀ g', m.run g = (.ok (), g') → Completed g g' es
  error : ∀ e g', m.run g = (.error e, g') → Faulted body e g g' es

section
variable {body m m' : M Unit} {g g' : Gen} {es es' : List (List (List ConstNode))}

theorem Completed.faulted (h : Completed g₁ g₂ es) (h' : Faulted body e g₂ g₃ es') :
    Faulted body e g₁ g₃ (es ++ es') where
  trvStep := h'.trvStep.trans h.trvStep
  own he := by
    obtain ⟨n, hn⟩ := h'.own (h.trvStep ▸ he)
    exact ⟨_, h.trapped hn⟩
  body he := h'.body (h.trvStep ▸ he)

theorem Enumerates.bind (h : Enumerates body m g es)
    (h' : ∀ g₁, Completed g g₁ es → Enumerates body m' g₁ es') :
    Enumerates body (m >>= fun _ => m') g (es ++ es') := by
  cases hm : m.run g with
  | mk r g₁ =>
    cases r with
    | ok a =>
      have hc := h.ok g₁ hm
      have hk := h' g₁ hc
      refine ⟨fun g' hr => ?_, fun e g' hr => ?_⟩ <;> rw [run_bind_ok hm] at hr
      · exact hc.trans (hk.ok g' hr)
      · exact hc.faulted (hk.error e g' hr)
    | error e =>
      refine ⟨fun g' hr => ?_, fun e g' hr => ?_⟩ <;> rw [run_bind_error hm] at hr <;> cases hr
      have hf := h.error _ _ hm
      refine ⟨hf.trvStep, fun he => ?_, hf.body⟩
      obtain ⟨n, hn⟩ := hf.own he
      exact ⟨n, hn.append es'⟩

/-- What completes `es` between two programs that succeed. -/
theorem Enumerates.between {α : Type} {m : M α} {k : α → M Unit} {k' : α → M Unit} {a : α}
    {g₁ : Gen} (hm : m.run g = (.ok a, g₁)) (h : Enumerates body (k a) g₁ es)
    (hi : g₁.trvIndex = g.trvIndex) (hs : g₁.trvStep = g.trvStep) (hg : g₁.reached = g.reached)
    (hk : ∀ g₂, Completed g₁ g₂ es → ∃ g₃, (k' a).run g₂ = (.ok (), g₃) ∧ Completed g g₃ es) :
    Enumerates body (do let a ← m; k a; k' a) g es := by
  have hfault : ∀ e g', (do let a ← m; k a; k' a).run g = (.error e, g') →
      (k a).run g₁ = (.error e, g') := by
    intro e g' hr
    rw [run_bind_ok hm] at hr
    cases hr₁ : (k a).run g₁ with
    | mk r g₂ =>
      cases r with
      | ok _ =>
        obtain ⟨g₃, h₃, -⟩ := hk g₂ (h.ok g₂ hr₁)
        rw [run_bind_ok hr₁, h₃] at hr
        cases hr
      | error e' =>
        rw [run_bind_error hr₁] at hr
        exact hr
  refine ⟨fun g' hr => ?_, fun e g' hr => ?_⟩
  · rw [run_bind_ok hm] at hr
    obtain ⟨_, g₂, h₁, h₂⟩ := bind_ok.1 hr
    obtain ⟨g₃, h₃, hc⟩ := hk g₂ (h.ok g₂ h₁)
    cases h₂.symm.trans h₃
    exact hc
  · have hf := h.error e g' (hfault e g' hr)
    refine ⟨hf.trvStep.trans hs, fun he => ?_, fun he => hf.body (hs.symm ▸ he)⟩
    obtain ⟨n, hn⟩ := hf.own (hs.symm ▸ he)
    refine ⟨n, hn.lt, ?_, ?_, ?_⟩
    · simpa only [hi, hs] using hn.trapFree
    · simpa only [hi, hs] using hn.traps
    · simpa only [hi, hs, hg] using hn.reached

theorem enumerates_nil (g : Gen) : Enumerates body (pure ()) g [] where
  ok g' hr := by
    cases hr
    exact (Calm.refl g).completed
  error e g' hr := by cases hr

end

-- ---------------------------------------------------------------------------
-- One tree
-- ---------------------------------------------------------------------------

mutual
/-- The nodes of a tree are taken in the order of its leaves. -/
theorem forLeaves_eq (f : ConstNode → M Unit) :
    (n : WdNode) → forLeaves f n = n.leaves.forM f
  | .leaf cs => rfl
  | .inner _ subs => by rw [forLeaves, WdNode.leaves, forLeavesList_eq f subs]
theorem forLeavesList_eq (f : ConstNode → M Unit) :
    (ns : List WdNode) → forLeavesList f ns = (leavesList ns).forM f
  | [] => rfl
  | n :: ns => by
    rw [forLeavesList, leavesList, forLeaves_eq f n, forLeavesList_eq f ns]
    exact (forM_append ..).symm
end

section
variable {P : Gen → Prop} {body : M Unit} {f : ConstNode → M Unit}
  {es : ConstNode → List (List (List ConstNode))}
  (hP : ∀ g g' xs, P g → Completed g g' xs → P g')
  (hf : ∀ c g, P g → Enumerates body (f c) g (es c))
include hP hf

theorem enumerates_forM (cs : List ConstNode) (g : Gen) (hg : P g) :
    Enumerates body (cs.forM f) g (cs.flatMap es) := by
  induction cs generalizing g with
  | nil => exact enumerates_nil g
  | cons c cs ih =>
    rw [flatMap_cons]
    change Enumerates body (f c >>= fun _ => cs.forM f) g _
    exact (hf c g hg).bind fun g₁ h₁ => ih g₁ (hP g g₁ _ hg h₁)

theorem enumerates_forLeaves (n : WdNode) (g : Gen) (hg : P g) :
    Enumerates body (forLeaves f n) g (n.leaves.flatMap es) := by
  rw [forLeaves_eq]
  exact enumerates_forM hP hf _ g hg

end

-- ---------------------------------------------------------------------------
-- Arrays
-- ---------------------------------------------------------------------------

/-- `trv_nodes` holds the arrays `refs`, and these the constants `vals`. -/
structure Holding (ref : TrvRef) (g : Gen) (refs : List ValRef) (vals : List (List ConstNode)) :
    Prop where
  arr : g.trvArrays ref = refs
  vals : refs.map g.valArrays = vals.map some
  nodup : refs.Nodup
  old : ∀ v ∈ refs, v < g.nextVal
  fresh : ∀ v, g.nextVal ≤ v → g.valArrays v = none

section
variable {ref : TrvRef} {g g' : Gen} {refs : List ValRef} {vals : List (List ConstNode)}
  {v : ValRef} {cur : List ConstNode} {c : ConstNode} {body m : M Unit}
  {es : List (List (List ConstNode))}

theorem Holding.completed (h : Holding ref g refs vals) (hc : Completed g g' es) :
    Holding ref g' refs vals where
  arr := hc.trvArrays ▸ h.arr
  vals := hc.valArrays ▸ h.vals
  nodup := h.nodup
  old w hw := Nat.lt_of_lt_of_le (h.old w hw) hc.nextVal
  fresh w hw := hc.valArrays ▸ h.fresh w (Nat.le_trans hc.nextVal hw)

theorem Holding.last (h : Holding ref g (refs ++ [v]) (vals ++ [cur])) :
    g.valArrays v = some cur ∧ refs.map g.valArrays = vals.map some := by
  have hv := h.vals
  simp only [map_append, map_cons, map_nil] at hv
  obtain ⟨h₁, h₂⟩ := append_inj' hv rfl
  exact ⟨by simpa using h₂, h₁⟩

theorem Holding.notMem_last (h : Holding ref g (refs ++ [v]) vals) : v ∉ refs := by
  intro hm
  exact (nodup_append'.1 h.nodup).2.2 hm mem_cons_self

/-- The last array with other contents. -/
theorem Holding.write (h : Holding ref g (refs ++ [v]) (vals ++ [cur])) (cur' : List ConstNode) :
    Holding ref { g with valArrays := fun r => if r = v then some cur' else g.valArrays r }
      (refs ++ [v]) (vals ++ [cur']) where
  arr := h.arr
  vals := by
    have hne : ∀ r ∈ refs, r ≠ v := fun r hr he => h.notMem_last (he ▸ hr)
    have hmap : refs.map (fun r => if r = v then some cur' else g.valArrays r) =
        refs.map g.valArrays := map_congr_left fun r hr => if_neg (hne r hr)
    simp [hmap, h.last.2]
  nodup := h.nodup
  old := h.old
  fresh w hw := by
    have hwv : w ≠ v := by
      rintro rfl
      exact Nat.lt_irrefl _ (Nat.lt_of_lt_of_le (h.old w (by simp)) hw)
    exact (if_neg hwv).trans (h.fresh w hw)

theorem pushVal_run (h : g.valArrays v = some cur) :
    (pushVal v c).run g = (.ok (), { g with
      valArrays := fun r => if r = v then some (cur ++ [c]) else g.valArrays r }) := by
  simp only [pushVal, run_bind, run_get, h]
  rfl

theorem removeVal_run (h : g.valArrays v = some cur) (i : Nat) :
    (removeVal v i).run g = (.ok (), { g with
      valArrays := fun r => if r = v then some (cur.eraseIdx i) else g.valArrays r }) := by
  simp only [removeVal, run_bind, run_get, h]
  rfl

/-- A constant is pushed for a part of the traverse and removed after it. -/
theorem enumerates_pushed (h : Holding ref g (refs ++ [v]) (vals ++ [cur])) {i : Nat}
    (hi : i = cur.length)
    (hm : ∀ g₁, Holding ref g₁ (refs ++ [v]) (vals ++ [cur ++ [c]]) → Enumerates body m g₁ es) :
    Enumerates body (do pushVal v c; m; removeVal v i) g es := by
  subst hi
  have hcur := h.last.1
  refine .between (pushVal_run hcur) (hm _ (h.write _)) rfl rfl rfl fun g₂ hc => ?_
  refine ⟨_, removeVal_run (by rw [hc.valArrays]; exact if_pos rfl) _, ?_⟩
  refine ⟨hc.trvArrays, ?_, hc.nextVal, hc.trvStep, hc.trvIndex, hc.trapFree,
    hc.reached⟩
  funext r
  dsimp only
  rw [hc.valArrays]
  by_cases hr : r = v
  · simp [hr, hcur, eraseIdx_append_of_length_le]
  · simp [hr]

/-- An array is appended to `trv_nodes` for a part of the traverse. -/
theorem enumerates_opened {m : ValRef → M Unit} (h : Holding ref g refs vals) {i : Nat}
    (hi : i = refs.length)
    (hm : ∀ g₁ v, Holding ref g₁ (refs ++ [v]) (vals ++ [[]]) → Enumerates body (m v) g₁ es) :
    Enumerates body (do let v ← newValNodes ref; m v; freeValNodes ref i v) g es := by
  subst hi
  have hfresh := h.fresh g.nextVal (Nat.le_refl _)
  have hne : ∀ r ∈ refs, r ≠ g.nextVal := fun r hr => Nat.ne_of_lt (h.old r hr)
  refine .between (show (newValNodes ref).run g = (.ok g.nextVal, _) from rfl) (hm _ _ ?_) rfl rfl
    rfl fun g₂ hc => ⟨_, rfl, ?_⟩
  · refine ⟨?_, ?_, ?_, ?_, ?_⟩
    · simp [h.arr]
    · have hmap : refs.map (fun r => if r = g.nextVal then some [] else g.valArrays r) =
          refs.map g.valArrays := map_congr_left fun r hr => if_neg (hne r hr)
      simp [hmap, h.vals]
    · refine nodup_append'.2 ⟨h.nodup, nodup_singleton _, ?_⟩
      simpa using fun hm => hne _ hm rfl
    · intro r hr
      rcases mem_append.1 hr with hr | hr
      · exact Nat.lt_succ_of_lt (h.old r hr)
      · rw [mem_singleton.1 hr]
        exact Nat.lt_succ_self _
    · intro r hr
      have hlt : g.nextVal < r := hr
      exact (if_neg (Nat.ne_of_gt hlt)).trans (h.fresh r (Nat.le_of_lt hlt))
  · refine ⟨?_, ?_, Nat.le_of_lt hc.nextVal, hc.trvStep, hc.trvIndex, hc.trapFree,
    hc.reached⟩
    · funext r
      dsimp only
      rw [hc.trvArrays]
      by_cases hr : r = ref
      · simp [hr, h.arr, eraseIdx_append_of_length_le]
      · simp [hr]
    · funext r
      dsimp only
      rw [hc.valArrays]
      by_cases hr : r = g.nextVal
      · simp [hr, hfresh]
      · simp [hr]

end

-- ---------------------------------------------------------------------------
-- The recursion
-- ---------------------------------------------------------------------------

section
variable {blk : BlkId} {body : M Unit} (hb : Keeps Calm NoOverflow body) {ref : TrvRef} {g : Gen}
  {refs : List ValRef} {vals : List (List ConstNode)}

/-- The state in which the body of a completed combination begins. -/
def Gen.counted (ref : TrvRef) (g : Gen) : Gen :=
  { g with
    trvIndex := wrap 32 (g.trvIndex + 1)
    log := g.log ++ [Event.reached ((g.trvArrays ref).map g.valArrays)
      (g.trvIndex.tmod g.trvStep = 0)] }

/-- What follows the completion of a combination leaves it completed. -/
theorem Calm.counted {g' : Gen} (hc : Calm (g.counted ref) g') (h : Holding ref g refs vals)
    (ht : ¬ Traps g.trvStep g.trvIndex) : Completed g g' [vals] where
  trvArrays := hc.trvArrays
  valArrays := hc.valArrays
  nextVal := Nat.le_of_eq hc.nextVal.symm
  trvStep := hc.trvStep
  trvIndex := hc.trvIndex
  trapFree j hj := by
    obtain rfl : j = 0 := Nat.lt_one_iff.1 hj
    exact ht
  reached := by
    have hmap : (g.trvArrays ref).map g.valArrays = vals.map some := by rw [h.arr, h.vals]
    rw [hc.reached, Gen.reached, Gen.counted, hmap, flagged_singleton]
    simp [Gen.reached, Event.reached?]

theorem trapped_first {g' : Gen} (ht : Traps g.trvStep g.trvIndex)
    (hr : g'.reached = g.reached) : Trapped g g' [vals] 0 where
  lt := Nat.one_pos
  trapFree j hj := absurd hj (Nat.not_lt_zero j)
  traps := ht
  reached := by simp [hr, flagged]

include hb in
theorem enumerates_complete (h : Holding ref g refs vals) :
    Enumerates body (complete blk body ref) g [vals] := by
  by_cases hs : g.trvStep = 0
  · have hrun : (complete blk body ref).run g =
        (.error .divByZero, { g with trvIndex := wrap 32 (g.trvIndex + 1) }) := by
      simp only [complete, run_bind, run_get, run_modify, if_pos hs, run_throw]
    refine ⟨fun g' hr => ?_, fun e g' hr => ?_⟩ <;> rw [hrun] at hr <;> cases hr
    exact ⟨rfl, fun _ => ⟨0, trapped_first (.inl hs) rfl⟩, fun he => absurd (.inr ⟨rfl, hs⟩) he⟩
  by_cases hi : g.trvStep = -1 ∧ g.trvIndex = intMin
  · have hrun : (complete blk body ref).run g =
        (.error .intOverflow, { g with trvIndex := wrap 32 (g.trvIndex + 1) }) := by
      simp only [complete, run_bind, run_get, run_modify, if_neg hs, if_pos hi, run_throw]
    refine ⟨fun g' hr => ?_, fun e g' hr => ?_⟩ <;> rw [hrun] at hr <;> cases hr
    exact ⟨rfl, fun _ => ⟨0, trapped_first (.inr hi) rfl⟩, fun he => absurd (.inl rfl) he⟩
  have hrun : (complete blk body ref).run g =
      (if g.trvIndex.tmod g.trvStep = 0 then do blkInvalidVarAll blk; body else pure ()).run
        (g.counted ref) := by
    simp only [complete, run_bind, run_get, run_modify, if_neg hs, if_neg hi, record]
    rfl
  have hcalm : Keeps Calm NoOverflow
      (if g.trvIndex.tmod g.trvStep = 0 then do blkInvalidVarAll blk; body else pure ()) := by
    split
    · refine Keeps.bind (CalmPrim.keeps (.prim (.modify fun g => ?_))) (fun _ _ _ => Calm.trans)
        fun _ => hb
      exact ⟨rfl, rfl, rfl, rfl, rfl, rfl⟩
    · exact CalmPrim.keeps (.pure ())
  obtain ⟨hc, hf⟩ := hcalm (g.counted ref)
  refine ⟨fun g' hr => ?_, fun e g' hr => ?_⟩ <;> rw [hrun] at hr <;> rw [hr] at hc hf
  · exact hc.counted h fun ht => ht.elim hs hi
  · refine ⟨hc.trvStep, fun he => ?_, fun _ => ?_⟩
    · rcases he with rfl | he
      · exact absurd rfl (hf _ rfl)
      · exact absurd he.2 hs
    · split at hr
      · exact ⟨_, g', hr⟩
      · cases hr

/-- The lanes of one tree, each of which starts again at the root. -/
theorem enumerates_lanes {next : M Unit} {tree : WdRoot} {v : ValRef}
    {k : List ConstNode → List (List (List ConstNode))}
    (hn : ∀ w g, Holding ref g (refs ++ [v]) (vals ++ [w]) → Enumerates body next g (k w))
    (lanes : Nat) (cur : List ConstNode) (g : Gen) (hlen : tree.packedn = cur.length + (lanes + 1))
    (h : Holding ref g (refs ++ [v]) (vals ++ [cur])) :
    Enumerates body (traverseLanes next tree v lanes) g
      ((lexProduct (replicate (lanes + 1) tree.wdNode.leaves)).flatMap fun w => k (cur ++ w)) := by
  induction lanes generalizing cur g with
  | zero =>
    have hes : (lexProduct (replicate 1 tree.wdNode.leaves)).flatMap (fun w => k (cur ++ w)) =
        tree.wdNode.leaves.flatMap fun c => k (cur ++ [c]) := by
      simp [lexProduct, flatMap_assoc]
    rw [hes]
    refine enumerates_forLeaves (P := fun g => Holding ref g (refs ++ [v]) (vals ++ [cur]))
      (fun _ _ _ h hc => h.completed hc) (fun c g h => ?_) _ g h
    exact enumerates_pushed h (by omega) (hn _)
  | succ lanes ih =>
    have hes : (lexProduct (replicate (lanes + 2) tree.wdNode.leaves)).flatMap
        (fun w => k (cur ++ w)) = tree.wdNode.leaves.flatMap fun c =>
          (lexProduct (replicate (lanes + 1) tree.wdNode.leaves)).flatMap
            fun w => k (cur ++ [c] ++ w) := by
      rw [replicate_succ, lexProduct, flatMap_assoc]
      simp [flatMap_map]
    rw [hes]
    refine enumerates_forLeaves (P := fun g => Holding ref g (refs ++ [v]) (vals ++ [cur]))
      (fun _ _ _ h hc => h.completed hc) (fun c g h => ?_) _ g h
    refine enumerates_pushed h (by omega) fun g₁ h₁ => ih (cur ++ [c]) g₁ ?_ h₁
    simp only [length_append, length_singleton]
    omega

include hb in
theorem enumerates_trees (trees : List WdRoot) (hne : trees ≠ []) (hp : ∀ t ∈ trees, 0 < t.packedn)
    (v : ValRef) (g : Gen) (refs : List ValRef) (vals : List (List ConstNode))
    (h : Holding ref g (refs ++ [v]) (vals ++ [[]])) :
    Enumerates body (traverseTrees blk body ref trees refs.length v) g
      ((combos trees).map (vals ++ ·)) := by
  induction trees generalizing v g refs vals with
  | nil => exact absurd rfl hne
  | cons tree trees ih =>
    obtain ⟨hp₀, hp⟩ := forall_mem_cons.1 hp
    have hes : (combos (tree :: trees)).map (vals ++ ·) =
        tree.lanes.flatMap fun w => (combos trees).map (vals ++ [w] ++ ·) := by
      simp [combos, lexProduct, map_flatMap, Function.comp_def]
    rw [hes]
    unfold traverseTrees
    simp only [Nat.ne_of_gt hp₀, ↓reduceIte]
    have hlanes : tree.lanes = lexProduct (replicate (tree.packedn - 1 + 1) tree.wdNode.leaves) := by
      rw [WdRoot.lanes, Nat.sub_add_cancel hp₀]
    rw [hlanes]
    have hlen : tree.packedn = ([] : List ConstNode).length + (tree.packedn - 1 + 1) := by
      rw [length_nil, Nat.zero_add, Nat.sub_add_cancel hp₀]
    refine enumerates_lanes (k := fun w => (combos trees).map (vals ++ [w] ++ ·))
      (fun w g₁ h₁ => ?_) _ [] g hlen h
    cases trees with
    | nil => simpa [combos] using enumerates_complete hb h₁
    | cons tree' trees =>
      refine enumerates_opened h₁ (by simp) fun g₂ v₂ h₂ => ?_
      simpa using ih (cons_ne_nil _ _) hp v₂ g₂ (refs ++ [v]) (vals ++ [w]) h₂

end

-- ---------------------------------------------------------------------------
-- The number of combinations
-- ---------------------------------------------------------------------------

/-- How many leaves there are for each lane of each operand. -/
def leafNums (trees : List WdRoot) : List Nat :=
  trees.flatMap fun t => replicate t.packedn t.wdNode.leaves.length

theorem length_combos (trees : List WdRoot) :
    (combos trees).length = (leafNums trees).prod := by
  rw [combos, length_lexProduct]
  induction trees with
  | nil => rfl
  | cons tree trees ih =>
    have hnums : leafNums (tree :: trees) =
        replicate tree.packedn tree.wdNode.leaves.length ++ leafNums trees := rfl
    rw [map_cons, map_cons, prod_cons, ih, hnums, prod_append, WdRoot.lanes, length_lexProduct,
      map_replicate]

def stepOf (trees : List WdRoot) : Int := trvStepOf (possibleTrvNum trees 1)

theorem mulLong_eq (x k : Int) (j : Nat) : mulLong (wrap 64 x) k j = wrap 64 (x * k ^ j) := by
  induction j generalizing x with
  | zero => rw [mulLong, Int.pow_zero, Int.mul_one]
  | succ j ih => rw [mulLong, wrap_wrap_mul, ih, Int.mul_assoc, ← Int.pow_succ']

/-- The product of the leaf numbers, as long as they are no more than an `int`. -/
theorem possibleTrvNum_eq (trees : List WdRoot) (acc : Nat)
    (h : ∀ t ∈ trees, (t.wdNode.leaves.length : Int) ≤ intMax) :
    possibleTrvNum trees (wrap 64 acc) = wrap 64 (acc * (leafNums trees).prod : Nat) := by
  induction trees generalizing acc with
  | nil => simp [possibleTrvNum, leafNums]
  | cons tree trees ih =>
    obtain ⟨ht, htrees⟩ := forall_mem_cons.1 h
    have hleaf : getTkTreeLeafNum tree.wdNode = tree.wdNode.leaves.length := by
      rw [getTkTreeLeafNum_eq]
      simp only [intMax] at ht
      exact wrap_of_fits (by decide) (by omega) (by omega)
    have hnums : leafNums (tree :: trees) =
        replicate tree.packedn tree.wdNode.leaves.length ++ leafNums trees := rfl
    rw [possibleTrvNum, hleaf, mulLong_eq, ← Int.natCast_pow, ← Int.natCast_mul, ih _ htrees,
      hnums, prod_append, prod_replicate, Nat.mul_assoc]

-- ---------------------------------------------------------------------------
-- Traverse blocks
-- ---------------------------------------------------------------------------

/-- The run of a traverse block ended in its body, not by a division of its own. -/
def EndsInBody (r : Except Fault Unit × Gen) : Prop :=
  ∃ e, r.1 = .error e ∧ ¬ OwnFault e r.2.trvStep

/-- How many of `n` combinations are completed before a division by `step` traps. -/
def beforeTrap (step : Int) (n : Nat) : Nat :=
  if step = 0 then 0 else if step = -1 then min n (2 ^ 31) else n

/-- The combinations were completed in order up to the first division that traps; if there is
none, the block returned and the arrays are as they were. -/
structure Swept (trees : List WdRoot) (g : Gen) (r : Except Fault Unit × Gen) : Prop where
  trvStep : r.2.trvStep = stepOf trees
  reached : r.2.reached = g.reached ++
    flagged (stepOf trees) 0 ((combos trees).take (beforeTrap (stepOf trees) (leafNums trees).prod))
  returned : r.1 = .ok () ↔ beforeTrap (stepOf trees) (leafNums trees).prod = (leafNums trees).prod
  arrays : r.1 = .ok () → r.2.trvArrays = g.trvArrays ∧ r.2.valArrays = g.valArrays

section
variable {step : Int} {n m : Nat}

theorem indexFrom_of_lt (h : n < 2 ^ 31) : indexFrom 0 n = n := by
  rw [indexFrom_zero, counter_of_lt h]

theorem indexFrom_half : indexFrom 0 (2 ^ 31) = intMin := by
  rw [indexFrom_zero]
  decide

theorem beforeTrap_of_trapFree (h : TrapFree step 0 n) : beforeTrap step n = n := by
  unfold beforeTrap
  split
  · rename_i hs
    by_contra hn
    exact h 0 (by omega) (.inl hs)
  split
  · rename_i hs
    refine Nat.min_eq_left (Nat.le_of_not_lt fun hlt => ?_)
    exact h _ hlt (.inr ⟨hs, indexFrom_half⟩)
  · rfl

theorem beforeTrap_of_traps (h : TrapFree step 0 m) (ht : Traps step (indexFrom 0 m))
    (hm : m < n) : beforeTrap step n = m := by
  unfold beforeTrap
  rcases ht with hs | ⟨hs, hi⟩
  · rw [if_pos hs]
    by_contra hn
    exact h 0 (by omega) (.inl hs)
  · have hle : 2 ^ 31 ≤ m := by
      by_contra hlt
      rw [indexFrom_of_lt (by omega), intMin] at hi
      omega
    have hge : m ≤ 2 ^ 31 := by
      by_contra hlt
      exact h _ (Nat.lt_of_not_le hlt) (.inr ⟨hs, indexFrom_half⟩)
    rw [if_neg (by rw [hs]; decide), if_pos hs]
    omega

end

section
variable {blk : BlkId} {blks : List Blk} {trees : List WdRoot} {ref : TrvRef} {g : Gen}
  (hfree : allTraverseFree blks) (hne : trees ≠ []) (hp : ∀ t ∈ trees, 0 < t.packedn)
  (h0 : g.trvArrays ref = []) (hv : ∀ v, g.nextVal ≤ v → g.valArrays v = none)

/-- The traverse proper. -/
def traverseAll (blk : BlkId) (blks : List Blk) (trees : List WdRoot) (ref : TrvRef) : M Unit := do
  let valNodes ← newValNodes ref
  traverseTrees blk (walkBlks blk 0 blks) ref trees 0 valNodes
  freeValNodes ref 0 valNodes

include hfree hne hp h0 hv in
theorem enumerates_traverseAll :
    Enumerates (walkBlks blk 0 blks) (traverseAll blk blks trees ref) g (combos trees) := by
  have hbody : Keeps Calm NoOverflow (walkBlks blk 0 blks) :=
    calm_walk.walkBlks blk 0 blks fun h => by simp [hfree] at h
  have h : Holding ref g [] [] := ⟨h0, rfl, nodup_nil, nofun, hv⟩
  refine enumerates_opened h rfl fun g₁ v h₁ => ?_
  simpa using enumerates_trees hbody trees hne hp v g₁ [] [] h₁

/-- The state in which the traverse proper begins. -/
def Gen.atTraverse (g : Gen) (blk : BlkId) (step : Int) : Gen :=
  { g with
    currBlk := some blk
    trvStep := step
    trvIndex := 0 }

include hne in
theorem walkTrv_run :
    (walkBlk blk (.trv (some ⟨trees, ref⟩) blks)).run g =
      (traverseAll blk blks trees ref).run (g.atTraverse blk (stepOf trees)) := by
  unfold walkBlk walkTrvBlk
  simp only [setCurrBlk, run_bind, run_modify, hne, ne_eq, not_false_eq_true, ↓reduceIte,
    traverseAll, Gen.atTraverse, stepOf]

include hfree hne hp h0 hv

/-- A run that ends in the body ends as the body does. -/
theorem endsInBody_body
    (h : EndsInBody ((walkBlk blk (.trv (some ⟨trees, ref⟩) blks)).run g)) :
    ∃ e g₁ g₂, (walkBlks blk 0 blks).run g₁ = (.error e, g₂) := by
  have hen : Enumerates (walkBlks blk 0 blks) (traverseAll blk blks trees ref)
      (g.atTraverse blk (stepOf trees)) (combos trees) :=
    enumerates_traverseAll hfree hne hp h0 hv
  rw [walkTrv_run hne] at h
  obtain ⟨e, he, hown⟩ := h
  have hf := hen.error e _ (run_eq he)
  rw [hf.trvStep] at hown
  exact ⟨e, hf.body hown⟩

/-- What a traverse does whose body returns. -/
theorem swept (hret : ¬ EndsInBody ((walkBlk blk (.trv (some ⟨trees, ref⟩) blks)).run g)) :
    Swept trees g ((walkBlk blk (.trv (some ⟨trees, ref⟩) blks)).run g) := by
  have hen : Enumerates (walkBlks blk 0 blks) (traverseAll blk blks trees ref)
      (g.atTraverse blk (stepOf trees)) (combos trees) :=
    enumerates_traverseAll hfree hne hp h0 hv
  rw [walkTrv_run hne] at hret ⊢
  rcases hr : (traverseAll blk blks trees ref).run (g.atTraverse blk (stepOf trees)) with ⟨e | _, g'⟩
  · have hf := hen.error e g' hr
    have hown : OwnFault e (stepOf trees) := by
      by_contra hown
      rw [hr] at hret
      exact hret ⟨e, rfl, hf.trvStep ▸ hown⟩
    obtain ⟨n, hn⟩ := hf.own hown
    have hlt : n < (leafNums trees).prod := length_combos trees ▸ hn.lt
    have hbefore := beforeTrap_of_traps hn.trapFree hn.traps hlt
    refine ⟨hf.trvStep, ?_, iff_of_false nofun ?_, nofun⟩
    · exact hbefore ▸ hn.reached
    · exact hbefore ▸ Nat.ne_of_lt hlt
  · have hc := hen.ok g' hr
    have hbefore := beforeTrap_of_trapFree (length_combos trees ▸ hc.trapFree)
    refine ⟨hc.trvStep, ?_, iff_of_true rfl hbefore, fun _ => ⟨hc.trvArrays, hc.valArrays⟩⟩
    have htake : (combos trees).take (leafNums trees).prod = combos trees := by
      rw [← length_combos, take_length]
    exact hbefore.symm ▸ htake.symm ▸ hc.reached

end

-- ---------------------------------------------------------------------------
-- Ranks
-- ---------------------------------------------------------------------------

/-- Every combination was completed, in order, the body was walked for those whose rank is a
multiple of `trv_step`, and the arrays are as they were. -/
structure Traversed (trees : List WdRoot) (g : Gen) (r : Except Fault Unit × Gen) : Prop where
  returned : r.1 = .ok ()
  reached : r.2.reached = g.reached ++
    (combos trees).mapIdx fun rank vals => (vals.map some, decide (r.2.trvStep ∣ rank))
  trvArrays : r.2.trvArrays = g.trvArrays
  valArrays : r.2.valArrays = g.valArrays

/-- The multiples of the step among `n` ranks are those among the values of the index: as
many as `INT_MAX` lets, or any number when the step divides what the index leaps. -/
def InStep (step : Int) (n : Nat) : Prop :=
  n = 0 ∨ step ≠ 0 ∧ (step ∣ 2 ^ 32 ∧ step ≠ -1 ∨ n ≤ firstAstray (2 ^ 31) step.natAbs)

section
variable {step : Int} {n : Nat}

theorem flagged_eq_ranks (es : List (List (List ConstNode))) :
    (flagged step 0 es = es.mapIdx fun rank vals => (vals.map some, decide (step ∣ rank))) ↔
      ∀ r < es.length, (step ∣ counter (2 ^ 31) r ↔ step ∣ r) := by
  simp only [flagged, mapIdx_eq_mapIdx_iff, Prod.mk.injEq, decide_eq_decide, true_and,
    indexFrom_zero]

theorem inStep_iff (hle : step.natAbs ≤ 2 ^ 31) :
    (beforeTrap step n = n ∧ ∀ r < n, (step ∣ counter (2 ^ 31) r ↔ step ∣ r)) ↔
      InStep step n := by
  have hdvd : (∀ r < n, (step ∣ counter (2 ^ 31) r ↔ step ∣ r)) ↔
      ∀ r < n, ((step.natAbs : Int) ∣ counter (2 ^ 31) r ↔ step.natAbs ∣ r) := by
    simp only [Int.natAbs_dvd, ← Int.natCast_dvd_natCast]
  rw [hdvd, InStep]
  by_cases hs : step = 0
  · subst hs
    simp only [beforeTrap, ↓reduceIte, ne_eq, not_true, false_and, or_false]
    refine ⟨fun h => h.1.symm, fun hn => ⟨hn.symm, fun r hr => ?_⟩⟩
    exact absurd (hn ▸ hr) (Nat.not_lt_zero r)
  rw [forall_dvd_counter_iff (Int.natAbs_pos.2 hs) hle, beforeTrap, if_neg hs]
  by_cases h1 : step = -1
  · subst h1
    have hone : firstAstray (2 ^ 31) (-1 : Int).natAbs = 2 ^ 31 := by decide
    rw [hone, if_pos rfl]
    simp
    omega
  · have hpow : step ∣ 2 ^ 32 ↔ step.natAbs ∣ 2 * 2 ^ 31 := by
      rw [← Int.natAbs_dvd, ← Int.natCast_dvd_natCast]
      rfl
    rw [if_neg h1, hpow]
    constructor
    · rintro ⟨-, h⟩
      exact .inr ⟨hs, h.imp (fun h => ⟨h, h1⟩) id⟩
    · rintro (rfl | ⟨-, h⟩)
      · exact ⟨rfl, .inr (Nat.zero_le _)⟩
      · exact ⟨rfl, h.imp And.left id⟩

end

theorem greatestPrimeNat_le (n : Nat) : greatestPrimeNat n ≤ n := by
  induction n with
  | zero => exact Nat.le_refl 0
  | succ n ih =>
    unfold greatestPrimeNat
    split
    · exact Nat.le_refl _
    · exact Nat.le_succ_of_le ih

theorem natAbs_trvStepOf_le (possible : Int) : (trvStepOf possible).natAbs ≤ 2 ^ 31 := by
  unfold trvStepOf
  split
  · have hb := wrap_bounds 32 (possible.tdiv expectedTrvNum + 1)
    generalize wrap 32 (possible.tdiv expectedTrvNum + 1) = limit at hb
    rw [greatestPrime]
    split
    · have hle := greatestPrimeNat_le limit.toNat
      rw [Int.natAbs_natCast]
      omega
    · omega
  · decide

section
variable {blk : BlkId} {blks : List Blk} {trees : List WdRoot} {ref : TrvRef} {g : Gen}
  (hfree : allTraverseFree blks) (hne : trees ≠ []) (hp : ∀ t ∈ trees, 0 < t.packedn)
  (h0 : g.trvArrays ref = []) (hv : ∀ v, g.nextVal ≤ v → g.valArrays v = none)
include hfree hne hp h0 hv

/-- A traverse whose body returns enumerates its combinations, with the body walked by their
ranks, exactly when the index keeps step with these. -/
theorem traversed_iff_inStep
    (hret : ¬ EndsInBody ((walkBlk blk (.trv (some ⟨trees, ref⟩) blks)).run g)) :
    Traversed trees g ((walkBlk blk (.trv (some ⟨trees, ref⟩) blks)).run g) ↔
      InStep (stepOf trees) (leafNums trees).prod := by
  have h := swept hfree hne hp h0 hv hret
  have hlen := length_combos trees
  have hle : (stepOf trees).natAbs ≤ 2 ^ 31 := natAbs_trvStepOf_le _
  rw [← inStep_iff hle, ← h.returned, ← hlen, ← flagged_eq_ranks]
  constructor
  · intro ht
    refine ⟨ht.returned, ?_⟩
    have hr := h.reached
    rw [h.returned.1 ht.returned, ← hlen, take_length, ht.reached, h.trvStep] at hr
    exact (append_cancel_left hr).symm
  · rintro ⟨hok, hf⟩
    refine ⟨hok, ?_, (h.arrays hok).1, (h.arrays hok).2⟩
    rw [h.reached, h.returned.1 hok, ← hlen, take_length, hf, h.trvStep]

end

def oneLeaf : WdRoot := ⟨1, .leaf [⟨.imm32, 1, .none, 0, 0, 0, 0⟩]⟩

/-- A traverse with an empty body ends by itself. -/
theorem not_endsInBody_nil {trees : List WdRoot} (hne : trees ≠ [])
    (hp : ∀ t ∈ trees, 0 < t.packedn) :
    ¬ EndsInBody ((walkBlk [] (.trv (some ⟨trees, 0⟩) [])).run (Gen.plain 200)) := by
  intro h
  obtain ⟨e, g₁, g₂, hr⟩ := endsInBody_body rfl hne hp rfl (fun _ _ => rfl) h
  cases hr

theorem traversed_iff_inStep_oneLeaf :
    Traversed [oneLeaf] (Gen.plain 200)
      ((walkBlk [] (.trv (some ⟨[oneLeaf], 0⟩) [])).run (Gen.plain 200)) ↔
      InStep (stepOf [oneLeaf]) (leafNums [oneLeaf]).prod :=
  traversed_iff_inStep rfl (cons_ne_nil _ _) (by simp [oneLeaf]) rfl (fun _ _ => rfl)
    (not_endsInBody_nil (cons_ne_nil _ _) (by simp [oneLeaf]))

def eightLanes : WdRoot := ⟨8, .leaf (replicate 4 ⟨.imm32, 1, .none, 0, 0, 0, 0⟩)⟩

/-- Two such operands have 2^32 combinations, and the step 524287 does not divide what the
index leaps at the 2^31st of them. -/
theorem eight_lanes_twice_not_traversed :
    ¬ Traversed [eightLanes, eightLanes] (Gen.plain 200)
      ((walkBlk [] (.trv (some ⟨[eightLanes, eightLanes], 0⟩) [])).run (Gen.plain 200)) := by
  have hne : [eightLanes, eightLanes] ≠ [] := cons_ne_nil _ _
  have hp : ∀ t ∈ [eightLanes, eightLanes], 0 < t.packedn := by simp [eightLanes]
  rw [traversed_iff_inStep rfl hne hp rfl (fun _ _ => rfl) (not_endsInBody_nil hne hp)]
  have hprod : (leafNums [eightLanes, eightLanes]).prod = 2 ^ 32 := by decide
  have hstep : stepOf [eightLanes, eightLanes] = 524287 := by decide +kernel
  rw [hprod, hstep, InStep]
  decide

end Btrtg
