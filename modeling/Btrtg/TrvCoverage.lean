import Btrtg.TrvStep
import Mathlib.Data.Fintype.Card
import Mathlib.Data.Nat.ModEq

/-!
# The constants of a sampled traverse

With a step of its own a traverse may pass over every combination in which a
lane has a certain constant. Whether it does is a question about the multiples
of the step, as the index counts, in the mixed-radix system of the leaf numbers.
-/

namespace Btrtg

open List Wrap

-- ---------------------------------------------------------------------------
-- Walked ranks
-- ---------------------------------------------------------------------------

def Walked (step : Int) (r : Nat) : Prop :=
  step ≠ 0 ∧ (step = -1 → r < 2 ^ 31) ∧ step ∣ counter (2 ^ 31) r

section
variable {step : Int} {r n a b : Nat}

theorem walked_iff (hr : r < n) :
    Walked step r ↔ r < beforeTrap step n ∧ step ∣ counter (2 ^ 31) r := by
  unfold Walked beforeTrap
  split
  · rename_i hs
    simp [hs]
  split
  · rename_i hs
    simp [hs, hr]
  · rename_i h0 h1
    simp [h0, h1, hr]

theorem walked_natCast {p : Nat} (hp : 0 < p) (hr : r < 2 ^ 31) : Walked p r ↔ p ∣ r := by
  have h0 : (p : Int) ≠ 0 := by omega
  have h1 : (p : Int) ≠ -1 := by omega
  rw [Walked, counter_of_lt hr, Int.natCast_dvd_natCast]
  exact ⟨fun h => h.2.2, fun h => ⟨h0, fun hs => absurd hs h1, h⟩⟩

theorem walks_succ (step : Int) (n : Nat) [Decidable (Walked step n)] :
    walks step (n + 1) = walks step n + if Walked step n then 1 else 0 := by
  have hlt : n < beforeTrap step (n + 1) → beforeTrap step (n + 1) = n + 1 ∧ beforeTrap step n = n := by
    unfold beforeTrap
    split <;> [omega; split <;> omega]
  have hge : ¬ n < beforeTrap step (n + 1) → beforeTrap step (n + 1) = beforeTrap step n := by
    unfold beforeTrap
    split <;> [omega; split <;> omega]
  simp only [walked_iff (Nat.lt_succ_self n)]
  by_cases hb : n < beforeTrap step (n + 1)
  · have hs : step ≠ 0 := by
      rintro rfl
      exact absurd hb (Nat.not_lt_zero n)
    simp only [walks, (hlt hb).1, (hlt hb).2, multiples_succ (show 0 < 2 ^ 31 by decide)
      (Int.natAbs_pos.2 hs), Nat.lt_succ_self, true_and, Int.natAbs_dvd]
  · simp only [walks, hge hb, hge hb ▸ hb, false_and, if_false, Nat.add_zero]

theorem walks_mono : Monotone (walks step) := by
  classical
  refine monotone_nat_of_le_succ fun n => ?_
  rw [walks_succ]
  exact Nat.le_add_right ..

/-- Between two ranks there is one for which the body is walked. -/
theorem walks_lt_iff (h : a ≤ b) :
    walks step a < walks step b ↔ ∃ r, a ≤ r ∧ r < b ∧ Walked step r := by
  classical
  induction b, h using Nat.le_induction with
  | base => exact iff_of_false (Nat.lt_irrefl _) fun ⟨r, hle, hlt, _⟩ => Nat.not_lt.2 hle hlt
  | succ b hb ih =>
    rw [walks_succ]
    by_cases hw : Walked step b
    · rw [if_pos hw]
      exact iff_of_true (Nat.lt_succ_of_le (walks_mono hb)) ⟨b, hb, Nat.lt_succ_self b, hw⟩
    · rw [if_neg hw, Nat.add_zero, ih]
      refine exists_congr fun r => and_congr_right fun _ => ?_
      refine ⟨fun ⟨hlt, h⟩ => ⟨Nat.lt_succ_of_lt hlt, h⟩, fun ⟨hlt, h⟩ => ⟨?_, h⟩⟩
      refine Nat.lt_of_le_of_ne (Nat.le_of_lt_succ hlt) ?_
      rintro rfl
      exact hw h

end

-- ---------------------------------------------------------------------------
-- Multiples
-- ---------------------------------------------------------------------------

/-- For a lane over `cs`, with `hi` combinations of the lanes before it and `lo` of those
after it: each constant is that of a leaf which has one of the ranks `q` among its own. -/
def HitsAll (q : Nat → Prop) (hi lo : Nat) (cs : List ConstNode) : Prop :=
  ∀ c ∈ cs, ∃ r < hi * cs.length * lo, q r ∧ cs[r / lo % cs.length]? = some c

/-- While the index does not leap, the later lanes alone are enough for a multiple of the
step, or the earlier lanes run through all its residues; or each constant has a leaf for which
the body is walked in one of the `hi` blocks of `lo` ranks. -/
def LaneCovered (step : Int) (hi lo : Nat) (cs : List ConstNode) : Prop :=
  (0 < step ∧ hi * cs.length * lo ≤ 2 ^ 31 ∧
      (step ≤ lo ∨ step ≤ hi ∧ ¬ step ∣ cs.length)) ∨
    ∀ c ∈ cs, ∃ d h, cs[d]? = some c ∧ h < hi ∧
      walks step ((h * cs.length + d) * lo) < walks step ((h * cs.length + d + 1) * lo)

section
variable {p hi lo : Nat} {cs : List ConstNode}

/-- A multiple of the step among the combinations that share a leaf. -/
theorem hitsAll_of_le_lo (hp : 0 < p) (hhi : 0 < hi) (h : p ≤ lo) :
    HitsAll (p ∣ ·) hi lo cs := by
  intro c hc
  obtain ⟨d, hd, rfl⟩ := mem_iff_getElem.1 hc
  have hlo : 0 < lo := Nat.lt_of_lt_of_le hp h
  have hmod := Nat.div_add_mod (d * lo + p - 1) p
  have hlt := Nat.mod_lt (d * lo + p - 1) hp
  obtain ⟨r, hr⟩ : ∃ r, r = p * ((d * lo + p - 1) / p) := ⟨_, rfl⟩
  have hdiv : r / lo = d := by
    refine Nat.div_eq_of_lt_le (by omega) ?_
    rw [Nat.add_mul]
    omega
  refine ⟨r, ?_, ⟨_, hr⟩, ?_⟩
  · calc r < (d + 1) * lo := by rw [Nat.add_mul]; omega
      _ ≤ cs.length * lo := Nat.mul_le_mul_right lo hd
      _ ≤ hi * cs.length * lo := Nat.mul_le_mul_right lo (Nat.le_mul_of_pos_left _ hhi)
  · rw [hdiv, Nat.mod_eq_of_lt hd, getElem?_eq_getElem hd]

/-- The earlier lanes run through all residues of a prime. -/
theorem hitsAll_of_le_hi (hp : p.Prime) (hlo : 0 < lo) (hhi : p ≤ hi) (hn : ¬ p ∣ cs.length) :
    HitsAll (p ∣ ·) hi lo cs := by
  intro c hc
  obtain ⟨d, hd, rfl⟩ := mem_iff_getElem.1 hc
  have hcop : Nat.Coprime cs.length p := ((Nat.Prime.coprime_iff_not_dvd hp).2 hn).symm
  obtain ⟨k, hk, hklt⟩ : ∃ k, (k ≡ d [MOD cs.length] ∧ k ≡ 0 [MOD p]) ∧ k < cs.length * p :=
    ⟨_, (Nat.chineseRemainder hcop d 0).2,
      Nat.chineseRemainder_lt_mul hcop d 0 (Nat.ne_zero_of_lt hd) hp.ne_zero⟩
  have hdvd : p ∣ k := (Nat.modEq_zero_iff_dvd).1 hk.2
  have hmod : k % cs.length = d := by
    have := hk.1
    rwa [Nat.ModEq, Nat.mod_eq_of_lt hd] at this
  refine ⟨k * lo, ?_, Nat.dvd_mul_right_of_dvd hdvd lo, ?_⟩
  · refine Nat.mul_lt_mul_of_pos_right (Nat.lt_of_lt_of_le hklt ?_) hlo
    rw [Nat.mul_comm hi]
    exact Nat.mul_le_mul_left _ hhi
  · rw [Nat.mul_div_cancel k hlo, hmod, getElem?_eq_getElem hd]

theorem HitsAll.congr {q q' : Nat → Prop} (h : ∀ r < hi * cs.length * lo, (q r ↔ q' r)) :
    HitsAll q hi lo cs ↔ HitsAll q' hi lo cs := by
  refine forall₂_congr fun c _ => exists_congr fun r => and_congr_right fun hr => ?_
  rw [h r hr]

/-- A rank is that of a leaf in one of the blocks. -/
theorem hitsAll_iff {q : Nat → Prop} (hlo : 0 < lo) : HitsAll q hi lo cs ↔
    ∀ c ∈ cs, ∃ d h, cs[d]? = some c ∧ h < hi ∧ ∃ r, q r ∧ r / lo = h * cs.length + d := by
  refine forall₂_congr fun c _ => ?_
  constructor
  · rintro ⟨r, hr, hq, hc⟩
    have hn : 0 < cs.length := Nat.lt_of_le_of_lt (Nat.zero_le _) (List.getElem?_eq_some_iff.1 hc).1
    refine ⟨_, r / lo / cs.length, hc, ?_, r, hq, ?_⟩
    · rw [Nat.div_lt_iff_lt_mul hn, Nat.div_lt_iff_lt_mul hlo]
      exact hr
    · exact (Nat.div_add_mod' (r / lo) cs.length).symm
  · rintro ⟨d, h, hc, hh, r, hq, hr⟩
    have hdn := (List.getElem?_eq_some_iff.1 hc).1
    refine ⟨r, ?_, hq, ?_⟩
    · rw [← Nat.div_lt_iff_lt_mul hlo, hr]
      calc h * cs.length + d < (h + 1) * cs.length := by rw [Nat.add_mul]; omega
        _ ≤ hi * cs.length := Nat.mul_le_mul_right _ hh
    · rw [hr, Nat.mul_add_mod_of_lt hdn, hc]

theorem walks_block_iff {step : Int} {block : Nat} (hlo : 0 < lo) :
    walks step (block * lo) < walks step ((block + 1) * lo) ↔
      ∃ r, Walked step r ∧ r / lo = block := by
  rw [walks_lt_iff (Nat.mul_le_mul_right lo (Nat.le_succ block))]
  refine exists_congr fun r => ?_
  constructor
  · rintro ⟨hle, hlt, hw⟩
    exact ⟨hw, Nat.div_eq_of_lt_le hle hlt⟩
  · rintro ⟨hw, rfl⟩
    exact ⟨Nat.div_mul_le_self r lo, Nat.lt_mul_of_div_lt (Nat.lt_succ_self _) hlo, hw⟩

theorem laneCovered_iff {step : Int} (hstep : 0 < step → ∃ p : Nat, step = p ∧ (p = 1 ∨ p.Prime))
    (hhi : 0 < hi) (hlo : 0 < lo) :
    LaneCovered step hi lo cs ↔ HitsAll (Walked step) hi lo cs := by
  simp only [LaneCovered, walks_block_iff hlo, ← hitsAll_iff hlo]
  refine ⟨fun h => ?_, .inr⟩
  rcases h with ⟨hpos, hn, h⟩ | h
  · obtain ⟨p, rfl, hp⟩ := hstep hpos
    have hp0 : 0 < p := Int.natCast_pos.1 hpos
    rw [HitsAll.congr fun r hr => walked_natCast hp0 (Nat.lt_of_lt_of_le hr hn)]
    rcases h with h | ⟨h, hd⟩
    · exact hitsAll_of_le_lo hp0 hhi (Int.ofNat_le.1 h)
    · rcases hp with rfl | hp
      · exact hitsAll_of_le_lo hp0 hhi hlo
      · refine hitsAll_of_le_hi hp hlo (Int.ofNat_le.1 h) ?_
        rwa [← Int.natCast_dvd_natCast]
  · exact h

/-- A step that divides the leaf number of a lane passes over a leaf of it, unless the
later lanes are enough. -/
theorem not_hitsAll_of_dvd (hlo : 0 < lo) (hlt : lo < p) (hn : p ∣ cs.length)
    (hne : cs ≠ []) (hnd : cs.Nodup) : ¬ HitsAll (p ∣ ·) hi lo cs := by
  intro h
  have hpos : 0 < cs.length := length_pos_iff.2 hne
  have hfit : cs.length * lo / p < cs.length := by
    refine Nat.div_lt_of_lt_mul ?_
    rw [Nat.mul_comm p]
    exact Nat.mul_lt_mul_of_pos_left hlt hpos
  -- the multiples below the number of leaves and later combinations, one for each leaf
  have hs : ∀ d : Fin cs.length, ∃ k : Fin (cs.length * lo / p), p * k / lo = d := by
    intro d
    obtain ⟨r, -, hr, hrd⟩ := h cs[d] (getElem_mem d.2)
    have hd : r / lo % cs.length = d :=
      (getElem?_inj (Nat.mod_lt _ hpos) hnd).1 (hrd.trans (getElem?_eq_getElem d.2).symm)
    have hdvd : p ∣ r % (lo * cs.length) :=
      (Nat.dvd_mod_iff (Nat.dvd_mul_left_of_dvd hn lo)).2 hr
    obtain ⟨k, hk⟩ := hdvd
    have hklt : p * k < cs.length * lo := by
      rw [← hk, Nat.mul_comm cs.length]
      exact Nat.mod_lt _ (Nat.mul_pos hlo hpos)
    refine ⟨⟨k, (Nat.lt_div_iff_mul_lt' (Nat.dvd_mul_right_of_dvd hn lo) k).2 hklt⟩, ?_⟩
    rw [← hk, Nat.mod_mul_right_div_self, hd]
  choose f hf using hs
  have hinj : Function.Injective f := by
    intro d d' heq
    rw [Fin.ext_iff, ← hf d, ← hf d', heq]
  have hcard := Fintype.card_le_of_injective f hinj
  rw [Fintype.card_fin, Fintype.card_fin] at hcard
  exact Nat.not_lt.2 hcard hfit

end

-- ---------------------------------------------------------------------------
-- Lanes of a combination
-- ---------------------------------------------------------------------------

theorem mem_flagged {step : Int} {es : List (List (List ConstNode))}
    {vals : List (List ConstNode)} :
    (vals.map some, true) ∈ flagged step 0 (es.take (beforeTrap step es.length)) ↔
      ∃ r, es[r]? = some vals ∧ Walked step r := by
  have hinj : Function.Injective (List.map (some : List ConstNode → _)) :=
    map_injective_iff.2 (Option.some_injective _)
  simp only [flagged, mem_mapIdx, Prod.mk.injEq, decide_eq_true_eq, getElem_take, length_take,
    indexFrom_zero, hinj.eq_iff]
  constructor
  · rintro ⟨r, hr, rfl, hd⟩
    obtain ⟨hb, hlen⟩ := Nat.lt_min.1 hr
    exact ⟨r, getElem?_eq_getElem hlen, (walked_iff hlen).2 ⟨hb, hd⟩⟩
  · rintro ⟨r, hr, hw⟩
    obtain ⟨hlen, hv⟩ := List.getElem?_eq_some_iff.1 hr
    obtain ⟨hb, hd⟩ := (walked_iff hlen).1 hw
    exact ⟨r, Nat.lt_min.2 ⟨hb, hlen⟩, hv, hd⟩

/-- The number of combinations for the operands around one of them. -/
theorem prod_leafNums_split (ts₁ ts₂ : List WdRoot) (t : WdRoot) {j m : Nat}
    (hp : t.packedn = j + 1 + m) :
    (leafNums ts₁).prod * t.wdNode.leaves.length ^ j * t.wdNode.leaves.length *
        (t.wdNode.leaves.length ^ m * (leafNums ts₂).prod) =
      (leafNums (ts₁ ++ t :: ts₂)).prod := by
  simp only [leafNums, flatMap_append, flatMap_cons, prod_append, prod_replicate, hp, pow_add]
  ring

/-- The constant in a lane of the combination with a certain rank. -/
theorem lane_of_combo {ts₁ ts₂ : List WdRoot} {t : WdRoot} {r j m : Nat}
    {vals : List (List ConstNode)} (h : (combos (ts₁ ++ t :: ts₂))[r]? = some vals)
    (hp : t.packedn = j + 1 + m) :
    ∃ w, vals[ts₁.length]? = some w ∧
      w[j]? = t.wdNode.leaves[r / (t.wdNode.leaves.length ^ m * (leafNums ts₂).prod) %
        t.wdNode.leaves.length]? := by
  have hlen : ((ts₂.map WdRoot.lanes).map List.length).prod = (leafNums ts₂).prod := by
    rw [← length_lexProduct, ← length_combos]
    rfl
  rw [combos, map_append, map_cons] at h
  have hw := getElem?_of_lexProduct h
  rw [length_map, hlen] at hw
  have hpos : ts₁.length < vals.length := by
    have := length_of_mem_lexProduct (mem_of_getElem? h)
    simp only [this, length_append, length_map, length_cons]
    omega
  refine ⟨vals[ts₁.length], getElem?_eq_getElem hpos, ?_⟩
  rw [getElem?_eq_getElem hpos, WdRoot.lanes, hp, Nat.add_assoc, replicate_add, Nat.add_comm 1 m,
    replicate_succ] at hw
  have hc := getElem?_of_lexProduct hw.symm
  rw [length_replicate, map_replicate, prod_replicate, length_lexProduct, map_append, map_cons,
    map_replicate, map_replicate, prod_append, prod_cons, prod_replicate, prod_replicate] at hc
  have hsize : t.wdNode.leaves.length ^ j * (t.wdNode.leaves.length * t.wdNode.leaves.length ^ m) =
      t.wdNode.leaves.length ^ m * (t.wdNode.leaves.length * t.wdNode.leaves.length ^ j) := by
    ring
  rw [hc, hsize, Nat.mod_mul_right_div_self, Nat.mod_mod_of_dvd _ (Nat.dvd_mul_right _ _),
    Nat.div_div_eq_div_mul, Nat.mul_comm (leafNums ts₂).prod]

-- ---------------------------------------------------------------------------
-- The constants that are walked
-- ---------------------------------------------------------------------------

/-- The body was walked with `c` in lane `j` of operand `i`. -/
def Occurs (reached : List (List (Option (List ConstNode)) × Bool)) (i j : Nat) (c : ConstNode) :
    Prop :=
  ∃ (vals : List (List ConstNode)) (w : List ConstNode), (vals.map some, true) ∈ reached ∧
    vals[i]? = some w ∧ w[j]? = some c

/-- The body was walked with each constant of each lane. -/
def AllConstantsWalked (trees : List WdRoot) (g : Gen) (r : Except Fault Unit × Gen) : Prop :=
  ∀ ts₁ t ts₂, trees = ts₁ ++ t :: ts₂ → ∀ j < t.packedn, ∀ c ∈ t.wdNode.leaves,
    Occurs (newlyReached g r) ts₁.length j c

/-- The lanes of the operands are covered by the ranks for which the body is walked. -/
def AllLanesCovered (trees : List WdRoot) : Prop :=
  ∀ ts₁ t ts₂, trees = ts₁ ++ t :: ts₂ → ∀ j m, t.packedn = j + 1 + m →
    LaneCovered (stepOf trees) ((leafNums ts₁).prod * t.wdNode.leaves.length ^ j)
      (t.wdNode.leaves.length ^ m * (leafNums ts₂).prod) t.wdNode.leaves

theorem leafNums_prod_pos {trees : List WdRoot} (h : ∀ t ∈ trees, t.wdNode.leaves ≠ []) :
    0 < (leafNums trees).prod := by
  refine prod_pos ?_
  intro n hn
  obtain ⟨t, ht, hn⟩ := mem_flatMap.1 hn
  rw [(mem_replicate.1 hn).2]
  exact length_pos_iff.2 (h t ht)

/-- A positive step is 1 or a prime. -/
theorem stepOf_cases {trees : List WdRoot} (h : 0 < stepOf trees) :
    ∃ p : Nat, stepOf trees = p ∧ (p = 1 ∨ p.Prime) := by
  unfold stepOf trvStepOf at h ⊢
  split at h <;> rename_i hlarge
  · rw [if_pos hlarge]
    generalize wrap 32 _ = limit at h ⊢
    unfold greatestPrime at h ⊢
    split at h <;> rename_i hpos
    · rw [if_pos hpos]
      have hprime := isPrime_greatestPrimeNat (limit.toNat - 1)
      rw [Nat.sub_add_cancel (Int.lt_toNat.2 hpos), isPrime_iff] at hprime
      refine ⟨_, rfl, hprime.imp_left fun hle => ?_⟩
      omega
    · exact absurd h hpos
  · exact ⟨1, if_neg hlarge, .inl rfl⟩

/-- In the combinations for which the body is walked, a lane has the constants that their ranks
hit. -/
theorem occurs_iff_hitsAll {ts₁ ts₂ : List WdRoot} {t : WdRoot} {j m : Nat} {step : Int}
    (hp : t.packedn = j + 1 + m) :
    (∀ c ∈ t.wdNode.leaves, Occurs (flagged step 0 ((combos (ts₁ ++ t :: ts₂)).take
        (beforeTrap step (combos (ts₁ ++ t :: ts₂)).length))) ts₁.length j c) ↔
      HitsAll (Walked step) ((leafNums ts₁).prod * t.wdNode.leaves.length ^ j)
        (t.wdNode.leaves.length ^ m * (leafNums ts₂).prod) t.wdNode.leaves := by
  refine forall₂_congr fun c _ => ?_
  rw [prod_leafNums_split ts₁ ts₂ t hp, ← length_combos]
  constructor
  · rintro ⟨vals, w, hm, hw, hc⟩
    obtain ⟨r, hr, hd⟩ := mem_flagged.1 hm
    obtain ⟨w', hw', hl⟩ := lane_of_combo hr hp
    cases hw.symm.trans hw'
    exact ⟨r, (List.getElem?_eq_some_iff.1 hr).1, hd, hl.symm.trans hc⟩
  · rintro ⟨r, hr, hd, hc⟩
    have hv := getElem?_eq_getElem hr
    obtain ⟨w, hw, hl⟩ := lane_of_combo hv hp
    exact ⟨_, w, mem_flagged.2 ⟨r, hv, hd⟩, hw, hl.trans hc⟩

section
variable {blk : BlkId} {blks : List Blk} {trees : List WdRoot} {ref : TrvRef} {g : Gen}
  (hfree : allTraverseFree blks) (hne : trees ≠ []) (hp : ∀ t ∈ trees, 0 < t.packedn)
  (h0 : g.trvArrays ref = []) (hv : ∀ v, g.nextVal ≤ v → g.valArrays v = none)
  (hleaf : ∀ t ∈ trees, t.wdNode.leaves ≠ [])
include hfree hne hp h0 hv hleaf

end

def hundred : WdRoot :=
  ⟨1, .leaf ((range 100).map fun i => ⟨.imm32, .ofNat 96 i, .none, 0, 0, 0, 0⟩)⟩

theorem length_hundred : hundred.wdNode.leaves.length = 100 := by
  simp [hundred, WdNode.leaves]

theorem hundred_ne_nil : hundred.wdNode.leaves ≠ [] :=
  length_pos_iff.1 (length_hundred.symm ▸ Nat.succ_pos 99)

end Btrtg
