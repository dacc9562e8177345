import Btrtg.TraverseRuns
import Mathlib.NumberTheory.Bertrand
import Mathlib.Data.Nat.Sqrt

/-!
# The step of a traverse

`greatest_prime` finds the greatest prime below its argument, which lies above
half of it. So the body of a traverse that counts its combinations is walked for
`2 * EXPECTED_TRV_NUM` of them at most.
-/

namespace Btrtg

open List Wrap

-- ---------------------------------------------------------------------------
-- Primes
-- ---------------------------------------------------------------------------

/-- The loop takes the odd numbers away as long as it can. -/
theorem sqrtiFrom_eq (s fuel num : Nat) (h : num ≤ fuel) :
    sqrtiFrom s fuel num = Nat.sqrt (s * s + num) := by
  induction fuel generalizing s num with
  | zero =>
    obtain rfl := Nat.le_zero.1 h
    simp [sqrtiFrom, Nat.sqrt_eq]
  | succ fuel ih =>
    unfold sqrtiFrom
    split
    · rename_i hs
      rw [ih _ _ (by omega)]
      congr 1
      have : (s + 1) * (s + 1) = s * s + (2 * s + 1) := by ring
      omega
    · rename_i hs
      have : (s + 1) * (s + 1) = s * s + (2 * s + 1) := by ring
      exact Nat.eq_sqrt.2 ⟨Nat.le_add_right _ _, by omega⟩

theorem sqrti_eq (num : Nat) : sqrti num = num.sqrt := by
  rw [sqrti, sqrtiFrom_eq 0 num num (Nat.le_refl num), Nat.zero_mul, Nat.zero_add]

/-- The odd divisors up to the root decide whether a number is prime. -/
theorem isPrime_iff (n : Nat) : isPrime n = true ↔ n ≤ 1 ∨ n.Prime := by
  unfold isPrime
  split
  · rename_i h3
    have : ∀ n ≤ 3, n ≤ 1 ∨ n.Prime := by decide
    simp [this n h3]
  rename_i h3
  have h1 : ¬ n ≤ 1 := by omega
  simp only [h1, false_or]
  split
  · rename_i h2
    have hnp : ¬ n.Prime := fun hp => by
      have := (Nat.prime_dvd_prime_iff_eq Nat.prime_two hp).1 (Nat.dvd_of_mod_eq_zero h2)
      omega
    simp [hnp]
  · rename_i h2
    simp only [all_eq_true, mem_range', bne_iff_ne, ne_eq, sqrti_eq]
    constructor
    · intro hall
      by_contra hnp
      have hp := Nat.minFac_prime (n := n) (by omega)
      have hdvd := Nat.minFac_dvd n
      have hsq : n.minFac ≤ n.sqrt :=
        Nat.le_sqrt.2 (by simpa [pow_two] using Nat.minFac_sq_le_self (by omega) hnp)
      have hodd : n.minFac % 2 = 1 := by
        rcases hp.eq_two_or_odd with h | h
        · rw [h] at hdvd
          exact absurd (Nat.mod_eq_zero_of_dvd hdvd) h2
        · exact h
      have hge := hp.two_le
      refine hall n.minFac ⟨(n.minFac - 3) / 2, by omega, by omega⟩ (Nat.mod_eq_zero_of_dvd hdvd)
    · rintro hp i ⟨k, hk, rfl⟩ hmod
      have hlt : n.sqrt < n := Nat.sqrt_lt_self (by omega)
      rcases (Nat.dvd_prime hp).1 (Nat.dvd_of_mod_eq_zero hmod) with h | h <;> omega

theorem le_greatestPrimeNat {i n : Nat} (hi : i ≤ n) (hp : isPrime i) :
    i ≤ greatestPrimeNat n := by
  induction n with
  | zero => exact hi
  | succ n ih =>
    unfold greatestPrimeNat
    split
    · exact hi
    · rename_i hn
      refine ih (Nat.le_of_lt_succ (Nat.lt_of_le_of_ne hi ?_))
      rintro rfl
      exact hn hp

theorem isPrime_greatestPrimeNat (n : Nat) : isPrime (greatestPrimeNat (n + 1)) := by
  induction n with
  | zero => decide
  | succ n ih =>
    rw [greatestPrimeNat]
    split
    · assumption
    · exact ih

/-- The greatest prime up to a number lies above half of it. -/
theorem half_lt_greatestPrimeNat {n : Nat} (h : 2 ≤ n) :
    (greatestPrimeNat n).Prime ∧ n < 2 * greatestPrimeNat n := by
  obtain ⟨p, hp, hlt, hle⟩ := Nat.exists_prime_lt_and_le_two_mul (n / 2) (by omega)
  have hpn : p ≤ greatestPrimeNat n :=
    le_greatestPrimeNat (by omega) ((isPrime_iff p).2 (.inr hp))
  have htwo := hp.two_le
  have hprime := (isPrime_iff _).1 (isPrime_greatestPrimeNat (n - 1))
  rw [Nat.sub_add_cancel (by omega)] at hprime
  exact ⟨hprime.resolve_left (by omega), by omega⟩

-- ---------------------------------------------------------------------------
-- The step
-- ---------------------------------------------------------------------------

/-- With few combinations the step is 1. -/
theorem trvStepOf_small {n : Nat} (h : n < 8192) : trvStepOf n = 1 := by
  have hdiv : (n : Int).tdiv expectedTrvNum = 0 := by
    rw [Int.tdiv_eq_ediv_of_nonneg (Int.natCast_nonneg n)]
    simp only [expectedTrvNum]
    omega
  simp [trvStepOf, hdiv]

/-- With more it is a prime in the upper half of `n / 8192 + 1`. -/
theorem trvStepOf_large {n : Nat} (h : 8192 ≤ n) (hn : (n : Int) ≤ intMax) :
    ∃ p : Nat, trvStepOf n = p ∧ p.Prime ∧ p ≤ n / 8192 + 1 ∧ n / 8192 + 1 < 2 * p := by
  simp only [intMax] at hn
  have hdiv : (n : Int).tdiv expectedTrvNum = (n / 8192 : Nat) := by
    rw [Int.tdiv_eq_ediv_of_nonneg (Int.natCast_nonneg n)]
    rfl
  have hwrap : wrap 32 ((n / 8192 : Nat) + 1) = ((n / 8192 + 1 : Nat) : Int) :=
    wrap_of_fits (by decide) (by omega) (by omega)
  refine ⟨greatestPrimeNat (n / 8192 + 1), ?_, ?_⟩
  · rw [trvStepOf, hdiv, if_pos (by omega), hwrap, greatestPrime, if_pos (by omega),
      Int.toNat_natCast]
  · obtain ⟨hp, hlt⟩ := half_lt_greatestPrimeNat (n := n / 8192 + 1) (by omega)
    exact ⟨hp, greatestPrimeNat_le _, hlt⟩

/-- The product of the leaf numbers is computed when it is no more than an `int`. -/
theorem stepOf_eq {trees : List WdRoot} (hp : ∀ t ∈ trees, 0 < t.packedn)
    (hpos : 0 < (leafNums trees).prod) (hn : ((leafNums trees).prod : Int) ≤ intMax) :
    stepOf trees = trvStepOf (leafNums trees).prod := by
  have hleaf : ∀ t ∈ trees, (t.wdNode.leaves.length : Int) ≤ intMax := by
    intro t ht
    have hmem : t.wdNode.leaves.length ∈ leafNums trees :=
      mem_flatMap.2 ⟨t, ht, mem_replicate.2 ⟨Nat.ne_of_gt (hp t ht), rfl⟩⟩
    have hle := Nat.le_of_dvd hpos (dvd_prod hmem)
    omega
  have hprod := possibleTrvNum_eq trees 1 hleaf
  rw [Nat.one_mul] at hprod
  simp only [intMax] at hn
  have hfits : wrap 64 ((leafNums trees).prod : Nat) = (leafNums trees).prod :=
    wrap_of_fits (by decide) (by omega) (by omega)
  exact congrArg trvStepOf (hprod.trans hfits)

-- ---------------------------------------------------------------------------
-- How often the body is walked
-- ---------------------------------------------------------------------------

/-- The combinations that were completed since, and whether the body was walked for them. -/
def newlyReached (g : Gen) (r : Except Fault Unit × Gen) :
    List (List (Option (List ConstNode)) × Bool) := r.2.reached.drop g.reached.length

theorem Swept.newlyReached {trees : List WdRoot} {g : Gen} {r : Except Fault Unit × Gen}
    (h : Swept trees g r) : Btrtg.newlyReached g r = flagged (stepOf trees) 0
      ((combos trees).take (beforeTrap (stepOf trees) (leafNums trees).prod)) := by
  rw [Btrtg.newlyReached, h.reached, drop_left]

/-- The body was walked for 2 * `EXPECTED_TRV_NUM` combinations at most, and for all of them
when they are fewer than `EXPECTED_TRV_NUM`. -/
structure Sampled (trees : List WdRoot) (g : Gen) (r : Except Fault Unit × Gen) : Prop where
  walks : (newlyReached g r).countP Prod.snd ≤ 2 * 8192
  all : (leafNums trees).prod < 8192 →
    newlyReached g r = (combos trees).map fun vals => (vals.map some, true)

def walks (step : Int) (n : Nat) : Nat := multiples (2 ^ 31) step.natAbs (beforeTrap step n)

theorem beforeTrap_le (step : Int) (n : Nat) : beforeTrap step n ≤ n := by
  unfold beforeTrap
  split
  · exact Nat.zero_le n
  split
  · exact Nat.min_le_left ..
  · exact Nat.le_refl n

theorem countP_flagged {step : Int} (hs : step ≠ 0) (es : List (List (List ConstNode))) :
    (flagged step 0 es).countP Prod.snd = multiples (2 ^ 31) step.natAbs es.length := by
  have hm : 0 < step.natAbs := Int.natAbs_pos.2 hs
  induction es using List.reverseRecOn with
  | nil => rw [length_nil, multiples_zero (by decide) hm, flagged, mapIdx_nil, countP_nil]
  | append_singleton es e ih =>
    have hflag : flagged step (indexFrom 0 es.length) [e] =
        [(e.map some, decide (step ∣ counter (2 ^ 31) es.length))] := by
      rw [← indexFrom_zero]
      rfl
    rw [flagged_append, countP_append, ih, hflag, length_append, length_singleton,
      multiples_succ (by decide) hm]
    simp only [Int.natAbs_dvd, countP_singleton, decide_eq_true_eq]

theorem countP_walks (step : Int) (es : List (List (List ConstNode))) :
    (flagged step 0 (es.take (beforeTrap step es.length))).countP Prod.snd =
      walks step es.length := by
  have hlen : (es.take (beforeTrap step es.length)).length = beforeTrap step es.length :=
    length_take_of_le (beforeTrap_le ..)
  by_cases hs : step = 0
  · subst hs
    simp [walks, beforeTrap, flagged, multiples, multiplesFrom]
  · rw [countP_flagged hs, hlen, walks]

/-- The multiples of the step among no more than `INT_MAX` combinations are few. -/
theorem walks_le {n : Nat} (hn : (n : Int) ≤ intMax) : walks (trvStepOf n) n ≤ 2 * 8192 := by
  have hH : n ≤ 2 ^ 31 := by
    simp only [intMax] at hn
    omega
  by_cases h : n < 8192
  · have hb : beforeTrap 1 n = n := rfl
    rw [trvStepOf_small h, walks, hb, multiples_of_le (by decide) hH, Int.natAbs_one, Nat.div_one]
    omega
  · obtain ⟨p, hs, hp, -, hlt⟩ := trvStepOf_large (Nat.le_of_not_lt h) hn
    have hpos := hp.pos
    have hb : beforeTrap p n = n := by
      rw [beforeTrap, if_neg (by omega), if_neg (by omega)]
    rw [hs, walks, hb, Int.natAbs_natCast, multiples_of_le hpos hH]
    refine Nat.le_of_lt_succ (Nat.div_lt_of_lt_mul ?_)
    change n + p - 1 < p * 16385
    omega

theorem flagged_one (i : Int) (es : List (List (List ConstNode))) :
    flagged 1 i es = es.map fun vals => (vals.map some, true) := by
  refine ext_getElem? fun r => ?_
  simp [flagged]

/-- There are no more than `INT_MAX` combinations, or few of the values that the index takes
are multiples of the step. -/
def FewWalks (step : Int) (n : Nat) : Prop := (n : Int) ≤ intMax ∨ walks step n ≤ 2 * 8192

section
variable {blk : BlkId} {blks : List Blk} {trees : List WdRoot} {ref : TrvRef} {g : Gen}
  (hfree : allTraverseFree blks) (hne : trees ≠ []) (hp : ∀ t ∈ trees, 0 < t.packedn)
  (h0 : g.trvArrays ref = []) (hv : ∀ v, g.nextVal ≤ v → g.valArrays v = none)
include hfree hne hp h0 hv

/-- A traverse whose body returns is sampled exactly when few of its walks fall due. -/
theorem sampled_iff_fewWalks
    (hret : ¬ EndsInBody ((walkBlk blk (.trv (some ⟨trees, ref⟩) blks)).run g)) :
    Sampled trees g ((walkBlk blk (.trv (some ⟨trees, ref⟩) blks)).run g) ↔
      FewWalks (stepOf trees) (leafNums trees).prod := by
  have hnew := (swept hfree hne hp h0 hv hret).newlyReached
  have hlen := length_combos trees
  have hcount := countP_walks (stepOf trees) (combos trees)
  rw [hlen] at hcount
  constructor
  · intro h
    refine .inr ?_
    rw [← hcount, ← hnew]
    exact h.walks
  · intro h
    rcases Nat.eq_zero_or_pos (leafNums trees).prod with hzero | hpos
    · -- nothing to enumerate
      have hnil : combos trees = [] := length_eq_zero_iff.1 (hlen.trans hzero)
      rw [hnil] at hnew
      exact ⟨by simp [hnew, flagged], fun _ => by simp [hnew, hnil, flagged]⟩
    · refine ⟨?_, fun hsmall => ?_⟩
      · rw [hnew, hcount]
        exact h.elim (fun hn => stepOf_eq hp hpos hn ▸ walks_le hn) id
      · have hn : ((leafNums trees).prod : Int) ≤ intMax := by
          simp only [intMax]
          omega
        have hb : beforeTrap 1 (leafNums trees).prod = (combos trees).length := hlen.symm
        rw [hnew, stepOf_eq hp hpos hn, trvStepOf_small hsmall, hb, take_length, flagged_one]

end

theorem sampled_iff_fewWalks_oneLeaf :
    Sampled [oneLeaf] (Gen.plain 200)
      ((walkBlk [] (.trv (some ⟨[oneLeaf], 0⟩) [])).run (Gen.plain 200)) ↔
      FewWalks (stepOf [oneLeaf]) (leafNums [oneLeaf]).prod :=
  sampled_iff_fewWalks rfl (cons_ne_nil _ _) (by simp [oneLeaf]) rfl (fun _ _ => rfl)
    (not_endsInBody_nil (cons_ne_nil _ _) (by simp [oneLeaf]))

def fourTimesEightLanes : List WdRoot := replicate 4 eightLanes

/-- The product 2^64 of their leaf numbers is 0 in a `long`: the body is walked for all of
them. -/
theorem four_times_eight_lanes_not_sampled :
    ¬ Sampled fourTimesEightLanes (Gen.plain 200)
      ((walkBlk [] (.trv (some ⟨fourTimesEightLanes, 0⟩) [])).run (Gen.plain 200)) := by
  have hne : fourTimesEightLanes ≠ [] := cons_ne_nil _ _
  have hp : ∀ t ∈ fourTimesEightLanes, 0 < t.packedn := by simp [fourTimesEightLanes, eightLanes]
  rw [sampled_iff_fewWalks rfl hne hp rfl (fun _ _ => rfl) (not_endsInBody_nil hne hp)]
  have hprod : (leafNums fourTimesEightLanes).prod = 2 ^ 64 := by decide
  have hstep : stepOf fourTimesEightLanes = 1 := by decide +kernel
  rw [hprod, hstep, FewWalks]
  decide

end Btrtg
