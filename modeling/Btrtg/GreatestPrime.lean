import Btrtg.Lib.Loop
import Btrtg.TrvStep

/-!
# The greatest prime below an `int`

`sqrti`, `is_prime` and `greatest_prime` over `int`, where an overflow is a fault:
none happens, and they compute what the walker of a traverse takes them for.
-/

namespace Btrtg

namespace Checked

-- ---------------------------------------------------------------------------
-- The loops
-- ---------------------------------------------------------------------------

def sqrtiStep : Int × Int → Option ((Int × Int) ⊕ Int)
  | (s, num) => do
    let t ← int32 (2 * s)
    let odd ← int32 (t + 1)
    if odd ≤ num then do
      let num ← int32 (num - odd)
      let s ← int32 (s + 1)
      some (.inl (s, num))
    else some (.inr s)

def sqrti (fuel : Nat) (num : Int) : Option Int := loop sqrtiStep fuel (0, num)

def isPrimeStep (num dividerLimit i : Int) : Option (Int ⊕ Bool) :=
  if i ≤ dividerLimit then
    if num.tmod i = 0 then some (.inr false) else (int32 (i + 2)).map .inl
  else some (.inr true)

def isPrime (fuel : Nat) (num : Int) : Option Bool :=
  if num ≤ 3 then some true
  else if num.tmod 2 = 0 then some false
  else do
    let dividerLimit ← sqrti fuel num
    loop (isPrimeStep num dividerLimit) fuel 3

def greatestPrimeStep (fuel : Nat) (i : Int) : Option (Int ⊕ Int) :=
  if 0 < i then do
    if ← isPrime fuel i then some (.inr i)
    else (int32 (i - 1)).map .inl
  else some (.inr i)

def greatestPrime (fuel : Nat) (limit : Int) : Option Int :=
  loop (greatestPrimeStep fuel) fuel limit

-- ---------------------------------------------------------------------------
-- Their results
-- ---------------------------------------------------------------------------

section
variable {fuel n : Nat}

/-- The odd numbers that are taken away and the rest make up the number. -/
def SqrtiInv (n : Nat) (st : Int × Int) : Prop :=
  ∃ s num : Nat, st = ((s : Int), (num : Int)) ∧ s * s + num = n

theorem sqrtiStep_ok (hn : n < 2147483648) {st : Int × Int} (h : SqrtiInv n st) :
    Steps sqrtiStep (SqrtiInv n) (fun st => st.2.toNat) (· = (n.sqrt : Int)) st := by
  obtain ⟨s, num, rfl, hsum⟩ := h
  have hsq : (s + 1) * (s + 1) = s * s + (2 * s + 1) := by ring
  have hs : s < 65536 := by
    by_contra h
    have hle : 65536 * 65536 ≤ s * s := Nat.mul_le_mul (not_lt.1 h) (not_lt.1 h)
    omega
  have htwice : int32 (2 * (s : Int)) = some ((2 * s : Nat) : Int) := int32_natCast (by omega) (by omega)
  have hodd : int32 (((2 * s : Nat) : Int) + 1) = some ((2 * s + 1 : Nat) : Int) :=
    int32_natCast (by omega) (by omega)
  by_cases hle : 2 * s + 1 ≤ num
  · refine .inl ⟨(((s + 1 : Nat) : Int), ((num - (2 * s + 1) : Nat) : Int)), ?_,
      ⟨_, _, rfl, by omega⟩, ?_⟩
    · have hnum : int32 ((num : Int) - (2 * s + 1 : Nat)) = some ((num - (2 * s + 1) : Nat) : Int) :=
        int32_natCast (by omega) (by omega)
      have hsucc : int32 ((s : Int) + 1) = some ((s + 1 : Nat) : Int) :=
        int32_natCast (by omega) (by omega)
      rw [sqrtiStep, htwice, Option.bind_eq_bind, Option.bind_some, hodd, Option.bind_some,
        if_pos (Int.ofNat_le.2 hle), hnum, Option.bind_some, hsucc, Option.bind_some]
    · simp only [Int.toNat_natCast]
      omega
  · refine .inr ⟨s, ?_, congrArg Nat.cast (Nat.eq_sqrt.2 ⟨by omega, by omega⟩)⟩
    rw [sqrtiStep, htwice, Option.bind_eq_bind, Option.bind_some, hodd, Option.bind_some,
      if_neg (mt Int.ofNat_le.1 hle)]

/-- `sqrti` is the integer square root. -/
theorem sqrti_ok (hn : n < 2147483648) (hfuel : n < fuel) : sqrti fuel n = some (n.sqrt : Int) := by
  have h₀ : SqrtiInv n (0, (n : Int)) := ⟨0, n, rfl, by omega⟩
  obtain ⟨r, hr, rfl⟩ := loop_ends _ (fun _ => sqrtiStep_ok hn) h₀ (by simpa using hfuel)
  exact hr

/-- No odd number below `i` divides the number. -/
def IsPrimeInv (n : Nat) (i : Int) : Prop :=
  ∃ k : Nat, i = (2 * k + 3 : Nat) ∧ k ≤ n ∧ ∀ j < k, n % (2 * j + 3) ≠ 0

/-- The odd numbers from 3 up to the root. -/
theorem isPrime_iff_odd (h4 : 4 ≤ n) (hodd : n % 2 ≠ 0) :
    Btrtg.isPrime n = true ↔ ∀ j, 2 * j + 3 ≤ n.sqrt → n % (2 * j + 3) ≠ 0 := by
  have h3 : ¬n ≤ 3 := by omega
  rw [Btrtg.isPrime, if_neg h3, if_neg hodd, sqrti_eq, List.all_eq_true]
  constructor
  · intro h j hj
    have hmem : 2 * j + 3 ∈ List.range' 3 ((n.sqrt - 1) / 2) 2 :=
      List.mem_range'.2 ⟨j, by omega, by omega⟩
    simpa using h _ hmem
  · intro h i hi
    obtain ⟨j, hj, rfl⟩ := List.mem_range'.1 hi
    have hne := h j (by omega)
    rw [Nat.add_comm] at hne
    simpa using hne

theorem isPrimeStep_ok (hn : n < 2147483648) (h4 : 4 ≤ n) (hodd : n % 2 ≠ 0) {i : Int}
    (h : IsPrimeInv n i) :
    Steps (isPrimeStep n n.sqrt) (IsPrimeInv n) (fun i => n + 2 - i.toNat)
      (· = Btrtg.isPrime n) i := by
  obtain ⟨k, rfl, hk, hnone⟩ := h
  have hsqrt : n.sqrt < 65536 := Nat.sqrt_lt.2 (by omega)
  have hlt : n.sqrt < n := Nat.sqrt_lt_self (by omega)
  by_cases hle : 2 * k + 3 ≤ n.sqrt
  · by_cases hmod : n % (2 * k + 3) = 0
    · refine .inr ⟨false, ?_, ?_⟩
      · rw [isPrimeStep, if_pos (Int.ofNat_le.2 hle), if_pos (by rw [← Int.ofNat_tmod, hmod]; rfl)]
      · refine (Bool.eq_false_of_not_eq_true fun h => ?_).symm
        exact (isPrime_iff_odd h4 hodd).1 h k hle hmod
    · refine .inl ⟨(2 * (k + 1) + 3 : Nat), ?_, ⟨k + 1, rfl, by omega, fun j hj => ?_⟩, ?_⟩
      · have hne : ¬(n : Int).tmod ((2 * k + 3 : Nat) : Int) = 0 := by
          rw [← Int.ofNat_tmod]
          exact mt Int.ofNat_eq_zero.1 hmod
        have hnext : int32 (((2 * k + 3 : Nat) : Int) + 2) = some ((2 * (k + 1) + 3 : Nat) : Int) :=
          int32_natCast (by omega) (by omega)
        rw [isPrimeStep, if_pos (Int.ofNat_le.2 hle), if_neg hne, hnext]
        rfl
      · rcases Nat.lt_succ_iff_lt_or_eq.1 hj with hj | rfl
        · exact hnone j hj
        · exact hmod
      · simp only [Int.toNat_natCast]
        omega
  · refine .inr ⟨true, ?_, ?_⟩
    · rw [isPrimeStep, if_neg (mt Int.ofNat_le.1 hle)]
    · exact ((isPrime_iff_odd h4 hodd).2 fun j hj => hnone j (by omega)).symm

/-- `is_prime` tells what the model of the walker does. -/
theorem isPrime_ok (hn : n < 2147483648) (hfuel : n < fuel) :
    isPrime fuel n = some (Btrtg.isPrime n) := by
  unfold isPrime
  by_cases h3 : n ≤ 3
  · have h3' : (n : Int) ≤ 3 := by omega
    rw [if_pos h3', Btrtg.isPrime, if_pos h3]
  · have h3' : ¬(n : Int) ≤ 3 := by omega
    rw [if_neg h3']
    by_cases heven : n % 2 = 0
    · have heven' : (n : Int).tmod 2 = 0 := by
        rw [← Int.ofNat_two, ← Int.ofNat_tmod, heven]
        rfl
      rw [if_pos heven', Btrtg.isPrime, if_neg h3, if_pos heven]
    · have heven' : ¬(n : Int).tmod 2 = 0 := by
        rw [← Int.ofNat_two, ← Int.ofNat_tmod]
        exact mt Int.ofNat_eq_zero.1 heven
      rw [if_neg heven', sqrti_ok hn hfuel]
      have h₀ : IsPrimeInv n 3 := ⟨0, rfl, by omega, nofun⟩
      obtain ⟨b, hb, rfl⟩ := loop_ends _ (fun _ => isPrimeStep_ok hn (by omega) heven) h₀
        (show n + 2 - (3 : Int).toNat < fuel by simp; omega)
      exact hb

/-- The greatest prime is still to come. -/
def GreatestInv (n : Nat) (i : Int) : Prop :=
  ∃ m : Nat, i = (m + 1 : Nat) ∧ m < n ∧ greatestPrimeNat (m + 1) = greatestPrimeNat n

theorem greatestPrimeStep_ok (hn : n < 2147483648) (hfuel : n < fuel) {i : Int}
    (h : GreatestInv n i) :
    Steps (greatestPrimeStep fuel) (GreatestInv n) (fun i => i.toNat)
      (· = (greatestPrimeNat n : Int)) i := by
  obtain ⟨m, rfl, hm, hgreatest⟩ := h
  have hpos : (0 : Int) < ((m + 1 : Nat) : Int) := by omega
  rw [Steps, greatestPrimeStep, if_pos hpos, isPrime_ok (by omega) (by omega)]
  by_cases hprime : Btrtg.isPrime (m + 1) = true
  · refine .inr ⟨(m + 1 : Nat), by rw [hprime]; rfl, congrArg Nat.cast ?_⟩
    rw [← hgreatest, greatestPrimeNat, if_pos hprime]
  · obtain ⟨k, rfl⟩ : ∃ k, m = k + 1 := by
      cases m with
      | zero => exact absurd rfl hprime
      | succ k => exact ⟨k, rfl⟩
    have hnext : int32 (((k + 1 + 1 : Nat) : Int) - 1) = some ((k + 1 : Nat) : Int) :=
      int32_natCast (by omega) (by omega)
    refine .inl ⟨(k + 1 : Nat), ?_, ⟨k, rfl, by omega, ?_⟩, ?_⟩
    · rw [Option.bind_eq_bind, Option.bind_some, if_neg hprime, hnext]
      rfl
    · rw [← hgreatest, greatestPrimeNat, greatestPrimeNat, greatestPrimeNat, if_neg hprime]
    · simp only [Int.toNat_natCast]
      omega

/-- `greatest_prime` finds what the model of the walker does. -/
theorem greatestPrime_ok (hpos : 0 < n) (hn : n < 2147483648) (hfuel : n < fuel) :
    greatestPrime fuel n = some (Btrtg.greatestPrime n) := by
  obtain ⟨m, rfl⟩ := Nat.exists_eq_succ_of_ne_zero hpos.ne'
  have h₀ : GreatestInv (m + 1) ((m + 1 : Nat) : Int) := ⟨m, rfl, by omega, rfl⟩
  obtain ⟨r, hr, rfl⟩ := loop_ends _ (fun _ => greatestPrimeStep_ok hn hfuel) h₀
    (by simpa using hfuel)
  have hlt : (0 : Int) < ((m + 1 : Nat) : Int) := by omega
  rw [Btrtg.greatestPrime, if_pos hlt, Int.toNat_natCast]
  exact hr

end

/-- `greatest_prime` ends with the greatest prime up to its argument and `sqrti` with the
integer square root, within as many rounds of each loop as the argument counts and
without an overflow. -/
theorem greatestPrime_greatest :
    (∀ (limit : Int) (fuel : Nat), 2 ≤ limit → limit ≤ intMax → limit < fuel →
      ∃ p : Nat, greatestPrime fuel limit = some (p : Int) ∧ p.Prime ∧ (p : Int) ≤ limit ∧
        ∀ q : Nat, q.Prime → (q : Int) ≤ limit → q ≤ p) ∧
    ∀ (num : Int) (fuel : Nat), 0 ≤ num → num ≤ intMax → num < fuel →
      sqrti fuel num = some (num.toNat.sqrt : Int) := by
  have hmax : intMax = 2147483647 := rfl
  constructor
  · intro limit fuel h2 hle hfuel
    obtain ⟨n, rfl⟩ := Int.eq_ofNat_of_zero_le (by omega : 0 ≤ limit)
    have hpos : (0 : Int) < n := by omega
    refine ⟨greatestPrimeNat n, ?_, (half_lt_greatestPrimeNat (by omega)).1,
      Int.ofNat_le.2 (greatestPrimeNat_le n), fun q hq hqn => ?_⟩
    · rw [greatestPrime_ok (by omega) (by omega) (by omega), Btrtg.greatestPrime, if_pos hpos,
        Int.toNat_natCast]
    · exact le_greatestPrimeNat (Int.ofNat_le.1 hqn) ((isPrime_iff q).2 (.inr hq))
  · intro num fuel h0 hle hfuel
    obtain ⟨n, rfl⟩ := Int.eq_ofNat_of_zero_le h0
    exact sqrti_ok (by omega) (by omega)

/-- The greatest prime up to 100, and the root of the greatest `int`. -/
theorem greatestPrime_hundred :
    (∃ p : Nat, greatestPrime 101 100 = some (p : Int) ∧ p.Prime ∧ (p : Int) ≤ 100 ∧
      ∀ q : Nat, q.Prime → (q : Int) ≤ 100 → q ≤ p) ∧
    sqrti 2147483648 2147483647 = some ((2147483647 : Int).toNat.sqrt : Int) :=
  ⟨greatestPrime_greatest.1 100 101 (by decide) (by decide) (by decide),
    greatestPrime_greatest.2 2147483647 2147483648 (by decide) (by decide) (by decide)⟩

end Checked

end Btrtg
