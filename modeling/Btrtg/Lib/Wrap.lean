import Mathlib.Data.Int.ModEq
import Mathlib.Data.Nat.ModEq
import Mathlib.Tactic.Ring

/-!
# Integers that wrap

Signed arithmetic in a number of bits, and a counter that wraps: how many of
its values are multiples of a number, and how long the values and what they
count are multiples together.
-/

namespace Wrap

/-- The signed number of `w` bits with the same low bits. -/
def wrap (w : Nat) (x : Int) : Int := (BitVec.ofInt w x).toInt

section
variable {w : Nat} {x y : Int}

theorem wrap_eq (w : Nat) (x : Int) : wrap w x = x.bmod (2 ^ w) := BitVec.toInt_ofInt ..

theorem wrap_of_fits (h : 0 < w) (hle : -2 ^ (w - 1) ≤ x) (hlt : x < 2 ^ (w - 1)) : wrap w x = x :=
  BitVec.toInt_ofInt_eq_self h hle hlt

theorem wrap_wrap_add (w : Nat) (x y : Int) : wrap w (wrap w x + y) = wrap w (x + y) := by
  simp only [wrap_eq, Int.bmod_add_bmod]

theorem wrap_add_wrap (w : Nat) (x y : Int) : wrap w (x + wrap w y) = wrap w (x + y) := by
  simp only [wrap_eq, Int.add_bmod_bmod]

theorem wrap_wrap_mul (w : Nat) (x y : Int) : wrap w (wrap w x * y) = wrap w (x * y) := by
  simp only [wrap_eq, Int.bmod_mul_bmod]

theorem wrap_bounds (w : Nat) (x : Int) : -2 ^ (w - 1) ≤ wrap w x ∧ wrap w x < 2 ^ (w - 1) :=
  ⟨BitVec.le_toInt .., BitVec.toInt_lt⟩

end

-- ---------------------------------------------------------------------------
-- A counter
-- ---------------------------------------------------------------------------

/-- A counter that goes up from 0 and from `H - 1` to `-H`, after `n` steps. -/
def counter (H n : Nat) : Int := ((n + H) % (2 * H) : Nat) - (H : Int)

theorem wrap_natCast (w n : Nat) : wrap (w + 1) n = counter (2 ^ w) n := by
  have hpow : 2 ^ (w + 1) = 2 * 2 ^ w := Nat.pow_succ'
  rw [wrap_eq, hpow, counter, Int.bmod_def]
  have hpos : 0 < 2 ^ w := Nat.two_pow_pos w
  generalize 2 ^ w = H at hpos ⊢
  have hmod := Nat.mod_lt n (show 0 < 2 * H by omega)
  have hhalf : (2 * H + 1) / 2 = H := by omega
  have hcast : (n : Int) % ((2 * H : Nat) : Int) = ((n % (2 * H) : Nat) : Int) := rfl
  have hadd : (n + H) % (2 * H) = if n % (2 * H) < H then n % (2 * H) + H else n % (2 * H) - H := by
    rw [Nat.add_mod, Nat.mod_eq_of_lt (show H < 2 * H by omega)]
    split
    · exact Nat.mod_eq_of_lt (by omega)
    · rw [Nat.mod_eq_sub_mod (by omega), Nat.mod_eq_of_lt (by omega)]
      omega
  rw [hcast, hadd]
  split <;> split <;> omega

section
variable {H m n : Nat}

theorem counter_of_lt (h : n < H) : counter H n = n := by
  rw [counter, Nat.mod_eq_of_lt (by omega)]
  omega

theorem counter_of_le (h : H ≤ n) (hlt : n < 3 * H) : counter H n = n - 2 * H := by
  rw [counter, Nat.mod_eq_sub_mod (by omega), Nat.mod_eq_of_lt (by omega)]
  omega

/-- How many of the `x` numbers from `-H` on are multiples of `m`, where they start
again from `-H` at `H`. -/
def multiplesFrom (H m x : Nat) : Nat :=
  x / (2 * H) * ((2 * H + (m - 1 - H % m)) / m) + (x % (2 * H) + (m - 1 - H % m)) / m

/-- How many of the first `n` values of the counter are multiples of `m`. -/
def multiples (H m n : Nat) : Nat := multiplesFrom H m (n + H) - H / m

theorem dvd_value_iff (hm : 0 < m) (y : Nat) :
    (m : Int) ∣ (y : Int) - H ↔ m ∣ y + (m - 1 - H % m) + 1 := by
  have hlt := Nat.mod_lt H hm
  have hdiv := Nat.div_add_mod' H m
  have hy : ((y + (m - 1 - H % m) + 1 : Nat) : Int) = y - H + ((H / m + 1) * m : Nat) := by
    rw [Nat.add_mul, Nat.one_mul]
    omega
  rw [← Int.natCast_dvd_natCast, hy]
  exact (Int.dvd_add_left (Int.natCast_dvd_natCast.2 (Nat.dvd_mul_left ..))).symm

theorem multiplesFrom_succ (hH : 0 < H) (hm : 0 < m) (x : Nat) :
    multiplesFrom H m (x + 1) =
      multiplesFrom H m x + if (m : Int) ∣ ((x % (2 * H) : Nat) : Int) - H then 1 else 0 := by
  have hlt := Nat.mod_lt x (show 0 < 2 * H by omega)
  have hc : m - 1 - H % m < m := by omega
  simp only [dvd_value_iff hm]
  unfold multiplesFrom
  by_cases hx : x % (2 * H) + 1 < 2 * H
  · have hdiv : (x + 1) / (2 * H) = x / (2 * H) := by
      rw [Nat.succ_div, if_neg, Nat.add_zero]
      rw [Nat.dvd_iff_mod_eq_zero, Nat.add_mod, Nat.mod_eq_of_lt (show 1 < 2 * H by omega),
        Nat.mod_eq_of_lt hx]
      omega
    have hmod : (x + 1) % (2 * H) = x % (2 * H) + 1 := by
      rw [Nat.add_mod, Nat.mod_eq_of_lt (show 1 < 2 * H by omega), Nat.mod_eq_of_lt hx]
    rw [hdiv, hmod, Nat.add_right_comm, Nat.succ_div, ← Nat.add_assoc]
  · -- the last number before the counter wraps
    have hlast : x % (2 * H) + 1 = 2 * H := by omega
    have hdvd : 2 * H ∣ x + 1 := by
      have := Nat.div_add_mod x (2 * H)
      exact ⟨x / (2 * H) + 1, by rw [Nat.mul_add]; omega⟩
    have hround : 2 * H + (m - 1 - H % m) = x % (2 * H) + (m - 1 - H % m) + 1 := by omega
    rw [Nat.succ_div, if_pos hdvd, Nat.mod_eq_zero_of_dvd hdvd, Nat.zero_add,
      Nat.div_eq_of_lt hc, Nat.add_zero, Nat.add_mul, Nat.one_mul, Nat.add_assoc]
    congr 1
    rw [hround, Nat.succ_div]

theorem multiplesFrom_half (hH : 0 < H) (hm : 0 < m) : multiplesFrom H m H = H / m := by
  have hlt := Nat.mod_lt H hm
  have hdiv := Nat.div_add_mod' H m
  have hrest : H + (m - 1 - H % m) = m * (H / m) + (m - 1) := by
    rw [Nat.mul_comm]
    omega
  rw [multiplesFrom, Nat.div_eq_of_lt (show H < 2 * H by omega),
    Nat.mod_eq_of_lt (show H < 2 * H by omega), Nat.zero_mul, Nat.zero_add, hrest,
    Nat.mul_add_div hm, Nat.div_eq_of_lt (Nat.sub_lt hm Nat.one_pos), Nat.add_zero]

theorem half_le_multiplesFrom (hH : 0 < H) (hm : 0 < m) (n : Nat) :
    H / m ≤ multiplesFrom H m (n + H) := by
  induction n with
  | zero => rw [Nat.zero_add, multiplesFrom_half hH hm]
  | succ n ih =>
    rw [Nat.add_right_comm, multiplesFrom_succ hH hm]
    exact Nat.le_add_right_of_le ih

theorem multiples_zero (hH : 0 < H) (hm : 0 < m) : multiples H m 0 = 0 := by
  rw [multiples, Nat.zero_add, multiplesFrom_half hH hm, Nat.sub_self]

/-- A value more. -/
theorem multiples_succ (hH : 0 < H) (hm : 0 < m) (n : Nat) :
    multiples H m (n + 1) = multiples H m n + if (m : Int) ∣ counter H n then 1 else 0 := by
  have hle := half_le_multiplesFrom hH hm n
  rw [multiples, multiples, counter, Nat.add_right_comm, multiplesFrom_succ hH hm]
  omega

/-- Before the counter leaps. -/
theorem multiples_of_le (hm : 0 < m) (h : n ≤ H) : multiples H m n = (n + m - 1) / m := by
  induction n with
  | zero =>
    rw [Nat.zero_add, Nat.div_eq_of_lt (Nat.sub_lt hm Nat.one_pos), multiples, Nat.zero_add]
    rcases Nat.eq_zero_or_pos H with rfl | hH
    · simp [multiplesFrom, Nat.div_eq_of_lt (Nat.sub_lt hm Nat.one_pos)]
    · rw [multiplesFrom_half hH hm, Nat.sub_self]
  | succ n ih =>
    have hsum : n + 1 + m - 1 = n + m - 1 + 1 := by omega
    have hdvd : m ∣ n + m - 1 + 1 ↔ m ∣ n := by
      rw [Nat.sub_add_cancel (by omega), Nat.dvd_add_left (Nat.dvd_refl m)]
    rw [multiples_succ (Nat.zero_lt_of_lt h) hm, ih (Nat.le_of_lt h), hsum, Nat.succ_div,
      counter_of_lt h]
    simp only [hdvd, Int.natCast_dvd_natCast]

theorem dvd_counter_iff (h : m ∣ 2 * H) (r : Nat) : (m : Int) ∣ counter H r ↔ m ∣ r := by
  have hmod : (m : Int) ∣ ((r + H) % (2 * H) : Nat) - ((r + H : Nat) : Int) := by
    have hdiv := Nat.div_add_mod (r + H) (2 * H)
    obtain ⟨k, hk⟩ := h
    refine ⟨-(k * ((r + H) / (2 * H)) : Nat), ?_⟩
    rw [hk, Nat.mul_assoc] at hdiv
    rw [Int.mul_neg, ← Int.natCast_mul, hk]
    omega
  have hsplit : counter H r = (((r + H) % (2 * H) : Nat) - ((r + H : Nat) : Int)) + (r : Int) := by
    rw [counter]
    omega
  rw [hsplit, Int.dvd_add_right hmod, Int.natCast_dvd_natCast]

/-- The least number whose value is a multiple of `m` and it is not, or the other way
round, where `m` does not divide what the counter leaps. -/
def firstAstray (H m : Nat) : Nat := min ((H + m - 1) / m * m) (2 * H - H / m * m)

theorem half_le_firstAstray (hm : 0 < m) : H ≤ firstAstray H m := by
  have hlt := Nat.mod_lt (H + m - 1) hm
  have hdiv := Nat.div_add_mod' (H + m - 1) m
  have hle := Nat.div_mul_le_self H m
  rw [firstAstray]
  omega

theorem firstAstray_lt (hm : 0 < m) : firstAstray H m < H + m := by
  have hle := Nat.div_mul_le_self (H + m - 1) m
  rw [firstAstray]
  omega

theorem dvd_counter_iff_of_lt (hm : 0 < m) (hmH : m ≤ H) {r : Nat} (h : r < firstAstray H m) :
    (m : Int) ∣ counter H r ↔ m ∣ r := by
  by_cases hr : r < H
  · rw [counter_of_lt hr, Int.natCast_dvd_natCast]
  have hlt := firstAstray_lt (H := H) hm
  rw [counter_of_le (by omega) (by omega)]
  have hceil : r < (H + m - 1) / m * m := Nat.lt_of_lt_of_le h (Nat.min_le_left ..)
  have hfloor : r < 2 * H - H / m * m := Nat.lt_of_lt_of_le h (Nat.min_le_right ..)
  refine iff_of_false (fun hd => ?_) fun hd => ?_
  · -- between two multiples below the leap
    have hd' : m ∣ 2 * H - r := by
      rw [← Int.natCast_dvd_natCast, ← Int.dvd_neg]
      have hneg : -((2 * H - r : Nat) : Int) = (r : Int) - 2 * H := by omega
      rwa [hneg]
    obtain ⟨k, hk⟩ := hd'
    have hkle : k ≤ H / m := by
      rw [Nat.le_div_iff_mul_le hm, Nat.mul_comm, ← hk]
      omega
    have := Nat.mul_le_mul_left m hkle
    rw [Nat.mul_comm m (H / m)] at this
    omega
  · obtain ⟨k, rfl⟩ := hd
    have hk : (H + m - 1) / m ≤ k := by
      refine Nat.le_of_lt_succ (Nat.div_lt_of_lt_mul ?_)
      rw [Nat.mul_succ]
      omega
    have := Nat.mul_le_mul_left m hk
    rw [Nat.mul_comm m] at this
    omega

theorem not_dvd_counter_iff_firstAstray (hm : 0 < m) (hmH : m ≤ H) (h : ¬ m ∣ 2 * H) :
    ¬ ((m : Int) ∣ counter H (firstAstray H m) ↔ m ∣ firstAstray H m) := by
  have hge := half_le_firstAstray (H := H) hm
  have hlt := firstAstray_lt (H := H) hm
  have hnot : ∀ r : Nat, (m : Int) ∣ (r : Int) - 2 * H → ¬ m ∣ r := by
    intro r hr hd
    have := (Int.dvd_iff_dvd_of_dvd_sub hr).1 (Int.natCast_dvd_natCast.2 hd)
    exact h (Int.natCast_dvd_natCast.1 (by exact_mod_cast this))
  rw [counter_of_le hge (by omega)]
  rcases Nat.le_total ((H + m - 1) / m * m) (2 * H - H / m * m) with hle | hle
  · have heq : firstAstray H m = (H + m - 1) / m * m := Nat.min_eq_left hle
    have hd : m ∣ firstAstray H m := heq ▸ Nat.dvd_mul_left ..
    exact fun hiff => hnot _ (hiff.2 hd) hd
  · have heq : firstAstray H m = 2 * H - H / m * m := Nat.min_eq_right hle
    have hd : (m : Int) ∣ (firstAstray H m : Int) - 2 * H := by
      have := Nat.div_mul_le_self H m
      refine ⟨-(H / m : Nat), ?_⟩
      rw [heq, Int.mul_neg, ← Int.natCast_mul, Nat.mul_comm m]
      omega
    exact fun hiff => hnot _ hd (hiff.1 hd)

/-- Values and what they count are multiples together. -/
theorem forall_dvd_counter_iff (hm : 0 < m) (hmH : m ≤ H) :
    (∀ r < n, ((m : Int) ∣ counter H r ↔ m ∣ r)) ↔ m ∣ 2 * H ∨ n ≤ firstAstray H m := by
  by_cases h : m ∣ 2 * H
  · exact iff_of_true (fun r _ => dvd_counter_iff h r) (.inl h)
  · rw [or_iff_right h]
    constructor
    · intro hall
      by_contra hn
      exact not_dvd_counter_iff_firstAstray hm hmH h (hall _ (Nat.lt_of_not_le hn))
    · intro hn r hr
      exact dvd_counter_iff_of_lt hm hmH (Nat.lt_of_lt_of_le hr hn)

end

end Wrap
