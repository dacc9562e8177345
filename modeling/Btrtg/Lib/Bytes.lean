import Mathlib.Data.BitVec

/-!
# Bytes

Numbers as bytes, the lowest first, and a memory of bytes. What is stored below a
loaded area is loaded in front of it.
-/

namespace Bytes

abbrev Byte := BitVec 8

-- ---------------------------------------------------------------------------
-- Words
-- ---------------------------------------------------------------------------

def leBytes : Nat → Nat → List Byte
  | 0, _ => []
  | n + 1, v => .ofNat 8 v :: leBytes n (v / 256)

def leNat : List Byte → Nat
  | [] => 0
  | b :: bs => b.toNat + 256 * leNat bs

def word (w : Nat) (bs : List Byte) : BitVec w := .ofNat w (leNat bs)

@[simp] theorem leBytes_length (n v : Nat) : (leBytes n v).length = n := by
  induction n generalizing v with
  | zero => rfl
  | succ n ih => simp [leBytes, ih]

theorem leNat_leBytes (n v : Nat) : leNat (leBytes n v) = v % 256 ^ n := by
  induction n generalizing v with
  | zero => simp [leBytes, leNat, Nat.mod_one]
  | succ n ih =>
    have hmod : v % 256 ^ (n + 1) = v % 256 + 256 * (v / 256 % 256 ^ n) := by
      rw [Nat.pow_succ', Nat.mod_mul]
    rw [leBytes, leNat, ih, hmod, BitVec.toNat_ofNat]

theorem leBytes_add (n k v : Nat) :
    leBytes (n + k) v = leBytes n v ++ leBytes k (v / 256 ^ n) := by
  induction n generalizing v with
  | zero => simp [leBytes]
  | succ n ih =>
    rw [Nat.add_right_comm, leBytes, ih, leBytes, Nat.div_div_eq_div_mul, Nat.pow_succ,
      Nat.mul_comm 256, List.cons_append]

theorem leBytes_mod (n v : Nat) : leBytes n (v % 256 ^ n) = leBytes n v := by
  induction n generalizing v with
  | zero => rfl
  | succ n ih =>
    have hlow : BitVec.ofNat 8 (v % 256 ^ (n + 1)) = BitVec.ofNat 8 v := by
      refine BitVec.eq_of_toNat_eq ?_
      rw [BitVec.toNat_ofNat, BitVec.toNat_ofNat, Nat.pow_succ', Nat.mod_mul_right_mod]
    rw [leBytes, leBytes, hlow, Nat.pow_succ', Nat.mod_mul_right_div_self, ih]

theorem leBytes_leNat (bs : List Byte) : leBytes bs.length (leNat bs) = bs := by
  induction bs with
  | nil => rfl
  | cons b bs ih =>
    have hlow : BitVec.ofNat 8 (b.toNat + 256 * leNat bs) = b := by
      refine BitVec.eq_of_toNat_eq ?_
      rw [BitVec.toNat_ofNat, Nat.add_mul_mod_self_left, Nat.mod_eq_of_lt b.isLt]
    have hhigh : (b.toNat + 256 * leNat bs) / 256 = leNat bs := by
      have hb := b.isLt
      omega
    rw [List.length_cons, leNat, leBytes, hlow, hhigh, ih]

/-- The bytes of the word that bytes make up, when they are not too many. -/
theorem leBytes_word {w : Nat} {bs : List Byte} (h : 8 * bs.length = w) :
    leBytes bs.length (word w bs).toNat = bs := by
  rw [word, BitVec.toNat_ofNat, ← h, Nat.pow_mul, leBytes_mod, leBytes_leNat]

/-- A word is made up of its bytes, when they are not too few. -/
theorem word_leBytes {w n : Nat} (hn : w ≤ 8 * n) (v : Nat) :
    word w (leBytes n v) = .ofNat w v := by
  have hpow : 256 ^ n = 2 ^ w * 2 ^ (8 * n - w) := by
    rw [← Nat.pow_add, Nat.add_sub_cancel' hn, Nat.pow_mul]
  refine BitVec.eq_of_toNat_eq ?_
  rw [word, leNat_leBytes, BitVec.toNat_ofNat, BitVec.toNat_ofNat, hpow,
    Nat.mod_mul_right_mod]

-- ---------------------------------------------------------------------------
-- Lanes
-- ---------------------------------------------------------------------------

/-- The bytes of words of `n` bytes, one after the other. -/
def rowBytes {w : Nat} (n : Nat) (xs : List (BitVec w)) : List Byte :=
  xs.flatMap fun x => leBytes n x.toNat

/-- The `j`-th word of `n` bytes. -/
def lane (w n : Nat) (bs : List Byte) (j : Nat) : BitVec w := word w ((bs.drop (n * j)).take n)

@[simp] theorem rowBytes_nil {w n : Nat} : rowBytes n ([] : List (BitVec w)) = [] := rfl

theorem rowBytes_cons {w n : Nat} (x : BitVec w) (xs : List (BitVec w)) :
    rowBytes n (x :: xs) = leBytes n x.toNat ++ rowBytes n xs := rfl

@[simp] theorem rowBytes_length {w n : Nat} (xs : List (BitVec w)) :
    (rowBytes n xs).length = n * xs.length := by
  induction xs with
  | nil => rfl
  | cons x xs ih =>
    rw [rowBytes_cons, List.length_append, leBytes_length, ih, List.length_cons, Nat.mul_succ,
      Nat.add_comm]

/-- A lane of a row is the word that stands there, cut to the width of the lane. -/
theorem lane_rowBytes {u w n : Nat} (hw : w ≤ 8 * n) (xs : List (BitVec u)) (rest : List Byte)
    {j : Nat} (hj : j < xs.length) :
    lane w n (rowBytes n xs ++ rest) j = xs[j].setWidth w := by
  induction xs generalizing j with
  | nil => exact absurd hj (Nat.not_lt_zero j)
  | cons x xs ih =>
    rw [rowBytes_cons, List.append_assoc]
    cases j with
    | zero =>
      have htake : (leBytes n x.toNat ++ (rowBytes n xs ++ rest)).take n = leBytes n x.toNat := by
        simp
      rw [lane, Nat.mul_zero, List.drop_zero, htake, word_leBytes hw,
        BitVec.ofNat_toNat]
      rfl
    | succ j =>
      have hdrop : (leBytes n x.toNat ++ (rowBytes n xs ++ rest)).drop (n * (j + 1)) =
          (rowBytes n xs ++ rest).drop (n * j) := by
        rw [Nat.mul_succ, Nat.add_comm, ← List.drop_drop]
        congr 1
        exact List.drop_left' (leBytes_length ..)
      rw [lane, hdrop]
      exact ih (Nat.lt_of_succ_lt_succ hj)

-- ---------------------------------------------------------------------------
-- Memory
-- ---------------------------------------------------------------------------

variable {w : Nat}

abbrev Memory (w : Nat) := BitVec w → Byte

def load (m : Memory w) (a : BitVec w) (n : Nat) : List Byte :=
  (List.range n).map fun i => m (a + .ofNat w i)

def store (m : Memory w) (a : BitVec w) (bs : List Byte) : Memory w := fun x =>
  bs.getD (x - a).toNat (m x)

@[simp] theorem load_length (m : Memory w) (a : BitVec w) (n : Nat) : (load m a n).length = n := by
  simp [load]

@[simp] theorem load_getElem (m : Memory w) (a : BitVec w) (n i : Nat)
    (h : i < (load m a n).length) : (load m a n)[i] = m (a + .ofNat w i) := by
  simp [load]

theorem load_add (m : Memory w) (a : BitVec w) (n k : Nat) :
    load m a (n + k) = load m a n ++ load m (a + .ofNat w n) k := by
  simp only [load, List.range_add, List.map_append, List.map_map]
  congr 1
  refine List.map_congr_left fun i _ => ?_
  simp [BitVec.add_assoc, BitVec.ofNat_add]

/-- Loads agree when the memories do on the loaded area. -/
theorem load_congr {m m' : Memory w} {a : BitVec w} {n : Nat}
    (h : ∀ i < n, m (a + .ofNat w i) = m' (a + .ofNat w i)) : load m a n = load m' a n :=
  List.map_congr_left fun i hi => h i (List.mem_range.1 hi)

theorem store_offset {m : Memory w} {a : BitVec w} {bs : List Byte} {i : Nat} (hi : i < 2 ^ w) :
    store m a bs (a + .ofNat w i) = bs.getD i (m (a + .ofNat w i)) := by
  have hsub : (a + .ofNat w i - a).toNat = i := by
    rw [BitVec.add_comm, BitVec.add_sub_cancel, BitVec.toNat_ofNat, Nat.mod_eq_of_lt hi]
  rw [store, hsub]

theorem exists_offset (a x : BitVec w) : ∃ i < 2 ^ w, x = a + .ofNat w i := by
  refine ⟨(x - a).toNat, (x - a).isLt, ?_⟩
  rw [BitVec.ofNat_toNat, BitVec.setWidth_eq, add_sub_cancel]

/-- A store further up, read at an offset from below. -/
theorem store_add_offset {m : Memory w} {a : BitVec w} {bs : List Byte} {k i : Nat}
    (hk : k < 2 ^ w) (h : k + bs.length ≤ 2 ^ w) (hi : i < 2 ^ w) :
    store m (a + .ofNat w k) bs (a + .ofNat w i) =
      if k ≤ i then bs.getD (i - k) (m (a + .ofNat w i)) else m (a + .ofNat w i) := by
  split
  · case isTrue hki =>
    have hsplit : a + BitVec.ofNat w i = a + .ofNat w k + .ofNat w (i - k) := by
      rw [BitVec.add_assoc, ← BitVec.ofNat_add, Nat.add_sub_cancel' hki]
    rw [hsplit, store_offset (by omega)]
  · case isFalse hki =>
    have hsub : (a + .ofNat w i - (a + .ofNat w k)).toNat = 2 ^ w - k + i := by
      have hdiff : a + BitVec.ofNat w i - (a + .ofNat w k) = .ofNat w i - .ofNat w k :=
        add_sub_add_left_eq_sub ..
      rw [hdiff, BitVec.toNat_sub, BitVec.toNat_ofNat, BitVec.toNat_ofNat, Nat.mod_eq_of_lt hk,
        Nat.mod_eq_of_lt hi, Nat.mod_eq_of_lt (by omega)]
    rw [store, hsub, List.getD_eq_getElem?_getD, List.getElem?_eq_none (by omega),
      Option.getD_none]

/-- Bytes are stored one after the other. -/
theorem store_cons {m : Memory w} {a : BitVec w} {b : Byte} {bs : List Byte} (hw : 0 < w)
    (h : bs.length < 2 ^ w) : store (store m a [b]) (a + 1) bs = store m a (b :: bs) := by
  funext x
  obtain ⟨i, hi, rfl⟩ := exists_offset a x
  have hone : 1 < 2 ^ w := Nat.one_lt_two_pow (by omega)
  rw [show (1 : BitVec w) = .ofNat w 1 from rfl, store_add_offset hone (by omega) hi,
    store_offset hi, store_offset hi]
  cases i <;> simp

/-- What is stored just above a store is stored with it. -/
theorem store_append {m : Memory w} {a : BitVec w} {bs cs : List Byte} (hbs : bs.length < 2 ^ w)
    (h : bs.length + cs.length ≤ 2 ^ w) :
    store (store m a bs) (a + .ofNat w bs.length) cs = store m a (bs ++ cs) := by
  funext x
  obtain ⟨i, hi, rfl⟩ := exists_offset a x
  rw [store_add_offset hbs h hi, store_offset hi, store_offset hi]
  split
  · case isTrue hle =>
    simp [List.getD_eq_getElem?_getD, List.getElem?_append_right hle, List.getElem?_eq_none hle]
  · case isFalse hlt =>
    simp [List.getD_eq_getElem?_getD, List.getElem?_append_left (Nat.not_le.1 hlt)]

theorem load_store {m : Memory w} {a : BitVec w} {bs : List Byte} (h : bs.length ≤ 2 ^ w) :
    load (store m a bs) a bs.length = bs := by
  refine List.ext_getElem (by simp) fun i hi _ => ?_
  rw [load_length] at hi
  simp [load, store_offset (Nat.lt_of_lt_of_le hi h), hi]

/-- What is stored just below a loaded area is loaded in front of it. -/
theorem load_store_below {m : Memory w} {a : BitVec w} {bs : List Byte} {k : Nat}
    (h : bs.length + k ≤ 2 ^ w) :
    load (store m a bs) a (bs.length + k) = bs ++ load m (a + .ofNat w bs.length) k := by
  rw [load_add, load_store (by omega)]
  congr 1
  refine load_congr fun i hi => ?_
  rw [BitVec.add_assoc, ← BitVec.ofNat_add, store_offset (by omega)]
  simp [List.getD_eq_getElem?_getD]

/-- What is stored just above a loaded area is loaded behind it. -/
theorem load_store_above {m : Memory w} {a : BitVec w} {bs : List Byte} {k : Nat}
    (hk : k < 2 ^ w) (h : k + bs.length ≤ 2 ^ w) :
    load (store m (a + .ofNat w k) bs) a (k + bs.length) = load m a k ++ bs := by
  rw [load_add, load_store (by omega)]
  congr 1
  refine load_congr fun i hi => ?_
  rw [store_add_offset hk h (Nat.lt_trans hi hk), if_neg (Nat.not_le.2 hi)]

end Bytes
