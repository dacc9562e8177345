import Btrtg.GenData
import Btrtg.ParseTKs
import Mathlib.Data.List.GetD

/-!
# Packed decimal constants

`str2bcd` and the stores of `init_memory_opnd_bcd80` leave the ten bytes of the
number in memory: its digits in pairs, the lowest first, and the sign.
-/

namespace Btrtg

open Bytes

-- ---------------------------------------------------------------------------
-- Numbers
-- ---------------------------------------------------------------------------

/-- A decimal number of at most 18 digits, with blanks before and behind. -/
structure Decimal where
  blanks : Nat
  neg : Bool
  digits : Text
  trailing : Nat
  digits_ok : ∀ c ∈ digits, c.isDigit = true
  digits_ne : digits ≠ []
  digits_le : digits.length ≤ 18

namespace Decimal

def text (t : Decimal) : Text :=
  List.replicate t.blanks ' ' ++ ((if t.neg then ['-'] else []) ++
    (t.digits ++ List.replicate t.trailing ' '))

def abs (t : Decimal) : Nat := t.digits.foldl (fun n c => 10 * n + (c.toNat - '0'.toNat)) 0

end Decimal

def bcd80 (neg : Bool) (n : Nat) : List Byte :=
  (List.range 9).map (fun i => .ofNat 8 (16 * (n / 10 ^ (2 * i + 1) % 10) + n / 10 ^ (2 * i) % 10)) ++
    [if neg then 0x80 else 0x00]

-- ---------------------------------------------------------------------------
-- The loop
-- ---------------------------------------------------------------------------

/-- What the loop stores. -/
def bcdPairs : Text → List Byte
  | [] => [0]
  | [c] => [charDigit c]
  | c :: d :: cs => (charDigit c ||| charDigit d <<< 4) :: bcdPairs cs

theorem bcdPairs_length : (cs : Text) → (bcdPairs cs).length = cs.length / 2 + 1
  | [] => rfl
  | [_] => by simp [bcdPairs]
  | _ :: _ :: cs => by
    rw [bcdPairs, List.length_cons, bcdPairs_length cs, List.length_cons, List.length_cons]
    omega

theorem bcdLoop_eq {w : Nat} (hw : 0 < w) (m : Memory w) (ptr : BitVec w) :
    (cs : Text) → cs.length / 2 < 2 ^ w → bcdLoop m ptr cs = store m ptr (bcdPairs cs)
  | [], _ => rfl
  | [_], _ => rfl
  | c :: d :: cs, h => by
    simp only [List.length_cons] at h
    rw [bcdLoop, bcdLoop_eq hw _ _ cs (by omega), bcdPairs, store_cons hw]
    rw [bcdPairs_length]
    omega

/-- The number that digits make up, the lowest first. -/
def lowFirst (cs : Text) : Nat := cs.foldr (fun c n => 10 * n + (c.toNat - '0'.toNat)) 0

theorem lowFirst_digit {cs : Text} (h : ∀ c ∈ cs, c.isDigit = true) (k : Nat) :
    lowFirst cs / 10 ^ k % 10 = (cs.getD k '0').toNat - '0'.toNat := by
  induction cs generalizing k with
  | nil => simp [lowFirst]
  | cons c cs ih =>
    obtain ⟨hc, hcs⟩ := List.forall_mem_cons.1 h
    have hdigit := Char.isDigit_iff_toNat.1 hc
    have h9 : '9'.toNat = 57 := rfl
    have h0 : '0'.toNat = 48 := rfl
    have hcons : lowFirst (c :: cs) = 10 * lowFirst cs + (c.toNat - '0'.toNat) := rfl
    cases k with
    | zero =>
      rw [hcons, List.getD_cons_zero, Nat.pow_zero, Nat.div_one]
      omega
    | succ k =>
      rw [List.getD_cons_succ, ← ih hcs k, Nat.pow_succ', ← Nat.div_div_eq_div_mul, hcons]
      congr 2
      omega

theorem charDigit_of_isDigit {c : Char} (hc : c.isDigit = true) :
    charDigit c = .ofNat 8 (c.toNat - '0'.toNat) ∧ c.toNat - '0'.toNat < 10 := by
  have hdigit := Char.isDigit_iff_toNat.1 hc
  have h9 : '9'.toNat = 57 := rfl
  have h0 : '0'.toNat = 48 := rfl
  refine ⟨BitVec.eq_of_toNat_eq ?_, by omega⟩
  rw [charDigit, BitVec.toNat_sub, BitVec.toNat_ofNat, BitVec.toNat_ofNat, BitVec.toNat_ofNat]
  omega

theorem pair_byte : ∀ d e : Fin 10,
    (BitVec.ofNat 8 d ||| BitVec.ofNat 8 e <<< 4) = BitVec.ofNat 8 (16 * e + d) := by
  decide

theorem bcdPairs_getD : (cs : Text) → (∀ c ∈ cs, c.isDigit = true) → (i : Nat) →
    (bcdPairs cs).getD i 0 = .ofNat 8
      (16 * ((cs.getD (2 * i + 1) '0').toNat - '0'.toNat) +
        ((cs.getD (2 * i) '0').toNat - '0'.toNat))
  | [], _, i => by cases i <;> simp [bcdPairs]
  | [c], h, i => by
    cases i with
    | zero => simp [bcdPairs, (charDigit_of_isDigit (h c (by simp))).1]
    | succ i => simp [bcdPairs]
  | c :: d :: cs, h, i => by
    obtain ⟨hc, hc10⟩ := charDigit_of_isDigit (h c (by simp))
    obtain ⟨hd, hd10⟩ := charDigit_of_isDigit (h d (by simp))
    cases i with
    | zero => simpa [bcdPairs, hc, hd] using pair_byte ⟨_, hc10⟩ ⟨_, hd10⟩
    | succ i =>
      have ih := bcdPairs_getD cs (fun e he => h e (by simp [he])) i
      simpa [bcdPairs, Nat.mul_succ] using ih

-- ---------------------------------------------------------------------------
-- The conversion
-- ---------------------------------------------------------------------------

theorem dropWhile_blank {cs : Text} (n : Nat) (h : ∀ c ∈ cs.head?, c ≠ ' ') :
    (List.replicate n ' ' ++ cs).dropWhile (· = ' ') = cs := by
  rw [List.dropWhile_append_of_pos fun c hc => by simp [List.eq_of_mem_replicate hc]]
  cases cs with
  | nil => rfl
  | cons c cs => exact List.dropWhile_cons_of_neg (by simpa using h c rfl)

namespace Decimal

variable (t : Decimal)

theorem ne_of_digit {c d : Char} (hc : c ∈ t.digits) (hd : d.isDigit = false) : c ≠ d := by
  rintro rfl
  rw [t.digits_ok c hc] at hd
  cases hd

theorem bcdText_text : bcdText t.text = some (t.neg, t.digits.reverse) := by
  have htail : (t.digits ++ List.replicate t.trailing ' ').reverse.dropWhile (· = ' ') =
      t.digits.reverse := by
    rw [List.reverse_append, List.reverse_replicate]
    refine dropWhile_blank _ fun c hc => t.ne_of_digit (List.mem_reverse.1 ?_) rfl
    exact List.mem_of_mem_head? hc
  rw [bcdText, text]
  cases hneg : t.neg with
  | true =>
    rw [if_pos rfl, dropWhile_blank _ (by simp)]
    simp only [List.cons_append, List.nil_append, htail]
  | false =>
    obtain ⟨c, cs, hcs⟩ := List.exists_cons_of_ne_nil t.digits_ne
    have hc : c ∈ t.digits := by simp [hcs]
    rw [if_neg Bool.false_ne_true, List.nil_append,
      dropWhile_blank _ (by simpa [hcs] using t.ne_of_digit hc rfl), ← htail, hcs,
      List.cons_append]
    split
    · case h_1 h => cases h
    · case h_2 h =>
      cases h
      exact absurd rfl (t.ne_of_digit hc rfl)
    · rfl

theorem abs_digit (k : Nat) :
    t.abs / 10 ^ k % 10 = (t.digits.reverse.getD k '0').toNat - '0'.toNat := by
  rw [← lowFirst_digit (fun c hc => t.digits_ok c (List.mem_reverse.1 hc)), lowFirst,
    List.foldr_reverse]
  rfl

/-- Below the sign, the pairs with the zeros behind them are the digits. -/
theorem bcdPairs_text (x : Byte) {i : Nat} (hi : i < 9) :
    (bcdPairs t.digits.reverse).getD i ((List.replicate 12 (0 : Byte)).getD i x) =
      .ofNat 8 (16 * (t.abs / 10 ^ (2 * i + 1) % 10) + t.abs / 10 ^ (2 * i) % 10) := by
  have hzero : (List.replicate 12 (0 : Byte)).getD i x = 0 := by
    rw [List.getD_eq_getElem?_getD, List.getElem?_replicate, if_pos (by omega), Option.getD_some]
  rw [hzero, bcdPairs_getD _ fun c hc => t.digits_ok c (List.mem_reverse.1 hc), abs_digit,
    abs_digit]

/-- From the sign on, the pairs are over. -/
theorem bcdPairs_text_above (x : Byte) {i : Nat} (hi : 10 ≤ i) :
    (bcdPairs t.digits.reverse).getD i x = x := by
  have hlen := t.digits_le
  refine List.getD_eq_default _ _ ?_
  rw [bcdPairs_length, List.length_reverse]
  omega

/-- The bytes of the number, and nothing outside the array. -/
theorem str2bcd_text (m : Memory 32) (bcd : BitVec 32) :
    ∃ m' : Memory 32, str2bcd t.text m bcd = some m' ∧ ∀ i < 2 ^ 32,
      m' (bcd + BitVec.ofNat 32 i) =
        (bcd80 t.neg t.abs ++ [0, 0]).getD i (m (bcd + BitVec.ofNat 32 i)) := by
  have hlen := t.digits_le
  have hpairs := bcdPairs_length t.digits.reverse
  rw [List.length_reverse] at hpairs
  have hconv : str2bcd t.text m bcd =
      some (store (bcdLoop (store m bcd (List.replicate 12 0)) bcd t.digits.reverse) (bcd + 9)
        [if t.neg then 0x80 else 0x00]) := by
    rw [str2bcd, t.bcdText_text]
    rfl
  refine ⟨_, hconv, fun i hi => ?_⟩
  rw [bcdLoop_eq (by decide) _ _ _ (by rw [List.length_reverse]; omega),
    show (9 : BitVec 32) = BitVec.ofNat 32 9 from rfl,
    store_add_offset (by decide) (by simp) hi, store_offset hi, store_offset hi]
  have hcases : i < 9 ∨ i = 9 ∨ i = 10 ∨ i = 11 ∨ 12 ≤ i := by omega
  obtain h | rfl | rfl | rfl | h := hcases
  · rw [if_neg (by omega), t.bcdPairs_text _ h, bcd80]
    simp [List.getD_eq_getElem?_getD, List.getElem?_append, h]
  · rfl
  · rw [t.bcdPairs_text_above _ (by decide)]
    rfl
  · rw [t.bcdPairs_text_above _ (by decide)]
    rfl
  · rw [if_pos (by omega), t.bcdPairs_text_above _ (by omega),
      List.getD_eq_default [_] _ (by simp only [List.length_singleton]; omega),
      List.getD_eq_default (List.replicate ..) _ (by simpa using h),
      List.getD_eq_default (_ ++ _) _ (by simpa [bcd80] using h)]

end Decimal

-- ---------------------------------------------------------------------------
-- The stores
-- ---------------------------------------------------------------------------

def SizeWord.bytes? : SizeWord → Option Nat
  | .byte => some 1
  | .word => some 2
  | .dword => some 4
  | _ => none

/-- A store to a memory operand, with the operand at an address. -/
def execStore (a : BitVec 32) (mem : Memory 32) : Line → Option (Memory 32)
  | .store size (.opnd _) off value =>
    size.bytes?.map fun n => store mem (a + .ofNat 32 off) (leBytes n value.toNat)
  | _ => none

theorem dword_toNat {w : Nat} (x : BitVec w) (i : Nat) :
    (dword x i).toNat = x.toNat / 256 ^ (4 * i) % 256 ^ 4 := by
  have h32 : 2 ^ 32 = 256 ^ 4 := rfl
  rw [dword, BitVec.extractLsb'_toNat, Nat.shiftRight_eq_div_pow, Nat.pow_mul, Nat.pow_mul, h32]

/-- Stores of consecutive dwords leave the bytes of what they are dwords of. -/
theorem execStore_dwords {w : Nat} (o : ModRM) (x : BitVec w) (a : BitVec 32) (mem : Memory 32)
    {k : Nat} (hk : 4 * k < 2 ^ 32) :
    ∃ mem', ((List.range k).map fun i => Line.store .dword (.opnd o) (4 * i) (dword x i)).foldlM
      (execStore a) mem = some mem' ∧ load mem' a (4 * k) = leBytes (4 * k) x.toNat := by
  induction k with
  | zero => exact ⟨mem, rfl, rfl⟩
  | succ k ih =>
    obtain ⟨mem', hmem', hload⟩ := ih (by omega)
    refine ⟨store mem' (a + .ofNat 32 (4 * k)) (leBytes 4 (dword x k).toNat), ?_, ?_⟩
    · rw [List.range_succ, List.map_append, List.foldlM_append, hmem']
      rfl
    · have hlen : (leBytes 4 (dword x k).toNat).length = 4 := leBytes_length _ _
      have habove : load (store mem' (a + .ofNat 32 (4 * k)) (leBytes 4 (dword x k).toNat)) a
          (4 * k + (leBytes 4 (dword x k).toNat).length) =
            load mem' a (4 * k) ++ leBytes 4 (dword x k).toNat :=
        load_store_above (by omega) (by omega)
      rw [hlen] at habove
      rw [Nat.mul_succ, habove, hload, dword_toNat, leBytes_mod, leBytes_add]

/-- `str2bcd` writes within the array, and the stores that
`init_memory_opnd_bcd80` emits for the constant leave the packed number. -/
theorem str2bcd_initMemoryOpndBcd80 (t : Decimal) (m : Memory 32) (bcd : BitVec 32)
    (v : ConstNode) (o : ModRM) :
    ∃ (m' : Memory 32) (ls : List Line), str2bcd t.text m bcd = some m' ∧
      (∀ x, 12 ≤ (x - bcd).toNat → m' x = m x) ∧
      initMemoryOpndBcd80 o { v with union := word 96 (load m' bcd 12) } =
        oneInsnGenCtrl (.lines ls) .after ∧
      ∀ (a : BitVec 32) (mem : Memory 32), ∃ mem', ls.foldlM (execStore a) mem = some mem' ∧
        load mem' a 10 = bcd80 t.neg t.abs := by
  obtain ⟨m', hm', hbytes⟩ := t.str2bcd_text m bcd
  have hlen : (bcd80 t.neg t.abs ++ [(0 : Byte), 0]).length = 12 := by simp [bcd80]
  have hload : load m' bcd 12 = bcd80 t.neg t.abs ++ [0, 0] := by
    refine List.ext_getElem (by rw [load_length, hlen]) fun i hi _ => ?_
    rw [load_length] at hi
    rw [load_getElem, hbytes i (by omega),
      List.getD_eq_getElem _ _ (by rw [hlen]; exact hi)]
  refine ⟨m', _, hm', fun x hx => ?_, rfl, fun a mem => ?_⟩
  · obtain ⟨i, hi, rfl⟩ := exists_offset bcd x
    have hsub : (bcd + BitVec.ofNat 32 i - bcd).toNat = i := by
      rw [add_sub_cancel_left, BitVec.toNat_ofNat, Nat.mod_eq_of_lt hi]
    rw [hbytes i hi, List.getD_eq_default _ _ (by omega)]
  · obtain ⟨mem', hmem', hdwords⟩ := execStore_dwords o (word 96 (load m' bcd 12)) a mem
      (k := 3) (by decide)
    refine ⟨mem', hmem', ?_⟩
    have hall : load mem' a (10 + 2) = bcd80 t.neg t.abs ++ [0, 0] := by
      have hword : leBytes (load m' bcd 12).length (word 96 (load m' bcd 12)).toNat =
          load m' bcd 12 := leBytes_word (by rw [load_length])
      rw [load_length] at hword
      rw [← hload, ← hword, ← hdwords]
    rw [load_add] at hall
    exact List.append_inj_left hall (by simp [bcd80])

end Btrtg
