import Mathlib.Tactic.Common

/-!
# Strings in memory

A memory is a list of characters and an address an index into it; an access
behind the end is a fault. A string stands at an address when its characters do
and a NUL stands behind them, and its length is what `strlen` counts.
-/

namespace Btrtg

abbrev CMem := List Char

namespace CMem

def nul : Char := '\x00'

def put (mem : CMem) (a : Nat) (c : Char) : Option CMem :=
  if a < mem.length then some (mem.set a c) else none

def strlen (mem : CMem) (a : Nat) : Option Nat :=
  let n := ((mem.drop a).takeWhile (· ≠ nul)).length
  if a + n < mem.length then some n else none

/-- Characters are copied, the first one first. -/
def copyForward (mem : CMem) (dst src : Nat) : Nat → Option CMem
  | 0 => some mem
  | n + 1 => do
    let c ← mem[src]?
    let mem ← put mem dst c
    copyForward mem (dst + 1) (src + 1) n

/-- Characters are copied, the last one first. -/
def copyBackward (mem : CMem) (dst src : Nat) : Nat → Option CMem
  | 0 => some mem
  | n + 1 => do
    let c ← mem[src + n]?
    let mem ← put mem (dst + n) c
    copyBackward mem dst src n

structure StrAt (mem : CMem) (a : Nat) (s : List Char) : Prop where
  noNul : nul ∉ s
  chars : ∀ i < s.length, mem[a + i]? = s[i]?
  ends : mem[a + s.length]? = some nul

/-- Characters of one memory stand elsewhere in another, which is the same outside. -/
structure Moved (mem mem' : CMem) (dst src n : Nat) : Prop where
  length : mem'.length = mem.length
  inside : ∀ i < n, mem'[dst + i]? = mem[src + i]?
  outside : ∀ j, (j < dst ∨ dst + n ≤ j) → mem'[j]? = mem[j]?

section
variable {mem mem' : CMem} {a dst src n j : Nat} {c : Char} {s t : List Char}

theorem put_ok (h : a < mem.length) : put mem a c = some (mem.set a c) := if_pos h

theorem StrAt.lt (h : StrAt mem a s) : a + s.length < mem.length :=
  (List.getElem?_eq_some_iff.1 h.ends).1

/-- `strlen` counts the characters up to the NUL. -/
theorem StrAt.strlen (h : StrAt mem a s) : strlen mem a = some s.length := by
  have hfront : mem.drop a = s ++ nul :: mem.drop (a + s.length + 1) := by
    refine List.ext_getElem? fun i => ?_
    rw [List.getElem?_drop]
    rcases Nat.lt_trichotomy i s.length with hi | rfl | hi
    · rw [h.chars i hi, List.getElem?_append_left hi]
    · rw [h.ends, List.getElem?_append_right (Nat.le_refl _), Nat.sub_self]
      rfl
    · obtain ⟨k, rfl⟩ := Nat.exists_eq_add_of_lt hi
      rw [List.getElem?_append_right (by omega), show s.length + k + 1 - s.length = k + 1 by omega,
        List.getElem?_cons_succ, List.getElem?_drop]
      congr 1
      omega
  have hne : ∀ c ∈ s, (c ≠ nul : Bool) = true := fun c hc =>
    decide_eq_true fun h' => h.noNul (h' ▸ hc)
  have htake : (mem.drop a).takeWhile (· ≠ nul) = s := by
    rw [hfront, List.takeWhile_append_of_pos hne]
    simp
  rw [CMem.strlen, htake]
  exact if_pos h.lt

/-- The end of a string is a string. -/
theorem StrAt.drop (h : StrAt mem a s) {k : Nat} (hk : k ≤ s.length) :
    StrAt mem (a + k) (s.drop k) := by
  refine ⟨fun hc => h.noNul (List.mem_of_mem_drop hc), fun i hi => ?_, ?_⟩
  · rw [List.length_drop] at hi
    rw [List.getElem?_drop, Nat.add_assoc]
    exact h.chars _ (by omega)
  · rw [List.length_drop, Nat.add_assoc, Nat.add_sub_cancel' hk]
    exact h.ends

theorem Moved.refl (mem : CMem) (dst src : Nat) : Moved mem mem dst src 0 :=
  ⟨rfl, fun _ hi => absurd hi (Nat.not_lt_zero _), fun _ _ => rfl⟩

/-- A character that is read there is written, and the copy goes on with the others. -/
theorem copyForward_succ (hs : mem[src]? = some c) (hdst : dst < mem.length) :
    copyForward mem dst src (n + 1) = copyForward (mem.set dst c) (dst + 1) (src + 1) n := by
  simp only [copyForward, hs, put_ok hdst, Option.bind_eq_bind, Option.bind_some]

theorem copyBackward_succ (hs : mem[src + n]? = some c) (hdst : dst + n < mem.length) :
    copyBackward mem dst src (n + 1) = copyBackward (mem.set (dst + n) c) dst src n := by
  simp only [copyBackward, hs, put_ok hdst, Option.bind_eq_bind, Option.bind_some]

/-- Copied upwards, characters arrive unless the target begins within the source. -/
theorem copyForward_ok (hsrc : src + n ≤ mem.length) (hdst : dst + n ≤ mem.length)
    (hover : dst ≤ src ∨ src + n ≤ dst) :
    ∃ mem', copyForward mem dst src n = some mem' ∧ Moved mem mem' dst src n := by
  induction n generalizing mem dst src with
  | zero => exact ⟨mem, rfl, .refl mem dst src⟩
  | succ n ih =>
    have hs : src < mem.length := by omega
    have hd : dst < mem.length := by omega
    rw [copyForward_succ (List.getElem?_eq_getElem hs) hd]
    have hlen : (mem.set dst mem[src]).length = mem.length := List.length_set
    obtain ⟨mem', hcopy, hmoved⟩ := ih (by rw [hlen]; omega : src + 1 + n ≤ _)
      (by rw [hlen]; omega : dst + 1 + n ≤ _) (by omega)
    refine ⟨mem', hcopy, hmoved.length.trans hlen, fun i hi => ?_, fun j hj => ?_⟩
    · cases i with
      | zero =>
        rw [hmoved.outside _ (.inl (by omega)), Nat.add_zero, List.getElem?_set_self hd]
        exact (List.getElem?_eq_getElem hs).symm
      | succ i =>
        -- what was written is not read any more
        have hne : dst ≠ src + (i + 1) := by omega
        rw [show dst + (i + 1) = dst + 1 + i by omega, hmoved.inside i (by omega),
          show src + 1 + i = src + (i + 1) by omega, List.getElem?_set_ne hne]
    · rw [hmoved.outside j (by omega), List.getElem?_set_ne (by omega)]

/-- Copied downwards, characters arrive unless the target ends within the source. -/
theorem copyBackward_ok (hsrc : src + n ≤ mem.length) (hdst : dst + n ≤ mem.length)
    (hover : src ≤ dst ∨ dst + n ≤ src) :
    ∃ mem', copyBackward mem dst src n = some mem' ∧ Moved mem mem' dst src n := by
  induction n generalizing mem with
  | zero => exact ⟨mem, rfl, .refl mem dst src⟩
  | succ n ih =>
    have hs : src + n < mem.length := by omega
    have hd : dst + n < mem.length := by omega
    rw [copyBackward_succ (List.getElem?_eq_getElem hs) hd]
    have hlen : (mem.set (dst + n) mem[src + n]).length = mem.length := List.length_set
    obtain ⟨mem', hcopy, hmoved⟩ := ih (by rw [hlen]; omega : src + n ≤ _)
      (by rw [hlen]; omega : dst + n ≤ _) (by omega)
    refine ⟨mem', hcopy, hmoved.length.trans hlen, fun i hi => ?_, fun j hj => ?_⟩
    · rcases Nat.lt_succ_iff_lt_or_eq.1 hi with hi | rfl
      · have hne : dst + n ≠ src + i := by omega
        rw [hmoved.inside i hi, List.getElem?_set_ne hne]
      · rw [hmoved.outside _ (.inr (Nat.le_refl _)), List.getElem?_set_self hd]
        exact (List.getElem?_eq_getElem hs).symm
    · rw [hmoved.outside j (by omega), List.getElem?_set_ne (by omega)]

/-- A string that is moved stands at its new place, but for its end. -/
theorem Moved.getElem? (h : Moved mem mem' dst src n) (hs : StrAt mem src s)
    (hn : s.length = n) {i : Nat} (hi : i < n) : mem'[dst + i]? = s[i]? := by
  rw [h.inside i hi, hs.chars i (hn ▸ hi)]

/-- A string stands where it did in a memory that is the same there. -/
theorem StrAt.congr (h : StrAt mem a s)
    (heq : ∀ j, a ≤ j → j ≤ a + s.length → mem'[j]? = mem[j]?) : StrAt mem' a s :=
  ⟨h.noNul, fun i hi => (heq _ (by omega) (by omega)).trans (h.chars i hi),
    (heq _ (by omega) (Nat.le_refl _)).trans h.ends⟩

/-- Characters and a string behind them are a string. -/
theorem StrAt.append (hno : nul ∉ s) (hs : ∀ i < s.length, mem[a + i]? = s[i]?)
    (ht : StrAt mem (a + s.length) t) : StrAt mem a (s ++ t) := by
  refine ⟨fun hc => (List.mem_append.1 hc).elim hno ht.noNul, fun i hi => ?_, ?_⟩
  · rw [List.length_append] at hi
    by_cases hlt : i < s.length
    · rw [hs i hlt, List.getElem?_append_left hlt]
    · rw [List.getElem?_append_right (by omega), ← ht.chars _ (by omega)]
      congr 1
      omega
  · rw [List.length_append, ← Nat.add_assoc]
    exact ht.ends

/-- Characters that a NUL is written behind are a string. -/
theorem StrAt.put (hno : nul ∉ s) (hs : ∀ i < s.length, mem[a + i]? = s[i]?)
    (hlt : a + s.length < mem.length) : StrAt (mem.set (a + s.length) nul) a s :=
  ⟨hno, fun i hi => (List.getElem?_set_ne (by omega)).trans (hs i hi),
    List.getElem?_set_self hlt⟩

end

end CMem

end Btrtg
