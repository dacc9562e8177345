import Mathlib.Data.Int.GCD
import Mathlib.Data.Nat.Find
import Mathlib.Data.Nat.ModEq
import Mathlib.Logic.Function.Iterate

/-!
# Open addressing

A table of slots in which each key has its own order of probing. A table is
placed when every entry is met by the probing of its key before an empty slot
is; the probing then finds exactly the entries, and an entry put where the
probing of its key ends leaves the table placed.
-/

namespace OpenAddr

variable {β κ : Type}

-- ---------------------------------------------------------------------------
-- Probing
-- ---------------------------------------------------------------------------

/-- The first slot that is empty or has an accepted entry. -/
def scan (slots : List (Option β)) (accept : β → Bool) (next : Nat → Nat) :
    Nat → Nat → Option (Nat × Option β)
  | 0, _ => none
  | fuel + 1, pos =>
    match slots[pos]? with
    | some (some e) => if accept e then some (pos, some e) else scan slots accept next fuel (next pos)
    | some none => some (pos, none)
    | none => none

section
variable {slots : List (Option β)} {accept : β → Bool} {next : Nat → Nat} {fuel pos i q : Nat}
  {r : Option β}

/-- The slots before the `i`-th one have entries that are not accepted. -/
def Passes (slots : List (Option β)) (accept : β → Bool) (next : Nat → Nat) (pos i : Nat) : Prop :=
  ∀ j < i, ∃ e, slots[next^[j] pos]? = some (some e) ∧ accept e = false

theorem Passes.succ (he : slots[pos]? = some (some e)) (ha : accept e = false)
    (h : Passes slots accept next (next pos) i) : Passes slots accept next pos (i + 1) := by
  intro j hj
  cases j with
  | zero => exact ⟨e, he, ha⟩
  | succ j => exact h j (Nat.lt_of_succ_lt_succ hj)

theorem Passes.tail (h : Passes slots accept next pos (i + 1)) :
    Passes slots accept next (next pos) i :=
  fun j hj => h (j + 1) (Nat.succ_lt_succ hj)

/-- Where a scan ends. -/
theorem scan_spec (h : scan slots accept next fuel pos = some (q, r)) :
    ∃ i < fuel, next^[i] pos = q ∧ slots[q]? = some r ∧ (∀ e, r = some e → accept e = true) ∧
      Passes slots accept next pos i := by
  induction fuel generalizing pos with
  | zero => cases h
  | succ fuel ih =>
    rw [scan] at h
    split at h
    · case h_1 e he =>
      split at h
      · case isTrue ha =>
        cases h
        refine ⟨0, Nat.succ_pos _, rfl, he, ?_, fun j hj => absurd hj (Nat.not_lt_zero j)⟩
        rintro e' ⟨⟩
        exact ha
      · case isFalse ha =>
        obtain ⟨i, hi, hq, hslot, haccept, hpasses⟩ := ih h
        exact ⟨i + 1, Nat.succ_lt_succ hi, hq, hslot, haccept,
          hpasses.succ he (Bool.eq_false_iff.2 ha)⟩
    · case h_2 he =>
      cases h
      refine ⟨0, Nat.succ_pos _, rfl, he, ?_, fun j hj => absurd hj (Nat.not_lt_zero j)⟩
      rintro e' ⟨⟩
    · cases h

/-- A scan ends at the first slot that it does not pass. -/
theorem scan_eq (hi : i < fuel) (hpasses : Passes slots accept next pos i)
    (hslot : slots[next^[i] pos]? = some r) (haccept : ∀ e, r = some e → accept e = true) :
    scan slots accept next fuel pos = some (next^[i] pos, r) := by
  induction fuel generalizing pos i with
  | zero => exact absurd hi (Nat.not_lt_zero i)
  | succ fuel ih =>
    cases i with
    | zero =>
      rw [Function.iterate_zero_apply] at hslot ⊢
      cases r with
      | none => simp only [scan, hslot]
      | some e => simp only [scan, hslot, haccept e rfl, if_true]
    | succ i =>
      obtain ⟨e, he, ha⟩ := hpasses 0 (Nat.succ_pos i)
      rw [Function.iterate_zero_apply] at he
      simp only [scan, he, ha, Bool.false_eq_true, if_false]
      exact ih (Nat.lt_of_succ_lt_succ hi) hpasses.tail hslot

/-- Only the answers for the entries matter. -/
theorem scan_congr {accept' : β → Bool} (h : ∀ e, some e ∈ slots → accept e = accept' e) :
    scan slots accept next fuel pos = scan slots accept' next fuel pos := by
  induction fuel generalizing pos with
  | zero => rfl
  | succ fuel ih =>
    rw [scan, scan]
    split
    · case h_1 e he => rw [h e (List.mem_of_getElem? he), ih]
    · rfl
    · rfl

end

-- ---------------------------------------------------------------------------
-- Placed tables
-- ---------------------------------------------------------------------------

/-- For each key an order in which all slots of a table come up. -/
structure Probing (κ : Type) (size : Nat) where
  start : κ → Nat
  next : κ → Nat → Nat
  lt : ∀ k i, (next k)^[i] (start k) < size
  covers : ∀ k, ∀ q < size, ∃ i < size, (next k)^[i] (start k) = q

variable {size : Nat}

def Probing.slot (P : Probing κ size) (k : κ) (i : Nat) : Nat := (P.next k)^[i] (P.start k)

def Probing.find [DecidableEq κ] (P : Probing κ size) (key : β → κ) (slots : List (Option β)) (k : κ) :
    Option (Nat × Option β) :=
  scan slots (fun e => key e = k) (P.next k) size (P.start k)

/-- The slots of a key before the `i`-th one have entries of other keys. -/
def Probing.Before (P : Probing κ size) (key : β → κ) (slots : List (Option β)) (k : κ)
    (i : Nat) : Prop :=
  ∀ j < i, ∃ e, slots[P.slot k j]? = some (some e) ∧ key e ≠ k

/-- Every entry is met by the probing of its key. -/
structure Placed (P : Probing κ size) (key : β → κ) (slots : List (Option β)) : Prop where
  length : slots.length = size
  met : ∀ q e, slots[q]? = some (some e) → ∃ i, P.slot (key e) i = q ∧ P.Before key slots (key e) i

section
variable {P : Probing κ size} {key : β → κ} {slots : List (Option β)} {k : κ} {q q' i : Nat}
  {e e' : β}

theorem passes_iff [DecidableEq κ] :
    Passes slots (fun e => key e = k) (P.next k) (P.start k) i ↔ P.Before key slots k i := by
  simp only [Passes, Probing.Before, Probing.slot, decide_eq_false_iff_not]

/-- The slot of an entry comes up within the size of the table. -/
theorem Placed.met_lt (h : Placed P key slots) (he : slots[q]? = some (some e)) :
    ∃ i < size, P.slot (key e) i = q ∧ P.Before key slots (key e) i := by
  obtain ⟨i, hi, hbefore⟩ := h.met q e he
  have hq : q < size := by
    rw [← h.length]
    exact (List.getElem?_eq_some_iff.1 he).1
  obtain ⟨i', hi', hq'⟩ := P.covers (key e) q hq
  refine ⟨i, Nat.lt_of_le_of_lt (Nat.not_lt.1 fun hlt => ?_) hi', hi, hbefore⟩
  obtain ⟨e', he', hne⟩ := hbefore i' hlt
  have hslot : P.slot (key e) i' = q := hq'
  rw [hslot, he] at he'
  cases he'
  exact hne rfl

/-- An entry is found where it is. -/
theorem Placed.find_eq [DecidableEq κ] (h : Placed P key slots) (he : slots[q]? = some (some e)) :
    P.find key slots (key e) = some (q, some e) := by
  obtain ⟨i, hi, rfl, hbefore⟩ := h.met_lt he
  refine scan_eq hi (passes_iff.2 hbefore) he fun e' he' => ?_
  cases he'
  exact decide_eq_true rfl

/-- No two entries have one key. -/
theorem Placed.unique [DecidableEq κ] (h : Placed P key slots) (he : slots[q]? = some (some e))
    (he' : slots[q']? = some (some e')) (hk : key e = key e') : q = q' := by
  have hfind := h.find_eq he
  rw [hk, h.find_eq he'] at hfind
  cases hfind
  rfl

/-- The probing for a key without an entry ends at an empty slot. -/
theorem Placed.find_none [DecidableEq κ] (h : Placed P key slots) (hroom : none ∈ slots)
    (hk : ∀ e, some e ∈ slots → key e ≠ k) :
    ∃ i < size, P.find key slots k = some (P.slot k i, none) ∧
      slots[P.slot k i]? = some none ∧ P.Before key slots k i := by
  obtain ⟨q, hq⟩ := List.mem_iff_getElem?.1 hroom
  have hlt : q < size := by
    rw [← h.length]
    exact (List.getElem?_eq_some_iff.1 hq).1
  obtain ⟨i, hi, hiq⟩ := P.covers k q hlt
  have hempty : slots[P.slot k i]? = some none := by rw [← hq, ← hiq, Probing.slot]
  have hex : ∃ i, slots[P.slot k i]? = some none := ⟨i, hempty⟩
  classical
  -- the first of the empty slots that come up
  have hfirst := Nat.find_spec hex
  have hle : Nat.find hex ≤ i := Nat.find_min' hex hempty
  have hbefore : P.Before key slots k (Nat.find hex) := by
    intro j hj
    have hin : P.slot k j < slots.length := h.length ▸ P.lt k j
    have hsome := List.getElem?_eq_getElem hin
    cases hs : slots[P.slot k j] with
    | none => exact absurd (hsome.trans (congrArg some hs)) (Nat.find_min hex hj)
    | some e =>
      rw [hs] at hsome
      exact ⟨e, hsome, hk e (List.mem_of_getElem? hsome)⟩
  have hlt' : Nat.find hex < size := Nat.lt_of_le_of_lt hle hi
  refine ⟨Nat.find hex, hlt', ?_, hfirst, hbefore⟩
  exact scan_eq hlt' (passes_iff.2 hbefore) hfirst fun e he => by cases he

/-- An entry that is put where the probing of its key ends. -/
theorem Placed.put (h : Placed P key slots) (hk : key e = k)
    (hslot : slots[P.slot k i]? = some none) (hbefore : P.Before key slots k i) :
    Placed P key (slots.set (P.slot k i) (some e)) := by
  have hkeep {j : Nat} {x : β} (hx : slots[j]? = some (some x)) :
      (slots.set (P.slot k i) (some e))[j]? = some (some x) := by
    rw [List.getElem?_set_ne, hx]
    rintro rfl
    cases hslot.symm.trans hx
  have hbefore' {k' : κ} {i' : Nat} (hb : P.Before key slots k' i') :
      P.Before key (slots.set (P.slot k i) (some e)) k' i' := by
    intro j hj
    obtain ⟨x, hx, hne⟩ := hb j hj
    exact ⟨x, hkeep hx, hne⟩
  refine ⟨by rw [List.length_set, h.length], fun q x hx => ?_⟩
  by_cases hq : P.slot k i = q
  · subst hq
    rw [List.getElem?_set_self (List.getElem?_eq_some_iff.1 hslot).1] at hx
    cases hx
    subst hk
    exact ⟨i, rfl, hbefore' hbefore⟩
  · rw [List.getElem?_set_ne hq] at hx
    obtain ⟨i', hi', hb⟩ := h.met q x hx
    exact ⟨i', hi', hbefore' hb⟩

/-- An entry that is replaced by one of its key. -/
theorem Placed.replace (h : Placed P key slots) (he : slots[q]? = some (some e))
    (hk : key e' = key e) : Placed P key (slots.set q (some e')) := by
  have hlt := (List.getElem?_eq_some_iff.1 he).1
  have hentry {j : Nat} {x : β} (hx : slots[j]? = some (some x)) :
      ∃ y, (slots.set q (some e'))[j]? = some (some y) ∧ key y = key x := by
    by_cases hj : q = j
    · subst hj
      rw [he] at hx
      cases hx
      exact ⟨e', List.getElem?_set_self hlt, hk⟩
    · exact ⟨x, by rw [List.getElem?_set_ne hj, hx], rfl⟩
  have hbefore' {k : κ} {i' : Nat} (hb : P.Before key slots k i') :
      P.Before key (slots.set q (some e')) k i' := by
    intro j hj
    obtain ⟨x, hx, hne⟩ := hb j hj
    obtain ⟨y, hy, hky⟩ := hentry hx
    exact ⟨y, hy, hky ▸ hne⟩
  refine ⟨by rw [List.length_set, h.length], fun q' x hx => ?_⟩
  by_cases hq : q = q'
  · subst hq
    rw [List.getElem?_set_self hlt] at hx
    cases hx
    obtain ⟨i', hi', hb⟩ := h.met q e he
    rw [← hk] at hi' hb
    exact ⟨i', hi', hbefore' hb⟩
  · rw [List.getElem?_set_ne hq] at hx
    obtain ⟨i', hi', hb⟩ := h.met q' x hx
    exact ⟨i', hi', hbefore' hb⟩

theorem placed_empty : Placed P key (List.replicate size none) := by
  refine ⟨List.length_replicate, fun q e he => ?_⟩
  cases List.eq_of_mem_replicate (List.mem_of_getElem? he)

end

-- ---------------------------------------------------------------------------
-- Occupied slots
-- ---------------------------------------------------------------------------

def occupied (slots : List (Option β)) : Nat := slots.countP Option.isSome

theorem none_mem_of_occupied_lt {slots : List (Option β)} (h : occupied slots < slots.length) :
    none ∈ slots := by
  have hne : ¬ ∀ s ∈ slots, s.isSome = true := fun hall =>
    absurd (List.countP_eq_length.2 hall) (Nat.ne_of_lt h)
  obtain ⟨s, hs⟩ := not_forall.1 hne
  obtain ⟨hmem, hs⟩ := Classical.not_imp.1 hs
  rwa [Option.not_isSome_iff_eq_none.1 hs] at hmem

theorem occupied_put {slots : List (Option β)} {q : Nat} {e : β} (h : slots[q]? = some none) :
    occupied (slots.set q (some e)) = occupied slots + 1 := by
  obtain ⟨hlt, hnone⟩ := List.getElem?_eq_some_iff.1 h
  rw [occupied, List.countP_set hlt, hnone]
  simp [occupied]

theorem occupied_replace {slots : List (Option β)} {q : Nat} {e e' : β}
    (h : slots[q]? = some (some e)) : occupied (slots.set q (some e')) = occupied slots := by
  obtain ⟨hlt, hsome⟩ := List.getElem?_eq_some_iff.1 h
  have hpos : 0 < slots.countP Option.isSome :=
    List.countP_pos_iff.2 ⟨some e, List.mem_of_getElem? h, rfl⟩
  rw [occupied, List.countP_set hlt, hsome]
  simp [occupied, Nat.sub_add_cancel hpos]

theorem mem_put {slots : List (Option β)} {q : Nat} {e x : β} (h : slots[q]? = some none) :
    some x ∈ slots.set q (some e) ↔ x = e ∨ some x ∈ slots := by
  have hlt := (List.getElem?_eq_some_iff.1 h).1
  rw [List.mem_iff_getElem?, List.mem_iff_getElem?]
  constructor
  · rintro ⟨j, hj⟩
    by_cases hq : q = j
    · subst hq
      rw [List.getElem?_set_self hlt] at hj
      cases hj
      exact .inl rfl
    · rw [List.getElem?_set_ne hq] at hj
      exact .inr ⟨j, hj⟩
  · rintro (rfl | ⟨j, hj⟩)
    · exact ⟨q, List.getElem?_set_self hlt⟩
    · refine ⟨j, ?_⟩
      rw [List.getElem?_set_ne, hj]
      rintro rfl
      cases h.symm.trans hj

theorem Placed.mem_replace [DecidableEq κ] {P : Probing κ size} {key : β → κ}
    {slots : List (Option β)} {q : Nat} {e e' x : β} (h : Placed P key slots)
    (he : slots[q]? = some (some e)) :
    some x ∈ slots.set q (some e') ↔ x = e' ∨ key x ≠ key e ∧ some x ∈ slots := by
  have hlt := (List.getElem?_eq_some_iff.1 he).1
  rw [List.mem_iff_getElem?, List.mem_iff_getElem?]
  constructor
  · rintro ⟨j, hj⟩
    by_cases hq : q = j
    · subst hq
      rw [List.getElem?_set_self hlt] at hj
      cases hj
      exact .inl rfl
    · rw [List.getElem?_set_ne hq] at hj
      exact .inr ⟨fun hk => hq (h.unique he hj hk.symm), j, hj⟩
  · rintro (rfl | ⟨hne, j, hj⟩)
    · exact ⟨q, List.getElem?_set_self hlt⟩
    · refine ⟨j, ?_⟩
      rw [List.getElem?_set_ne, hj]
      rintro rfl
      cases he.symm.trans hj
      exact hne rfl

-- ---------------------------------------------------------------------------
-- Another size
-- ---------------------------------------------------------------------------

def Probing.place (P : Probing κ size) (key : β → κ) (slots : List (Option β)) (e : β) :
    Option (List (Option β)) :=
  (scan slots (fun _ => false) (P.next (key e)) size (P.start (key e))).map fun (q, _) =>
    slots.set q (some e)

def Probing.rehash (P : Probing κ size) (key : β → κ) :
    List (Option β) → List (Option β) → Option (List (Option β))
  | slots, [] => some slots
  | slots, none :: old => P.rehash key slots old
  | slots, some e :: old => do
    let slots ← P.place key slots e
    P.rehash key slots old

section
variable {P : Probing κ size} {key : β → κ} {slots : List (Option β)} {e : β}

/-- What a search for an empty slot finds is empty, and the table grows by the entry. -/
theorem mem_of_place {slots' : List (Option β)} (h : P.place key slots e = some slots') {x : β}
    (hx : some x ∈ slots') : x = e ∨ some x ∈ slots := by
  obtain ⟨⟨q, r⟩, hscan, rfl⟩ := Option.map_eq_some_iff.1 h
  obtain ⟨i, -, -, hslot, haccept, -⟩ := scan_spec hscan
  cases r with
  | none => exact (mem_put hslot).1 hx
  | some e' => cases haccept e' rfl

theorem mem_of_rehash {old slots slots' : List (Option β)} (h : P.rehash key slots old = some slots')
    {x : β} (hx : some x ∈ slots') : some x ∈ slots ∨ some x ∈ old := by
  induction old generalizing slots with
  | nil =>
    cases h
    exact .inl hx
  | cons s old ih =>
    cases s with
    | none => exact (ih h).imp_right (List.mem_cons_of_mem _)
    | some e =>
      obtain ⟨slots₁, hplace, hrest⟩ := Option.bind_eq_some_iff.1 h
      rcases ih hrest with hin | hin
      · rcases mem_of_place hplace hin with rfl | hin
        · exact .inr (List.mem_cons_self ..)
        · exact .inl hin
      · exact .inr (List.mem_cons_of_mem _ hin)

/-- An entry of a new key goes where the probing of its key ends. -/
theorem Placed.place [DecidableEq κ] (h : Placed P key slots) (hroom : none ∈ slots)
    (hk : ∀ x, some x ∈ slots → key x ≠ key e) :
    ∃ q, slots[q]? = some none ∧ P.place key slots e = some (slots.set q (some e)) ∧
      Placed P key (slots.set q (some e)) := by
  obtain ⟨i, -, hfind, hslot, hbefore⟩ := h.find_none hroom hk
  have hscan : scan slots (fun _ => false) (P.next (key e)) size (P.start (key e)) =
      some (P.slot (key e) i, none) := by
    rw [← hfind]
    exact scan_congr fun x hx => (decide_eq_false (hk x hx)).symm
  exact ⟨_, hslot, by rw [Probing.place, hscan]; rfl, h.put rfl hslot hbefore⟩

/-- The entries of a table with different keys can be put into one with room for them. -/
theorem Placed.rehash [DecidableEq κ] {old : List (Option β)} (h : Placed P key slots)
    (hroom : occupied slots + occupied old < size)
    (hold : old.Pairwise fun s s' => ∀ e ∈ s, ∀ e' ∈ s', key e ≠ key e')
    (hnew : ∀ e, some e ∈ old → ∀ x, some x ∈ slots → key x ≠ key e) :
    ∃ slots', P.rehash key slots old = some slots' ∧ Placed P key slots' ∧
      occupied slots' = occupied slots + occupied old ∧
      ∀ x, some x ∈ slots' ↔ some x ∈ slots ∨ some x ∈ old := by
  induction old generalizing slots with
  | nil => exact ⟨slots, rfl, h, rfl, fun x => by simp⟩
  | cons s old ih =>
    obtain ⟨hhead, htail⟩ := List.pairwise_cons.1 hold
    cases s with
    | none =>
      have hocc : occupied (none :: old) = occupied old := by simp [occupied]
      rw [hocc] at hroom ⊢
      obtain ⟨slots', hre, hplaced, hcount, hmem⟩ :=
        ih h hroom htail fun e he => hnew e (List.mem_cons_of_mem _ he)
      refine ⟨slots', hre, hplaced, hcount, fun x => ?_⟩
      rw [hmem, List.mem_cons]
      simp
    | some e =>
      have hocc : occupied (some e :: old) = occupied old + 1 := by simp [occupied]
      rw [hocc] at hroom ⊢
      have hempty : none ∈ slots :=
        none_mem_of_occupied_lt (by rw [h.length]; omega)
      obtain ⟨q, hslot, hplace, hput⟩ :=
        h.place hempty fun x hx => hnew e (List.mem_cons_self ..) x hx
      have hnew' : ∀ e', some e' ∈ old → ∀ x, some x ∈ slots.set q (some e) → key x ≠ key e' := by
        intro e' he' x hx
        rcases (mem_put hslot).1 hx with rfl | hx
        · exact hhead _ he' x rfl e' rfl
        · exact hnew e' (List.mem_cons_of_mem _ he') x hx
      obtain ⟨slots', hre, hplaced, hcount, hmem⟩ :=
        ih hput (by rw [occupied_put hslot]; omega) htail hnew'
      refine ⟨slots', ?_, hplaced, ?_, fun x => ?_⟩
      · rw [Probing.rehash, hplace]
        exact hre
      · rw [hcount, occupied_put hslot]
        omega
      · rw [hmem, mem_put hslot, List.mem_cons, Option.some.injEq]
        tauto

/-- The keys of a placed table are different. -/
theorem Placed.pairwise [DecidableEq κ] (h : Placed P key slots) :
    slots.Pairwise fun s s' => ∀ e ∈ s, ∀ e' ∈ s', key e ≠ key e' := by
  rw [List.pairwise_iff_getElem]
  intro i j hi hj hij e he e' he' hk
  have hentry : slots[i]? = some (some e) := by rw [List.getElem?_eq_getElem hi, Option.mem_def.1 he]
  have hentry' : slots[j]? = some (some e') := by
    rw [List.getElem?_eq_getElem hj, Option.mem_def.1 he']
  exact Nat.ne_of_lt hij (h.unique hentry hentry' hk)

end

-- ---------------------------------------------------------------------------
-- Odd steps
-- ---------------------------------------------------------------------------

theorem iterate_add_mod (size inc pos i : Nat) (hpos : pos < size) :
    (fun p => (p + inc) % size)^[i] pos = (pos + i * inc) % size := by
  induction i with
  | zero => rw [Function.iterate_zero_apply, Nat.zero_mul, Nat.add_zero, Nat.mod_eq_of_lt hpos]
  | succ i ih => rw [Function.iterate_succ_apply', ih, Nat.mod_add_mod, Nat.succ_mul, Nat.add_assoc]

/-- Steps of a length without a common divisor with the size meet every slot. -/
theorem covers_of_coprime {size inc : Nat} (hco : Nat.Coprime inc size) (pos : Nat) {q : Nat}
    (hq : q < size) : ∃ i < size, (pos + i * inc) % size = q := by
  rcases Nat.lt_or_ge 1 size with hone | hone
  · obtain ⟨m, hm⟩ := Nat.exists_mul_mod_eq_one_of_coprime hco hone
    -- `m` steps are a step of one slot
    let d := q + (size - pos % size)
    refine ⟨m * d % size, Nat.mod_lt _ (by omega), ?_⟩
    have hunit : inc * m ≡ 1 [MOD size] := hm.2.trans (Nat.mod_eq_of_lt hone).symm
    have hstep : m * d % size * inc ≡ d [MOD size] := by
      calc m * d % size * inc ≡ m * d * inc [MOD size] := (Nat.mod_modEq _ _).mul_right inc
        _ = inc * m * d := by rw [Nat.mul_comm (m * d), Nat.mul_assoc]
        _ ≡ 1 * d [MOD size] := hunit.mul_right d
        _ = d := Nat.one_mul d
    have hsum : pos + m * d % size * inc ≡ q [MOD size] := by
      calc pos + m * d % size * inc ≡ pos % size + d [MOD size] :=
            (Nat.mod_modEq _ _).symm.add hstep
        _ = q + size := by
            have := Nat.mod_lt pos (show 0 < size by omega)
            omega
        _ ≡ q [MOD size] := Nat.add_mod_right q size
    exact Eq.trans hsum (Nat.mod_eq_of_lt hq)
  · refine ⟨0, by omega, ?_⟩
    have hsize : size = 1 := by omega
    rw [hsize, Nat.mod_one]
    omega

end OpenAddr
