import Mathlib.Algebra.BigOperators.Group.List.Basic
import Mathlib.Algebra.Order.Ring.Nat
import Mathlib.Tactic.Ring

/-!
# Lexicographic products

The choices of one element from each of several lists, the last list varying
fastest. The rank of a choice is a mixed-radix number whose digits are the
positions of its elements.
-/

namespace List

variable {α : Type}

/-- The choices in lexicographic order of positions. -/
def lexProduct : List (List α) → List (List α)
  | [] => [[]]
  | l :: ls => l.flatMap fun a => (lexProduct ls).map (a :: ·)

@[simp] theorem lexProduct_nil : lexProduct ([] : List (List α)) = [[]] := rfl

theorem length_lexProduct (ls : List (List α)) :
    (lexProduct ls).length = (ls.map List.length).prod := by
  induction ls with
  | nil => rfl
  | cons l ls ih => simp [lexProduct, length_flatMap, ih]

/-- The first digit of a rank, and the rank of the rest. -/
theorem getElem?_lexProduct_cons {l : List α} {ls : List (List α)} {r : Nat} {v : List α} :
    (lexProduct (l :: ls))[r]? = some v ↔ ∃ a w, l[r / (lexProduct ls).length]? = some a ∧
      (lexProduct ls)[r % (lexProduct ls).length]? = some w ∧ v = a :: w := by
  induction l generalizing r with
  | nil => simp [lexProduct]
  | cons a l ih =>
    have hcons : lexProduct ((a :: l) :: ls) =
        (lexProduct ls).map (a :: ·) ++ lexProduct (l :: ls) := rfl
    rw [hcons]
    by_cases hr : r < (lexProduct ls).length
    · rw [getElem?_append_left (by simpa using hr), getElem?_map, Nat.div_eq_of_lt hr,
        Nat.mod_eq_of_lt hr, Option.map_eq_some_iff]
      constructor
      · rintro ⟨w, hw, rfl⟩
        exact ⟨a, w, rfl, hw, rfl⟩
      · rintro ⟨b, w, hb, hw, rfl⟩
        cases hb
        exact ⟨w, hw, rfl⟩
    · have hle := Nat.le_of_not_lt hr
      rw [getElem?_append_right (by simpa using hle), length_map, ih]
      rcases Nat.eq_zero_or_pos (lexProduct ls).length with h0 | hpos
      · have hnil := length_eq_zero_iff.1 h0
        simp [hnil]
      · rw [Nat.div_eq_sub_div hpos hle, getElem?_cons_succ, Nat.mod_eq_sub_mod hle]

theorem length_lexProduct_append (xs ys : List (List α)) :
    (lexProduct (xs ++ ys)).length = (xs.map List.length).prod * (ys.map List.length).prod := by
  rw [length_lexProduct, map_append, prod_append]

theorem length_of_mem_lexProduct {ls : List (List α)} {v : List α} (h : v ∈ lexProduct ls) :
    v.length = ls.length := by
  induction ls generalizing v with
  | nil => exact mem_singleton.1 h ▸ rfl
  | cons l ls ih =>
    obtain ⟨a, -, hv⟩ := mem_flatMap.1 h
    obtain ⟨w, hw, rfl⟩ := mem_map.1 hv
    rw [length_cons, length_cons, ih hw]

/-- The element of the list `l` in the choice of rank `r`. -/
theorem getElem?_of_lexProduct {xs ys : List (List α)} {l : List α} {r : Nat} {v : List α}
    (h : (lexProduct (xs ++ l :: ys))[r]? = some v) :
    v[xs.length]? = l[r / (ys.map List.length).prod % l.length]? := by
  induction xs generalizing r v with
  | nil =>
    obtain ⟨a, w, ha, -, rfl⟩ := getElem?_lexProduct_cons.1 h
    rw [length_lexProduct] at ha
    rw [Nat.mod_eq_of_lt (getElem?_eq_some_iff.1 ha).1, ha]
    rfl
  | cons x xs ih =>
    obtain ⟨a, w, -, hw, rfl⟩ := getElem?_lexProduct_cons.1 h
    have hlen : (lexProduct (xs ++ l :: ys)).length =
        (ys.map List.length).prod * (l.length * (xs.map List.length).prod) := by
      rw [length_lexProduct_append, map_cons, prod_cons]
      ring
    have hrec := ih hw
    change w[xs.length]? = l[r % (lexProduct (xs ++ l :: ys)).length / _ % _]? at hrec
    rw [hlen, Nat.mod_mul_right_div_self, Nat.mod_mod_of_dvd _ (Nat.dvd_mul_right _ _)] at hrec
    simpa using hrec

end List
