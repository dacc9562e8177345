import Mathlib.Data.Nat.Digits.Lemmas
import Mathlib.Tactic.IntervalCases

/-!
# Printed initialisers

The text that `printf` writes for a format of literal parts and `%0wx`
conversions, and a reader of C initialisers: constants, and lists in braces.
A number written by a conversion reads back as itself.
-/

namespace CInit

-- ---------------------------------------------------------------------------
-- Printing
-- ---------------------------------------------------------------------------

/-- A part of a format: characters printed as they stand, or `%0wx`. -/
inductive Piece where
  | lit (s : String)
  | hex (w : Nat)

/-- What `%0wx` writes: the digits, the highest first, filled with zeros. -/
def hexText (w n : Nat) : List Char :=
  (Nat.digitsAppend 16 (max w 1) n).reverse.map Nat.digitChar

/-- `printf`; a conversion without an argument prints nothing. -/
def printf : List Piece → List Nat → List Char
  | [], _ => []
  | .lit s :: ps, ns => s.toList ++ printf ps ns
  | .hex w :: ps, n :: ns => hexText w n ++ printf ps ns
  | .hex _ :: ps, [] => printf ps []

theorem ofDigits_digitsAppend (w n : Nat) : Nat.ofDigits 16 (Nat.digitsAppend 16 w n) = n := by
  rw [Nat.digitsAppend, Nat.ofDigits_append_replicate_zero, Nat.ofDigits_digits]

theorem digitsAppend_ne_nil {w : Nat} (hw : 0 < w) (n : Nat) : Nat.digitsAppend 16 w n ≠ [] := by
  refine List.ne_nil_of_length_pos ?_
  simp only [Nat.digitsAppend, List.length_append, List.length_replicate]
  omega

-- ---------------------------------------------------------------------------
-- Reading
-- ---------------------------------------------------------------------------

/-- An initialiser: a constant, or a list in braces. -/
inductive Init where
  | const (n : Nat)
  | braces (items : List Init)

/-- The initialiser of the `k`-th member; a member without one is cleared. -/
def Init.item : Init → Nat → Init
  | .const _, _ => .braces []
  | .braces is, k => is.getD k (.braces [])

def Init.value : Init → Nat
  | .const n => n
  | .braces [] => 0
  | .braces (i :: _) => i.value

@[simp] theorem Init.value_const (n : Nat) : (Init.const n).value = n := by
  rw [Init.value]

/-- What has been read of the current item: nothing, `0`, `0x`, a constant in
hexadecimal, or an item that nothing extends. -/
inductive Mode where
  | item
  | zero
  | hex
  | digits
  | done
  deriving DecidableEq

/-- The items of the open list, the latest first, and those of the lists around it. -/
structure Reader where
  items : List Init
  outer : List (List Init)
  mode : Mode

def hexVal : Char → Option Nat
  | '0' => some 0 | '1' => some 1 | '2' => some 2 | '3' => some 3
  | '4' => some 4 | '5' => some 5 | '6' => some 6 | '7' => some 7
  | '8' => some 8 | '9' => some 9 | 'a' => some 10 | 'b' => some 11
  | 'c' => some 12 | 'd' => some 13 | 'e' => some 14 | 'f' => some 15
  | _ => none

/-- A hexadecimal digit extends the constant read last. -/
def Reader.digit (r : Reader) (c : Char) : Option Reader :=
  match r.items, hexVal c with
  | .const n :: is, some d => some { r with items := .const (16 * n + d) :: is, mode := .digits }
  | _, _ => none

/-- One character; constants are `0` or hexadecimal. -/
def Reader.step (r : Reader) (c : Char) : Option Reader :=
  match r.mode, c with
  | .item, '{' => some ⟨[], r.items :: r.outer, .item⟩
  | .item, '0' => some ⟨.const 0 :: r.items, r.outer, .zero⟩
  | .zero, 'x' => some { r with mode := .hex }
  | .hex, c => r.digit c
  | _, '}' =>
    match r.outer with
    | [] => none
    | os :: outer => some ⟨.braces r.items.reverse :: os, outer, .done⟩
  | .item, ' ' | .item, '\n' => some r
  | .item, _ => none
  | _, ',' => some { r with mode := .item }
  | _, ' ' | _, '\n' => some { r with mode := .done }
  | .digits, c => r.digit c
  | _, _ => none

def Reader.read (r : Reader) (cs : List Char) : Option Reader := cs.foldlM Reader.step r

def readInit (cs : List Char) : Option Init :=
  match Reader.read ⟨[], [], .item⟩ cs with
  | some ⟨[i], [], _⟩ => some i
  | _ => none

@[simp] theorem Reader.read_nil (r : Reader) : r.read [] = some r := rfl

@[simp] theorem Reader.read_cons (r : Reader) (c : Char) (cs : List Char) :
    r.read (c :: cs) = (r.step c).bind (·.read cs) := rfl

theorem Reader.read_append (r : Reader) (cs ds : List Char) :
    r.read (cs ++ ds) = (r.read cs).bind (·.read ds) :=
  List.foldlM_append

theorem hexVal_digitChar {d : Nat} (hd : d < 16) : hexVal d.digitChar = some d := by
  interval_cases d <;> rfl

/-- In either mode that takes digits, a digit extends the constant. -/
theorem Reader.step_digit {d : Nat} (hd : d < 16) (n : Nat) (is : List Init)
    (outer : List (List Init)) {m : Mode} (hm : m = .hex ∨ m = .digits) :
    Reader.step ⟨.const n :: is, outer, m⟩ d.digitChar =
      some ⟨.const (16 * n + d) :: is, outer, .digits⟩ := by
  have hdigit : Reader.digit ⟨.const n :: is, outer, m⟩ d.digitChar =
      some ⟨.const (16 * n + d) :: is, outer, .digits⟩ := by
    simp only [Reader.digit, hexVal_digitChar hd]
  rcases hm with rfl | rfl
  · exact hdigit
  · rw [← hdigit]
    interval_cases d <;> rfl

/-- The digits of a number, the highest first, make up the number. -/
theorem Reader.read_digits (ds : List Nat) (hds : ∀ d ∈ ds, d < 16) (n : Nat) (is : List Init)
    (outer : List (List Init)) :
    Reader.read ⟨.const n :: is, outer, .digits⟩ (ds.map Nat.digitChar) =
      some ⟨.const (ds.foldl (fun n d => 16 * n + d) n) :: is, outer, .digits⟩ := by
  induction ds generalizing n with
  | nil => rfl
  | cons d ds ih =>
    rw [List.map_cons, Reader.read_cons,
      Reader.step_digit (hds d List.mem_cons_self) n is outer (.inr rfl)]
    exact ih (fun e he => hds e (List.mem_cons_of_mem _ he)) _

/-- A printed number, read after `0x`. -/
theorem Reader.read_hexText (w n : Nat) (is : List Init) (outer : List (List Init)) :
    Reader.read ⟨.const 0 :: is, outer, .hex⟩ (hexText w n) =
      some ⟨.const n :: is, outer, .digits⟩ := by
  have hlt : ∀ d ∈ (Nat.digitsAppend 16 (max w 1) n).reverse, d < 16 := fun d hd =>
    Nat.lt_of_mem_digitsAppend (by decide) _ _ (List.mem_reverse.1 hd)
  have hval : (Nat.digitsAppend 16 (max w 1) n).reverse.foldl (fun n d => 16 * n + d) 0 = n := by
    have h := ofDigits_digitsAppend (max w 1) n
    rw [Nat.ofDigits_eq_foldr] at h
    simpa [List.foldl_reverse, Nat.add_comm] using h
  rw [hexText]
  cases hds : (Nat.digitsAppend 16 (max w 1) n).reverse with
  | nil =>
    exact absurd (List.reverse_eq_nil_iff.1 hds) (digitsAppend_ne_nil (by omega) n)
  | cons d ds =>
    rw [hds] at hlt hval
    rw [List.map_cons, Reader.read_cons,
      Reader.step_digit (hlt d List.mem_cons_self) 0 is outer (.inl rfl), Option.bind_some,
      Reader.read_digits ds fun e he => hlt e (List.mem_cons_of_mem _ he)]
    simpa using hval

/-- A literal part that ends in `0x`, and the number after it. -/
theorem Reader.read_const {r : Reader} {s : String} {is : List Init} {outer : List (List Init)}
    (h : r.read s.toList = some ⟨.const 0 :: is, outer, .hex⟩) (w n : Nat) (ps : List Piece)
    (ns : List Nat) :
    r.read (printf (.lit s :: .hex w :: ps) (n :: ns)) =
      Reader.read ⟨.const n :: is, outer, .digits⟩ (printf ps ns) := by
  rw [printf, Reader.read_append, h, Option.bind_some, printf, Reader.read_append,
    Reader.read_hexText, Option.bind_some]

/-- A last literal part. -/
theorem Reader.read_last (r : Reader) (s : String) (ns : List Nat) :
    r.read (printf [.lit s] ns) = r.read s.toList := by
  rw [printf, printf, List.append_nil]

end CInit
