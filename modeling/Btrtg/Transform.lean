import Btrtg.Lib.Bytes

/-!
# Numbers in texts

The conversions of `transform.c`. A text is its characters up to the NUL, a
byte being the character of its code; reading past it is a failure.
-/

namespace Btrtg

open Bytes

abbrev Text := List Char

/-- A test of the characters of a text, one by one. -/
theorem forall_mem_of_all {p : Char → Prop} [DecidablePred p] {t : Text}
    (h : t.all (fun c => p c) = true) : ∀ c ∈ t, p c :=
  fun c hc => of_decide_eq_true (List.all_eq_true.1 h c hc)

-- ---------------------------------------------------------------------------
-- Hexadecimal
-- ---------------------------------------------------------------------------

/-- `ascii_xdigit_value`; -1 is `none`. -/
def asciiXdigitValue (ch : Char) : Option Nat :=
  if ch.isDigit then some (ch.toNat - '0'.toNat)
  else if ch.isUpper && decide (ch.toNat - 'A'.toNat < 16) then some (ch.toNat - 'A'.toNat + 10)
  else if ch.isLower && decide (ch.toNat - 'a'.toNat < 16) then some (ch.toNat - 'a'.toNat + 10)
  else none

def skipHead (hex : Text) : Text :=
  match hex.dropWhile (· = ' ') with
  | '0' :: 'X' :: cs | '0' :: 'x' :: cs => cs
  | cs => cs

def xdigitLoop {w : Nat} (num : BitVec w) : Text → BitVec w
  | [] => num
  | c :: cs =>
    match asciiXdigitValue c with
    | some temp => xdigitLoop (num * 16 + .ofNat w temp) cs
    | none => num

def hex2dec (hex : Text) : BitVec 32 := xdigitLoop 0 (skipHead hex)

def hex2declong (hex : Text) : BitVec 64 := xdigitLoop 0 (skipHead hex)

-- ---------------------------------------------------------------------------
-- Decimal
-- ---------------------------------------------------------------------------

def isspace (c : Char) : Bool := c = ' ' || (9 ≤ c.toNat && c.toNat ≤ 13)

def nasmIsspace (c : Char) : Bool := isspace c && c ≠ '\n'

/-- `atoi`: what `strtol` reads, clamped to a `long`, as an `int`. -/
def atoi (s : Text) : Int :=
  let (neg, digits) := match s.dropWhile isspace with
    | '-' :: cs => (true, cs)
    | '+' :: cs => (false, cs)
    | cs => (false, cs)
  let n : Int := (digits.takeWhile Char.isDigit).foldl (fun n c => 10 * n + (c.toNat - 48)) 0
  (BitVec.ofInt 32 (if neg then max (-n) (-2 ^ 63) else min n (2 ^ 63 - 1))).toInt

-- ---------------------------------------------------------------------------
-- Packed decimal
-- ---------------------------------------------------------------------------

/-- `*c - '0'` as a `char`. -/
def charDigit (c : Char) : Byte := .ofNat 8 c.toNat - .ofNat 8 '0'.toNat

/-- The loop of `str2bcd` from an even `i` on: the digits from the end of the
text, in pairs, each stored where `bcd_ptr` is. The last `temp` is stored behind. -/
def bcdLoop {w : Nat} (m : Memory w) (ptr : BitVec w) : Text → Memory w
  | [] => store m ptr [0]
  | [c] => store m ptr [charDigit c]
  | c :: d :: cs => bcdLoop (store m ptr [charDigit c ||| charDigit d <<< 4]) (ptr + 1) cs

/-- The sign of `hex`, and what stands between it and the blanks behind, from
the end. A text of blanks only has no end. -/
def bcdText (hex : Text) : Option (Bool × Text) :=
  match hex.dropWhile (· = ' ') with
  | [] => none
  | '-' :: cs => some (true, cs.reverse.dropWhile (· = ' '))
  | cs => some (false, cs.reverse.dropWhile (· = ' '))

/-- `str2bcd` with its `bcd` at an address. -/
def str2bcd {w : Nat} (hex : Text) (m : Memory w) (bcd : BitVec w) : Option (Memory w) :=
  (bcdText hex).map fun (neg, cs) =>
    store (bcdLoop (store m bcd (List.replicate 12 0)) bcd cs) (bcd + 9)
      [if neg then 0x80 else 0x00]

-- ---------------------------------------------------------------------------
-- The floating-point environment
-- ---------------------------------------------------------------------------

def endsNum (c : Char) : Bool := c = '}' || c = ','

/-- The field loop of `str2x87env`. A field without an end is read past the
text, and one that `num_buffer` does not hold is written past it. -/
def x87envFields : Nat → Text → Option (List (BitVec 32))
  | 0, _ => some []
  | n + 1, hex =>
    let num := hex.takeWhile (!endsNum ·)
    match hex.dropWhile (!endsNum ·) with
    | [] => none
    | _ :: rest =>
      if 64 ≤ num.length then none
      else (x87envFields n rest).map (hex2dec num :: ·)

def str2x87env (hex : Text) : Option (List (BitVec 32)) :=
  match hex.dropWhile (· ≠ '{') with
  | [] => none
  | _ :: rest => x87envFields 7 rest

end Btrtg
