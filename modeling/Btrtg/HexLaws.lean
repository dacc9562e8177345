import Btrtg.ParseTKs
import Mathlib.Tactic.Ring

/-!
# Hexadecimal constants

The value that a literal has, and the one that `parseCGs` stores for it. The
digit classifier takes the letters up to `P`, so what follows the digits counts
when it is one of the others.
-/

namespace Btrtg

-- ---------------------------------------------------------------------------
-- Literals
-- ---------------------------------------------------------------------------

def hexDigit? (c : Char) : Option Nat :=
  if '0' ≤ c ∧ c ≤ '9' then some (c.toNat - 48)
  else if 'a' ≤ c ∧ c ≤ 'f' then some (c.toNat - 87)
  else if 'A' ≤ c ∧ c ≤ 'F' then some (c.toNat - 55)
  else none

/-- A text that begins with a literal: its parts, each as long as it can be. -/
structure HexLiteral where
  blanks : Nat
  pre : Text
  digits : Text
  rest : Text
  pre_mem : pre ∈ [[], ['0', 'x'], ['0', 'X']]
  digits_hex : ∀ c ∈ digits, (hexDigit? c).isSome
  rest_ends : ∀ c ∈ rest.head?, hexDigit? c = none
  blanks_end : pre ++ digits = [] → rest.head? ≠ some ' '
  pre_taken : pre = [] → digits = ['0'] → rest.head? ≠ some 'x' ∧ rest.head? ≠ some 'X'

/-- The number that digits make up, by a reading of each. -/
def digitsValue (val : Char → Option Nat) (cs : Text) : Nat :=
  cs.foldl (fun n c => 16 * n + (val c).getD 0) 0

namespace HexLiteral

def text (l : HexLiteral) : Text := List.replicate l.blanks ' ' ++ (l.pre ++ (l.digits ++ l.rest))

def value (l : HexLiteral) : Nat := digitsValue hexDigit? l.digits

/-- What follows the digits as far as `ascii_xdigit_value` takes it. -/
def run (l : HexLiteral) : Text := l.rest.takeWhile fun c => (asciiXdigitValue c).isSome

def runValue (l : HexLiteral) : Nat := digitsValue asciiXdigitValue l.run

/-- What follows the digits is not taken, or adds nothing modulo `2 ^ w`. -/
def Stops (l : HexLiteral) (w : Nat) : Prop :=
  l.run = [] ∨ 2 ^ w ∣ (16 ^ l.run.length - 1) * l.value + l.runValue

end HexLiteral

theorem hexDigit?_eq (c : Char) : hexDigit? c =
    if 48 ≤ c.toNat ∧ c.toNat ≤ 57 then some (c.toNat - 48)
    else if 97 ≤ c.toNat ∧ c.toNat ≤ 102 then some (c.toNat - 87)
    else if 65 ≤ c.toNat ∧ c.toNat ≤ 70 then some (c.toNat - 55) else none := rfl

theorem asciiXdigitValue_eq (c : Char) : asciiXdigitValue c =
    if 48 ≤ c.toNat ∧ c.toNat ≤ 57 then some (c.toNat - 48)
    else if 65 ≤ c.toNat ∧ c.toNat ≤ 80 then some (c.toNat - 55)
    else if 97 ≤ c.toNat ∧ c.toNat ≤ 112 then some (c.toNat - 87) else none := by
  have hdigit : c.isDigit = (decide (48 ≤ c.toNat) && decide (c.toNat ≤ 57)) := rfl
  have hupper : c.isUpper = (decide (65 ≤ c.toNat) && decide (c.toNat ≤ 90)) :=
    Bool.decide_and _ _
  have hlower : c.isLower = (decide (97 ≤ c.toNat) && decide (c.toNat ≤ 122)) := rfl
  have h0 : '0'.toNat = 48 := rfl
  have hA : 'A'.toNat = 65 := rfl
  have ha : 'a'.toNat = 97 := rfl
  simp only [asciiXdigitValue, hdigit, hupper, hlower, h0, hA, ha, Bool.and_eq_true,
    decide_eq_true_eq]
  split_ifs <;> first | omega | rfl | exact congrArg some (by omega)

theorem asciiXdigitValue_of_hexDigit {c : Char} {d : Nat} (h : hexDigit? c = some d) :
    asciiXdigitValue c = some d := by
  rw [hexDigit?_eq] at h
  rw [asciiXdigitValue_eq]
  split_ifs at h ⊢ <;> omega

/-- The loop adds up the digits as far as it takes them. -/
theorem xdigitLoop_eq {w : Nat} (cs : Text) (n : Nat) : xdigitLoop (.ofNat w n) cs =
    .ofNat w ((cs.takeWhile fun c => (asciiXdigitValue c).isSome).foldl
      (fun n c => 16 * n + (asciiXdigitValue c).getD 0) n) := by
  induction cs generalizing n with
  | nil => rfl
  | cons c cs ih =>
    cases h : asciiXdigitValue c with
    | none => simp [xdigitLoop, h]
    | some d =>
      have hnum : BitVec.ofNat w n * 16 + .ofNat w d = .ofNat w (16 * n + d) := by
        rw [BitVec.ofNat_add, BitVec.ofNat_mul, BitVec.mul_comm]
        rfl
      simp only [xdigitLoop, h]
      rw [hnum, ih]
      simp [h]

theorem foldl_digits (val : Char → Option Nat) (cs : Text) (n : Nat) :
    cs.foldl (fun n c => 16 * n + (val c).getD 0) n = 16 ^ cs.length * n + digitsValue val cs := by
  induction cs generalizing n with
  | nil => simp [digitsValue]
  | cons c cs ih =>
    rw [digitsValue, List.foldl_cons, List.foldl_cons, ih, ih (16 * 0 + _), List.length_cons]
    ring

/-- A text that begins with no blank and no prefix is left as it is. -/
theorem skipHead_self {c : Char} {cs : Text} (hc : c ≠ ' ')
    (hx : c = '0' → cs.head? ≠ some 'x' ∧ cs.head? ≠ some 'X') : skipHead (c :: cs) = c :: cs := by
  unfold skipHead
  rw [List.dropWhile_cons_of_neg (by simpa using hc)]
  split
  · case h_1 h => simp_all
  · case h_2 h => simp_all
  · rfl

namespace HexLiteral

theorem ascii_of_mem (l : HexLiteral) {c : Char} (hc : c ∈ l.digits) :
    asciiXdigitValue c = hexDigit? c := by
  obtain ⟨d, hd⟩ := Option.isSome_iff_exists.1 (l.digits_hex c hc)
  rw [hd, asciiXdigitValue_of_hexDigit hd]

theorem digitsValue_ascii (l : HexLiteral) : digitsValue asciiXdigitValue l.digits = l.value :=
  List.foldl_ext _ _ 0 fun _ _ hc => by rw [l.ascii_of_mem hc]

theorem skipHead_text (l : HexLiteral) : skipHead l.text = l.digits ++ l.rest := by
  have hdrop : l.text.dropWhile (· = ' ') = (l.pre ++ (l.digits ++ l.rest)).dropWhile (· = ' ') :=
    List.dropWhile_append_of_pos fun c hc => by simp [List.eq_of_mem_replicate hc]
  have hpre := l.pre_mem
  simp only [List.mem_cons, List.not_mem_nil, or_false] at hpre
  obtain hpre | hpre | hpre := hpre
  · have hskip : skipHead l.text = skipHead (l.digits ++ l.rest) := by
      rw [skipHead, skipHead, hdrop, hpre, List.nil_append]
    rw [hskip]
    cases hd : l.digits with
    | nil =>
      cases hr : l.rest with
      | nil => rfl
      | cons c cs =>
        have hend := l.rest_ends c (by simp [hr])
        refine skipHead_self ?_ ?_
        · rintro rfl
          exact l.blanks_end (by simp [hpre, hd]) (by simp [hr])
        · rintro rfl
          cases hend
    | cons c cs =>
      have hhex : ∀ e ∈ c :: cs, (hexDigit? e).isSome := hd ▸ l.digits_hex
      refine skipHead_self ?_ ?_
      · rintro rfl
        exact absurd (hhex ' ' List.mem_cons_self) (by decide)
      · rintro rfl
        cases cs with
        | nil => exact l.pre_taken hpre hd
        | cons e es =>
          have he := hhex e (by simp)
          refine ⟨?_, ?_⟩ <;> rintro ⟨⟩ <;> exact absurd he (by decide)
  · simp [skipHead, hdrop, hpre]
  · simp [skipHead, hdrop, hpre]

/-- What is read is the literal with the run behind it. -/
theorem xdigitLoop_text (l : HexLiteral) (w : Nat) : xdigitLoop (0 : BitVec w) (skipHead l.text) =
    .ofNat w (16 ^ l.run.length * l.value + l.runValue) := by
  have htake : (l.digits ++ l.rest).takeWhile (fun c => (asciiXdigitValue c).isSome) =
      l.digits ++ l.run :=
    List.takeWhile_append_of_pos fun c hc => by rw [l.ascii_of_mem hc, l.digits_hex c hc]
  have hloop := xdigitLoop_eq (w := w) (l.digits ++ l.rest) 0
  rw [htake, List.foldl_append, foldl_digits] at hloop
  rw [skipHead_text, ← digitsValue_ascii]
  exact hloop

end HexLiteral

-- ---------------------------------------------------------------------------
-- Elements with one literal
-- ---------------------------------------------------------------------------

/-- The elements of `parseCGs` that hold one literal. -/
inductive HexTag
  | imm64 | mmx | float64i | imm8 | imm16 | imm32 | float32i

namespace HexTag

def name : HexTag → String
  | imm64 => "Imm64" | mmx => "Mmx" | float64i => "Float64i" | imm8 => "Imm8"
  | imm16 => "Imm16" | imm32 => "Imm32" | float32i => "Float32i"

def width : HexTag → Nat
  | imm64 | mmx | float64i => 64
  | imm8 | imm16 | imm32 | float32i => 32

/-- The member of the constant that the element is stored in. -/
def stored : HexTag → ConstNode → Nat
  | imm64, c | mmx, c | float64i, c => c.imm64.toNat
  | imm8, c | imm16, c | imm32, c | float32i, c => c.imm32.toNat

/-- The literals that the element is right for: `Float64i` is read by `hex2dec`. -/
def Right : HexTag → HexLiteral → Prop
  | float64i, l => l.Stops 32 ∧ l.value % 2 ^ 64 < 2 ^ 32
  | t, l => l.Stops t.width

end HexTag

namespace HexLiteral

theorem stops_iff (l : HexLiteral) (w : Nat) :
    (16 ^ l.run.length * l.value + l.runValue) % 2 ^ w = l.value % 2 ^ w ↔ l.Stops w := by
  have hsplit : 16 ^ l.run.length * l.value + l.runValue =
      (16 ^ l.run.length - 1) * l.value + l.runValue + l.value := by
    obtain ⟨k, hk⟩ := Nat.exists_eq_add_of_le' (Nat.one_le_pow l.run.length 16 (by decide))
    rw [hk, Nat.add_sub_cancel]
    ring
  have hnil : l.run = [] → 2 ^ w ∣ (16 ^ l.run.length - 1) * l.value + l.runValue := by
    intro h
    simp [h, runValue, digitsValue]
  rw [Stops, or_iff_right_of_imp hnil, hsplit, ← Nat.modEq_zero_iff_dvd]
  constructor
  · intro h
    exact Nat.ModEq.add_right_cancel' l.value (by simpa [Nat.ModEq] using h)
  · intro h
    simpa [Nat.ModEq] using h.add_right l.value

theorem hex2dec_text (l : HexLiteral) :
    (hex2dec l.text).toNat = (16 ^ l.run.length * l.value + l.runValue) % 2 ^ 32 := by
  rw [hex2dec, xdigitLoop_text, BitVec.toNat_ofNat]

theorem hex2declong_text (l : HexLiteral) :
    (hex2declong l.text).toNat = (16 ^ l.run.length * l.value + l.runValue) % 2 ^ 64 := by
  rw [hex2declong, xdigitLoop_text, BitVec.toNat_ofNat]

end HexLiteral

/-- Every other element is an `Imm32`. -/
theorem parseConst_of_notMem {name : String} (lib : Strto) (v : ConstNode) (content : Text)
    (h : name ∉ ["Immf", "Imm64", "Mmx", "Bcd", "Float32i", "Float32f", "Float64i", "Float64f",
      "X87env"]) :
    parseConst lib v name content = some ({ v with type := .imm32 }.write (hex2dec content)) := by
  unfold parseConst
  split <;> simp_all

theorem HexTag.stored_iff (lib : Strto) (v : ConstNode) (t : HexTag) (l : HexLiteral) :
    (∃ c, parseConst lib v t.name l.text = some c ∧ t.stored c = l.value % 2 ^ t.width) ↔
      t.Right l := by
  cases t
  case imm64 | mmx =>
    simp only [name, parseConst, Option.some.injEq, exists_eq_left', stored,
      ConstNode.imm64_write, l.hex2declong_text, width]
    exact l.stops_iff 64
  case imm8 | imm16 | imm32 =>
    rw [parseConst_of_notMem lib v l.text (by decide)]
    simp only [Option.some.injEq, exists_eq_left', stored, ConstNode.imm32_write, l.hex2dec_text,
      width]
    exact l.stops_iff 32
  case float32i =>
    simp only [name, parseConst, Option.some.injEq, exists_eq_left', stored,
      ConstNode.imm32_write, l.hex2dec_text, width]
    exact l.stops_iff 32
  case float64i =>
    simp only [name, parseConst, Option.some.injEq, exists_eq_left', stored,
      ConstNode.imm64_write, width, Right, BitVec.toNat_setWidth, l.hex2dec_text,
      ← l.stops_iff 32]
    omega

-- ---------------------------------------------------------------------------
-- The floating-point environment
-- ---------------------------------------------------------------------------

/-- Fields up to the brace, and what follows it. -/
def fieldsText : List HexLiteral → Text → Text
  | [], after => after
  | [l], after => l.text ++ '}' :: after
  | l :: ls, after => l.text ++ ',' :: fieldsText ls after

/-- The text of an `X87env` element with a literal in each field. -/
structure EnvText where
  before : Text
  fields : List HexLiteral
  after : Text
  before_ok : '{' ∉ before
  fields_length : fields.length = 7
  fields_ok : ∀ l ∈ fields, ∀ c ∈ l.text, endsNum c = false

def EnvText.text (e : EnvText) : Text := e.before ++ '{' :: fieldsText e.fields e.after

/-- One round of the loop, with either separator. -/
theorem x87envFields_field {num : Text} (hnum : ∀ c ∈ num, endsNum c = false) {sep : Char}
    (hsep : endsNum sep = true) (n : Nat) (rest : Text) :
    x87envFields (n + 1) (num ++ sep :: rest) =
      if 64 ≤ num.length then none else (x87envFields n rest).map (hex2dec num :: ·) := by
  have htake : (num ++ sep :: rest).takeWhile (!endsNum ·) = num := by
    rw [List.takeWhile_append_of_pos fun c hc => by simp [hnum c hc]]
    simp [hsep]
  have hdrop : (num ++ sep :: rest).dropWhile (!endsNum ·) = sep :: rest := by
    rw [List.dropWhile_append_of_pos fun c hc => by simp [hnum c hc]]
    simp [hsep]
  rw [x87envFields, htake, hdrop]

theorem x87envFields_text (after : Text) :
    (ls : List HexLiteral) → (∀ l ∈ ls, ∀ c ∈ l.text, endsNum c = false) →
      x87envFields ls.length (fieldsText ls after) =
        if ∀ l ∈ ls, l.text.length < 64 then some (ls.map fun l => hex2dec l.text) else none
  | [], _ => by simp [x87envFields]
  | [l], h => by
    rw [fieldsText, List.length_singleton, x87envFields_field (h l (by simp)) rfl]
    by_cases hl : l.text.length < 64
    · simp [x87envFields, hl]
    · simp [hl]
  | l :: l' :: ls, h => by
    have ih := x87envFields_text after (l' :: ls) fun m hm => h m (List.mem_cons_of_mem l hm)
    rw [fieldsText, List.length_cons, x87envFields_field (h l (by simp)) rfl, ih]
    · by_cases hl : l.text.length < 64
      · by_cases hls : ∀ m ∈ l' :: ls, m.text.length < 64
        · have hall : ∀ m ∈ l :: l' :: ls, m.text.length < 64 := List.forall_mem_cons.2 ⟨hl, hls⟩
          rw [if_pos hls, if_pos hall, if_neg (by omega)]
          rfl
        · have hall : ¬ ∀ m ∈ l :: l' :: ls, m.text.length < 64 := fun h =>
            hls fun m hm => h m (List.mem_cons_of_mem l hm)
          rw [if_neg hls, if_neg hall, if_neg (by omega)]
          rfl
      · rw [if_pos (by omega), if_neg fun hall => hl (hall l (by simp))]
    · simp

theorem str2x87env_text (e : EnvText) : str2x87env e.text =
    if ∀ l ∈ e.fields, l.text.length < 64 then some (e.fields.map fun l => hex2dec l.text)
    else none := by
  have hdrop : e.text.dropWhile (· ≠ '{') = '{' :: fieldsText e.fields e.after := by
    have hbefore : ∀ c ∈ e.before, decide (c ≠ '{') = true := by
      rintro c hc
      exact decide_eq_true fun h => e.before_ok (h ▸ hc)
    rw [EnvText.text, List.dropWhile_append_of_pos hbefore]
    simp
  rw [str2x87env, hdrop, ← x87envFields_text e.after e.fields e.fields_ok, e.fields_length]

/-- A word of the environment is the one stored there. -/
theorem dword_x87envWords {xs : List (BitVec 32)} (hxs : xs.length = 7) {i : Nat} (hi : i < 7) :
    dword (x87envWords xs) i = xs[i] := by
  have hbound : ∀ n ∈ xs.map BitVec.toNat, n < 2 ^ 32 := by
    intro n hn
    obtain ⟨x, -, rfl⟩ := List.mem_map.1 hn
    exact x.isLt
  have hlt : Nat.ofDigits (2 ^ 32) (xs.map BitVec.toNat) < 2 ^ 224 := by
    have h := Nat.ofDigits_lt_base_pow_length (by decide) hbound
    rwa [List.length_map, hxs, ← Nat.pow_mul] at h
  have hdrop : (xs.map BitVec.toNat).drop i =
      xs[i].toNat :: (xs.map BitVec.toNat).drop (i + 1) := by
    rw [List.drop_eq_getElem_cons (by simpa [hxs] using hi), List.getElem_map]
  refine BitVec.eq_of_toNat_eq ?_
  rw [dword, BitVec.extractLsb'_toNat, x87envWords, BitVec.toNat_ofNat, Nat.mod_eq_of_lt hlt,
    Nat.shiftRight_eq_div_pow, Nat.pow_mul,
    Nat.ofDigits_div_pow_eq_ofDigits_drop i (by decide) _ hbound, hdrop, Nat.ofDigits_cons,
    Nat.add_mul_mod_self_left, Nat.mod_eq_of_lt xs[i].isLt]

/-- The value that `parseCGs` stores for a literal is that of the literal, modulo
the width of the member, just where nothing behind the digits counts, a
`Float64i` fits 32 bits, and a field fits its buffer. -/
theorem hexConst_stored_iff (lib : Strto) (v : ConstNode) :
    (∀ (t : HexTag) (l : HexLiteral),
      (∃ c, parseConst lib v t.name l.text = some c ∧ t.stored c = l.value % 2 ^ t.width) ↔
        t.Right l) ∧
    ∀ e : EnvText,
      (∃ c, parseConst lib v "X87env" e.text = some c ∧
        (List.range 7).map (fun i => (dword c.x87env i).toNat) =
          e.fields.map fun l => l.value % 2 ^ 32) ↔
      ∀ l ∈ e.fields, l.text.length < 64 ∧ l.Stops 32 := by
  refine ⟨HexTag.stored_iff lib v, fun e => ?_⟩
  simp only [parseConst, str2x87env_text]
  by_cases hlen : ∀ l ∈ e.fields, l.text.length < 64
  · have hwords : (List.range 7).map (fun i =>
        (dword (x87envWords (e.fields.map fun l => hex2dec l.text)) i).toNat) =
        e.fields.map fun l => (hex2dec l.text).toNat := by
      refine List.ext_getElem (by simp [e.fields_length]) fun i hi _ => ?_
      have hi7 : i < 7 := by simpa using hi
      rw [List.getElem_map, List.getElem_range,
        dword_x87envWords (by rw [List.length_map, e.fields_length]) hi7, List.getElem_map,
        List.getElem_map]
    simp only [if_pos hlen, Option.map_some, Option.some.injEq, exists_eq_left', hwords,
      List.map_inj_left, HexLiteral.hex2dec_text, HexLiteral.stops_iff]
    exact forall₂_congr fun l hl => (and_iff_right (hlen l hl)).symm
  · simp only [if_neg hlen, Option.map_none, reduceCtorEq, false_and, exists_false, false_iff]
    exact fun h => hlen fun l hl => (h l hl).1

/-- The bits of `1.0` as a `Float64i`: the upper half is lost. -/
theorem hexConst_stored_wrong :
    ¬ ∀ (lib : Strto) (v : ConstNode) (t : HexTag) (l : HexLiteral),
      ∃ c, parseConst lib v t.name l.text = some c ∧ t.stored c = l.value % 2 ^ t.width := by
  intro h
  let l : HexLiteral := {
    blanks := 0, pre := ['0', 'x'], digits := ['3', 'f', 'f'] ++ List.replicate 13 '0', rest := []
    pre_mem := by decide, digits_hex := forall_mem_of_all (by decide), rest_ends := by simp
    blanks_end := by decide, pre_taken := by decide }
  have hright : HexTag.float64i.Right l :=
    (HexTag.stored_iff ⟨fun _ => 0, fun _ => 0, fun _ => 0⟩ ⟨.imm32, 0, .none, 0, 0, 0, 0⟩ .float64i
      l).1 (h _ _ .float64i l)
  exact absurd hright.2 (by decide)

end Btrtg
