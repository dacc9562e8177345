import Btrtg.EvalLaws
import Btrtg.TokenBufLaws

/-!
# Made operands are read to their end

What `gen_operand` writes for an operand is one operand for the reader: behind it
stands the token behind the text.
-/

namespace Btrtg

open TokenBuf

-- ---------------------------------------------------------------------------
-- Tokens
-- ---------------------------------------------------------------------------

def isWord : Text → Bool
  | [] => false
  | c :: cs => nasmIsidstart c && cs.all nasmIsidchar

def Token.isOpnd : Token → Bool
  | .keyword _ | .num _ | .errnum => true
  | _ => false

section
variable {tables : RegTables} {s s₁ last : Scan} {w w' t tail : Text}

theorem isWord_append (hw : isWord w = true) (hw' : ∀ c ∈ w', nasmIsidchar c = true) :
    isWord (w ++ w') = true := by
  cases w with
  | nil => cases hw
  | cons c cs =>
    obtain ⟨hc, hcs⟩ := Bool.and_eq_true_iff.1 hw
    simp only [isWord, List.cons_append, hc, List.all_append, hcs, Bool.true_and]
    exact List.all_eq_true.2 hw'

theorem idchar_of_isWord (hw : isWord w = true) : ∀ c ∈ w, nasmIsidchar c = true := by
  cases w with
  | nil => cases hw
  | cons c cs =>
    obtain ⟨hc, hcs⟩ := Bool.and_eq_true_iff.1 hw
    intro d hd
    rcases List.mem_cons.1 hd with rfl | hd
    · simp [nasmIsidchar, hc]
    · exact List.all_eq_true.1 hcs d hd

theorem le_toNat_of_idstart {c : Char} (h : nasmIsidstart c = true) : 46 ≤ c.toNat := by
  have hupper : c.isUpper = (decide (65 ≤ c.toNat) && decide (c.toNat ≤ 90)) :=
    Bool.decide_and _ _
  have hlower : c.isLower = (decide (97 ≤ c.toNat) && decide (c.toNat ≤ 122)) := rfl
  simp only [nasmIsidstart, isalpha, hupper, hlower, Bool.or_eq_true, Bool.and_eq_true,
    decide_eq_true_eq] at h
  rcases h with ((((((h | h) | rfl) | rfl) | rfl) | rfl) | h)
  · omega
  · omega
  · decide
  · decide
  · decide
  · decide
  · omega

theorem not_space_of_idstart {c : Char} (h : nasmIsidstart c = true) : nasmIsspace c = false := by
  have hle := le_toNat_of_idstart h
  have hblank : c ≠ ' ' := by
    rintro rfl
    exact absurd hle (by decide)
  simp [nasmIsspace, isspace, hblank]
  omega

/-- An identifier up to what follows it. -/
theorem scan_word (hw : isWord w = true) (ht : ∀ c ∈ t.head?, nasmIsidchar c = false) :
    scan tables (w ++ t) = ⟨.keyword (if (tables.hash (w.take (idlenMax - 1))).2 then .id
      else (tables.hash (w.take (idlenMax - 1))).1), t⟩ := by
  cases w with
  | nil => cases hw
  | cons c cs =>
    obtain ⟨hc, hcs⟩ := Bool.and_eq_true_iff.1 hw
    have hcs := List.all_eq_true.1 hcs
    simp [scan, getToken, nasmSkipSpaces, hc, not_space_of_idstart hc,
      takeWhile_append_of_head hcs ht, dropWhile_append_of_head hcs ht]

/-- Digits and letters behind a digit, up to what follows them. -/
theorem scan_number {c : Char} {cs : Text} (hc : c.isDigit = true)
    (hcs : ∀ d ∈ cs, nasmIsnumchar d = true) (ht : ∀ d ∈ t.head?, nasmIsnumchar d = false) :
    ∃ tok, tok.isOpnd = true ∧ scan tables (c :: cs ++ t) = ⟨tok, t⟩ := by
  have hnum : nasmIsnumstart c = true := by simp [nasmIsnumstart, hc]
  have hid : nasmIsidstart c = false := by
    by_contra h
    rw [nasmIsnumstart_of_idstart (by simpa using h)] at hnum
    cases hnum
  have hspace : nasmIsspace c = false := by
    by_contra h
    have hblank : isspace c = true := (Bool.and_eq_true_iff.1 (Bool.of_not_eq_false h)).1
    have hdigit : c.isDigit = (decide (48 ≤ c.toNat) && decide (c.toNat ≤ 57)) := rfl
    rw [hdigit] at hc
    simp only [isspace, Bool.or_eq_true, Bool.and_eq_true, decide_eq_true_eq] at hblank hc
    rcases hblank with rfl | hblank
    · exact absurd hc.1 (by decide)
    · omega
  have hall : ∀ d ∈ c :: cs, nasmIsnumchar d = true := by
    intro d hd
    rcases List.mem_cons.1 hd with rfl | hd
    · simp [nasmIsnumchar, hc]
    · exact hcs d hd
  have htake := takeWhile_append_of_head hall ht
  have hdrop := dropWhile_append_of_head hall ht
  rw [List.cons_append] at htake hdrop
  cases hread : readnum (c :: cs) with
  | none =>
    refine ⟨.errnum, rfl, ?_⟩
    simp [scan, getToken, nasmSkipSpaces, hspace, hid, hnum, htake, hdrop, hread]
  | some n =>
    refine ⟨.num n, rfl, ?_⟩
    simp [scan, getToken, nasmSkipSpaces, hspace, hid, hnum, htake, hdrop, hread]

-- ---------------------------------------------------------------------------
-- Sums
-- ---------------------------------------------------------------------------

theorem Formula.of_opnd {tok : Token} (hscan : scan tables t = ⟨tok, tail⟩)
    (htok : tok.isOpnd = true) (h : Formula tables last false (scan tables tail)) :
    Formula tables last true (scan tables t) := by
  rw [hscan]
  refine .opnd ?_ h
  cases tok with
  | eos | char => cases htok
  | _ => rfl

theorem Formula.of_word (hw : isWord w = true) (ht : ∀ c ∈ t.head?, nasmIsidchar c = false)
    (h : Formula tables last false (scan tables t)) :
    Formula tables last true (scan tables (w ++ t)) :=
  .of_opnd (scan_word hw ht) rfl h

theorem Formula.of_number {c : Char} {cs : Text} (hc : c.isDigit = true)
    (hcs : ∀ d ∈ cs, nasmIsnumchar d = true) (ht : ∀ d ∈ t.head?, nasmIsnumchar d = false)
    (h : Formula tables last false (scan tables t)) :
    Formula tables last true (scan tables (c :: cs ++ t)) := by
  obtain ⟨tok, htok, hscan⟩ := @scan_number tables _ _ _ hc hcs ht
  exact .of_opnd hscan htok h

theorem Formula.of_hex (n : Nat) (ht : ∀ d ∈ t.head?, nasmIsnumchar d = false)
    (h : Formula tables last false (scan tables t)) :
    Formula tables last true (scan tables ('0' :: 'x' :: Nat.toDigits 16 n ++ t)) :=
  .of_opnd (scan_hex n ht) rfl h

theorem Formula.plus (h : Formula tables last true (scan tables t)) :
    Formula tables last false (scan tables (' ' :: '+' :: ' ' :: t)) :=
  .op (s := ⟨.char '+', ' ' :: t⟩) (.inr nofun) h

theorem Formula.times (h : Formula tables last true (scan tables t)) :
    Formula tables last false (scan tables ('*' :: t)) :=
  .op (s := ⟨.char '*', t⟩) (.inl nofun) h

theorem Formula.bracket : Formula tables (scan tables (']' :: t)) false (scan tables (']' :: t)) :=
  .ends rfl rfl rfl

theorem digits_number (n : Nat) : ∃ c cs, (toString n).toList = c :: cs ∧ c.isDigit = true ∧
    ∀ d ∈ cs, d.isDigit = true := by
  have htext : (toString n).toList = Nat.toDigits 10 n := by simp [Nat.repr]
  have hdigit : ∀ c ∈ Nat.toDigits 10 n, c.isDigit = true := fun c hc =>
    Nat.isDigit_of_mem_toDigits (by decide) (by decide) hc
  cases h : Nat.toDigits 10 n with
  | nil => exact absurd h Nat.toDigits_ne_nil
  | cons c cs =>
    rw [h] at hdigit
    exact ⟨c, cs, htext.trans h, hdigit c (.head _), fun d hd => hdigit d (.tail _ hd)⟩

theorem isWord_reg (r : Reg) : isWord r.name.toList = true := by
  have hdigit : ∀ i : Fin 8, (toString i.val).toList.all (nasmIsidchar · = true) = true := by decide
  cases r with
  | st i | mm i | xmm i =>
    rw [Reg.name, String.toList_append]
    exact isWord_append (by decide) (forall_mem_of_all (hdigit i))
  | _ => decide

theorem isWord_data (data : Nat) : isWord ("data".toList ++ (toString data).toList) = true := by
  obtain ⟨c, cs, hdata, hc, hcs⟩ := digits_number data
  refine isWord_append (by decide) fun d hd => ?_
  have hd : d.isDigit = true := by
    rw [hdata] at hd
    rcases List.mem_cons.1 hd with rfl | hd
    · exact hc
    · exact hcs d hd
  simp [nasmIsidchar, hd]

/-- A sum behind a register. -/
theorem Formula.reg_plus (r : Reg) (h : Formula tables last true (scan tables t)) :
    Formula tables last true (scan tables (r.name.toList ++ ' ' :: '+' :: ' ' :: t)) :=
  .of_word (isWord_reg r) (by simp [nasmIsidchar, nasmIsidstart, isalpha]) h.plus

/-- A sum behind a register with its factor. -/
theorem Formula.scaled_plus (r : Reg) (scale : Nat) (h : Formula tables last true (scan tables t)) :
    Formula tables last true (scan tables
      (r.name.toList ++ '*' :: ((toString scale).toList ++ ' ' :: '+' :: ' ' :: t))) := by
  obtain ⟨c, cs, hscale, hc, hcs⟩ := digits_number scale
  refine .of_word (isWord_reg r) (by simp [nasmIsidchar, nasmIsidstart, isalpha]) (.times ?_)
  rw [hscale]
  refine .of_number hc (fun d hd => ?_) (by simp [nasmIsnumchar, isalpha]) h.plus
  simp [nasmIsnumchar, hcs d hd]

theorem Formula.disp (disp : Nat) : Formula tables (scan tables (']' :: t)) true
    (scan tables ('0' :: 'x' :: Nat.toDigits 16 disp ++ ']' :: t)) :=
  .of_hex disp (by simp [nasmIsnumchar, isalpha]) .bracket

theorem Formula.data (data : Nat) : Formula tables (scan tables (']' :: t)) true
    (scan tables ("data".toList ++ (toString data).toList ++ ']' :: t)) :=
  .of_word (isWord_data data) (by simp [nasmIsidchar, nasmIsidstart, isalpha]) .bracket

/-- What stands between the brackets is a sum. -/
theorem formula_modrm (m : ModRM) : Formula tables (scan tables (']' :: t)) true
    (scan tables (m.inner.toList ++ ']' :: t)) := by
  cases m with
  | d data => simpa [ModRM.inner] using Formula.data data
  | b base data =>
    exact .of_word (isWord_reg base) (by simp [nasmIsidchar, nasmIsidstart, isalpha]) .bracket
  | bd base data disp =>
    simpa [ModRM.inner, hex] using Formula.reg_plus base (.disp disp)
  | isd index scale data value =>
    simpa [ModRM.inner] using Formula.scaled_plus index scale (.data data)
  | bid base index data value disp =>
    simpa [ModRM.inner, hex] using Formula.reg_plus base (.reg_plus index (.disp disp))
  | bisd base index scale data value disp =>
    simpa [ModRM.inner, hex] using Formula.reg_plus base (.scaled_plus index scale (.disp disp))

end

-- ---------------------------------------------------------------------------
-- Operands
-- ---------------------------------------------------------------------------

/-- The tokens of an operand that `gen_operand` writes before a text. -/
inductive MadeText (tables : RegTables) (tail : Text) : Text → Prop
  | token {t : Text} {tok : Token} : scan tables t = ⟨tok, tail⟩ → tok.isOpnd = true →
      MadeText tables tail t
  | mem {t : Text} (m : ModRM) : scan tables t = ⟨.char '[', m.inner.toList ++ ']' :: tail⟩ →
      MadeText tables tail t
  | sized {t t' : Text} {w : Special} : scan tables t = ⟨.keyword (.special w), t'⟩ →
      MadeText tables tail t' → MadeText tables tail t

/-- An operand is read behind the size specifiers that are left. -/
def ReadsOpnd (tables : RegTables) (s : Scan) (r : Operand × Scan) : Prop :=
  ∃ n type setsize type' s', sizeSpecifiers tables n type setsize s = some (type', s') ∧
    parseSized tables type' s' = some r

section
variable {tables : RegTables} {s s₁ : Scan} {t tail : Text} {r : Operand × Scan} {w : Special}
  {op : Operand}

theorem readsOpnd_of_parseOpnd (h : parseOpnd tables s = some r) : ReadsOpnd tables s r := by
  obtain ⟨⟨type, s'⟩, hs', h⟩ := Option.bind_eq_some_iff.1 h
  exact ⟨_, _, _, _, _, hs', h⟩

theorem ReadsOpnd.special (hs : s.tt = .keyword (.special w)) (h : ReadsOpnd tables s r) :
    ReadsOpnd tables (scan tables s.bufptr) r := by
  obtain ⟨n, type, setsize, type', s', hsize, h⟩ := h
  cases n with
  | zero => cases hsize
  | succ n =>
    rw [sizeSpecifiers, hs] at hsize
    exact ⟨_, _, _, _, _, hsize, h⟩

theorem ReadsOpnd.other (hs : ∀ w, s.tt ≠ .keyword (.special w)) (h : ReadsOpnd tables s r) :
    ∃ type, parseSized tables type s = some r := by
  obtain ⟨n, type, setsize, type', s', hsize, h⟩ := h
  cases n with
  | zero => cases hsize
  | succ n =>
    rw [sizeSpecifiers] at hsize
    split at hsize
    · exact absurd ‹_› (hs _)
    · cases hsize
      exact ⟨_, h⟩

theorem parseValue_cases {type : OpFlags} (h : parseValue tables type s = some (op, s₁)) :
    ∃ v, evaluate tables s = some (v, s₁) := by
  obtain ⟨⟨v, s'⟩, hv, h⟩ := Option.bind_eq_some_iff.1 h
  dsimp only at h
  split at h
  · cases h
    exact ⟨v, hv⟩
  · split at h
    · split_ifs at h
      cases h
      exact ⟨_, hv⟩
    · cases h

theorem parseMemory_cases {type : OpFlags} {bracket : Bool}
    (h : parseMemory tables bracket type s = some (op, s₁)) :
    ∃ v s', evaluate tables s = some (v, s') ∧
      s₁ = if bracket && s'.tt = .char ']' then scan tables s'.bufptr else s' := by
  obtain ⟨⟨v, s'⟩, hv, h⟩ := Option.bind_eq_some_iff.1 h
  obtain ⟨m, _, h⟩ := Option.bind_eq_some_iff.1 h
  cases h
  exact ⟨v, s', hv, rfl⟩

theorem sizeSpecifiers_suffix {n : Nat} {type type' : OpFlags} {setsize : Bool}
    (h : sizeSpecifiers tables n type setsize s = some (type', s₁)) : s₁.bufptr <:+ s.bufptr := by
  induction n generalizing s type setsize with
  | zero => cases h
  | succ n ih =>
    rw [sizeSpecifiers] at h
    split at h
    · exact (ih h).trans (scan_suffix _)
    · cases h
      exact List.suffix_refl _

theorem parseMemory_suffix {type : OpFlags} {bracket : Bool}
    (h : parseMemory tables bracket type s = some (op, s₁)) : s₁.bufptr <:+ s.bufptr := by
  obtain ⟨v, s', hv, rfl⟩ := parseMemory_cases h
  split_ifs
  · exact (scan_suffix _).trans (evaluate_suffix hv)
  · exact evaluate_suffix hv

/-- What the reader of an operand leaves is the end of what it was given. -/
theorem parseOpnd_suffix (h : parseOpnd tables s = some (op, s₁)) : s₁.bufptr <:+ s.bufptr := by
  obtain ⟨⟨type, s'⟩, hs', h⟩ := Option.bind_eq_some_iff.1 h
  refine List.IsSuffix.trans ?_ (sizeSpecifiers_suffix hs')
  unfold parseSized at h
  dsimp only at h
  split_ifs at h
  · exact (parseMemory_suffix h).trans (scan_suffix _)
  · exact (parseMemory_suffix h).trans (scan_suffix _)
  · obtain ⟨v, hv⟩ := parseValue_cases h
    exact evaluate_suffix hv

/-- Behind an operand no other can begin. -/
theorem scan_ends (ht : ∀ c ∈ tail.head?, endsOpnd c = true) :
    (scan tables tail).tt = .eos ∨ (scan tables tail).tt = .char ',' := by
  cases tail with
  | nil => exact .inl rfl
  | cons c cs =>
    rcases Bool.or_eq_true_iff.1 (ht c rfl) with h | h
    · rw [of_decide_eq_true h]
      exact .inl rfl
    · rw [of_decide_eq_true h]
      exact .inr rfl

theorem formula_ends (ht : ∀ c ∈ tail.head?, endsOpnd c = true) :
    Formula tables (scan tables tail) false (scan tables tail) := by
  rcases @scan_ends tables _ ht with h | h
  · exact .ends (by rw [h]; rfl) (by rw [h]; rfl) (by rw [h]; rfl)
  · exact .ends (by rw [h]; rfl) (by rw [h]; rfl) (by rw [h]; rfl)

theorem not_readsOpnd_ends (ht : ∀ c ∈ tail.head?, endsOpnd c = true) :
    ¬ReadsOpnd tables (scan tables tail) r := by
  intro h
  have hend : (scan tables tail).tt = .eos ∨ (scan tables tail).tt = .char ',' := scan_ends ht
  have hatom : (scan tables tail).tt.op? sign = none ∧ atom (scan tables tail).tt = none := by
    rcases hend with h | h
    · rw [h]
      exact ⟨rfl, rfl⟩
    · rw [h]
      exact ⟨rfl, rfl⟩
  obtain ⟨type, h⟩ := h.other fun w h => by rcases hend with h' | h' <;> rw [h'] at h <;> cases h
  have hmem : (scan tables tail).tt ≠ .char '[' ∧ (scan tables tail).tt ≠ .char '&' := by
    rcases hend with h | h
    · rw [h]
      exact ⟨nofun, nofun⟩
    · rw [h]
      exact ⟨by decide, by decide⟩
  rw [parseSized, if_neg hmem.1, if_neg hmem.2] at h
  obtain ⟨v, hv⟩ := parseValue_cases h
  obtain ⟨e, s', he⟩ := evaluate_cases hv
  obtain ⟨e, s', he, -⟩ := expr4_cases he
  obtain ⟨e, s', he, -⟩ := expr5_cases he
  rw [Scan.fuel, expr6, hatom.1, hatom.2] at he
  cases he

theorem MadeText.blank (h : MadeText tables tail t) : MadeText tables tail (' ' :: t) := by
  cases h with
  | token hscan htok => exact .token hscan htok
  | mem m hscan => exact .mem m hscan
  | sized hscan h => exact .sized hscan h

/-- What is written for an operand is read, and the token behind it. -/
theorem MadeText.reads (ht : ∀ c ∈ tail.head?, endsOpnd c = true) (h : MadeText tables tail t)
    (hread : ReadsOpnd tables (scan tables t) (op, s₁)) : s₁ = scan tables tail := by
  induction h with
  | @token t tok hscan htok =>
    by_cases hspecial : ∃ w, tok = .keyword (.special w)
    · obtain ⟨w, rfl⟩ := hspecial
      have hread := hread.special (w := w) (by rw [hscan])
      rw [hscan] at hread
      exact absurd hread (not_readsOpnd_ends ht)
    · obtain ⟨type, hread⟩ := hread.other fun w h => hspecial ⟨w, by rw [← h, hscan]⟩
      have hmem : (scan tables t).tt ≠ .char '[' ∧ (scan tables t).tt ≠ .char '&' := by
        rw [hscan]
        constructor
        · rintro rfl
          cases htok
        · rintro rfl
          cases htok
      rw [parseSized, if_neg hmem.1, if_neg hmem.2] at hread
      obtain ⟨v, hv⟩ := parseValue_cases hread
      exact (Formula.of_opnd hscan htok (formula_ends ht)).evaluate hv
  | @mem t m hscan =>
    obtain ⟨type, hread⟩ := hread.other fun w h => by rw [hscan] at h; cases h
    rw [parseSized, if_pos (by rw [hscan]), hscan] at hread
    obtain ⟨v, s', hv, rfl⟩ := parseMemory_cases hread
    rw [(formula_modrm m).evaluate hv]
    rfl
  | @sized t t' w hscan _ ih =>
    have hread := hread.special (w := w) (by rw [hscan])
    rw [hscan] at hread
    exact ih hread

theorem MadeText.ne_eos (h : MadeText tables tail t) : (scan tables t).tt ≠ .eos := by
  cases h with
  | token hscan htok =>
    rw [hscan]
    rintro rfl
    cases htok
  | mem m hscan => rw [hscan]; nofun
  | sized hscan => rw [hscan]; nofun

end

section
variable {tables : InsnTables} {t tail : Text}

theorem scan_size {p : String × Special} (hp : p ∈ sizeWords)
    (ht : ∀ c ∈ t.head?, nasmIsidchar c = false) :
    scan tables.toRegTables (p.1.toList ++ t) = ⟨.keyword (.special p.2), t⟩ := by
  have hword : ∀ p ∈ sizeWords, isWord p.1.toList = true ∧ p.1.toList.length ≤ 5 := by decide
  obtain ⟨hw, hlen⟩ := hword p hp
  have htake : p.1.toList.take (idlenMax - 1) = p.1.toList :=
    List.take_of_length_le (hlen.trans (by decide))
  rw [scan_word hw ht, htake, tables.hash_size p hp]
  rfl

/-- The characters of a made register or number continue an identifier. -/
theorem idchar_or_mem (o : Opnd) :
    (∀ c ∈ o.text.toList, nasmIsidchar c = true) ∨ ∃ m, o = .mem m := by
  cases o with
  | reg r => exact .inl (idchar_of_isWord (isWord_reg r))
  | imm v =>
    refine .inl fun c hc => ?_
    have htext : (Opnd.imm v).text.toList = '0' :: 'x' :: Nat.toDigits 16 v.toNat := by
      simp [Opnd.text, hex]
    rw [htext] at hc
    rcases List.mem_cons.1 hc with rfl | hc
    · decide
    · rcases List.mem_cons.1 hc with rfl | hc
      · decide
      · exact forall_mem_toDigits (p := (nasmIsidchar · = true)) (by decide) _ c hc
  | mem m => exact .inr ⟨m, rfl⟩

theorem not_idchar_of_ends (ht : ∀ c ∈ tail.head?, endsOpnd c = true) :
    (∀ c ∈ tail.head?, nasmIsidchar c = false) ∧ ∀ c ∈ tail.head?, nasmIsnumchar c = false := by
  have hplain : ∀ c, endsOpnd c = true → nasmIsidchar c = false ∧ nasmIsnumchar c = false := by
    intro c hc
    rcases Bool.or_eq_true_iff.1 hc with h | h <;> rw [of_decide_eq_true h] <;> decide
  exact ⟨fun c hc => (hplain c (ht c hc)).1, fun c hc => (hplain c (ht c hc)).2⟩

theorem mem_text (m : ModRM) :
    (Opnd.mem m).text.toList ++ tail = '[' :: (m.inner.toList ++ ']' :: tail) := by
  simp [Opnd.text, ModRM.text]

theorem madeText_opnd (o : Opnd) (ht : ∀ c ∈ tail.head?, endsOpnd c = true) :
    MadeText tables.toRegTables tail (o.text.toList ++ tail) := by
  obtain ⟨hid, hnum⟩ := not_idchar_of_ends ht
  cases o with
  | reg r => exact .token (scan_word (isWord_reg r) hid) rfl
  | imm v =>
    have htext : (Opnd.imm v).text.toList ++ tail =
        '0' :: 'x' :: Nat.toDigits 16 v.toNat ++ tail := by
      simp [Opnd.text, hex]
    rw [htext]
    exact .token (scan_hex _ hnum) rfl
  | mem m =>
    rw [mem_text]
    exact .mem m rfl

theorem madeText_asmOpnd (o : Opnd) (flags : OpFlags)
    (ht : ∀ c ∈ tail.head?, endsOpnd c = true) :
    MadeText tables.toRegTables tail ((o.asmOpnd flags).toList ++ tail) := by
  rcases asmOpnd_cases o flags with htext | htext
  · rw [htext]
    exact madeText_opnd o ht
  · rw [htext]
    exact (madeText_opnd o ht).blank

theorem madeText_spaced {p : String × Special} (hp : p ∈ sizeWords) {t : Text}
    (h : MadeText tables.toRegTables tail t) :
    MadeText tables.toRegTables tail (p.1.toList ++ ' ' :: t) :=
  .sized (scan_size hp (by simp [nasmIsidchar, nasmIsidstart, isalpha])) h.blank

/-- A size keyword that no blank follows. -/
theorem madeText_glued {p : String × Special} (hp : p ∈ sizeWords) (o : Opnd) (flags : OpFlags)
    (ht : ∀ c ∈ tail.head?, endsOpnd c = true) :
    MadeText tables.toRegTables tail (p.1.toList ++ ((o.asmOpnd flags).toList ++ tail)) := by
  have hword : ∀ p ∈ sizeWords, isWord p.1.toList = true := by decide
  rcases asmOpnd_cases o flags with htext | htext
  · rw [htext]
    rcases idchar_or_mem o with ho | ⟨m, rfl⟩
    · rw [← List.append_assoc]
      exact .token (scan_word (isWord_append (hword p hp) ho) (not_idchar_of_ends ht).1) rfl
    · refine .sized (scan_size hp ?_) (madeText_opnd _ ht)
      rw [mem_text]
      simp [nasmIsidchar, nasmIsidstart, isalpha]
  · rw [htext]
    exact madeText_spaced hp (madeText_opnd o ht)

/-- What `gen_operand` writes, with a size keyword or without. -/
theorem madeText (size : Option SizeWord) (o : Opnd) (flags : OpFlags)
    (ht : ∀ c ∈ tail.head?, endsOpnd c = true) :
    MadeText tables.toRegTables tail (sizeText size ++ ((o.asmOpnd flags).toList ++ tail)) := by
  have hmade := @madeText_asmOpnd tables tail o flags ht
  cases size with
  | none => exact hmade
  | some w =>
    cases w with
    | byte => exact madeText_spaced (p := ("byte", .byte)) (by decide) hmade
    | word => exact madeText_spaced (p := ("word", .word)) (by decide) hmade
    | dword => exact madeText_spaced (p := ("dword", .dword)) (by decide) hmade
    | qword => exact madeText_glued (p := ("qword", .qword)) (by decide) o flags ht
    | tword => exact madeText_glued (p := ("tword", .tword)) (by decide) o flags ht
    | blank => exact hmade.blank

end

end Btrtg
