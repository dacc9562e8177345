import Btrtg.InsnText

/-!
# Size keywords

When a memory operand that comes first gets its size keyword: the pseudo
instruction decides from the text behind the next comma, the seed from the flags
of its second operand.
-/

namespace Btrtg

namespace TokenBuf

open Prog OpFlags

-- ---------------------------------------------------------------------------
-- Texts
-- ---------------------------------------------------------------------------

section
variable {o tail : Text}

theorem takeWhile_append_of_some {p : Char → Bool} (ho : ∃ c ∈ o, p c = false) :
    (o ++ tail).takeWhile p = o.takeWhile p := by
  obtain ⟨c, hc, hpc⟩ := ho
  rw [List.takeWhile_append, if_neg]
  intro h
  rw [List.takeWhile_eq_self_iff.1 (List.IsPrefix.eq_of_length (List.takeWhile_prefix p) h) c hc]
    at hpc
  exact Bool.noConfusion hpc

theorem dropWhile_append_of_some {p : Char → Bool} (ho : ∃ c ∈ o, p c = false) :
    (o ++ tail).dropWhile p = o.dropWhile p ++ tail := by
  obtain ⟨c, hc, hpc⟩ := ho
  refine List.dropWhile_append.trans (if_neg fun h => ?_)
  rw [List.isEmpty_iff, List.dropWhile_eq_nil_iff] at h
  rw [h c hc] at hpc
  exact Bool.noConfusion hpc

theorem takeWhile_append_stop {p : Char → Bool} (ht : ∀ c ∈ tail.head?, p c = false) :
    (o ++ tail).takeWhile p = o.takeWhile p := by
  by_cases ho : ∃ c ∈ o, p c = false
  · exact takeWhile_append_of_some ho
  · have ho : ∀ c ∈ o, p c = true := by simpa using ho
    rw [takeWhile_append_of_head ho ht, List.takeWhile_eq_self_iff.2 ho]

theorem opndIds_plain : ∀ p ∈ opndIds, p.1 ≠ [] ∧ ∀ c ∈ p.1, endsOpnd c = false ∧
    nasmIsnumstart c = false ∧ c ≠ '@' := by
  have hall : ∀ p ∈ opndIds, p.1 ≠ [] ∧ p.1.all (fun c => endsOpnd c = false ∧
      nasmIsnumstart c = false ∧ c ≠ '@') = true := by decide
  exact fun p hp => ⟨(hall p hp).1, forall_mem_of_all (hall p hp).2⟩

/-- What follows an operand has no say when the operand has a digit. -/
theorem parseAsmOpndTypeOpflags_append (ht : ∀ c ∈ tail.head?, c.isDigit = false)
    (ho : o.any (·.isDigit) = true) :
    parseAsmOpndTypeOpflags (o ++ tail) = parseAsmOpndTypeOpflags o := by
  have ho : ∃ c ∈ o, (!c.isDigit) = false := by simpa using ho
  unfold parseAsmOpndTypeOpflags
  rw [takeWhile_append_of_some ho, dropWhile_append_of_some ho, takeWhile_append_stop ht]

/-- Without one, a type is only read up to the end of the text. -/
theorem parseAsmOpndTypeOpflags_append_of_none (ht : ∃ c ∈ tail.head?, endsOpnd c = true)
    (ho : o.any (·.isDigit) = false) : parseAsmOpndTypeOpflags (o ++ tail) = 0 := by
  obtain ⟨c, hc, hends⟩ := ht
  obtain ⟨cs, rfl⟩ : ∃ cs, tail = c :: cs := List.head?_eq_some_iff.1 hc
  have hdigit : c.isDigit = false := by
    rcases Bool.or_eq_true_iff.1 hends with h | h <;> rw [of_decide_eq_true h] <;> rfl
  have ho : ∀ d ∈ o, (!d.isDigit) = true := by simpa using ho
  have hid : (o ++ c :: cs).takeWhile (!·.isDigit) = o ++ c :: cs.takeWhile (!·.isDigit) := by
    rw [List.takeWhile_append_of_pos ho, List.takeWhile_cons_of_pos (by simp [hdigit])]
  have hnone : opndIds.find? (·.1 = o ++ c :: cs.takeWhile (!·.isDigit)) = none := by
    refine List.find?_eq_none.2 fun p hp h => ?_
    have hmem : c ∈ p.1 := by rw [of_decide_eq_true h]; simp
    have hplain := ((opndIds_plain p hp).2 c hmem).1
    rw [hends] at hplain
    exact Bool.noConfusion hplain
  simp only [parseAsmOpndTypeOpflags, hid, hnone]

theorem parseAsmOpndTypeOpflags_var (h : o.head? = some '@') : parseAsmOpndTypeOpflags o = 0 := by
  obtain ⟨cs, rfl⟩ := List.head?_eq_some_iff.1 h
  have hnone : opndIds.find? (·.1 = '@' :: cs.takeWhile (!·.isDigit)) = none := by
    refine List.find?_eq_none.2 fun p hp h => ?_
    have hmem : '@' ∈ p.1 := by rw [of_decide_eq_true h]; simp
    exact ((opndIds_plain p hp).2 _ hmem).2.2 rfl
  have hid : ('@' :: cs).takeWhile (!·.isDigit) = '@' :: cs.takeWhile (!·.isDigit) :=
    List.takeWhile_cons_of_pos rfl
  simp only [parseAsmOpndTypeOpflags, hid, hnone]

theorem exists_of_type (h : parseAsmOpndTypeOpflags o ≠ 0) :
    ∃ p ∈ opndIds, p.1 = o.takeWhile (!·.isDigit) := by
  cases hfind : opndIds.find? (·.1 = o.takeWhile (!·.isDigit)) with
  | none => exact absurd (by simp only [parseAsmOpndTypeOpflags, hfind]) h
  | some p => exact ⟨p, List.mem_of_find?_eq_some hfind, by simpa using List.find?_some hfind⟩

/-- A type does not begin like a number. -/
theorem head_of_type (h : parseAsmOpndTypeOpflags o ≠ 0) : o.head?.any nasmIsnumstart = false := by
  obtain ⟨p, hp, hid⟩ := exists_of_type h
  obtain ⟨hne, hplain⟩ := opndIds_plain p hp
  cases o with
  | nil => rfl
  | cons c cs =>
    by_cases hc : c.isDigit = true
    · exact absurd (hid.trans (List.takeWhile_cons_of_neg (by simp [hc]))) hne
    · rw [List.takeWhile_cons_of_pos (by simp [hc])] at hid
      exact (hplain c (hid ▸ .head _)).2.1

end

-- ---------------------------------------------------------------------------
-- The second operand
-- ---------------------------------------------------------------------------

/-- The flags of an operand as it is written: those of its variable, of its type, or
of what it is parsed as. -/
def opndFlags (tables : RegTables) (g : Gen) (asmOpnd : Text) : OpFlags :=
  if asmOpnd.head? = some '@' then
    ((g.currBlk.bind (blkSearchVar g.vars (String.ofList asmOpnd.tail))).map (·.2.2.varType)).getD 0
  else if parseAsmOpndTypeOpflags asmOpnd ≠ 0 then parseAsmOpndTypeOpflags asmOpnd
  else ((parseOpnd tables (scan tables asmOpnd)).map (·.1.type)).getD 0

/-- The flags of the operand in a seed, where a seed without it has none. -/
def nextFlags (tables : RegTables) (g : Gen) (next : Text) : OpFlags :=
  if asmIsBlank next then 0 else opndFlags tables g (firstOpnd next)

/-- The text tells whether its first operand is an immediate: a variable is none, a
type has a size or ends the text, and a number begins with a digit or with `$`. -/
def ShowsImmediate (tables : RegTables) (g : Gen) (next : Text) : Prop :=
  let asmOpnd := firstOpnd next
  let imm := isClass immediate (opndFlags tables g asmOpnd) = true
  if asmOpnd.head? = some '@' then ¬imm
  else if parseAsmOpndTypeOpflags asmOpnd ≠ 0 then
    imm → asmOpnd.any (·.isDigit) = true ∨ nasmSkipSpaces next = asmOpnd
  else imm ↔ asmOpnd.head?.any nasmIsnumstart = true

section
variable {tables : RegTables} {g : Gen} {next : Text}

/-- The texts of an operand, of what follows it, and of both. -/
theorem firstOpnd_append (next : Text) : ∃ tail, nasmSkipSpaces next = firstOpnd next ++ tail ∧
    ∀ c ∈ tail.head?, endsOpnd c = true := by
  refine ⟨_, List.takeWhile_append_dropWhile.symm, fun c hc => ?_⟩
  have hhead := List.head?_dropWhile_not (!endsOpnd ·) (nasmSkipSpaces next)
  rw [hc] at hhead
  simpa using hhead

theorem endsOpnd_plain {c : Char} (h : endsOpnd c = true) :
    c.isDigit = false ∧ nasmIsnumstart c = false := by
  rcases Bool.or_eq_true_iff.1 h with h | h <;> rw [of_decide_eq_true h] <;> decide

/-- The type that is read from an operand on: that of the operand, or none where the
operand has no digit and another follows. -/
theorem parseAsmOpndTypeOpflags_rest {o tail : Text} (ht : ∀ c ∈ tail.head?, endsOpnd c = true) :
    parseAsmOpndTypeOpflags (o ++ tail) =
      if o.any (·.isDigit) = true ∨ tail = [] then parseAsmOpndTypeOpflags o else 0 := by
  split_ifs with h
  · rcases h with h | rfl
    · exact parseAsmOpndTypeOpflags_append (fun c hc => (endsOpnd_plain (ht c hc)).1) h
    · rw [List.append_nil]
  · obtain ⟨hdigit, htail⟩ := not_or.1 h
    obtain ⟨c, cs, rfl⟩ := List.exists_cons_of_ne_nil htail
    exact parseAsmOpndTypeOpflags_append_of_none ⟨c, rfl, ht c rfl⟩ (Bool.eq_false_of_not_eq_true hdigit)

theorem head_any_append {o tail : Text} (ht : ∀ c ∈ tail.head?, endsOpnd c = true) :
    (o ++ tail).head?.any nasmIsnumstart = o.head?.any nasmIsnumstart := by
  cases o with
  | cons c cs => rfl
  | nil =>
    cases tail with
    | nil => rfl
    | cons c cs => exact (endsOpnd_plain (ht c rfl)).2

theorem asmIsImmediate_iff : asmIsImmediate next =
    isClass immediate (opndFlags tables g (firstOpnd next)) ↔ ShowsImmediate tables g next := by
  obtain ⟨tail, hnext, ht⟩ := firstOpnd_append next
  have himm : asmIsImmediate next = ((firstOpnd next).head?.any nasmIsnumstart ||
      isClass immediate (parseAsmOpndTypeOpflags (firstOpnd next ++ tail))) := by
    rw [← head_any_append ht, ← hnext]
    rfl
  have hnone : isClass immediate 0 = false := by decide
  rw [himm, parseAsmOpndTypeOpflags_rest ht, ShowsImmediate, hnext]
  generalize firstOpnd next = o
  by_cases hvar : o.head? = some '@'
  · have hnum : nasmIsnumstart '@' = false := by decide
    simp only [hvar, Option.any_some, hnum, parseAsmOpndTypeOpflags_var hvar, ite_self, hnone,
      Bool.or_false, if_true, Bool.not_eq_true]
    exact eq_comm
  · by_cases htype : parseAsmOpndTypeOpflags o = 0
    · simp only [hvar, htype, if_false, ite_self, hnone, Bool.or_false, ne_eq, not_true_eq_false]
      exact Bool.eq_iff_iff.trans Iff.comm
    · have hflags : opndFlags tables g o = parseAsmOpndTypeOpflags o := by
        rw [opndFlags, if_neg hvar, if_pos htype]
      simp only [hvar, htype, if_false, if_true, hflags, head_of_type htype, Bool.false_or, ne_eq,
        not_false_eq_true, List.append_right_eq_self]
      split_ifs with h
      · exact iff_of_true rfl fun _ => h
      · simp only [hnone, h, imp_false, Bool.not_eq_true]
        exact eq_comm

end

-- ---------------------------------------------------------------------------
-- Made operands
-- ---------------------------------------------------------------------------

theorem toDigits_plain (n : Nat) : ∀ c ∈ Nat.toDigits 10 n, endsOpnd c = false := by
  intro c hc
  have hdigit := Nat.isDigit_of_mem_toDigits (by decide) (by decide) hc
  cases h : endsOpnd c with
  | false => rfl
  | true => rw [(endsOpnd_plain h).1] at hdigit; exact Bool.noConfusion hdigit

theorem hexDigits_plain (n : Nat) : ∀ c ∈ Nat.toDigits 16 n, endsOpnd c = false :=
  forall_mem_toDigits (p := (endsOpnd · = false)) (by decide) n

theorem forall_mem_append {p : Char → Prop} {s t : String} (hs : ∀ c ∈ s.toList, p c)
    (ht : ∀ c ∈ t.toList, p c) : ∀ c ∈ (s ++ t).toList, p c := by
  intro c hc
  rw [String.toList_append, List.mem_append] at hc
  exact hc.elim (hs c) (ht c)

theorem reg_plain (r : Reg) : ∀ c ∈ r.name.toList, endsOpnd c = false := by
  have hfin : ∀ i : Fin 8, (toString i.val).toList.all (endsOpnd · = false) = true := by decide
  cases r with
  | st i | mm i | xmm i =>
    exact forall_mem_append (forall_mem_of_all (by decide)) (forall_mem_of_all (hfin i))
  | _ => exact forall_mem_of_all (by decide)

theorem modrm_plain (m : ModRM) : ∀ c ∈ m.inner.toList, endsOpnd c = false := by
  have hnat : ∀ n : Nat, ∀ c ∈ (toString n).toList, endsOpnd c = false := fun n => by
    simpa [Nat.repr] using toDigits_plain n
  have hhex : ∀ n : Nat, ∀ c ∈ (hex n).toList, endsOpnd c = false := fun n => by
    simpa [hex] using hexDigits_plain n
  have hplus : ∀ c ∈ " + ".toList, endsOpnd c = false := forall_mem_of_all (by decide)
  have hplus0x : ∀ c ∈ " + 0x".toList, endsOpnd c = false := forall_mem_of_all (by decide)
  have htimes : ∀ c ∈ "*".toList, endsOpnd c = false := forall_mem_of_all (by decide)
  cases m with
  | d data => exact forall_mem_append (forall_mem_of_all (by decide)) (hnat data)
  | b base data => exact reg_plain base
  | bd base data disp =>
    exact forall_mem_append (forall_mem_append (reg_plain base) hplus0x) (hhex disp)
  | isd index scale data value =>
    have hdata : ∀ c ∈ " + data".toList, endsOpnd c = false := forall_mem_of_all (by decide)
    exact forall_mem_append (forall_mem_append (forall_mem_append (forall_mem_append
      (reg_plain index) htimes) (hnat scale)) hdata) (hnat data)
  | bid base index data value disp =>
    exact forall_mem_append (forall_mem_append (forall_mem_append (forall_mem_append
      (reg_plain base) hplus) (reg_plain index)) hplus0x) (hhex disp)
  | bisd base index scale data value disp =>
    exact forall_mem_append (forall_mem_append (forall_mem_append (forall_mem_append
      (forall_mem_append (forall_mem_append (reg_plain base) hplus) (reg_plain index)) htimes)
      (hnat scale)) hplus0x) (hhex disp)

theorem text_plain (o : Opnd) : ∀ c ∈ o.text.toList, endsOpnd c = false := by
  cases o with
  | reg r => exact reg_plain r
  | imm v =>
    exact forall_mem_append (forall_mem_of_all (by decide)) (by simpa [hex] using hexDigits_plain v.toNat)
  | mem m => exact forall_mem_append (forall_mem_append (forall_mem_of_all (by decide)) (modrm_plain m)) (forall_mem_of_all (by decide))

/-- What is made for an operand does not end it. -/
theorem opnd_plain (o : Opnd) (flags : OpFlags) :
    ∀ c ∈ (o.asmOpnd flags).toList, endsOpnd c = false := by
  rcases asmOpnd_cases o flags with htext | htext
  · rw [htext]
    exact text_plain o
  · rw [htext]
    exact List.forall_mem_cons.2 ⟨by decide, text_plain o⟩

-- ---------------------------------------------------------------------------
-- The two paths
-- ---------------------------------------------------------------------------

def nextText (t : TGen) : Text := nasmSkipAComma (opndTail t)

theorem nasmSkipAComma_append {o tail : Text} (ho : ∀ c ∈ o, endsOpnd c = false) :
    nasmSkipAComma (o ++ tail) = nasmSkipAComma tail := by
  have hcomma : ∀ c ∈ o, (decide (c ≠ ',')) = true := fun c hc => by
    have := (Bool.or_eq_false_iff.1 (ho c hc)).2
    simpa using this
  rw [nasmSkipAComma, List.dropWhile_append_of_pos hcomma, nasmSkipAComma]

theorem wantsSize_memory {opcode : Opcode} {flags : OpFlags} (h : isClass memory flags = true)
    (b : Bool) : wantsSize opcode 0 flags b = (opcode = .movsx || opcode.isShiftOrRotate || b) := by
  simp [wantsSize, h]

/-- A memory operand that is made for the first operand of a pseudo instruction gets a
size keyword exactly when one made for a seed with the same opcode and flags does, if
the opcode always has one, no operand follows, or the text shows an immediate. -/
theorem genOperandPseudoCode_size_iff {tables : RegTables} {finish : InsnText → T Unit}
    {depth depth' : Nat} {t t' u u' : TGen} {w w' : WrittenOpnd} {s : InsnSeed}
    (hop : t.opcode ≠ .none) (hopu : u.opcode = t.opcode) (hopi : t.opi = 0) (hopiu : u.opi = 0)
    (hptr : u.bufptr ≤ u.tokenBuf.length)
    (hp : (genOperandPseudoCode tables (oneInsnGenConst tables finish depth)).run t =
      (.ok (some w), t'))
    (hs : (genOperandInsnSeed (oneInsnGenConst tables finish depth') s).run u =
      (.ok (some w'), u'))
    (hmade : w.opnd ≠ none) (hmem : isClass memory w.seed.opndflags = true)
    (hmem' : isClass memory w'.seed.opndflags = true)
    (hflags : asmIsBlank (nextText t) = false →
      opndFlags tables t.toGen (firstOpnd (nextText t)) ≠ 0)
    (hopd : s.opd.getD 1 0 = nextFlags tables t.toGen (nextText t)) :
    (w.size.isSome = w'.size.isSome) ↔
      t.opcode = .movsx ∨ t.opcode.isShiftOrRotate = true ∨ asmIsBlank (nextText t) = true ∨
        ShowsImmediate tables t.toGen (nextText t) := by
  have hpseudo := genOperandPseudoCode_ok (yields_oneInsnGenConst tables finish depth) hp
  obtain ⟨o, ho⟩ := Option.ne_none_iff_exists'.1 hmade
  have hsize := hpseudo.size hop o ho
  rw [nasmSkipAComma_append (opnd_plain o _), hopi, wantsSize_memory hmem, ← nextText] at hsize
  have hsize' : w'.size.isSome = (decide (t.opcode = .movsx) || t.opcode.isShiftOrRotate ||
      (decide (s.opd.getD 1 0 = 0) || isClass immediate (s.opd.getD 1 0))) := by
    rcases genOperandInsnSeed_ok (yields_oneInsnGenConst tables finish depth') hptr hs
      with ⟨-, rfl, -⟩ | ⟨-, hseed⟩
    · exact absurd hmem' (by decide)
    · rw [hseed.size (hopu ▸ hop), hopiu, wantsSize_memory hmem', hopu]
  rw [hsize, hsize', hopd, nextFlags, ← asmIsImmediate_iff]
  by_cases hblank : asmIsBlank (nextText t) = true
  · simp [hblank]
  · have hne := decide_eq_false (hflags (Bool.eq_false_of_not_eq_true hblank))
    rw [if_neg hblank, hne, Bool.false_or]
    by_cases hmovsx : t.opcode = .movsx
    · simp [hmovsx]
    · by_cases hshift : t.opcode.isShiftOrRotate = true
      · simp [hshift]
      · simp [hblank, hmovsx, hshift]

/-- A generator that always draws 0, with a variable `val`, before the first operand of a
`mov` in a text. -/
def sizeStart (text : Text) : TGen where
  toGen := { Gen.plain 0 with
    opcode := .mov
    currBlk := some []
    vars := fun _ => [⟨"val", immediate ||| bits32, false, 0, none, false, false, none⟩] }
  tokenBuf := text
  bufptr := 5
  tokval := .eos

def sizeSeed : InsnSeed := ⟨.mov, [memory ||| bits32, immediate ||| bits32]⟩

/-- Before a variable of an immediate type no size keyword is written. -/
theorem genOperandPseudoCode_size_var :
    ∃ t' u' w w',
      (genOperandPseudoCode rd32Tables (oneInsnGenConst rd32Tables (fun _ => pure ()) 1)).run
          (sizeStart "  mov mem32,@val".toList) = (.ok (some w), t') ∧
        (genOperandInsnSeed (oneInsnGenConst rd32Tables (fun _ => pure ()) 1) sizeSeed).run
          (sizeStart "  mov ".toList) = (.ok (some w'), u') ∧
        w.seed.opndflags = sizeSeed.opd.getD 0 0 ∧
        opndFlags rd32Tables (sizeStart "  mov mem32,@val".toList).toGen "@val".toList =
          sizeSeed.opd.getD 1 0 ∧
        w.size = none ∧ w'.size = some .dword :=
  ⟨_, _, _, _, run_eq rfl, run_eq rfl, rfl, rfl, rfl, rfl⟩

theorem genOperandPseudoCode_size_imm :
    ((some SizeWord.dword).isSome = (some SizeWord.dword).isSome) ↔
      Opcode.mov = .movsx ∨ Opcode.mov.isShiftOrRotate = true ∨
        asmIsBlank (nextText (sizeStart "  mov mem32,imm32".toList)) = true ∨
        ShowsImmediate rd32Tables (sizeStart "  mov mem32,imm32".toList).toGen
          (nextText (sizeStart "  mov mem32,imm32".toList)) :=
  @genOperandPseudoCode_size_iff rd32Tables (fun _ => pure ()) 1 1
    (sizeStart "  mov mem32,imm32".toList) _ (sizeStart "  mov ".toList) _
    ⟨⟨false, true, true, memory ||| bits32⟩, some .dword, some (.mem (.d 0))⟩
    ⟨⟨false, false, true, memory ||| bits32⟩, some .dword, some (.mem (.d 0))⟩ sizeSeed
    nofun rfl rfl rfl (by decide) (run_eq rfl) (run_eq rfl) nofun (by decide) (by decide)
    (fun _ => by decide) rfl

end TokenBuf

end Btrtg
