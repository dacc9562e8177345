import Btrtg.InsnText
import Btrtg.OpndLaws

/-!
# Instructions around initialisations

The text and the operands of an instruction follow from the strings that are written
for its operands, whatever is generated between them.
-/

namespace Btrtg

namespace TokenBuf

open Prog

-- ---------------------------------------------------------------------------
-- Texts
-- ---------------------------------------------------------------------------

/-- What stands behind the operand that a text begins with. -/
def behindOpnd (text : Text) : Text := (nasmSkipSpaces text).dropWhile (!endsOpnd ·)

/-- A text whose first operand gives way to a string, if there is one. -/
def putOpnd (text : Text) : Option Text → Text
  | none => text
  | some w => text.takeWhile nasmIsspace ++ (w ++ behindOpnd text)

def atEnd (text : Text) : Bool := (nasmSkipSpaces text).head?.all fun c => c = ';' || c = '\n'

/-- A pseudo instruction from its operands on, and what it becomes: a variable or a type
gives way to its string, and a literal operand stands as it is. -/
inductive Substituted : Text → Text → List (Option Text) → Prop
  | ends {rest : Text} : atEnd rest = true → Substituted rest rest []
  | literal {piece rest rest' : Text} {ws : List (Option Text)} :
      IsLiteral (firstOpnd (piece ++ rest)) → Substituted rest rest' ws →
      Substituted (piece ++ rest) (piece ++ rest') (none :: ws)
  | made {gap o sep rest rest' w : Text} {ws : List (Option Text)} :
      (∀ c ∈ gap, nasmIsspace c = true) → firstOpnd (gap ++ (o ++ (sep ++ rest))) = o →
      ¬IsLiteral o → sep = [','] ∨ sep = [] → Substituted rest rest' ws →
      Substituted (gap ++ (o ++ (sep ++ rest))) (gap ++ (w ++ (sep ++ rest'))) (some w :: ws)

/-- The operands and the text of a pseudo instruction when these are the strings of its
operands. -/
def replay (tables : RegTables) : List (Option Text) → Text → Option (List Operand × Text)
  | [], text => some ([], text)
  | w :: ws, text => do
    let text := putOpnd text w
    let (op, s) ← parseOpnd tables (scan tables text)
    let (ops, rest) ← replay tables ws s.bufptr
    some (op :: ops, text.take (text.length - s.bufptr.length) ++ rest)

/-- The operands that a text has, up to a number of turns: a variable or a type up to its end,
and a literal operand as far as it is read. -/
def operandCount (tables : RegTables) : Nat → Text → Nat
  | 0, _ => 0
  | turns + 1, text =>
    if IsLiteral (firstOpnd text) then
      if (scan tables text).tt = .eos then 0
      else (parseOpnd tables (scan tables text)).elim 0 fun r =>
        operandCount tables turns r.2.bufptr + 1
    else operandCount tables turns (scan tables (behindOpnd text)).bufptr + 1

section
variable {tables : RegTables} {text tail : Text}

theorem opnd_append (text : Text) :
    text = text.takeWhile nasmIsspace ++ (firstOpnd text ++ behindOpnd text) := by
  rw [firstOpnd, copyAsmOpnd, behindOpnd, List.takeWhile_append_dropWhile, nasmSkipSpaces,
    List.takeWhile_append_dropWhile]

theorem behindOpnd_ends (text : Text) : ∀ c ∈ (behindOpnd text).head?, endsOpnd c = true := by
  intro c hc
  have hhead := List.head?_dropWhile_not (!endsOpnd ·) (nasmSkipSpaces text)
  rw [← behindOpnd, hc] at hhead
  simpa using hhead

theorem scan_blanks {gap : Text} (hgap : ∀ c ∈ gap, nasmIsspace c = true) :
    scan tables (gap ++ text) = scan tables text := by
  have hskip : nasmSkipSpaces (gap ++ text) = nasmSkipSpaces text :=
    List.dropWhile_append_of_pos hgap
  rw [scan, ← getToken_skip, hskip, getToken_skip, ← scan]

theorem atEnd_of_eos (h : (scan tables text).tt = .eos) : atEnd text = true := by
  have h : (Btrtg.getToken tables.hash text).1 = .eos := h
  unfold Btrtg.getToken at h
  unfold atEnd
  cases hs : nasmSkipSpaces text with
  | nil => rfl
  | cons c cs =>
    rw [hs] at h
    dsimp only at h
    split_ifs at h with hid hnum hend
    · split at h <;> cases h
    · exact hend

/-- The token behind an operand is a comma, or the end. -/
theorem scan_behind (ht : ∀ c ∈ tail.head?, endsOpnd c = true) :
    ∃ sep, tail = sep ++ (scan tables tail).bufptr ∧ (sep = [','] ∨ sep = []) := by
  cases tail with
  | nil => exact ⟨[], rfl, .inr rfl⟩
  | cons c cs =>
    rcases Bool.or_eq_true_iff.1 (ht c rfl) with h | h
    · rw [of_decide_eq_true h]
      exact ⟨[], rfl, .inr rfl⟩
    · rw [of_decide_eq_true h]
      exact ⟨[','], rfl, .inl rfl⟩

end

-- ---------------------------------------------------------------------------
-- Steps
-- ---------------------------------------------------------------------------

/-- The read pointer stands between two texts. -/
structure At (t : TGen) (pre text : Text) : Prop where
  tokenBuf : t.tokenBuf = pre ++ text
  bufptr : t.bufptr = pre.length

section
variable {tables : RegTables} {t t' : TGen} {pre text read rest : Text} {tok : Token}

theorem At.drop (h : At t pre text) : t.tokenBuf.drop t.bufptr = text := by
  rw [h.tokenBuf, h.bufptr, List.drop_left]

theorem At.take (h : At t pre text) : t.tokenBuf.take t.bufptr = pre := by
  rw [h.tokenBuf, h.bufptr, List.take_left]

theorem SameBuf.at (hs : SameBuf t t') (h : At t pre text) : At t' pre text :=
  ⟨hs.tokenBuf.trans h.tokenBuf, hs.bufptr.trans h.bufptr⟩

theorem At.moveTo (h : At t pre (read ++ rest)) (hrun : (moveTo rest).run t = (.ok (), t')) :
    At t' (pre ++ read) rest := by
  cases hrun
  refine ⟨by rw [h.tokenBuf, List.append_assoc], ?_⟩
  change t.tokenBuf.length - rest.length = _
  rw [h.tokenBuf, ← List.append_assoc, List.length_append, Nat.add_sub_cancel]

theorem getToken_ok (h : At t pre text) (hrun : (getToken tables).run t = (.ok tok, t')) :
    ∃ read, text = read ++ (scan tables text).bufptr ∧ (scan tables text).tt = tok ∧
      At t' (pre ++ read) (scan tables text).bufptr := by
  obtain ⟨_, _, hget, hrun⟩ := bind_ok.1 hrun
  cases hget
  rw [h.drop] at hrun
  obtain ⟨_, t₁, hmove, hrun⟩ := bind_ok.1 hrun
  obtain ⟨read, hread⟩ : (scan tables text).bufptr <:+ text := scan_suffix text
  obtain ⟨_, t₂, hmod, hrun⟩ := bind_ok.1 hrun
  cases hmod
  cases hrun
  have hat : At t pre (read ++ (scan tables text).bufptr) := by
    rw [hread]
    exact h
  obtain ⟨hbuf, hptr⟩ := hat.moveTo hmove
  exact ⟨read, hread.symm, rfl, hbuf, hptr⟩

theorem getOpnd_ok {op : Operand} (h : At t pre text)
    (hrun : (getOpnd tables tok).run t = (.ok op, t')) :
    ∃ s, parseOpnd tables ⟨tok, text⟩ = some (op, s) ∧
      ∀ read, text = read ++ s.bufptr → At t' (pre ++ read) s.bufptr := by
  obtain ⟨_, _, hget, hrun⟩ := bind_ok.1 hrun
  cases hget
  rw [h.drop] at hrun
  cases hparse : parseOpnd tables ⟨tok, text⟩ with
  | none =>
    rw [hparse] at hrun
    cases hrun
  | some r =>
    obtain ⟨op', s⟩ := r
    rw [hparse] at hrun
    obtain ⟨_, t₁, hmove, hrun⟩ := bind_ok.1 hrun
    obtain ⟨_, t₂, hmod, hrun⟩ := bind_ok.1 hrun
    cases hmod
    cases hrun
    refine ⟨s, rfl, fun read hread => ?_⟩
    obtain ⟨hbuf, hptr⟩ := (hread ▸ h : At t pre (read ++ s.bufptr)).moveTo hmove
    exact ⟨hbuf, hptr⟩

end

-- ---------------------------------------------------------------------------
-- Pseudo instructions
-- ---------------------------------------------------------------------------

section
variable {tables : InsnTables} {constInsn : Text → T Unit} {t t' : TGen} {pre text x : Text}
  {w : WrittenOpnd} {op : Operand} {s : Scan}

theorem PseudoStep.at (h : At t pre text) (hstep : PseudoStep t w t') :
    At t' pre (putOpnd text w.text?) ∧ (w.text? = none ↔ IsLiteral (firstOpnd text)) := by
  have hpre : opndPre t = pre ++ text.takeWhile nasmIsspace := by rw [opndPre, h.drop, h.take]
  have hopnd : opndText t = firstOpnd text := by rw [opndText, opndRest, h.drop, firstOpnd]
  have htail : opndTail t = behindOpnd text := by rw [opndTail, opndRest, h.drop, behindOpnd]
  refine ⟨⟨?_, hstep.bufptr.trans h.bufptr⟩, ?_⟩
  · rw [hstep.tokenBuf, hpre, hopnd, htail]
    cases w.text? with
    | none => rw [Option.getD_none, List.append_assoc, ← opnd_append, putOpnd]
    | some x => rw [Option.getD_some, List.append_assoc, putOpnd]
  · rw [WrittenOpnd.text?, Option.map_eq_none_iff, hstep.literal, hopnd]

/-- The string that was written for an operand, as tokens. -/
theorem madeText_written (hw : w.text? = some x) (text : Text) :
    MadeText tables.toRegTables (behindOpnd text) (x ++ behindOpnd text) := by
  obtain ⟨o, -, rfl⟩ := Option.map_eq_some_iff.1 hw
  rw [String.toList_append, List.append_assoc]
  exact madeText w.size o _ (behindOpnd_ends text)

theorem scan_putOpnd : scan tables.toRegTables (putOpnd text (some x)) =
    scan tables.toRegTables (x ++ behindOpnd text) :=
  scan_blanks fun _ hc => List.mem_takeWhile_imp hc

/-- An operand that was written is read, and the token behind it. -/
theorem parseOpnd_written (hw : w.text? = some x)
    (h : parseOpnd tables.toRegTables (scan tables.toRegTables (putOpnd text (some x))) =
      some (op, s)) : s = scan tables.toRegTables (behindOpnd text) := by
  rw [scan_putOpnd] at h
  exact (madeText_written hw text).reads (behindOpnd_ends text) (readsOpnd_of_parseOpnd h)

theorem operandCount_ends {turns : Nat} (hliteral : IsLiteral (firstOpnd text))
    (heos : (scan tables.toRegTables text).tt = .eos) :
    operandCount tables.toRegTables (turns + 1) text = 0 := by
  rw [operandCount, if_pos hliteral, if_pos heos]

/-- One operand is counted for the one that is read. -/
theorem operandCount_cons {turns : Nat} (hliteral : w.text? = none ↔ IsLiteral (firstOpnd text))
    (heos : (scan tables.toRegTables (putOpnd text w.text?)).tt ≠ .eos)
    (hparse : parseOpnd tables.toRegTables (scan tables.toRegTables (putOpnd text w.text?)) =
      some (op, s)) :
    operandCount tables.toRegTables (turns + 1) text =
      operandCount tables.toRegTables turns s.bufptr + 1 := by
  rw [operandCount]
  cases hw : w.text? with
  | none =>
    rw [hw, putOpnd] at heos hparse
    rw [if_pos (hliteral.1 hw), if_neg heos, hparse, Option.elim_some]
  | some x =>
    have hmade : ¬IsLiteral (firstOpnd text) := fun h => by
      rw [hliteral.2 h] at hw
      cases hw
    rw [hw] at hparse
    rw [if_neg hmade, parseOpnd_written hw hparse]

/-- What the operand loop makes of a pseudo instruction from a place on. -/
structure Replayed (tables : InsnTables) (pre text : Text) (ws : List (Option Text))
    (ops : List Operand) (t' : TGen) : Prop where
  text : ∃ text', t'.tokenBuf = pre ++ text' ∧ Substituted text text' ws ∧
    replay tables.toRegTables ws text = some (ops, text')

/-- One more operand. -/
theorem Replayed.cons {read : Text} {ws : List (Option Text)} {ops : List Operand}
    (hliteral : w.text? = none ↔ IsLiteral (firstOpnd text))
    (hparse : parseOpnd tables.toRegTables (scan tables.toRegTables (putOpnd text w.text?)) =
      some (op, s))
    (hread : putOpnd text w.text? = read ++ s.bufptr)
    (h : Replayed tables (pre ++ read) s.bufptr ws ops t') :
    Replayed tables pre text (w.text? :: ws) (op :: ops) t' := by
  obtain ⟨text', hbuf, hsubst, hreplay⟩ := h
  refine ⟨read ++ text', by rw [hbuf, List.append_assoc], ?_, ?_⟩
  · cases hw : w.text? with
    | none =>
      rw [hw, putOpnd] at hread
      rw [hread]
      exact .literal (hread ▸ hliteral.1 hw) hsubst
    | some x =>
      rw [hw] at hparse hread
      obtain rfl := parseOpnd_written hw hparse
      obtain ⟨sep, hsep, hcomma⟩ := @scan_behind tables.toRegTables _ (behindOpnd_ends text)
      have htext := opnd_append text
      rw [hsep] at htext
      have hread : read = text.takeWhile nasmIsspace ++ (x ++ sep) := by
        refine (List.append_left_inj (scan tables.toRegTables (behindOpnd text)).bufptr).1 ?_
        rw [← hread, putOpnd]
        conv_lhs => rw [hsep]
        simp
      have hliteral : ¬IsLiteral (firstOpnd text) := fun h => by
        rw [hliteral.2 h] at hw
        cases hw
      have hmade : Substituted (text.takeWhile nasmIsspace ++ (firstOpnd text ++
          (sep ++ (scan tables.toRegTables (behindOpnd text)).bufptr)))
          (text.takeWhile nasmIsspace ++ (x ++ (sep ++ text'))) (some x :: ws) :=
        .made (fun _ hc => List.mem_takeWhile_imp hc) (congrArg firstOpnd htext.symm) hliteral
          hcomma hsubst
      rw [← htext] at hmade
      rw [hread]
      simpa using hmade
  · rw [replay, hparse, Option.bind_eq_bind, Option.bind_some]
    dsimp only
    rw [hreplay, hread, List.length_append, Nat.add_sub_cancel, List.take_left]
    rfl

theorem operandLoop_pseudo (hc : ∀ text, Yields SameBuf (constInsn text)) {room inits inits' : Nat}
    {oprs oprs' : List Operand} {written written' : List WrittenOpnd} (h : At t pre text)
    (hrun : (operandLoop tables.toRegTables constInsn none room inits oprs written).run t =
      (.ok (some (inits', oprs', written')), t')) :
    inits' = inits + operandCount tables.toRegTables room text + 1 ∧
      ∃ ops ws, oprs' = oprs ++ ops ∧ written' = written ++ ws ∧
        Replayed tables pre text (ws.map (·.text?)) ops t' := by
  induction room generalizing t pre text inits oprs written with
  | zero => cases hrun
  | succ room ih =>
    obtain ⟨_, t₁, hmod, hrun⟩ := bind_ok.1 hrun
    have hat₁ : At t₁ pre text := by
      cases hmod
      exact ⟨h.tokenBuf, h.bufptr⟩
    obtain ⟨w, t₂, hgen, hrun⟩ := bind_ok.1 hrun
    cases w with
    | none => cases hrun
    | some w =>
      obtain ⟨hat₂, hliteral⟩ := (genOperandPseudoCode_ok hc hgen).at hat₁
      obtain ⟨tok, t₃, htok, hrun⟩ := bind_ok.1 hrun
      obtain ⟨read, hread, hscan, hat₃⟩ := getToken_ok hat₂ htok
      by_cases heos : tok = .eos
      · rw [if_pos heos] at hrun
        cases hrun
        cases hw : w.text? with
        | none =>
          rw [hw, putOpnd] at hread hscan hat₃
          rw [operandCount_ends (hliteral.1 hw) (hscan.trans heos)]
          refine ⟨rfl, [], [], (List.append_nil _).symm, (List.append_nil _).symm, text, ?_, .ends ?_,
            rfl⟩
          · rw [hat₃.tokenBuf, List.append_assoc, ← hread]
          · exact atEnd_of_eos (hscan.trans heos)
        | some x =>
          rw [hw, scan_putOpnd] at hscan
          exact absurd (hscan.trans heos) (madeText_written hw text).ne_eos
      · rw [if_neg heos] at hrun
        obtain ⟨op, t₄, hopnd, hrun⟩ := bind_ok.1 hrun
        obtain ⟨s, hparse, hat₄⟩ := getOpnd_ok hat₃ hopnd
        rw [← hscan] at hparse
        obtain ⟨read', hread'⟩ := parseOpnd_suffix hparse
        obtain ⟨rfl, ops, ws, rfl, rfl, hreplay⟩ := ih (hat₄ read' hread'.symm) hrun
        rw [operandCount_cons hliteral (hscan ▸ heos) hparse]
        refine ⟨by omega, op :: ops, w :: ws, by simp, by simp, ?_⟩
        rw [List.append_assoc] at hreplay
        refine hreplay.cons hliteral hparse ?_
        rw [List.append_assoc, hread', ← hread]

end

-- ---------------------------------------------------------------------------
-- Seeds
-- ---------------------------------------------------------------------------

def stringOpnd (tables : RegTables) (x : Text) : Option Operand :=
  (parseOpnd tables (scan tables x)).map (·.1)

/-- The strings of a seed behind their separators. -/
def seedText : Nat → List Text → Text
  | _, [] => []
  | opi, x :: xs => separator opi :: (x ++ seedText (opi + 1) xs)

theorem seedText_succ (opi : Nat) (xs : List Text) :
    seedText (opi + 1) xs = (xs.map (',' :: ·)).flatten := by
  induction xs generalizing opi with
  | nil => rfl
  | cons x xs ih => simp [seedText, ih, separator]

theorem intercalate_comma (x : Text) (xs : List Text) :
    [','].intercalate (x :: xs) = x ++ (xs.map (',' :: ·)).flatten := by
  induction xs generalizing x with
  | nil => simp
  | cons y ys ih => rw [List.intercalate_cons_cons, ih]; simp

section
variable {tables : InsnTables} {constInsn : Text → T Unit} {t t' : TGen} {pre text x : Text}
  {s : InsnSeed} {w : WrittenOpnd}

theorem SeedStep.at (h : At t pre text) (htext : text = [] ∨ text = [' '])
    (hstep : SeedStep s t w t') :
    ∃ x, w.text? = some x ∧ At t' (pre ++ [separator t.opi]) x := by
  obtain ⟨o, ho⟩ := Option.ne_none_iff_exists'.1 hstep.opnd
  obtain ⟨x, hx⟩ : ∃ x, w.text? = some x := ⟨_, by rw [WrittenOpnd.text?, ho, Option.map_some]⟩
  have hdrop : t.tokenBuf.drop (t.bufptr + 1) = [] := by
    rw [← List.drop_drop, h.drop]
    rcases htext with rfl | rfl <;> rfl
  refine ⟨x, hx, ?_, ?_⟩
  · rw [hstep.tokenBuf, hx, h.take, hdrop]
    simp
  · rw [hstep.bufptr, h.bufptr, List.length_append, List.length_singleton]

theorem madeText_string (hw : w.text? = some x) : MadeText tables.toRegTables [] x := by
  obtain ⟨o, -, rfl⟩ := Option.map_eq_some_iff.1 hw
  have h := @madeText tables [] w.size o w.seed.opndflags nofun
  rwa [List.append_nil, sizeText, ← String.toList_append] at h

/-- The operands of a seed from one on. -/
theorem takeWhile_drop (opd : List OpFlags) (k : Nat) : (opd.drop k).takeWhile (· ≠ 0) =
    if opd.getD k 0 = 0 then [] else opd.getD k 0 :: (opd.drop (k + 1)).takeWhile (· ≠ 0) := by
  by_cases hk : k < opd.length
  · have hget : opd.getD k 0 = opd[k] := by simp [hk]
    rw [hget, List.drop_eq_getElem_cons hk, List.takeWhile_cons]
    split_ifs <;> simp_all
  · have hk := Nat.le_of_not_lt hk
    have hget : opd.getD k 0 = 0 := by simp [hk]
    rw [hget, if_pos rfl, List.drop_of_length_le hk, List.takeWhile_nil]

theorem operandLoop_seed (hc : ∀ text, Yields SameBuf (constInsn text)) {room inits inits' : Nat}
    {oprs oprs' : List Operand} {written written' : List WrittenOpnd} (h : At t pre text)
    (htext : text = [] ∨ text = [' '])
    (hrun : (operandLoop tables.toRegTables constInsn (some s) room inits oprs written).run t =
      (.ok (some (inits', oprs', written')), t')) :
    inits' = inits + ((s.opd.drop oprs.length).takeWhile (· ≠ 0)).length + 1 ∧
      ∃ ops ws xs, oprs' = oprs ++ ops ∧ written' = written ++ ws ∧
        ws.map (·.text?) = xs.map some ∧ xs.mapM (stringOpnd tables.toRegTables) = some ops ∧
        t'.tokenBuf = pre ++ if xs = [] then text else seedText oprs.length xs := by
  induction room generalizing t pre text inits oprs written with
  | zero => cases hrun
  | succ room ih =>
    obtain ⟨_, t₁, hmod, hrun⟩ := bind_ok.1 hrun
    obtain ⟨hopi, hat₁⟩ : t₁.opi = oprs.length ∧ At t₁ pre text := by
      cases hmod
      exact ⟨rfl, h.tokenBuf, h.bufptr⟩
    obtain ⟨w, t₂, hgen, hrun⟩ := bind_ok.1 hrun
    cases w with
    | none => cases hrun
    | some w =>
      obtain ⟨tok, t₃, htok, hrun⟩ := bind_ok.1 hrun
      have hptr : t₁.bufptr ≤ t₁.tokenBuf.length := by
        rw [hat₁.bufptr, hat₁.tokenBuf, List.length_append]
        exact Nat.le_add_right _ _
      rcases genOperandInsnSeed_ok hc hptr hgen with ⟨hend, -, ht₂⟩ | ⟨hopnd, hstep⟩
      · rw [hopi] at hend
        obtain ⟨read, hread, hscan, hat₃⟩ := getToken_ok (ht₂ ▸ hat₁) htok
        have heos : tok = .eos := by
          rw [← hscan]
          rcases htext with rfl | rfl <;> rfl
        rw [if_pos heos] at hrun
        cases hrun
        rw [takeWhile_drop, if_pos hend]
        refine ⟨rfl, [], [], [], by simp, by simp, rfl, rfl, ?_⟩
        rw [hat₃.tokenBuf, if_pos rfl, List.append_assoc, ← hread]
      · obtain ⟨x, hx, hat₂⟩ := hstep.at hat₁ htext
        rw [hopi] at hat₂ hopnd
        have hmade : MadeText tables.toRegTables [] x := madeText_string hx
        obtain ⟨read, hread, hscan, hat₃⟩ := getToken_ok hat₂ htok
        have heos : tok ≠ .eos := hscan ▸ hmade.ne_eos
        rw [if_neg heos] at hrun
        obtain ⟨op, t₄, hget, hrun⟩ := bind_ok.1 hrun
        obtain ⟨u, hparse, hat₄⟩ := getOpnd_ok hat₃ hget
        rw [← hscan] at hparse
        obtain rfl := hmade.reads (by simp) (readsOpnd_of_parseOpnd hparse)
        have hnil : (scan tables.toRegTables []).bufptr = [] := rfl
        have hat₄ : At t₄ (pre ++ separator oprs.length :: x) [] := by
          rw [hread]
          simpa [hnil] using hat₄ _ (List.append_nil _).symm
        obtain ⟨rfl, ops, ws, xs, rfl, rfl, hws, hops, hbuf⟩ := ih hat₄ (.inl rfl) hrun
        rw [takeWhile_drop _ oprs.length, if_neg hopnd, List.length_append, List.length_singleton, List.length_cons]
        refine ⟨by omega, op :: ops, w :: ws, x :: xs, by simp, by simp, by simp [hx, hws], ?_, ?_⟩
        · rw [List.mapM_cons, stringOpnd, hparse, hops]
          rfl
        · rw [hbuf, if_neg (List.cons_ne_nil x xs), seedText, List.append_assoc, List.length_append,
            List.length_singleton]
          cases xs <;> simp [seedText]

end

-- ---------------------------------------------------------------------------
-- The opcode
-- ---------------------------------------------------------------------------

/-- The opcode that a text begins with, and its prefix. -/
def readOpcode (tables : RegTables) (text : Text) : Option ((Option Nat × Opcode) × Text) :=
  let s := scan tables text
  match s.tt with
  | .keyword (.slot n) =>
    let s := scan tables s.bufptr
    match s.tt with
    | .keyword (.insn op) => some ((some n, op), s.bufptr)
    | _ => none
  | .keyword (.insn op) => some ((none, op), s.bufptr)
  | _ => none

section
variable {tables : RegTables} {constInsn : Text → T Unit} {src : Option InsnSeed} {t t' : TGen}
  {pre text : Text} {slot : Option Nat} {op : Opcode} {insn : InsnText}

theorem getOpcode_ok (h : At t pre text)
    (hrun : (getOpcode tables).run t = (.ok (slot, op), t')) :
    ∃ opc rest, text = opc ++ rest ∧ readOpcode tables text = some ((slot, op), rest) ∧
      At t' (pre ++ opc) rest := by
  obtain ⟨tok, t₁, htok, hrun⟩ := bind_ok.1 hrun
  obtain ⟨read, hread, hscan, hat⟩ := getToken_ok h htok
  split at hrun
  · obtain ⟨tok', t₂, htok', hrun⟩ := bind_ok.1 hrun
    obtain ⟨read', hread', hscan', hat'⟩ := getToken_ok hat htok'
    split at hrun
    · cases hrun
      refine ⟨read ++ read', (scan tables (scan tables text).bufptr).bufptr, ?_,
        by simp only [readOpcode, hscan, hscan'], ?_⟩
      · rw [List.append_assoc, ← hread', ← hread]
      · rwa [← List.append_assoc]
    · cases hrun
  · cases hrun
    exact ⟨read, _, hread, by simp only [readOpcode, hscan], hat⟩
  · cases hrun

/-- The operands of an instruction, in its seed or in the text behind the read pointer. -/
def sourceOperands (tables : RegTables) (t : TGen) : Option InsnSeed → Nat
  | some s => (s.opd.takeWhile (· ≠ 0)).length
  | none => (readOpcode tables (t.tokenBuf.drop t.bufptr)).elim 0 fun r =>
      operandCount tables (maxOperands + 1) r.2

/-- The steps before the operand loop. -/
theorem insnText_ok (hrun : (insnText tables constInsn src).run t = (.ok (some insn), t')) :
    ∃ t₁ t₂ t₃ t₄, SameBuf t t₁ ∧ (genOpcode src).run t₁ = (.ok (), t₂) ∧
      (getOpcode tables).run t₂ = (.ok (insn.slot, insn.opcode), t₃) ∧ SameBuf t₃ t₄ ∧
      (operandLoop tables constInsn src (maxOperands + 1) 0 [] []).run t₄ =
        (.ok (some (insn.inits, insn.oprs, insn.written)), t') := by
  obtain ⟨_, t₁, hlabel, hrun⟩ := bind_ok.1 hrun
  obtain ⟨_, t₂, hopcode, hrun⟩ := bind_ok.1 hrun
  obtain ⟨⟨slot, op⟩, t₃, hget, hrun⟩ := bind_ok.1 hrun
  obtain ⟨_, t₄, hmod, hrun⟩ := bind_ok.1 hrun
  obtain ⟨⟨label, _⟩, t₅, hctrl, hrun⟩ := bind_ok.1 hrun
  have hsame : SameBuf t₃ t₄ := by
    cases hmod
    exact ⟨rfl, rfl⟩
  have hsame' := hsame.trans (yields_onGen _ _ _ _ hctrl)
  dsimp only at hrun
  split_ifs at hrun
  · cases hrun
  · obtain ⟨r, t₆, hloop, hrun⟩ := bind_ok.1 hrun
    cases r with
    | none => cases hrun
    | some r =>
      cases hrun
      exact ⟨t₁, t₂, t₃, t₅, yields_onGen _ _ _ _ hlabel, hopcode, hget, hsame', hloop⟩

end

-- ---------------------------------------------------------------------------
-- Instructions
-- ---------------------------------------------------------------------------

/-- The strings that were written for the operands; a literal operand has none. -/
def InsnText.texts (insn : InsnText) : List (Option Text) := insn.written.map (·.text?)

section
variable {tables : InsnTables} {constInsn : Text → T Unit} {t t' : TGen} {insn : InsnText}
  {s : InsnSeed}

theorem mapM_length {α β : Type} {f : α → Option β} {xs : List α} {ys : List β}
    (h : xs.mapM f = some ys) : ys.length = xs.length := by
  induction xs generalizing ys with
  | nil => cases h; rfl
  | cons x xs ih =>
    rw [List.mapM_cons] at h
    obtain ⟨y, _, h⟩ := Option.bind_eq_some_iff.1 h
    obtain ⟨ys', hys, h⟩ := Option.bind_eq_some_iff.1 h
    cases h
    rw [List.length_cons, List.length_cons, ih hys]

theorem replay_length {tables : RegTables} {ws : List (Option Text)} {text rest : Text}
    {ops : List Operand} (h : replay tables ws text = some (ops, rest)) :
    ops.length = ws.length := by
  induction ws generalizing text ops rest with
  | nil => cases h; rfl
  | cons w ws ih =>
    obtain ⟨⟨op, s⟩, _, h⟩ := Option.bind_eq_some_iff.1 h
    obtain ⟨⟨ops', rest'⟩, hops, h⟩ := Option.bind_eq_some_iff.1 h
    cases h
    rw [List.length_cons, List.length_cons, ih hops]

theorem insnText_pseudo (hc : ∀ text, Yields SameBuf (constInsn text))
    (hrun : (insnText tables.toRegTables constInsn none).run t = (.ok (some insn), t'))
    (hptr : t.bufptr ≤ t.tokenBuf.length) :
    insn.inits = sourceOperands tables.toRegTables t none + 1 ∧
    ∃ opc rest, t.tokenBuf.drop t.bufptr = opc ++ rest ∧
      readOpcode tables.toRegTables (opc ++ rest) = some ((insn.slot, insn.opcode), rest) ∧
      Replayed tables (t.tokenBuf.take t.bufptr ++ opc) rest insn.texts insn.oprs t' := by
  obtain ⟨t₁, t₂, t₃, t₄, hsame, hopcode, hget, hsame', hloop⟩ := insnText_ok hrun
  cases hopcode
  have hat : At t (t.tokenBuf.take t.bufptr) (t.tokenBuf.drop t.bufptr) :=
    ⟨(List.take_append_drop ..).symm, (List.length_take_of_le hptr).symm⟩
  obtain ⟨opc, rest, htext, hread, hat₃⟩ := getOpcode_ok (hsame.at hat) hget
  obtain ⟨hinits, ops, ws, hops, hws, hreplay⟩ := operandLoop_pseudo hc (hsame'.at hat₃) hloop
  rw [List.nil_append] at hops hws
  subst hops hws
  refine ⟨?_, opc, rest, htext, htext ▸ hread, hreplay⟩
  rw [hinits, sourceOperands, hread, Option.elim_some, Nat.zero_add]

theorem insnText_seed (hc : ∀ text, Yields SameBuf (constInsn text))
    (hname : readOpcode tables.toRegTables (s.opcode.name.toList ++ [' ']) =
      some ((none, s.opcode), [' ']))
    (hrun : (insnText tables.toRegTables constInsn (some s)).run t = (.ok (some insn), t')) :
    insn.inits = sourceOperands tables.toRegTables t (some s) + 1 ∧
    insn.slot = none ∧ insn.opcode = s.opcode ∧ ∃ xs, insn.texts = xs.map some ∧
      xs.mapM (stringOpnd tables.toRegTables) = some insn.oprs ∧
      t'.tokenBuf = "  ".toList ++ s.opcode.name.toList ++ ' ' :: [','].intercalate xs := by
  obtain ⟨t₁, t₂, t₃, t₄, hsame, hopcode, hget, hsame', hloop⟩ := insnText_ok hrun
  have hat : At t₂ "  ".toList (s.opcode.name.toList ++ [' ']) := by
    obtain ⟨_, u, hclear, hrplc⟩ := bind_ok.1 hopcode
    obtain ⟨_, u', hset, hptr⟩ := bind_ok.1 hclear
    obtain ⟨-, rfl⟩ := setTokenBuf_ok hset
    cases hptr
    have hrplc := @nasmStrrplc_ok _ _ "  ".toList [] _ [] 2 rfl rfl hrplc
    rw [hrplc]
    exact ⟨by simp, rfl⟩
  obtain ⟨opc, rest, htext, hread, hat₃⟩ := getOpcode_ok hat hget
  obtain ⟨⟨hslot, hop⟩, rfl⟩ : (none = insn.slot ∧ s.opcode = insn.opcode) ∧ [' '] = rest := by
    simpa using hname.symm.trans hread
  obtain rfl := (List.append_left_inj [' ']).1 htext
  obtain ⟨hinits, ops, ws, xs, hops, hws, hxs, hparse, hbuf⟩ :=
    operandLoop_seed hc (hsame'.at hat₃) (.inr rfl) hloop
  rw [List.nil_append] at hops hws
  subst hops hws
  refine ⟨by simpa [sourceOperands] using hinits, hslot.symm, hop.symm, xs, hxs, hparse, ?_⟩
  rw [hbuf]
  cases xs with
  | nil => simp
  | cons x xs => simp [seedText, seedText_succ, intercalate_comma, separator]

end

/-- The text of an instruction: the opcode and the strings of its operands, or a pseudo
instruction with these strings in it. -/
def Composed (tables : RegTables) (t : TGen) (insn : InsnText) (t' : TGen) :
    Option InsnSeed → Prop
  | some s => insn.slot = none ∧ insn.opcode = s.opcode ∧ ∃ xs, insn.texts = xs.map some ∧
      t'.tokenBuf = "  ".toList ++ s.opcode.name.toList ++ ' ' :: [','].intercalate xs
  | none => ∃ opc rest rest', t.tokenBuf.drop t.bufptr = opc ++ rest ∧
      readOpcode tables (opc ++ rest) = some ((insn.slot, insn.opcode), rest) ∧
      Substituted rest rest' insn.texts ∧
      t'.tokenBuf = t.tokenBuf.take t.bufptr ++ (opc ++ rest')

/-- The instruction is composed of the strings of its operands, and it is the one that is
generated with the same strings and no initialisation. -/
structure Transparent (tables : RegTables) (t : TGen) (insn : InsnText) (t' : TGen)
    (src : Option InsnSeed) : Prop where
  composed : Composed tables t insn t' src
  operands : insn.oprs.length = insn.texts.length
  same : ∀ {finish' : InsnText → T Unit} {depth' : Nat} {u u' : TGen} {insn' : InsnText},
    u.needInit = false → (src = none → SameBuf t u) →
    (insnText tables (oneInsnGenConst tables finish' depth') src).run u = (.ok (some insn'), u') →
    insn'.texts = insn.texts →
      insn'.slot = insn.slot ∧ insn'.opcode = insn.opcode ∧ insn'.oprs = insn.oprs ∧
        u'.tokenBuf = t'.tokenBuf

section
variable {tables : InsnTables} {finish : InsnText → T Unit} {depth : Nat} {src : Option InsnSeed}
  {t t' : TGen} {insn : InsnText}
  (hname : ∀ s ∈ src, readOpcode tables.toRegTables (s.opcode.name.toList ++ [' ']) =
    some ((none, s.opcode), [' ']))
  (hptr : src = none → t.bufptr ≤ t.tokenBuf.length)
  (h : (insnText tables.toRegTables (oneInsnGenConst tables.toRegTables finish depth) src).run t =
    (.ok (some insn), t'))
include hname hptr h

/-- `init_operand` is called once more than there are operands. -/
theorem insnText_inits : insn.inits = sourceOperands tables.toRegTables t src + 1 := by
  have hc := yields_oneInsnGenConst tables.toRegTables finish depth
  cases src with
  | none => exact (insnText_pseudo hc h (hptr rfl)).1
  | some s => exact (insnText_seed hc (hname s rfl) h).1

/-- However much initialisation is generated between the operands of an instruction, its
text and its operands do not show it. -/
theorem insnText_transparent : Transparent tables.toRegTables t insn t' src := by
  have hc := fun finish depth => yields_oneInsnGenConst tables.toRegTables finish depth
  cases src with
  | none =>
    obtain ⟨-, opc, rest, htext, hread, rest', hbuf, hsubst, hreplay⟩ :=
      insnText_pseudo (hc _ _) h (hptr rfl)
    rw [List.append_assoc] at hbuf
    refine ⟨⟨opc, rest, rest', htext, hread, hsubst, hbuf⟩, replay_length hreplay, ?_⟩
    intro finish' depth' u u' insn' _ hsame h' hws
    obtain ⟨hbuf₀, hptr₀⟩ := hsame rfl
    obtain ⟨-, opc', rest₁, htext', hread', rest₁', hbuf', -, hreplay'⟩ :=
      insnText_pseudo (hc _ _) h' (by rw [hbuf₀, hptr₀]; exact hptr rfl)
    rw [hbuf₀, hptr₀] at htext' hbuf'
    rw [← htext', htext, hread] at hread'
    obtain ⟨⟨hslot, hop⟩, rfl⟩ : (insn.slot = insn'.slot ∧ insn.opcode = insn'.opcode) ∧
      rest = rest₁ := by simpa using hread'
    obtain rfl := (List.append_left_inj rest).1 (htext.symm.trans htext')
    rw [hws, hreplay] at hreplay'
    obtain ⟨hoprs, rfl⟩ : insn.oprs = insn'.oprs ∧ rest' = rest₁' := by simpa using hreplay'
    exact ⟨hslot.symm, hop.symm, hoprs.symm, by rw [hbuf', hbuf, List.append_assoc]⟩
  | some s =>
    obtain ⟨-, hslot, hop, xs, hxs, hparse, hbuf⟩ := insnText_seed (hc _ _) (hname s rfl) h
    refine ⟨⟨hslot, hop, xs, hxs, hbuf⟩, ?_, ?_⟩
    · rw [hxs, List.length_map]
      exact mapM_length hparse
    · intro finish' depth' u u' insn' _ _ h' hws
      obtain ⟨-, hslot', hop', xs', hxs', hparse', hbuf'⟩ :=
        insnText_seed (hc _ _) (hname s rfl) h'
      rw [hws, hxs] at hxs'
      obtain rfl := List.map_injective_iff.2 (Option.some_injective _) hxs'
      rw [hparse] at hparse'
      exact ⟨hslot'.trans hslot.symm, hop'.trans hop.symm, (Option.some.inj hparse').symm,
        hbuf'.trans hbuf.symm⟩

end

/-- The tables of the registers and the size words, with two opcodes. -/
def movTables : InsnTables where
  toRegTables := {
    hash := fun t =>
      if t = "mov".toList then (.insn .mov, false)
      else if t = "vpermil2pd".toList then (.insn (.other "vpermil2pd"), false)
      else match sizeWords.find? (·.1.toList = t) with
        | some p => (.special p.2, false)
        | none => match ((List.finRange 8).map Reg.xmm).find? (·.name.toList = t) with
          | some r => (.reg r, false)
          | none => rd32Tables.hash t
    num := rd32Tables.num
    regEnd := rd32Tables.regEnd
    hash_name := by decide
    num_ne := rd32Tables.num_ne
    num_le := rd32Tables.num_le }
  hash_size := by decide

/-- A generator that always draws 0, before a pseudo instruction. -/
def pseudoStart (needInit : Bool) (asmInst : String) : TGen where
  toGen := { Gen.plain 0 with needInit, tks := fun _ => some ⟨[⟨1, .leaf [⟨.imm32, 5, .none, 0, 0, 0, 0⟩]⟩]⟩ }
  tokenBuf := "  ".toList ++ asmInst.toList
  bufptr := 2
  tokval := .eos

def pseudoInsn : T (Option InsnText) :=
  insnText movTables.toRegTables (oneInsnGenConst movTables.toRegTables (fun _ => pure ()) 1) none

/-- A run that makes an instruction passes a test of it. -/
def makes (m : T (Option InsnText)) (t : TGen) (p : InsnText → TGen → Bool) : Bool :=
  match m.run t with
  | (.ok (some insn), t') => p insn t'
  | _ => false

theorem exists_of_makes {m : T (Option InsnText)} {t : TGen} {p : InsnText → TGen → Bool}
    (h : makes m t p = true) :
    ∃ insn t', m.run t = (.ok (some insn), t') ∧ p insn t' = true := by
  unfold makes at h
  split at h
  · exact ⟨_, _, ‹_›, h⟩
  · cases h

end TokenBuf

end Btrtg
