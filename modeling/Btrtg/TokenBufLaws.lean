import Btrtg.OwnState
import Btrtg.TokenBuf
import Btrtg.MrefLaws

/-!
# Runs over the token buffer

What an operand of `one_insn_gen` writes, and that its initialisation leaves the
buffer and the read pointer alone.
-/

namespace Btrtg

namespace TokenBuf

open Prog OpFlags

structure SameBuf (t t' : TGen) : Prop where
  tokenBuf : t'.tokenBuf = t.tokenBuf
  bufptr : t'.bufptr = t.bufptr

section
variable {t t' t'' : TGen} {α β : Type} {m : T α} {a : α} {text pre old src tail : Text}

theorem SameBuf.refl (t : TGen) : SameBuf t t := ⟨rfl, rfl⟩

theorem SameBuf.trans (h : SameBuf t t') (h' : SameBuf t' t'') : SameBuf t t'' :=
  ⟨h'.tokenBuf.trans h.tokenBuf, h'.bufptr.trans h.bufptr⟩

-- ---------------------------------------------------------------------------
-- Steps
-- ---------------------------------------------------------------------------

theorem onGen_ok {m : M α} : (onGen m).run t = (.ok a, t') ↔
    ∃ g, m.run t.toGen = (.ok a, g) ∧ t' = { t with toGen := g } := by
  change ((m.run t.toGen).1, { t with toGen := (m.run t.toGen).2 }) = _ ↔ _
  rcases m.run t.toGen with ⟨r, g⟩
  constructor
  · intro h
    cases h
    exact ⟨g, rfl, rfl⟩
  · rintro ⟨_, h, rfl⟩
    cases h
    rfl

theorem setTokenBuf_ok (h : (setTokenBuf text).run t = (.ok (), t')) :
    text.length < tokenBufSize ∧ t' = { t with tokenBuf := text } := by
  obtain ⟨_, t₁, hf, hm⟩ := bind_ok.1 h
  unfold fits at hf
  split at hf
  · cases hf
    cases hm
    exact ⟨‹_›, rfl⟩
  · cases hf

theorem nasmStrrplc_ok {dest : Nat} (ht : t.tokenBuf = pre ++ (old ++ tail))
    (hdest : pre.length = dest) (h : (nasmStrrplc dest old.length src).run t = (.ok (), t')) :
    t' = { t with tokenBuf := pre ++ (src ++ tail) } := by
  subst hdest
  obtain ⟨_, _, hget, h⟩ := bind_ok.1 h
  cases hget
  rw [(setTokenBuf_ok h).2, ht, ← List.drop_drop, List.drop_left, List.drop_left, List.take_left,
    List.append_assoc]

theorem putChar_ok {c : Char} (h : (putChar c).run t = (.ok (), t')) :
    t' = { t with
      tokenBuf := t.tokenBuf.take t.bufptr ++ c :: t.tokenBuf.drop (t.bufptr + 1)
      bufptr := t.bufptr + 1 } := by
  obtain ⟨_, _, hget, h⟩ := bind_ok.1 h
  cases hget
  obtain ⟨_, t₁, hset, h⟩ := bind_ok.1 h
  obtain ⟨-, rfl⟩ := setTokenBuf_ok hset
  cases h
  rfl

/-- The string of an operand is its text, or that behind a blank. -/
theorem asmOpnd_cases (o : Opnd) (flags : OpFlags) :
    (o.asmOpnd flags).toList = o.text.toList ∨ (o.asmOpnd flags).toList = ' ' :: o.text.toList := by
  unfold Opnd.asmOpnd
  split
  · exact .inr (by simp)
  · exact .inl rfl

def sizeText (size : Option SizeWord) : Text := (size.elim "" SizeWord.text).toList

@[simp] theorem isSome_size {wants : Bool} {size : SizeWord} :
    (if wants then some size else none).isSome = wants := by
  cases wants <;> rfl

theorem writeSize_ok {wants : Bool} {flags : OpFlags} {size : Option SizeWord} {dest : Nat}
    (ht : t.tokenBuf = pre ++ tail) (hdest : pre.length = dest)
    (h : (writeSize dest wants flags).run t = (.ok size, t')) :
    size = (if wants then some (preappendMemSize (flags &&& sizeMask)) else none) ∧
      t' = { t with tokenBuf := pre ++ (sizeText size ++ tail) } := by
  unfold writeSize at h
  split at h
  · obtain ⟨_, t₁, hrplc, hpure⟩ := bind_ok.1 h
    cases hpure
    have ht : t.tokenBuf = pre ++ ([] ++ tail) := ht
    exact ⟨by simp [*], nasmStrrplc_ok ht hdest hrplc⟩
  · cases h
    refine ⟨by simp [*], ?_⟩
    rw [sizeText, Option.elim_none, String.toList_empty, List.nil_append, ← ht]

theorem writePseudo_ok {opi : Nat} {o : Opnd} {flags : OpFlags} {size : Option SizeWord}
    (ht : t.tokenBuf = pre ++ (old ++ tail))
    (h : (writePseudo opi pre.length old.length o flags).run t = (.ok size, t')) :
    size = (if wantsSize t.opcode opi flags
        (asmIsBlank (nasmSkipAComma ((o.asmOpnd flags).toList ++ tail)) ||
          asmIsImmediate (nasmSkipAComma ((o.asmOpnd flags).toList ++ tail))) then
        some (preappendMemSize (flags &&& sizeMask)) else none) ∧
      t' = { t with
        tokenBuf := pre ++ (sizeText size ++ ((o.asmOpnd flags).toList ++ tail)) } := by
  obtain ⟨_, t₁, hrplc, h⟩ := bind_ok.1 h
  obtain rfl := nasmStrrplc_ok ht rfl hrplc
  obtain ⟨_, _, hget, h⟩ := bind_ok.1 h
  cases hget
  obtain ⟨hsize, rfl⟩ := writeSize_ok rfl rfl h
  rw [List.drop_left] at hsize
  exact ⟨hsize, rfl⟩

-- ---------------------------------------------------------------------------
-- What leaves the buffer alone
-- ---------------------------------------------------------------------------

theorem yields_bind {f : α → T β} (hm : Yields SameBuf m) (hf : ∀ a, Yields SameBuf (f a)) :
    Yields SameBuf (m >>= f) := hm.bind (fun _ _ _ => SameBuf.trans) hf

theorem yields_pure (a : α) : Yields SameBuf (pure a : T α) := fun _ _ _ h => by
  cases h
  exact .refl _

theorem yields_get : Yields SameBuf (get : T TGen) := fun _ _ _ h => by
  cases h
  exact .refl _

theorem yields_onGen (m : M α) : Yields SameBuf (onGen m) := fun _ _ _ h => by
  obtain ⟨g, _, rfl⟩ := onGen_ok.1 h
  exact ⟨rfl, rfl⟩

theorem yields_modify {f : TGen → TGen} (hf : ∀ t, SameBuf t (f t)) :
    Yields SameBuf (modify f : T PUnit) := fun t _ _ h => by
  cases h
  exact hf t

section
variable {constInsn : Text → T Unit} (hc : ∀ text, Yields SameBuf (constInsn text))
include hc

theorem yields_initOpndCases (asmOpnd : Text) (flags : OpFlags)
    (varAddr : Option (Option (List Line))) (o : Option Opnd) :
    Yields SameBuf (initOpndCases constInsn asmOpnd flags varAddr o) := by
  unfold initOpndCases
  split
  · split_ifs
    · exact yields_onGen _
    · exact yields_onGen _
    · exact yields_onGen _
    · exact yields_bind (yields_onGen _) fun val => hc _
    · exact yields_pure _
  · exact yields_onGen _
  · exact yields_pure _

theorem yields_initOpnd (asmOpnd : Text) (o : Option Opnd) (flags : OpFlags)
    (varAddr : Option (Option (List Line))) :
    Yields SameBuf (initOpnd constInsn asmOpnd o flags varAddr) := by
  refine yields_bind yields_get fun t => ?_
  split
  · exact yields_bind (yields_modify fun _ => ⟨rfl, rfl⟩) fun _ =>
      yields_bind (yields_modify fun _ => ⟨rfl, rfl⟩) fun _ =>
      yields_bind (yields_initOpndCases hc _ _ _ _) fun _ =>
      yields_bind (yields_modify fun _ => ⟨rfl, rfl⟩) fun _ => yields_modify fun _ => ⟨rfl, rfl⟩
  · exact yields_pure _

end

end

-- ---------------------------------------------------------------------------
-- What leaves the opcode alone
-- ---------------------------------------------------------------------------

section
variable {g g' : Gen} {α : Type} {a : α} {m : M α}

theorem opcode_of_prim (huses : Uses (Prim (fun e => e.isOperand) fun _ _ => False) NoOverflow m)
    (h : m.run g = (.ok a, g')) (hop : g.opcode ≠ .none) : g'.opcode = g.opcode := by
  have hheld : Held g.nested g.opcode g.trvNodes g.own g := ⟨rfl, fun _ => rfl, rfl, rfl⟩
  have hdeep : Upholds (Held g.nested g.opcode g.trvNodes g.own) (Deep 0) m :=
    deep_prim (fun e _ => ?_) (fun _ h => h.elim) huses
  · exact ((hdeep g hheld).run_ok h).1.opcode hop
  · cases e <;> trivial

theorem genOperandInternal_opcode {flags : OpFlags} {a : Option Opnd × OpFlags}
    (h : (genOperandInternal flags).run g = (.ok a, g')) (hop : g.opcode ≠ .none) :
    g'.opcode = g.opcode :=
  opcode_of_prim (prim_genOperandInternal (fun _ h => h) flags) h hop

theorem prim_varOpnd (blk : BlkId) (i : Nat) (v : BlkVar) (flags : OpFlags) :
    Uses (Prim (fun e => e.isOperand) fun _ _ => False) NoOverflow (varOpnd blk i v flags) := by
  unfold varOpnd
  split
  · refine .bind (prim_genOperandInternal (fun _ h => h) flags) fun ⟨o, flags⟩ => ?_
    cases o with
    | none => exact .pure _
    | some o => exact .bind .get fun g => .bind (prim_setVar _ _ fun _ => rfl) fun _ => .pure _
  · split
    · exact .throw nofun
    · refine .bind .get fun g => .bind (prim_record rfl) fun _ => ?_
      exact .bind (prim_modify fun g => by grind [Still, Quiet]) fun _ => .pure _

end

-- ---------------------------------------------------------------------------
-- An operand of a pseudo instruction
-- ---------------------------------------------------------------------------

section
variable (t : TGen)

def opndRest : Text := nasmSkipSpaces (t.tokenBuf.drop t.bufptr)

def opndPre : Text :=
  t.tokenBuf.take t.bufptr ++ (t.tokenBuf.drop t.bufptr).takeWhile nasmIsspace

def opndText : Text := copyAsmOpnd (opndRest t)

def opndTail : Text := (opndRest t).dropWhile (!endsOpnd ·)

/-- The operand names neither a variable nor a type. -/
def IsLiteral (asmOpnd : Text) : Prop :=
  asmOpnd.head? ≠ some '@' ∧ parseAsmOpndTypeOpflags asmOpnd = 0

instance : DecidablePred IsLiteral := fun _ => inferInstanceAs (Decidable (_ ∧ _))

theorem opndRest_eq : opndRest t = opndText t ++ opndTail t := (List.takeWhile_append_dropWhile).symm

theorem tokenBuf_eq : t.tokenBuf = opndPre t ++ (opndText t ++ opndTail t) := by
  rw [← opndRest_eq, opndPre, opndRest, List.append_assoc, nasmSkipSpaces,
    List.takeWhile_append_dropWhile, List.take_append_drop]

theorem opndPre_length : t.tokenBuf.length - (opndRest t).length = (opndPre t).length := by
  conv_lhs => rw [tokenBuf_eq t]
  rw [← opndRest_eq, List.length_append, Nat.add_sub_cancel]

end

/-- What `gen_operand` does to the text of a pseudo instruction. -/
structure PseudoStep (t : TGen) (w : WrittenOpnd) (t' : TGen) : Prop where
  bufptr : t'.bufptr = t.bufptr
  tokenBuf : t'.tokenBuf = opndPre t ++ (w.text?.getD (opndText t) ++ opndTail t)
  literal : w.opnd = none ↔ IsLiteral (opndText t)
  size : t.opcode ≠ .none → ∀ o, w.opnd = some o →
    w.size.isSome = wantsSize t.opcode t.opi w.seed.opndflags
      (asmIsBlank (nasmSkipAComma ((o.asmOpnd w.seed.opndflags).toList ++ opndTail t)) ||
        asmIsImmediate (nasmSkipAComma ((o.asmOpnd w.seed.opndflags).toList ++ opndTail t)))

section
variable {t t' : TGen} {g : Gen} {tables : RegTables} {constInsn : Text → T Unit} {w : WrittenOpnd}
  {o : Opnd} {size : Option SizeWord} {seed : OperandSeed}
  (hc : ∀ text, Yields SameBuf (constInsn text))

/-- An operand is put in the place of its name. -/
theorem PseudoStep.of_written {g : Gen} {t₂ : TGen} (hliteral : ¬IsLiteral (opndText t))
    (hop : t.opcode ≠ .none → g.opcode = t.opcode)
    (hwrite : (writePseudo t.opi (t.tokenBuf.length - (opndRest t).length) (opndText t).length o
      seed.opndflags).run { t with toGen := g } = (.ok size, t₂))
    (hsame : SameBuf t₂ t') : PseudoStep t ⟨seed, size, some o⟩ t' := by
  rw [opndPre_length] at hwrite
  have hbuf : ({ t with toGen := g } : TGen).tokenBuf =
      opndPre t ++ (opndText t ++ opndTail t) := tokenBuf_eq t
  obtain ⟨hsize, rfl⟩ := writePseudo_ok hbuf hwrite
  refine ⟨hsame.bufptr, ?_, ⟨fun h => (nomatch h), fun h => absurd h hliteral⟩, ?_⟩
  · rw [hsame.tokenBuf]
    simp [WrittenOpnd.text?, sizeText]
  · rintro hne _ ⟨⟩
    rw [hsize, isSome_size, hop hne]

theorem createOpndSeed_var {asmOpnd : Text} {place : Option (BlkId × Nat × BlkVar)}
    (hvar : asmOpnd.head? = some '@')
    (h : (createOpndSeed tables asmOpnd).run t = (.ok (seed, place), t')) :
    ∃ r g, place = some r ∧ t' = { t with toGen := g } ∧ g.opcode = t.opcode := by
  unfold createOpndSeed at h
  rw [if_pos hvar] at h
  obtain ⟨g, hg, rfl⟩ := onGen_ok.1 h
  obtain ⟨found, g₁, hfound, hg⟩ := bind_ok.1 hg
  cases hfound
  split at hg
  · cases hg
  · cases hg
    exact ⟨_, _, rfl, rfl, rfl⟩

theorem createOpndSeed_type {asmOpnd : Text} (hvar : asmOpnd.head? ≠ some '@') :
    createOpndSeed tables asmOpnd = pure (
      if parseAsmOpndTypeOpflags asmOpnd = 0 then
        ({ opndflags := parseAsmOpndOpflags tables asmOpnd }, none)
      else ({ isOpndType := true, opndflags := parseAsmOpndTypeOpflags asmOpnd }, none)) := by
  unfold createOpndSeed
  rw [if_neg hvar]
  dsimp only
  split_ifs <;> first | rfl | contradiction

include hc

theorem genOperandPseudoCode_ok
    (h : (genOperandPseudoCode tables constInsn).run t = (.ok (some w), t')) :
    PseudoStep t w t' := by
  obtain ⟨_, _, hget, h⟩ := bind_ok.1 h
  cases hget
  obtain ⟨⟨seed, place⟩, t₁, hseed, h⟩ := bind_ok.1 h
  change (createOpndSeed tables (opndText t)).run t = _ at hseed
  by_cases hvar : (opndText t).head? = some '@'
  · have hliteral : ¬IsLiteral (opndText t) := fun h => h.1 hvar
    obtain ⟨⟨blk, i, v⟩, g₁, rfl, rfl, hop₁⟩ := createOpndSeed_var hvar hseed
    obtain ⟨made, t₂, hrun, h⟩ := bind_ok.1 h
    obtain ⟨g₂, hmade, rfl⟩ := onGen_ok.1 hrun
    have hop₂ := fun hop : t.opcode ≠ .none =>
      (opcode_of_prim (prim_varOpnd blk i v seed.opndflags) hmade (hop₁ ▸ hop)).trans hop₁
    cases made with
    | none => cases h
    | some made =>
      obtain ⟨o, flags, hasLabel⟩ := made
      obtain ⟨size, t₃, hwrite, h⟩ := bind_ok.1 h
      obtain ⟨varAddr, t₄, haddr, h⟩ := bind_ok.1 h
      cases haddr
      obtain ⟨_, t₅, hinit, h⟩ := bind_ok.1 h
      cases h
      exact .of_written hliteral hop₂ hwrite (yields_initOpnd hc _ _ _ _ _ _ _ hinit)
  · rw [createOpndSeed_type hvar] at hseed
    by_cases htype : parseAsmOpndTypeOpflags (opndText t) = 0
    · rw [if_pos htype] at hseed
      cases hseed
      obtain ⟨_, t₁, hinit, h⟩ := bind_ok.1 h
      cases h
      have hsame := yields_initOpnd hc _ _ _ _ _ _ _ hinit
      refine ⟨hsame.bufptr, ?_, ⟨fun _ => ⟨hvar, htype⟩, fun _ => rfl⟩, fun _ => nofun⟩
      rw [hsame.tokenBuf]
      exact tokenBuf_eq t
    · rw [if_neg htype] at hseed
      cases hseed
      obtain ⟨⟨o, flags⟩, t₁, hrun, h⟩ := bind_ok.1 h
      obtain ⟨g₁, hmade, rfl⟩ := onGen_ok.1 hrun
      have hop₁ := fun hop : t.opcode ≠ .none => genOperandInternal_opcode hmade hop
      cases o with
      | none => cases h
      | some o =>
        obtain ⟨size, t₃, hwrite, h⟩ := bind_ok.1 h
        obtain ⟨_, t₅, hinit, h⟩ := bind_ok.1 h
        cases h
        exact .of_written (fun h => htype h.2) hop₁ hwrite (yields_initOpnd hc _ _ _ _ _ _ _ hinit)

end

-- ---------------------------------------------------------------------------
-- An operand of a seed
-- ---------------------------------------------------------------------------

def separator (opi : Nat) : Char := if opi = 0 then ' ' else ','

/-- What `gen_operand` does to the text of a seed that has an operand. -/
structure SeedStep (s : InsnSeed) (t : TGen) (w : WrittenOpnd) (t' : TGen) : Prop where
  bufptr : t'.bufptr = t.bufptr + 1
  opnd : w.opnd ≠ none
  tokenBuf : t'.tokenBuf = t.tokenBuf.take t.bufptr ++
    separator t.opi :: (w.text?.getD [] ++ t.tokenBuf.drop (t.bufptr + 1))
  size : t.opcode ≠ .none → w.size.isSome = wantsSize t.opcode t.opi w.seed.opndflags
    (s.opd.getD 1 0 = 0 || isClass immediate (s.opd.getD 1 0))

theorem genOperandInsnSeed_ok {t t' : TGen} {constInsn : Text → T Unit} {s : InsnSeed}
    {w : WrittenOpnd} (hc : ∀ text, Yields SameBuf (constInsn text))
    (hptr : t.bufptr ≤ t.tokenBuf.length)
    (h : (genOperandInsnSeed constInsn s).run t = (.ok (some w), t')) :
    (s.opd.getD t.opi 0 = 0 ∧ w = {} ∧ t' = t) ∨
      (s.opd.getD t.opi 0 ≠ 0 ∧ SeedStep s t w t') := by
  obtain ⟨_, _, hget, h⟩ := bind_ok.1 h
  cases hget
  by_cases hend : s.opd.getD t.opi 0 = 0
  · rw [if_pos hend] at h
    cases h
    exact .inl ⟨hend, rfl, rfl⟩
  · rw [if_neg hend] at h
    refine .inr ⟨hend, ?_⟩
    obtain ⟨_, t₁, hput, h⟩ := bind_ok.1 h
    have ht₁ := putChar_ok hput
    have hop₁ : t₁.opcode = t.opcode := by rw [ht₁]
    have hptr₁ : t₁.bufptr = t.bufptr + 1 := by rw [ht₁]
    have hbuf₁ : t₁.tokenBuf = t.tokenBuf.take t.bufptr ++ [separator t.opi] ++
        ([] ++ t.tokenBuf.drop (t.bufptr + 1)) := by rw [ht₁]; simp [separator]
    clear ht₁ hput
    obtain ⟨⟨o, flags⟩, t₂, hrun, h⟩ := bind_ok.1 h
    obtain ⟨g₂, hmade, ht₂⟩ := onGen_ok.1 hrun
    have hop₂ : t.opcode ≠ .none → t₂.opcode = t.opcode := fun hop => by
      rw [ht₂, ← hop₁]
      exact genOperandInternal_opcode hmade (hop₁ ▸ hop)
    have hsame₂ : SameBuf t₁ t₂ := yields_onGen _ _ _ _ hrun
    cases o with
    | none => cases h
    | some o =>
      have hlen : (t.tokenBuf.take t.bufptr ++ [separator t.opi]).length = t.bufptr + 1 := by
        rw [List.length_append, List.length_take_of_le hptr, List.length_singleton]
      obtain ⟨_, t₃, hrplc, h⟩ := bind_ok.1 h
      obtain rfl := nasmStrrplc_ok (hsame₂.tokenBuf.trans hbuf₁) hlen hrplc
      obtain ⟨_, _, hget, h⟩ := bind_ok.1 h
      cases hget
      obtain ⟨size, t₄, hwrite, h⟩ := bind_ok.1 h
      obtain ⟨hsize, rfl⟩ := writeSize_ok rfl hlen hwrite
      obtain ⟨_, t₅, hinit, h⟩ := bind_ok.1 h
      cases h
      have hsame := yields_initOpnd hc _ _ _ _ _ _ _ hinit
      refine ⟨hsame.bufptr.trans (hsame₂.bufptr.trans hptr₁), nofun, ?_, ?_⟩
      · rw [hsame.tokenBuf]
        simp [WrittenOpnd.text?, sizeText]
      · intro hop
        rw [hsize, isSome_size]
        exact congrArg (wantsSize · _ _ _) (hop₂ hop)

end TokenBuf

end Btrtg
