import Btrtg.InsnTextLaws
import Btrtg.SizeLaws
import Btrtg.OneLevel

/-!
# Operands and their texts

What `gen_operand` makes of the text in the token buffer is what it makes of the
operands that this text stands for.
-/

namespace Btrtg

open Prog OpFlags TokenBuf

-- ---------------------------------------------------------------------------
-- Texts
-- ---------------------------------------------------------------------------

/-- How an operand is written. The name of an immediate type has a digit if it has a size. -/
def PseudoOpnd.Written (tables : RegTables) : PseudoOpnd → Text → Prop
  | .var name, asmOpnd => asmOpnd = '@' :: name.toList
  | .type flags, asmOpnd => asmOpnd.head? ≠ some '@' ∧ parseAsmOpndTypeOpflags asmOpnd = flags ∧
      flags ≠ 0 ∧ (isClass immediate flags = true →
        (asmOpnd.any (·.isDigit) = true ↔ flags &&& sizeMask ≠ 0))
  | .reg r, asmOpnd => IsLiteral asmOpnd ∧ asmOpnd = r.name.toList ∧
      (tables.hash asmOpnd).1 = .reg r
  | .imm _, asmOpnd => IsLiteral asmOpnd ∧ asmOpnd.head?.any nasmIsnumstart = true ∧
      ∀ r, (tables.hash asmOpnd).1 ≠ .reg r

def AllWritten (tables : RegTables) : List PseudoOpnd → Text → Prop
  | [], text => nasmSkipSpaces text = [] ∧ ∀ r, (tables.hash []).1 ≠ .reg r
  | [po], text => po.Written tables (firstOpnd text) ∧ behindOpnd text = []
  | po :: po' :: pos, text => po.Written tables (firstOpnd text) ∧
      ∃ rest, behindOpnd text = ',' :: rest ∧ AllWritten tables (po' :: pos) rest

section
variable {tables : RegTables} {po : PseudoOpnd} {pos : List PseudoOpnd} {text asmOpnd : Text}

theorem AllWritten.first (h : AllWritten tables (po :: pos) text) :
    po.Written tables (firstOpnd text) := by
  cases pos with
  | nil => exact h.1
  | cons => exact h.1

/-- An operand that is written out shows whether it is an immediate. -/
theorem PseudoOpnd.Written.shows {tail : Text} (h : po.Written tables asmOpnd)
    (ht : ∀ c ∈ tail.head?, endsOpnd c = true) (hpos : tail = [] ↔ pos = []) :
    ((asmOpnd ++ tail).head?.any nasmIsnumstart ||
      isClass immediate (parseAsmOpndTypeOpflags (asmOpnd ++ tail))) = lastOrImm (po :: pos) := by
  have hnone : isClass immediate 0#64 = false := by decide
  rw [head_any_append ht, parseAsmOpndTypeOpflags_rest ht]
  cases po with
  | var name =>
    cases h
    have hnum : nasmIsnumstart '@' = false := by decide
    have htype : parseAsmOpndTypeOpflags ('@' :: name.toList) = 0 := parseAsmOpndTypeOpflags_var rfl
    simp [htype, hnone, hnum, lastOrImm]
  | type flags =>
    obtain ⟨-, rfl, hne, hsize⟩ := h
    simp only [head_of_type hne, Bool.false_or, hpos, lastOrImm]
    by_cases himm : isClass immediate (parseAsmOpndTypeOpflags asmOpnd) = true
    · simp only [himm, Bool.true_and, hsize himm]
      by_cases hsized : parseAsmOpndTypeOpflags asmOpnd &&& sizeMask = 0
      · cases pos <;> simp [hsized, himm, hnone]
      · rw [if_pos (.inl hsized), himm, decide_eq_true hsized, Bool.true_or]
    · have himm := Bool.eq_false_of_not_eq_true himm
      split_ifs <;> simp [himm, hnone]
  | reg r =>
    obtain ⟨⟨-, htype⟩, rfl, -⟩ := h
    have hword := isWord_reg r
    have hnum : r.name.toList.head?.any nasmIsnumstart = false := by
      cases hname : r.name.toList with
      | nil => rfl
      | cons c cs =>
        rw [hname, isWord, Bool.and_eq_true] at hword
        exact nasmIsnumstart_of_idstart hword.1
    simp [htype, hnum, hnone, lastOrImm]
  | imm v =>
    obtain ⟨⟨-, htype⟩, hnum, -⟩ := h
    rw [hnum]
    rfl

theorem PseudoOpnd.Written.ne_nil (h : po.Written tables asmOpnd) : asmOpnd ≠ [] := by
  rintro rfl
  cases po with
  | var => cases h
  | type => exact h.2.2.1 (h.2.1.symm.trans (by decide))
  | reg r =>
    have hword := isWord_reg r
    rw [← h.2.1] at hword
    cases hword
  | imm => cases h.2.1

/-- The text behind an operand tells what follows it. -/
theorem AllWritten.lastOrImm (h : AllWritten tables (po :: pos) text) :
    (asmIsBlank (nasmSkipAComma (behindOpnd text)) ||
      asmIsImmediate (nasmSkipAComma (behindOpnd text))) = Btrtg.lastOrImm pos := by
  cases pos with
  | nil =>
    rw [h.2]
    rfl
  | cons po' pos =>
    obtain ⟨-, rest, htext, hrest⟩ := h
    have hnext : nasmSkipAComma (behindOpnd text) = rest := by
      rw [htext]
      rfl
    have hends := behindOpnd_ends rest
    have hsplit : nasmSkipSpaces rest = firstOpnd rest ++ behindOpnd rest :=
      List.takeWhile_append_dropWhile.symm
    have hpos : behindOpnd rest = [] ↔ pos = [] := by
      cases pos with
      | nil => exact iff_of_true hrest.2 rfl
      | cons =>
        obtain ⟨-, rest', hrest', -⟩ := hrest
        rw [hrest']
        exact iff_of_false nofun nofun
    have hfirst := hrest.first
    have hblank : asmIsBlank rest = false := by
      rw [asmIsBlank, hsplit]
      cases hopnd : firstOpnd rest with
      | nil => exact absurd hopnd hfirst.ne_nil
      | cons c cs =>
        have hc : endsOpnd c = false := by
          have hmem : c ∈ firstOpnd rest := by rw [hopnd]; exact .head _
          simpa using List.mem_takeWhile_imp hmem
        simpa using (Bool.or_eq_false_iff.1 hc).1
    rw [hnext, hblank, Bool.false_or, asmIsImmediate, hsplit]
    exact hfirst.shows hends hpos

end

-- ---------------------------------------------------------------------------
-- Initialisation
-- ---------------------------------------------------------------------------

/-- The initialisation of a register is the same instruction in both. -/
def NestedAlike (constInsn : Text → T Unit) (constInsn' : PseudoInsn → M Bool) : Prop :=
  ∀ (r : Reg) (asmOpnd : Text) (v : BitVec 32) (t t' : TGen),
    asmOpnd = r.name.toList ∨ asmOpnd = ' ' :: r.name.toList →
    (constInsn ("mov ".toList ++ asmOpnd ++ s!", 0x{hex v.toNat}".toList)).run t = (.ok (), t') →
    (nestedInsn constInsn' ⟨.mov, [.reg r, .imm v]⟩).run t.toGen = (.ok (), t'.toGen)

section
variable {constInsn : Text → T Unit} {constInsn' : PseudoInsn → M Bool} {t t' : TGen} {o : Opnd}
  {asmOpnd : Text} {flags : OpFlags} {varAddr : Option (Option (List Line))}

/-- Without an operand nothing is initialised. -/
theorem initOpnd_none (constInsn : Text → T Unit) (asmOpnd : Text) (flags : OpFlags)
    (varAddr : Option (Option (List Line))) (t : TGen) :
    (TokenBuf.initOpnd constInsn asmOpnd none flags varAddr).run t = (.ok (), t) := by
  simp only [TokenBuf.initOpnd, run_bind, run_get]
  cases hn : t.needInit with
  | false => rfl
  | true =>
    simp only [if_true, run_bind, run_modify, initOpndCases, run_pure, ← hn]

theorem toGen_of_onGen {α : Type} {m : M α} {a : α} (h : (onGen m).run t = (.ok a, t')) :
    m.run t.toGen = (.ok a, t'.toGen) := by
  obtain ⟨g, hm, rfl⟩ := onGen_ok.1 h
  exact hm

theorem initOpndCases_link (hconst : NestedAlike constInsn constInsn')
    (hreg : ∀ r, o = .reg r → asmOpnd = r.name.toList ∨ asmOpnd = ' ' :: r.name.toList)
    (h : (initOpndCases constInsn asmOpnd flags varAddr (some o)).run t = (.ok (), t')) :
    (initBody constInsn' o flags varAddr).run t.toGen = (.ok (), t'.toGen) := by
  cases o with
  | reg r =>
    rw [initOpndCases] at h
    rw [initBody]
    split_ifs at h ⊢
    · exact toGen_of_onGen h
    · exact toGen_of_onGen h
    · exact toGen_of_onGen h
    · obtain ⟨val, t₁, hval, h⟩ := bind_ok.1 h
      have hval := toGen_of_onGen hval
      have hmov := hconst r asmOpnd val t₁ t' (hreg r rfl) h
      rw [registerValue] at hval
      obtain ⟨v, g₁, hv, hval⟩ := bind_ok.1 hval
      rw [Btrtg.initRegisterOpnd, run_bind_ok hv]
      have hrun := run_bind_ok (f := fun val => nestedInsn constInsn' ⟨.mov, [.reg r, .imm val]⟩) hval
      cases v with
      | none => exact hrun.trans hmov
      | some v => exact hrun.trans hmov
    · cases h
      rfl
  | mem m => exact toGen_of_onGen h
  | imm v =>
    cases h
    rfl

theorem initOpnd_link (hconst : NestedAlike constInsn constInsn')
    (hreg : ∀ r, o = .reg r → asmOpnd = r.name.toList ∨ asmOpnd = ' ' :: r.name.toList)
    (h : (TokenBuf.initOpnd constInsn asmOpnd (some o) flags varAddr).run t = (.ok (), t')) :
    (Btrtg.initOpnd constInsn' o flags varAddr).run t.toGen = (.ok (), t'.toGen) := by
  obtain ⟨_, _, hget, h⟩ := bind_ok.1 h
  cases hget
  cases hn : t.needInit with
  | false =>
    rw [hn] at h
    cases h
    exact initOpnd_off hn ..
  | true =>
    rw [hn] at h
    obtain ⟨_, _, hclear, h⟩ := bind_ok.1 h
    cases hclear
    obtain ⟨_, _, hclear, h⟩ := bind_ok.1 h
    cases hclear
    obtain ⟨_, t₁, hcases, h⟩ := bind_ok.1 h
    have hbody := initOpndCases_link hconst hreg hcases
    obtain ⟨_, _, hset, h⟩ := bind_ok.1 h
    cases hset
    cases h
    rw [initOpnd_eq, run_bind, run_get]
    dsimp only
    rw [hn]
    exact run_bind_ok hbody

end

-- ---------------------------------------------------------------------------
-- Operands
-- ---------------------------------------------------------------------------

/-- What makes an operand leaves the variables alone. -/
theorem sameVars_genOperandInternal (flags : OpFlags) :
    Keeps (fun g g' : Gen => g'.vars = g.vars) (fun _ => True) (genOperandInternal flags) := by
  have hclosed : Closed NoOverflow fun _ m =>
      Keeps (fun g g' : Gen => g'.vars = g.vars) (fun _ => True) m :=
    closed_keeps (fun _ => rfl) (fun _ _ _ h h' => h'.trans h) fun _ _ => trivial
  have hrand : Keeps (fun g g' : Gen => g'.vars = g.vars) (fun _ => True) rand :=
    fun g => ⟨rfl, fun _ _ => trivial⟩
  have hrecord : ∀ e, Keeps (fun g g' : Gen => g'.vars = g.vars) (fun _ => True) (record e) :=
    fun e g => ⟨rfl, fun _ _ => trivial⟩
  have hregister := fun flags => (draws_genRegister hrand flags).of_closed hclosed fun _ h => h
  have hmemory := fun flags => (modrm_createRandomModrm flags).of_closed hclosed fun m hm => by
    cases hm with
    | rand => exact hrand
    | modify hf => exact fun g => ⟨(hf g).vars, fun _ _ => trivial⟩
    | record => exact hrecord _
  have himmediate := (picks_genImmediate flags).of_closed hclosed fun m hm => by
    cases hm with
    | rand => exact hrand
    | node =>
      exact (requests_requestNode (fun e _ => .prim (hrecord e)) hrand).of_closed hclosed fun _ h => h
    | packedNodes =>
      exact (requests_requestPackedNodes (fun e _ => .prim (hrecord e)) hrand).of_closed hclosed
        fun _ h => h
    | lines =>
      intro g
      obtain ⟨_, _, _, _, _, _, _, h⟩ := (list_keeps (.prim (.insert _ _)) g).1
      exact ⟨by rw [oneInsnGenCtrl, h], fun _ _ => trivial⟩
  have hlikely := (draws_likelyHappenP hrand 5000).of_closed hclosed fun _ h => h
  unfold genOperandInternal genRegMem createMemory
  split
  · exact hclosed.bind (hregister _) fun _ => hclosed.pure _
  split
  · exact hclosed.bind himmediate fun _ => hclosed.pure _
  split
  · split
    · exact hclosed.bind (hclosed.bind (hmemory _) fun _ => hclosed.pure _) fun _ => hclosed.pure _
    · refine hclosed.bind hlikely fun b => ?_
      split
      · exact hclosed.bind (hclosed.bind (hmemory _) fun _ => hclosed.pure _) fun _ => hclosed.pure _
      · exact hclosed.bind (hregister _) fun _ => hclosed.pure _
  · exact hclosed.throw (by simp [NoOverflow])

/-- What a call of `gen_operand` leaves in both; nothing is written for an operand that is
written out. -/
def Made.Same (made : Made) (w : Option WrittenOpnd) : Prop :=
  match made with
  | .failed => w = none
  | .done => ∃ seed, w = some { seed }
  | .opnd size o hasLabel => ∃ seed, seed.hasLabel = hasLabel ∧
      (w = some ⟨seed, size, some o⟩ ∨ size = none ∧ w = some { seed })

section
variable {tables : RegTables} {constInsn : Text → T Unit} {constInsn' : PseudoInsn → M Bool}
  {t t' : TGen} {w : Option WrittenOpnd}

theorem asmOpnd_reg {o : Opnd} {r : Reg} (h : o = .reg r) (flags : OpFlags) :
    (o.asmOpnd flags).toList = r.name.toList ∨ (o.asmOpnd flags).toList = ' ' :: r.name.toList := by
  cases h
  exact asmOpnd_cases (.reg r) flags

/-- The size keyword follows from the operands as from the text. -/
theorem writePseudo_link {g : Gen} {o : Opnd} {flags : OpFlags} {size : Option SizeWord}
    {po : PseudoOpnd} {pos : List PseudoOpnd} (hop : g.opcode = t.opcode)
    (htext : AllWritten tables (po :: pos) (t.tokenBuf.drop t.bufptr))
    (h : (writePseudo t.opi (t.tokenBuf.length - (opndRest t).length) (opndText t).length o
      flags).run { t with toGen := g } = (.ok size, t')) :
    t'.toGen = g ∧ size = if wantsSize t.opcode t.opi flags (lastOrImm pos) then
      some (preappendMemSize (flags &&& sizeMask)) else none := by
  have htail : opndTail t = behindOpnd (t.tokenBuf.drop t.bufptr) := rfl
  rw [opndPre_length] at h
  have hbuf : ({ t with toGen := g } : TGen).tokenBuf =
      opndPre t ++ (opndText t ++ opndTail t) := tokenBuf_eq t
  obtain ⟨hsize, rfl⟩ := writePseudo_ok hbuf h
  rw [nasmSkipAComma_append (opnd_plain o flags), htail, htext.lastOrImm] at hsize
  rw [← hop]
  exact ⟨rfl, hsize⟩

/-- An operand that is written out: nothing is written, and a register is initialised. -/
theorem genOperandPseudoCode_literal (hliteral : IsLiteral (opndText t))
    (h : (TokenBuf.genOperandPseudoCode tables constInsn).run t = (.ok w, t')) :
    ∃ o, (∀ r, (tables.hash (opndText t)).1 = .reg r → o = some (.reg r)) ∧
      ((∀ r, (tables.hash (opndText t)).1 ≠ .reg r) → o = none) ∧
      w = some { seed := { opndflags := parseAsmOpndOpflags tables (opndText t) } } ∧
      (TokenBuf.initOpnd constInsn (opndText t) o (parseAsmOpndOpflags tables (opndText t))
        none).run t = (.ok (), t') := by
  obtain ⟨_, _, hget, h⟩ := bind_ok.1 h
  cases hget
  obtain ⟨⟨seed, place⟩, t₁, hseed, h⟩ := bind_ok.1 h
  change (TokenBuf.createOpndSeed tables (opndText t)).run t = _ at hseed
  rw [createOpndSeed_type hliteral.1, if_pos hliteral.2] at hseed
  cases hseed
  obtain ⟨_, t₂, hinit, h⟩ := bind_ok.1 h
  cases h
  have hkey : copyAsmOpnd (nasmSkipSpaces (t.tokenBuf.drop t.bufptr)) = opndText t := rfl
  rw [hkey] at hinit
  refine ⟨_, fun r hr => ?_, fun hr => ?_, rfl, hinit⟩
  · rw [hr]
  · split
    · exact absurd ‹_› (hr _)
    · rfl

theorem blkSearchVar_getElem? {vars : BlkId → List BlkVar} {name : String} {b blk : BlkId} {i : Nat}
    {v : BlkVar} (h : blkSearchVar vars name b = some (blk, i, v)) : (vars blk)[i]? = some v := by
  induction b with
  | nil =>
    obtain ⟨_, -, h⟩ := Option.bind_eq_some_iff.1 h
    obtain ⟨_, hv, h⟩ := Option.map_eq_some_iff.1 h
    cases h
    exact hv
  | cons k parent ih =>
    rw [blkSearchVar] at h
    split at h
    · obtain ⟨_, hv, h⟩ := Option.map_eq_some_iff.1 h
      cases h
      exact hv
    · exact ih h

/-- The variable that is found is the one at its place. -/
theorem createOpndSeed_found {g g' : Gen} {name : String} {seed : OperandSeed}
    {place : Option (BlkId × Nat × BlkVar)}
    (h : (Btrtg.createOpndSeed (.var name)).run g = (.ok (seed, place), g')) :
    ∃ blk i v, place = some (blk, i, v) ∧ (g'.vars blk)[i]? = some v ∧ g'.opcode = g.opcode ∧
      g'.hasMemOpnd = g.hasMemOpnd ∧ g'.initMemAddr = g.initMemAddr := by
  obtain ⟨found, g₁, hfound, h⟩ := bind_ok.1 h
  cases hfound
  split at h
  · cases h
  · rename_i blk i v hfound
    cases h
    obtain ⟨b, -, hv⟩ := Option.bind_eq_some_iff.1 hfound
    exact ⟨blk, i, v, rfl, blkSearchVar_getElem? hv, rfl, rfl, rfl⟩

/-- A variable with an operand that was made for it. -/
def BlkVar.filled (v : BlkVar) (o : Opnd) (flags : OpFlags) (g : Gen) : BlkVar :=
  { v with
    valid := true
    opndflags := flags
    varVal := some o
    initMemAddr :=
      if isClass memory flags && flags ≠ memOffs then some g.initMemAddr else v.initMemAddr
    isMemOpnd := g.hasMemOpnd
    hasLabel := o.hasLabel }

section
variable {g g' : Gen} {blk : BlkId} {i : Nat} {v : BlkVar} {o : Opnd} {flags flags' : OpFlags}
  {hasLabel : Bool}

/-- The variable that is written is the one that was found. -/
theorem run_setVar {f : BlkVar → BlkVar} (v' : BlkVar) (hv : (g.vars blk)[i]? = some v)
    (hf : f v = v') : (setVar blk i f).run g = (setVar blk i fun _ => v').run g := by
  have hmodify : (g.vars blk).modify i f = (g.vars blk).modify i fun _ => v' := by
    refine List.ext_getElem? fun j => ?_
    rw [List.getElem?_modify, List.getElem?_modify]
    split_ifs with hij
    · rw [← hij, hv, Option.map_eq_map, Option.map_eq_map, Option.map_some, Option.map_some, hf]
    · rfl
  simp only [setVar, run_modify]
  congr 2
  funext b
  split_ifs with hb
  · rw [hb, hmodify]
  · rfl

theorem setVar_getElem? {v' : BlkVar} (hv : (g.vars blk)[i]? = some v)
    (h : (setVar blk i fun _ => v').run g = (.ok (), g')) : (g'.vars blk)[i]? = some v' := by
  cases h
  simp [hv]

/-- A variable gets no operand if none is made. -/
theorem varOpnd_none (h : (varOpnd blk i v flags).run g = (.ok none, g')) :
    v.valid = false ∧ ∃ flags', (genOperandInternal flags).run g = (.ok (none, flags'), g') := by
  unfold varOpnd at h
  cases hvalid : v.valid with
  | false =>
    rw [hvalid] at h
    obtain ⟨⟨o, flags'⟩, g₁, hmade, h⟩ := bind_ok.1 h
    cases o with
    | none =>
      cases h
      exact ⟨rfl, flags', hmade⟩
    | some o =>
      obtain ⟨_, _, hget, h⟩ := bind_ok.1 h
      cases hget
      obtain ⟨_, _, -, h⟩ := bind_ok.1 h
      cases h
  | true =>
    rw [hvalid] at h
    cases hval : v.varVal with
    | none =>
      rw [hval] at h
      cases h
    | some o =>
      rw [hval] at h
      cases h

/-- A variable without an operand gets the one that is made. -/
theorem varOpnd_made (hv : (g.vars blk)[i]? = some v) (hvalid : v.valid = false)
    (h : (varOpnd blk i v flags).run g = (.ok (some (o, flags', hasLabel)), g')) :
    ∃ g₁, (genOperandInternal flags).run g = (.ok (some o, flags'), g₁) ∧
      (g₁.vars blk)[i]? = some v ∧ (setVar blk i fun _ => v.filled o flags' g₁).run g₁ = (.ok (), g') ∧
      (g'.vars blk)[i]? = some (v.filled o flags' g₁) ∧ hasLabel = o.hasLabel := by
  unfold varOpnd at h
  rw [hvalid] at h
  obtain ⟨⟨made, flags₁⟩, g₁, hmade, h⟩ := bind_ok.1 h
  have hvars := (sameVars_genOperandInternal flags g).1
  rw [hmade] at hvars
  cases made with
  | none => cases h
  | some made =>
    obtain ⟨_, _, hget, h⟩ := bind_ok.1 h
    cases hget
    obtain ⟨_, g₂, hset, h⟩ := bind_ok.1 h
    cases h
    have hv₁ : (g₁.vars blk)[i]? = some v := by rw [hvars, hv]
    rw [run_setVar _ hv₁ rfl] at hset
    exact ⟨g₁, hmade, hv₁, hset, setVar_getElem? hv₁ hset, rfl⟩

/-- A variable with an operand gives it again. -/
theorem varOpnd_reused (hvalid : v.valid = true)
    (h : (varOpnd blk i v flags).run g = (.ok (some (o, flags', hasLabel)), g')) :
    v.varVal = some o ∧ v.opndflags = flags' ∧ v.hasLabel = hasLabel ∧
      g' = { g with
        log := g.log ++ [.reuse v g.hasMemOpnd g.initMemAddr]
        hasMemOpnd := v.isMemOpnd } := by
  unfold varOpnd at h
  rw [hvalid] at h
  cases hval : v.varVal with
  | none =>
    rw [hval] at h
    cases h
  | some made =>
    rw [hval] at h
    cases h
    exact ⟨rfl, rfl, rfl, rfl⟩

end

section
variable {p : PseudoInsn} {pos : List PseudoOpnd} (hconst : NestedAlike constInsn constInsn')
  (hop : t.opcode ≠ .none) (hpos : p.opnds.drop (t.opi + 1) = pos)
  (h : (TokenBuf.genOperandPseudoCode tables constInsn).run t = (.ok w, t'))
include hconst hop hpos h

theorem genOperandPseudoCode_type {flags : OpFlags} (hsome : p.opnds[t.opi]? = some (.type flags))
    (htext : AllWritten tables (.type flags :: pos) (t.tokenBuf.drop t.bufptr)) :
    ∃ made, (Btrtg.genOperandPseudoCode constInsn' p).run t.toGen = (.ok made, t'.toGen) ∧
      made.Same w := by
  have hwritten : (PseudoOpnd.type flags).Written tables (opndText t) := htext.first
  obtain ⟨hvar, htype, hne, -⟩ := hwritten
  obtain ⟨_, _, hget, h⟩ := bind_ok.1 h
  cases hget
  obtain ⟨⟨seed, place⟩, t₁, hseed, h⟩ := bind_ok.1 h
  change (TokenBuf.createOpndSeed tables (opndText t)).run t = _ at hseed
  rw [createOpndSeed_type hvar, htype, if_neg hne] at hseed
  cases hseed
  obtain ⟨⟨o, flags'⟩, t₁, hgen, h⟩ := bind_ok.1 h
  obtain ⟨g₁, hmade, rfl⟩ := onGen_ok.1 hgen
  cases o with
  | none =>
    cases h
    refine ⟨.failed, ?_, rfl⟩
    simp only [Btrtg.genOperandPseudoCode, run_bind, run_get, hsome, Btrtg.createOpndSeed,
      run_pure, hmade]
  | some o =>
    obtain ⟨size, t₂, hwrite, h⟩ := bind_ok.1 h
    obtain ⟨_, t₃, hinit, h⟩ := bind_ok.1 h
    cases h
    obtain ⟨htoGen, rfl⟩ := writePseudo_link (genOperandInternal_opcode hmade hop) htext hwrite
    have hrun := initOpnd_link hconst (fun r hr => asmOpnd_reg hr _) hinit
    rw [htoGen] at hrun
    refine ⟨.opnd _ o o.hasLabel, ?_, _, rfl, .inl rfl⟩
    simp only [Btrtg.genOperandPseudoCode, run_bind, run_get, hsome, Btrtg.createOpndSeed,
      run_pure, hmade, hrun, hpos]

theorem genOperandPseudoCode_var {name : String} (hsome : p.opnds[t.opi]? = some (.var name))
    (htext : AllWritten tables (.var name :: pos) (t.tokenBuf.drop t.bufptr)) :
    ∃ made, (Btrtg.genOperandPseudoCode constInsn' p).run t.toGen = (.ok made, t'.toGen) ∧
      made.Same w := by
  have hname : opndText t = '@' :: name.toList := htext.first
  have hvar : (opndText t).head? = some '@' := by rw [hname]; rfl
  have hofList : String.ofList (opndText t).tail = name := by
    rw [hname, List.tail_cons, String.ofList_toList]
  obtain ⟨_, _, hget, h⟩ := bind_ok.1 h
  cases hget
  obtain ⟨⟨seed, place⟩, t₁, hseed, h⟩ := bind_ok.1 h
  change (TokenBuf.createOpndSeed tables (opndText t)).run t = _ at hseed
  rw [TokenBuf.createOpndSeed, if_pos hvar, hofList] at hseed
  obtain ⟨g₁, hfound, rfl⟩ := onGen_ok.1 hseed
  obtain ⟨blk, i, v, rfl, hv, hop₁, hmem, haddr⟩ := createOpndSeed_found hfound
  obtain ⟨made, t₂, hvarOpnd, h⟩ := bind_ok.1 h
  obtain ⟨g₂, hmade, rfl⟩ := onGen_ok.1 hvarOpnd
  have hop₂ := opcode_of_prim (prim_varOpnd blk i v seed.opndflags) hmade (hop₁ ▸ hop)
  cases made with
  | none =>
    cases h
    obtain ⟨hvalid, flags, hinternal⟩ := varOpnd_none hmade
    refine ⟨.failed, ?_, rfl⟩
    simp only [Btrtg.genOperandPseudoCode, run_bind, run_get, hsome, hfound, hvalid, hinternal,
      Bool.not_false, if_true, run_pure]
  | some made =>
    obtain ⟨o, flags, hasLabel⟩ := made
    obtain ⟨size, t₃, hwrite, h⟩ := bind_ok.1 h
    obtain ⟨htoGen, rfl⟩ := writePseudo_link (hop₂.trans hop₁) htext hwrite
    obtain ⟨varAddr, t₄, hvarAddr, h⟩ := bind_ok.1 h
    cases hvarAddr
    obtain ⟨_, t₅, hinit, h⟩ := bind_ok.1 h
    cases h
    have hrun := initOpnd_link hconst (fun r hr => asmOpnd_reg hr _) hinit
    rw [htoGen] at hrun
    refine ⟨.opnd _ o hasLabel, ?_, _, rfl, .inl rfl⟩
    cases hvalid : v.valid with
    | false =>
      obtain ⟨g₃, hinternal, hv₃, hset, hv₂, rfl⟩ := varOpnd_made hv hvalid hmade
      rw [hv₂] at hrun
      simp only [Btrtg.genOperandPseudoCode, run_bind, run_get, hsome, hfound, hvalid, hinternal,
        Bool.not_false, if_true]
      rw [run_setVar (v.filled o flags g₃) hv₃ rfl, hset, hpos]
      simp only [Option.bind_some, BlkVar.filled] at hrun
      simp only [hrun, run_pure]
    | true =>
      obtain ⟨hval, rfl, rfl, rfl⟩ := varOpnd_reused hvalid hmade
      rw [hv] at hrun
      simp only [Btrtg.genOperandPseudoCode, record, run_bind, run_get, run_modify, hsome, hfound,
        hvalid, hval, Bool.not_true, Bool.false_eq_true, if_false, ← hmem, ← haddr, hpos, run_pure]
      rw [Option.bind_some] at hrun
      rw [hrun]

end

/-- What `gen_operand` makes of a text is what it makes of the operands that are written in it. -/
theorem genOperandPseudoCode_link {p : PseudoInsn} (hconst : NestedAlike constInsn constInsn')
    (hop : t.opcode ≠ .none)
    (htext : AllWritten tables (p.opnds.drop t.opi) (t.tokenBuf.drop t.bufptr))
    (h : (TokenBuf.genOperandPseudoCode tables constInsn).run t = (.ok w, t')) :
    ∃ made, (Btrtg.genOperandPseudoCode constInsn' p).run t.toGen = (.ok made, t'.toGen) ∧
      made.Same w := by
  cases hdrop : p.opnds.drop t.opi with
  | nil =>
    have hnone : p.opnds[t.opi]? = none := List.getElem?_eq_none (List.drop_eq_nil_iff.1 hdrop)
    rw [hdrop] at htext
    have hopnd : opndText t = [] := by rw [opndText, opndRest, htext.1]; rfl
    have hliteral : IsLiteral (opndText t) := by rw [hopnd]; decide
    obtain ⟨o, -, ho, rfl, hinit⟩ := genOperandPseudoCode_literal hliteral h
    rw [hopnd] at ho
    obtain rfl := ho htext.2
    cases (initOpnd_none ..).symm.trans hinit
    refine ⟨.done, ?_, _, rfl⟩
    simp only [Btrtg.genOperandPseudoCode, run_bind, run_get, hnone, run_pure]
  | cons po pos =>
    have hsome : p.opnds[t.opi]? = some po := by
      rw [← List.head?_drop, hdrop]
      rfl
    have hpos : p.opnds.drop (t.opi + 1) = pos := by
      rw [← List.tail_drop, hdrop]
      rfl
    rw [hdrop] at htext
    have hwritten : po.Written tables (opndText t) := htext.first
    cases po with
    | var name => exact genOperandPseudoCode_var hconst hop hpos h hsome htext
    | type flags => exact genOperandPseudoCode_type hconst hop hpos h hsome htext
    | reg r =>
      obtain ⟨hliteral, hname, hhash⟩ := hwritten
      obtain ⟨o, ho, -, rfl, hinit⟩ := genOperandPseudoCode_literal hliteral h
      obtain rfl := ho r hhash
      have hflags : parseAsmOpndOpflags tables (opndText t) = r.flags := by
        rw [parseAsmOpndOpflags, hhash]
      rw [hflags] at hinit
      have hrun := initOpnd_link hconst (fun r' hr' => .inl (by cases hr'; exact hname)) hinit
      refine ⟨.opnd none (.reg r) false, ?_, _, rfl, .inr ⟨rfl, rfl⟩⟩
      simp only [Btrtg.genOperandPseudoCode, run_bind, run_get, hsome, Btrtg.createOpndSeed,
        run_pure, hrun]
    | imm v =>
      obtain ⟨hliteral, -, hhash⟩ := hwritten
      obtain ⟨o, -, ho, rfl, hinit⟩ := genOperandPseudoCode_literal hliteral h
      obtain rfl := ho hhash
      cases (initOpnd_none ..).symm.trans hinit
      refine ⟨.opnd none (.imm v) false, ?_, _, rfl, .inr ⟨rfl, rfl⟩⟩
      simp only [Btrtg.genOperandPseudoCode, run_bind, run_get, hsome, Btrtg.createOpndSeed,
        run_pure]

end

end Btrtg
