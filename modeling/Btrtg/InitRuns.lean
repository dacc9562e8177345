import Btrtg.TargetLaws
import Btrtg.OneLevel

/-!
# What an initialisation inserts

The runs of the initialisers: the entries that are inserted at the insert
position, one behind the other, and the constants that were selected for them.
-/

namespace Btrtg

open Prog OpFlags

-- ---------------------------------------------------------------------------
-- Rows of entries
-- ---------------------------------------------------------------------------

namespace Insnlist

/-- The links lead from one position through the entries to the other. -/
def Leads (l : Insnlist) (p : Option Addr) : List Entry → Option Addr → Prop
  | [], q => p = q
  | e :: es, q => ∃ a, l.succ? p = some a ∧ l.entry? a = some e ∧ l.Leads (some a) es q

/-- The entries were inserted, each after the one before. -/
inductive Inserts : Insnlist → Option Addr → List Entry → Insnlist → Option Addr → Prop
  | nil {l p} : Inserts l p [] l p
  | cons {l l₁ l' p p' e es} : l.IsAfter l₁ p l.brk e → Inserts l₁ (some l.brk) es l' p' →
      Inserts l p (e :: es) l' p'

section
variable {l l₁ l' : Insnlist} {p p₁ p' : Option Addr} {e : Entry} {es es' : List Entry}

theorem Inserts.one (h : l.IsAfter l₁ p l.brk e) : Inserts l p [e] l₁ (some l.brk) :=
  .cons h .nil

theorem Inserts.trans (h : Inserts l p es l₁ p₁) (h' : Inserts l₁ p₁ es' l' p') :
    Inserts l p (es ++ es') l' p' := by
  induction h with
  | nil => exact h'
  | cons hi _ ih => exact .cons hi (ih h')

/-- Links from other positions and entries stay. -/
theorem Inserts.keep (h : Inserts l p es l' p') :
    (∀ x y, x ≠ p → l.succ? x = some y → l'.succ? x = some y) ∧
      ∀ a e, l.entry? a = some e → l'.entry? a = some e := by
  induction h with
  | nil => exact ⟨fun _ _ _ hs => hs, fun _ _ he => he⟩
  | cons hi _ ih =>
    refine ⟨fun x y hx hs => ih.1 x y ?_ (hi.succ_keep hs hx), fun a e he => ih.2 a e ?_⟩
    · exact hi.ne_new hs
    · exact hi.entry_mono he

theorem Inserts.leads (h : Inserts l p es l' p') (hp : l.Placed p) : l'.Leads p es p' := by
  induction h with
  | nil => rfl
  | cons hi hrest ih =>
    refine ⟨_, hrest.keep.1 _ _ (placed_ne hp hi.fresh) hi.succ_pos, hrest.keep.2 _ _ hi.entry_new,
      ih (placed_iff_entry.2 ⟨_, hi.entry_new⟩)⟩

end

end Insnlist

-- ---------------------------------------------------------------------------
-- Emissions
-- ---------------------------------------------------------------------------

def Event.selected? : Event → Option (Who × ConstNode)
  | .selected who v => some (who, v)
  | _ => none

def Gen.selections (g : Gen) : List (Who × ConstNode) := g.log.filterMap Event.selected?

/-- The entries were inserted and the constants selected; the flags, the set-up text, the
locks and the data blocks are as they were. -/
structure Emits (g g' : Gen) (es : List Entry) (sel : List (Who × ConstNode)) : Prop where
  inserts : g.instlist.Inserts g.insertpos es g'.instlist g'.insertpos
  placed : g'.instlist.Placed g'.insertpos
  selections : g'.selections = g.selections ++ sel
  needInit : g'.needInit = g.needInit
  hasMemOpnd : g'.hasMemOpnd = g.hasMemOpnd
  initMemAddr : g'.initMemAddr = g.initMemAddr
  lockRegCases : g'.lockRegCases = g.lockRegCases
  datasizes : g'.datasizes = g.datasizes

section
variable {g g' g'' : Gen} {es es' : List Entry} {sel sel' : List (Who × ConstNode)}

theorem Emits.refl (hp : g.instlist.Placed g.insertpos) : Emits g g [] [] :=
  ⟨.nil, hp, by simp, rfl, rfl, rfl, rfl, rfl⟩

theorem Emits.trans (h : Emits g g' es sel) (h' : Emits g' g'' es' sel') :
    Emits g g'' (es ++ es') (sel ++ sel') where
  inserts := h.inserts.trans h'.inserts
  placed := h'.placed
  selections := by rw [h'.selections, h.selections, List.append_assoc]
  needInit := h'.needInit.trans h.needInit
  hasMemOpnd := h'.hasMemOpnd.trans h.hasMemOpnd
  initMemAddr := h'.initMemAddr.trans h.initMemAddr
  lockRegCases := h'.lockRegCases.trans h.lockRegCases
  datasizes := h'.datasizes.trans h.datasizes

theorem Drawn.emits (h : Drawn g g') (hp : g.instlist.Placed g.insertpos) : Emits g g' [] [] := by
  obtain ⟨n, rfl⟩ := h
  exact ⟨.nil, hp, (List.append_nil _).symm, rfl, rfl, rfl, rfl, rfl⟩

theorem record_emits {e : Event} {u : Unit} (he : e.selected? = none)
    (hp : g.instlist.Placed g.insertpos) (h : (record e).run g = (.ok u, g')) :
    Emits g g' [] [] ∧ g'.who = g.who := by
  cases h
  exact ⟨⟨.nil, hp, by simp [Gen.selections, he], rfl, rfl, rfl, rfl, rfl⟩, rfl⟩

/-- An entry is inserted. -/
theorem insert_emits {e : Entry} {u : Unit} (hp : g.instlist.Placed g.insertpos)
    (h : (oneInsnGenCtrl e .after).run g = (.ok u, g')) :
    Emits g g' [e] [] ∧ g' = { g with instlist := g'.instlist, insertpos := g'.insertpos } := by
  obtain ⟨l, hi, hrun⟩ := insertAfter_run hp e
  cases hrun.symm.trans h
  exact ⟨⟨.one hi, Insnlist.placed_iff_entry.2 ⟨_, hi.entry_new⟩, by simp [Gen.selections, Gen.put],
    rfl, rfl, rfl, rfl, rfl⟩, rfl⟩

theorem genText_emits {ls? : Option (List Line)} {u : Unit} (hp : g.instlist.Placed g.insertpos)
    (h : (genText ls?).run g = (.ok u, g')) : ∃ ls, ls? = some ls ∧ Emits g g' [.lines ls] [] := by
  cases ls? with
  | none => cases h
  | some ls => exact ⟨ls, rfl, (insert_emits hp h).1⟩

-- ---------------------------------------------------------------------------
-- Requests
-- ---------------------------------------------------------------------------

/-- The constant of a request. -/
def selectionOf (who : Who) (c : Option ConstNode) : List (Who × ConstNode) :=
  c.toList.map fun v => (who, v)

theorem logSelected_emits {c : ConstNode} {u : Unit} (hp : g.instlist.Placed g.insertpos)
    (h : (logSelected c).run g = (.ok u, g')) : Emits g g' [] [(g.who, c)] := by
  cases h
  exact ⟨.nil, hp, by simp [Gen.selections, Event.selected?], rfl, rfl, rfl, rfl, rfl⟩

theorem logRequest_emits {trv packed : Bool} {opi : Nat} {u : Unit}
    (hp : g.instlist.Placed g.insertpos) (h : (logRequest trv packed opi).run g = (.ok u, g')) :
    Emits g g' [] [] ∧ g'.who = g.who :=
  record_emits rfl hp h

theorem trvValNodes_same {ref : TrvRef} {opi : Nat} {vals : List ConstNode}
    (h : (trvValNodes ref opi).run g = (.ok vals, g')) : g' = g := by
  obtain ⟨_, _, hg, h⟩ := bind_ok.1 h
  cases hg
  split at h <;> cases h
  rfl

theorem tkTreeFor_same {asmOp : String} {opi : Nat} {tree : WdRoot}
    (h : (tkTreeFor asmOp opi).run g = (.ok tree, g')) : g' = g := by
  obtain ⟨_, _, hg, h⟩ := bind_ok.1 h
  cases hg
  split at h
  · cases h
  · dsimp only at h
    split at h <;> cases h
    rfl

theorem requestTrvNode_emits {opi : Nat} {c : Option ConstNode}
    (hp : g.instlist.Placed g.insertpos) (h : (requestTrvNode opi).run g = (.ok c, g')) :
    Emits g g' [] (selectionOf g.who c) ∧ g'.who = g.who := by
  obtain ⟨_, _, hg, h⟩ := bind_ok.1 h
  cases hg
  split at h
  · cases h
    exact ⟨.refl hp, rfl⟩
  · obtain ⟨_, g₁, h₁, h⟩ := bind_ok.1 h
    obtain ⟨hlog, hwho⟩ := logRequest_emits hp h₁
    obtain ⟨vals, g₂, h₂, h⟩ := bind_ok.1 h
    rw [trvValNodes_same h₂] at h
    cases vals with
    | nil => cases h
    | cons v vals =>
      obtain ⟨_, g₃, h₃, h⟩ := bind_ok.1 h
      have hsel := logSelected_emits hlog.placed h₃
      cases h
      rw [hwho] at hsel
      cases h₃
      exact ⟨hlog.trans hsel, hwho⟩

theorem requestValNode_emits {asmOp : String} {opi : Nat} {c : Option ConstNode}
    (hp : g.instlist.Placed g.insertpos) (h : (requestValNode asmOp opi).run g = (.ok c, g')) :
    Emits g g' [] (selectionOf g.who c) := by
  obtain ⟨_, g₁, h₁, h⟩ := bind_ok.1 h
  obtain ⟨hlog, hwho⟩ := logRequest_emits hp h₁
  obtain ⟨tree, g₂, h₂, h⟩ := bind_ok.1 h
  rw [tkTreeFor_same h₂] at h
  obtain ⟨c', g₃, h₃, h⟩ := bind_ok.1 h
  have hdrawn := (drawn_draws (draws_wdtreeSelectLeafNode drawn_rand tree)).of_run h₃
  have hemits := hlog.trans (hdrawn.emits hlog.placed)
  have hwho' : g₃.who = g.who := by
    obtain ⟨n, rfl⟩ := hdrawn
    exact hwho
  cases c' with
  | none =>
    cases h
    exact hemits
  | some v =>
    obtain ⟨_, g₄, h₄, h⟩ := bind_ok.1 h
    have hsel := logSelected_emits hemits.placed h₄
    cases h
    rw [hwho'] at hsel
    exact hemits.trans hsel

/-- A constant that is requested is recorded for the operand. -/
theorem requestNode_emits {c : Option ConstNode} (hp : g.instlist.Placed g.insertpos)
    (h : requestNode.run g = (.ok c, g')) : Emits g g' [] (selectionOf g.who c) := by
  obtain ⟨_, _, hg, h⟩ := bind_ok.1 h
  cases hg
  obtain ⟨c', g₁, h₁, h⟩ := bind_ok.1 h
  obtain ⟨htrv, hwho⟩ := requestTrvNode_emits hp h₁
  cases c' with
  | some v =>
    cases h
    exact htrv
  | none =>
    rw [← hwho]
    exact htrv.trans (requestValNode_emits htrv.placed h)

theorem requestPackedNodes_emits {vals : List ConstNode} (hp : g.instlist.Placed g.insertpos)
    (h : requestPackedNodes.run g = (.ok vals, g')) : Emits g g' [] [] := by
  obtain ⟨_, _, hg, h⟩ := bind_ok.1 h
  cases hg
  obtain ⟨cs?, g₁, h₁, h⟩ := bind_ok.1 h
  have htrv : Emits g g₁ [] [] := by
    obtain ⟨_, _, hg, h₁⟩ := bind_ok.1 h₁
    cases hg
    split at h₁
    · cases h₁
      exact .refl hp
    · obtain ⟨_, g₂, h₂, h₁⟩ := bind_ok.1 h₁
      obtain ⟨vals, g₃, h₃, h₁⟩ := bind_ok.1 h₁
      rw [trvValNodes_same h₃] at h₁
      cases h₁
      exact (logRequest_emits hp h₂).1
  cases cs? with
  | some cs =>
    cases h
    exact htrv
  | none =>
    obtain ⟨_, g₂, h₂, h⟩ := bind_ok.1 h
    have hlog := (logRequest_emits htrv.placed h₂).1
    obtain ⟨tree, g₃, h₃, h⟩ := bind_ok.1 h
    rw [tkTreeFor_same h₃] at h
    have hdrawn := (drawn_draws (draws_selectPacked drawn_rand tree tree.packedn)).of_run h
    exact htrv.trans (hlog.trans (hdrawn.emits hlog.placed))

end
-- ---------------------------------------------------------------------------
-- The nested instruction
-- ---------------------------------------------------------------------------

/-- `gen_control_transfer_insn` does nothing for the opcode. -/
def Opcode.fallsThrough (op : Opcode) : Bool :=
  op ≠ .jmp && !op.isJcc && !op.isLoop && op ≠ .call

section
variable {g g' : Gen}

theorem genControlTransferInsn_none {op : Opcode} (hop : op.fallsThrough) (times : BitVec 32) :
    (genControlTransferInsn op times).run g = (.ok (-1), g) := by
  simp only [Opcode.fallsThrough, Bool.and_eq_true, Bool.not_eq_true', decide_eq_true_eq] at hop
  obtain ⟨⟨⟨hjmp, hjcc⟩, hloop⟩, hcall⟩ := hop
  simp only [genControlTransferInsn, run_bind, run_get, hjmp, hjcc, hloop, hcall, if_false,
    Bool.false_eq_true]
  split <;> rfl

theorem callControlTransfer_emits {op : Opcode} {times : BitVec 32} {r : Int × Bool}
    (hop : op.fallsThrough) (hp : g.instlist.Placed g.insertpos)
    (h : (callControlTransfer .insn op times).run g = (.ok r, g')) :
    r = (-1, false) ∧ Emits g g' [] [] := by
  simp only [callControlTransfer, run_bind, run_get, genControlTransferInsn_none hop] at h
  cases h
  exact ⟨by simp, ⟨.nil, hp, by simp [Gen.selections, Event.selected?], rfl, rfl, rfl, rfl, rfl⟩⟩

def Labels (es : List Entry) : Prop := ∀ e ∈ es, ∃ n, e = .label n

theorem likelyGenLabel_emits {u : Unit} (hp : g.instlist.Placed g.insertpos)
    (h : likelyGenLabel.run g = (.ok u, g')) : ∃ es, Labels es ∧ Emits g g' es [] := by
  obtain ⟨b, g₁, h₁, h⟩ := bind_ok.1 h
  have hdrawn := ((drawn_draws (draws_likelyHappenP drawn_rand 100)).of_run h₁).emits hp
  split at h
  · obtain ⟨i, g₂, h₂, h⟩ := bind_ok.1 h
    cases h
    obtain ⟨_, _, hg, h₂⟩ := bind_ok.1 h₂
    cases hg
    split at h₂
    · cases h₂
      exact ⟨[], by simp [Labels], hdrawn⟩
    · obtain ⟨_, g₃, h₃, h₂⟩ := bind_ok.1 h₂
      obtain ⟨hemits, -⟩ := insert_emits hdrawn.placed h₃
      cases h₂
      refine ⟨[.label g₁.labeli], by simp [Labels], hdrawn.trans ?_⟩
      exact ⟨hemits.inserts, hemits.placed, hemits.selections, hemits.needInit, hemits.hasMemOpnd,
        hemits.initMemAddr, hemits.lockRegCases, hemits.datasizes⟩
  · cases h
    exact ⟨[], by simp [Labels], hdrawn⟩

def Gen.atOperand (g : Gen) (src : Source) (n : Nat) : Gen :=
  { g with
    opi := n
    who := .explicit n
    log := g.log ++ if src.hasOperand n then
        [.operand g.nested src.opcode (.explicit n) g.opcode g.hasMemOpnd g.trvNodes g.own]
      else [] }

section
variable {constInsn : PseudoInsn → M Bool} {src : Source} {p : PseudoInsn}

theorem logExplicit_run (g : Gen) (src : Source) (n : Nat) :
    (logExplicit src n).run { g with opi := n, who := .explicit n } =
      (.ok (), g.atOperand src n) := by
  unfold logExplicit Gen.atOperand
  split
  · rfl
  · rw [List.append_nil]
    rfl

/-- One turn of the operand loop. -/
theorem operandLoop_ok {room : Nat} {opnds : List (Option SizeWord × Opnd)} {isLabel : Bool}
    {a : Option (List (Option SizeWord × Opnd) × Bool)}
    (h : (operandLoop constInsn src room opnds isLabel).run g = (.ok a, g')) :
    ∃ room' made g₁, room = room' + 1 ∧
      (genOperand constInsn src).run (g.atOperand src opnds.length) = (.ok made, g₁) ∧
      match made with
      | .failed => a = none ∧ g' = g₁
      | .done => a = some (opnds, isLabel) ∧ g' = g₁
      | .opnd size o hasLabel =>
        (operandLoop constInsn src room' (opnds ++ [(size, o)]) (isLabel || hasLabel)).run g₁ =
          (.ok a, g') := by
  cases room with
  | zero => cases h
  | succ room =>
    obtain ⟨_, _, hset, h⟩ := bind_ok.1 h
    cases hset
    obtain ⟨_, _, hlog, h⟩ := bind_ok.1 h
    cases (logExplicit_run g src opnds.length).symm.trans hlog
    obtain ⟨made, g₁, hmade, h⟩ := bind_ok.1 h
    refine ⟨room, made, g₁, rfl, hmade, ?_⟩
    cases made with
    | failed | done =>
      cases h
      exact ⟨rfl, rfl⟩
    | opnd size o hasLabel => exact h

theorem genOperand_reg {r : Reg} (hn : g.needInit = false) (ho : p.opnds[g.opi]? = some (.reg r)) :
    (genOperand constInsn (.pseudo p)).run g = (.ok (.opnd none (.reg r) false), g) := by
  simp only [genOperand, genOperandPseudoCode, run_bind, run_get, ho, createOpndSeed, run_pure,
    initOpnd_off hn]

theorem genOperand_imm {x : BitVec 32} (ho : p.opnds[g.opi]? = some (.imm x)) :
    (genOperand constInsn (.pseudo p)).run g = (.ok (.opnd none (.imm x) false), g) := by
  simp only [genOperand, genOperandPseudoCode, run_bind, run_get, ho, createOpndSeed, run_pure]

theorem genOperand_done (ho : p.opnds[g.opi]? = none) :
    (genOperand constInsn (.pseudo p)).run g = (.ok .done, g) := by
  simp only [genOperand, genOperandPseudoCode, run_bind, run_get, ho, run_pure]

/-- A `mov` of an immediate to a register initialises nothing in turn. -/
theorem operandLoop_mov {r : Reg} {x : BitVec 32}
    {a : Option (List (Option SizeWord × Opnd) × Bool)} (hn : g.needInit = false)
    (hp : g.instlist.Placed g.insertpos)
    (h : (operandLoop constInsn (.pseudo ⟨.mov, [.reg r, .imm x]⟩) maxOperands [] false).run g =
      (.ok a, g')) :
    a = some ([(none, .reg r), (none, .imm x)], false) ∧ Emits g g' [] [] := by
  obtain ⟨room, made, g₁, -, h₁, h⟩ := operandLoop_ok h
  let src : Source := .pseudo ⟨.mov, [.reg r, .imm x]⟩
  cases (genOperand_reg (g := g.atOperand src 0) (r := r) hn rfl).symm.trans h₁
  obtain ⟨room, made, g₂, -, h₂, h⟩ := operandLoop_ok h
  cases (genOperand_imm (g := (g.atOperand src 0).atOperand src 1) (x := x) rfl).symm.trans h₂
  obtain ⟨room, made, g₃, -, h₃, h⟩ := operandLoop_ok h
  cases (genOperand_done (g := ((g.atOperand src 0).atOperand src 1).atOperand src 2) rfl).symm.trans h₃
  obtain ⟨rfl, rfl⟩ := h
  exact ⟨rfl, .nil, hp, by simp [src, Source.hasOperand, Gen.atOperand, Gen.selections, Event.selected?],
    rfl, rfl, rfl, rfl, rfl⟩

/-- Up to the operand loop at most a label is inserted. -/
theorem oneInsnGenWith_ok {b : Bool} (hop : src.opcode.fallsThrough)
    (hp : g.instlist.Placed g.insertpos) (h : (oneInsnGenWith constInsn src).run g = (.ok b, g')) :
    ∃ labels g₁, Labels labels ∧ Emits g g₁ labels [] ∧
      (insnOperands constInsn src false).run g₁ = (.ok b, g') := by
  unfold oneInsnGenWith at h
  obtain ⟨_, _, hg, h⟩ := bind_ok.1 h
  cases hg
  obtain ⟨_, g₁, h₁, h⟩ := bind_ok.1 h
  obtain ⟨hbegin, -⟩ := record_emits rfl hp h₁
  obtain ⟨_, g₂, h₂, h⟩ := bind_ok.1 h
  obtain ⟨labels, hlabels, hlabel⟩ := likelyGenLabel_emits hbegin.placed h₂
  have hlabel := hbegin.trans hlabel
  obtain ⟨_, g₃, h₃, h⟩ := bind_ok.1 h
  have hopcode : Emits g₂ g₃ [] [] := by
    cases h₃
    exact ⟨.nil, hlabel.placed, (List.append_nil _).symm, rfl, rfl, rfl, rfl, rfl⟩
  obtain ⟨r, g₄, h₄, h⟩ := bind_ok.1 h
  obtain ⟨rfl, htransfer⟩ := callControlTransfer_emits hop hopcode.placed h₄
  refine ⟨labels, g₄, hlabels, ?_, h⟩
  simpa using (hlabel.trans hopcode).trans htransfer

/-- The set-up text that is put before the instruction. -/
def Gen.lastSetup (g : Gen) : List Entry :=
  if g.hasMemOpnd then [.lines g.initMemAddr] else []

/-- The end of `one_insn_gen`: the set-up text again and the instruction. -/
theorem insertInsn_ok {insn : Insn} {transferred b : Bool}
    (h : (do
      let g ← get
      if g.hasMemOpnd then
        oneInsnGenCtrl (.lines g.initMemAddr) .after
        record (.emit insn (some g.initMemAddr) transferred)
      else
        record (.emit insn none transferred)
      statInsertInsn (.insn insn) .after
      return true : M Bool).run g = (.ok b, g')) :
    b = true ∧ (g.instlist.Placed g.insertpos → Emits g g' (g.lastSetup ++ [.insn insn]) []) := by
  obtain ⟨_, _, hg, h⟩ := bind_ok.1 h
  cases hg
  unfold Gen.lastSetup
  split at h
  · rename_i hm
    rw [if_pos hm]
    obtain ⟨_, g₁, h₁, h⟩ := bind_ok.1 h
    obtain ⟨_, g₂, h₂, h⟩ := bind_ok.1 h
    obtain ⟨_, g₃, h₃, h⟩ := bind_ok.1 h
    cases h
    refine ⟨rfl, fun hp => ?_⟩
    obtain ⟨hsetup, -⟩ := insert_emits hp h₁
    obtain ⟨hrecord, -⟩ := record_emits rfl hsetup.placed h₂
    obtain ⟨hinsn, -⟩ := insert_emits hrecord.placed h₃
    exact hsetup.trans (hrecord.trans hinsn)
  · rename_i hm
    rw [if_neg hm]
    obtain ⟨_, g₁, h₁, h⟩ := bind_ok.1 h
    obtain ⟨_, g₂, h₂, h⟩ := bind_ok.1 h
    cases h
    refine ⟨rfl, fun hp => ?_⟩
    obtain ⟨hrecord, -⟩ := record_emits rfl hp h₁
    obtain ⟨hinsn, -⟩ := insert_emits hrecord.placed h₂
    exact hrecord.trans hinsn

/-- Behind the operands come the implied ones, the set-up text again and the instruction. -/
theorem insnOperands_ok {transferred b : Bool}
    (h : (insnOperands constInsn src transferred).run g = (.ok b, g')) :
    ∃ a g₁, (operandLoop constInsn src maxOperands [] false).run g = (.ok a, g₁) ∧
      match a with
      | none => b = false ∧ g' = g₁
      | some (opnds, isLabel) => b = true ∧ ∃ g₂,
        (if g₁.needInit then initImpliedOperands constInsn src.opcode opnds else pure ()).run g₁ =
          (.ok (), g₂) ∧
        (g₂.instlist.Placed g₂.insertpos →
          Emits g₂ g' (g₂.lastSetup ++ [.insn ⟨src.opcode, opnds, isLabel⟩]) []) := by
  obtain ⟨a, g₁, h₁, h⟩ := bind_ok.1 h
  refine ⟨a, g₁, h₁, ?_⟩
  cases a with
  | none =>
    cases h
    exact ⟨rfl, rfl⟩
  | some a =>
    obtain ⟨opnds, isLabel⟩ := a
    obtain ⟨_, _, hg, h⟩ := bind_ok.1 h
    cases hg
    split at h
    · rename_i hn
      obtain ⟨_, g₂, h₂, h⟩ := bind_ok.1 h
      obtain ⟨hb, hemits⟩ := insertInsn_ok h
      exact ⟨hb, g₂, by rw [if_pos hn]; exact h₂, hemits⟩
    · rename_i hn
      obtain ⟨hb, hemits⟩ := insertInsn_ok h
      exact ⟨hb, g₁, by rw [if_neg hn]; rfl, hemits⟩

/-- The nested `mov`: perhaps a label, and the instruction. -/
theorem oneInsnGenConst_mov {r : Reg} {x : BitVec 32} {b : Bool} (hn : g.needInit = false)
    (hm : g.hasMemOpnd = false) (hp : g.instlist.Placed g.insertpos)
    (h : (oneInsnGenConst 1 ⟨.mov, [.reg r, .imm x]⟩).run g = (.ok b, g')) :
    ∃ labels, Labels labels ∧
      Emits g g' (labels ++ [.insn ⟨.mov, [(none, .reg r), (none, .imm x)], false⟩]) [] := by
  obtain ⟨labels, g₁, hlabels, hlabel, h⟩ := oneInsnGenWith_ok rfl hp h
  refine ⟨labels, hlabels, ?_⟩
  obtain ⟨a, g₂, h₂, h⟩ := insnOperands_ok h
  obtain ⟨rfl, hloop⟩ := operandLoop_mov (hlabel.needInit.trans hn) hlabel.placed h₂
  have hops := hlabel.trans hloop
  obtain ⟨-, g₃, h₃, hinsn⟩ := h
  rw [hops.needInit, hn] at h₃
  cases h₃
  have hinsn := hinsn hops.placed
  rw [Gen.lastSetup, hops.hasMemOpnd, hm] at hinsn
  simpa [Source.opcode] using hops.trans hinsn

-- ---------------------------------------------------------------------------
-- Registers and memory
-- ---------------------------------------------------------------------------

/-- With both flags clear, as an initialisation runs. -/
structure Gen.Quiet (g : Gen) : Prop where
  needInit : g.needInit = false
  hasMemOpnd : g.hasMemOpnd = false
  placed : g.instlist.Placed g.insertpos

theorem Emits.quiet {es : List Entry} {sel : List (Who × ConstNode)} (h : Emits g g' es sel)
    (hq : g.Quiet) : g'.Quiet :=
  ⟨h.needInit.trans hq.needInit, h.hasMemOpnd.trans hq.hasMemOpnd, h.placed⟩

theorem nestedInsn_mov {r : Reg} {x : BitVec 32} {u : Unit} (hq : g.Quiet)
    (h : (nestedInsn (oneInsnGenConst 1) ⟨.mov, [.reg r, .imm x]⟩).run g = (.ok u, g')) :
    ∃ labels, Labels labels ∧
      Emits g g' (labels ++ [.insn ⟨.mov, [(none, .reg r), (none, .imm x)], false⟩]) [] := by
  obtain ⟨_, _, hg, h⟩ := bind_ok.1 h
  cases hg
  obtain ⟨_, g₁, h₁, h⟩ := bind_ok.1 h
  cases h₁
  obtain ⟨b, g₂, h₂, h⟩ := bind_ok.1 h
  obtain ⟨labels, hlabels, hmov⟩ := oneInsnGenConst_mov (g := { g with nested := g.nested + 1 })
    hq.needInit hq.hasMemOpnd hq.placed h₂
  cases h
  exact ⟨labels, hlabels, hmov.inserts, hmov.placed, hmov.selections, hmov.needInit, hmov.hasMemOpnd,
    hmov.initMemAddr, hmov.lockRegCases, hmov.datasizes⟩

theorem movConst_emits {r : Reg} {c : Option ConstNode} {u : Unit} (hq : g.Quiet)
    (h : (movConst (oneInsnGenConst 1) r c).run g = (.ok u, g')) (flags : OpFlags) :
    ∃ es, Initialises (.reg r) flags c es ∧ Emits g g' es [] := by
  cases c with
  | none =>
    obtain ⟨n, g₁, h₁, h⟩ := bind_ok.1 h
    have hdraw := ((drawn_draws (draws_nasmRandom64 drawn_rand _)).of_run h₁).emits hq.placed
    obtain ⟨labels, hlabels, hmov⟩ := nestedInsn_mov (hdraw.quiet hq) h
    exact ⟨_, initialises_mov hlabels (fun _ hv => by cases hv), hdraw.trans hmov⟩
  | some v =>
    obtain ⟨labels, hlabels, hmov⟩ := nestedInsn_mov hq h
    exact ⟨_, initialises_mov hlabels (fun _ hv => by cases hv; rfl), hmov⟩

theorem initRegisterOpnd_emits {r : Reg} {u : Unit} (hq : g.Quiet)
    (h : (initRegisterOpnd (oneInsnGenConst 1) r).run g = (.ok u, g')) (flags : OpFlags) :
    ∃ c es, Initialises (.reg r) flags c es ∧ Emits g g' es (selectionOf g.who c) := by
  obtain ⟨c, g₁, h₁, h⟩ := bind_ok.1 h
  have hnode := requestNode_emits hq.placed h₁
  obtain ⟨es, hinit, hmov⟩ := movConst_emits (hnode.quiet hq) h flags
  exact ⟨c, es, hinit, by simpa using hnode.trans hmov⟩

theorem initFpuRegisterOpnd_emits {r : Reg} {u : Unit} (hq : g.Quiet)
    (h : (initFpuRegisterOpnd r).run g = (.ok u, g')) (flags : OpFlags) :
    ∃ c es, Initialises (.reg r) flags c es ∧ Emits g g' es (selectionOf g.who c) := by
  obtain ⟨c, g₁, h₁, h⟩ := bind_ok.1 h
  have hnode := requestNode_emits hq.placed h₁
  cases c with
  | none => cases h
  | some v =>
    obtain ⟨ls, hls, htext⟩ := genText_emits hnode.placed h
    cases hls
    exact ⟨some v, _, initialises_fpu, by simpa [pushNumber] using hnode.trans htext⟩

/-- The packed text of a register. -/
theorem packed_emits {r : Reg} {f : List ConstNode → Option (List Line)} {u : Unit} (hq : g.Quiet)
    (hf : ∀ vals ls, f vals = some ls → StoreText .floatData ls)
    (h : (do
      let vals ← requestPackedNodes
      genText (f vals) : M Unit).run g = (.ok u, g')) (flags : OpFlags) :
    ∃ c es, Initialises (.reg r) flags c es ∧ Emits g g' es (selectionOf g.who c) := by
  obtain ⟨vals, g₁, h₁, h⟩ := bind_ok.1 h
  have hnodes := requestPackedNodes_emits hq.placed h₁
  obtain ⟨ls, hls, htext⟩ := genText_emits hnodes.placed h
  exact ⟨none, _, initialises_packed (hf vals ls hls), hnodes.trans htext⟩

/-- What `init_memory_opnd` does with what was selected: it writes the constant, a row of
constants, or a random number. -/
inductive MemoryBody (m : ModRM) (flags : OpFlags) : Option ConstNode → M Unit → Prop
  | const {v} : MemoryBody m flags (some v) (genText (memoryText m (flags &&& sizeMask) v))
  | packed {c} {f : List ConstNode → Option (List Line)} : flags.isPacked = true →
      (∀ vals ls, f vals = some ls → StoreText (.opnd m) ls) →
      MemoryBody m flags c (do
        let vals ← requestPackedNodes
        genText (f vals))
  | random : MemoryBody m flags none (initMemoryOpndInt m flags none)

theorem MemoryBody.mmx {m : ModRM} {flags : OpFlags} {c : Option ConstNode}
    (h : isClass regClassRmMmx flags) : MemoryBody m flags c (do
      let vals ← requestPackedNodes
      genText (initMemoryOpndMmx m vals)) :=
  .packed (by simp [isPacked, h]) fun _ _ => initMemoryOpndMmx_text

theorem MemoryBody.xmm {m : ModRM} {flags : OpFlags} {c : Option ConstNode}
    (h : isClass regClassRmXmm flags) : MemoryBody m flags c (do
      let vals ← requestPackedNodes
      genText (initMemoryOpndXmm m vals)) :=
  .packed (by simp [isPacked, h]) fun _ _ => initMemoryOpndXmm_text

theorem MemoryBody.of_text {m : ModRM} {flags : OpFlags} {v : ConstNode} {text : Option (List Line)}
    (h : memoryText m (flags &&& sizeMask) v = text) : MemoryBody m flags (some v) (genText text) :=
  h ▸ .const

theorem initMemoryOpndInt_some (m : ModRM) (flags : OpFlags) (v : ConstNode) :
    initMemoryOpndInt m flags (some v) = genText (some [.store (preappendMemSize (flags &&& sizeMask))
      (.opnd m) 0x0 (v.cut (flags &&& sizeMask))]) := rfl

theorem initMemoryOpnd_eq (m : ModRM) (flags : OpFlags) :
    ∃ body, initMemoryOpnd m flags = requestNode >>= body ∧ ∀ c, MemoryBody m flags c (body c) := by
  refine ⟨_, rfl, fun c => ?_⟩
  cases c with
  | some v =>
    dsimp only
    split_ifs with hfloat henv hmmx h64 h80 hxmm
    · exact .of_text (by rw [memoryText, if_pos hfloat]; rfl)
    · exact .of_text (by rw [memoryText, if_neg hfloat, if_pos henv]; rfl)
    · exact .mmx hmmx
    · exact .of_text (by rw [memoryText, if_neg hfloat, if_neg henv, if_pos h64]; rfl)
    · exact .of_text (by rw [memoryText, if_neg hfloat, if_neg henv, if_neg h64, if_pos h80]; rfl)
    · exact .xmm hxmm
    · rw [initMemoryOpndInt_some]
      exact .of_text (by rw [memoryText, if_neg hfloat, if_neg henv, if_neg h64, if_neg h80])
  | none =>
    dsimp only
    split_ifs with hmmx hxmm
    · exact .mmx hmmx
    · exact .xmm hxmm
    · exact .random

theorem initMemoryOpnd_emits {m : ModRM} {flags : OpFlags} {u : Unit} (hq : g.Quiet)
    (h : (initMemoryOpnd m flags).run g = (.ok u, g')) :
    ∃ c ls, StoreText (.opnd m) ls ∧ (flags.isPacked = false → ∀ v, c = some v →
      memoryText m (flags &&& sizeMask) v = some ls) ∧
      Emits g g' [.lines ls] (selectionOf g.who c) := by
  obtain ⟨body, heq, hbody⟩ := initMemoryOpnd_eq m flags
  rw [heq] at h
  obtain ⟨c, g₁, h₁, h⟩ := bind_ok.1 h
  have hnode := requestNode_emits hq.placed h₁
  have hc := hbody c
  generalize body c = run at hc h
  cases hc with
  | @const v =>
    obtain ⟨ls, hls, htext⟩ := genText_emits hnode.placed h
    refine ⟨some v, ls, memoryText_text hls, fun _ w hw => ?_, by simpa using hnode.trans htext⟩
    cases hw
    exact hls
  | packed hp hf =>
    obtain ⟨vals, g₂, h₂, h⟩ := bind_ok.1 h
    have hnodes := requestPackedNodes_emits hnode.placed h₂
    obtain ⟨ls, hls, htext⟩ := genText_emits hnodes.placed h
    refine ⟨c, ls, hf vals ls hls, fun hp' => ?_, by simpa using hnode.trans (hnodes.trans htext)⟩
    rw [hp] at hp'
    cases hp'
  | random =>
    obtain ⟨n, g₂, h₂, h⟩ := bind_ok.1 h
    have hdraw := ((drawn_draws (draws_nasmRandom64 drawn_rand _)).of_run h₂).emits hnode.placed
    rw [pure_bind] at h
    obtain ⟨ls, hls, htext⟩ := genText_emits hdraw.placed h
    cases hls
    exact ⟨none, _, .of_opnd fun l hl => ⟨_, _, _, List.mem_singleton.1 hl⟩,
      fun _ v hv => (by cases hv), hnode.trans (hdraw.trans htext)⟩

-- ---------------------------------------------------------------------------
-- `init_opnd`
-- ---------------------------------------------------------------------------

/-- The state that an initialisation runs in. -/
def Gen.quiet (g : Gen) : Gen := { g with needInit := false, hasMemOpnd := false }

theorem initOpnd_ok {constInsn : PseudoInsn → M Bool} {o : Opnd} {flags : OpFlags}
    {varAddr : Option (Option (List Line))} {u : Unit} (hn : g.needInit = true)
    (h : (initOpnd constInsn o flags varAddr).run g = (.ok u, g')) :
    ∃ g₁, (initBody constInsn o flags varAddr).run g.quiet = (.ok (), g₁) ∧
      ∀ es sel, Emits g.quiet g₁ es sel → Emits g g' es sel := by
  rw [initOpnd_eq] at h
  obtain ⟨_, _, hg, h⟩ := bind_ok.1 h
  cases hg
  rw [hn] at h
  obtain ⟨_, _, h₁, h⟩ := bind_ok.1 h
  cases h₁
  obtain ⟨_, _, h₂, h⟩ := bind_ok.1 h
  cases h₂
  obtain ⟨_, g₁, h₃, h⟩ := bind_ok.1 h
  refine ⟨g₁, h₃, fun es sel he => ?_⟩
  cases h
  exact ⟨he.inserts, he.placed, he.selections, hn.symm, rfl, he.initMemAddr, he.lockRegCases,
    he.datasizes⟩

theorem initOpnd_reg {r : Reg} {flags : OpFlags} {varAddr : Option (Option (List Line))} {u : Unit}
    (hn : g.needInit = true) (hp : g.instlist.Placed g.insertpos) (hr : isClass register flags)
    (h : (initOpnd (oneInsnGenConst 1) (.reg r) flags varAddr).run g = (.ok u, g')) :
    ∃ c es, Initialises (.reg r) flags c es ∧ Emits g g' es (selectionOf g.who c) := by
  obtain ⟨g₁, h₁, hemits⟩ := initOpnd_ok hn h
  have hq : g.quiet.Quiet := ⟨rfl, rfl, hp⟩
  have hbody : ∃ c es, Initialises (.reg r) flags c es ∧
      Emits g.quiet g₁ es (selectionOf g.who c) := by
    unfold initBody at h₁
    dsimp only at h₁
    rw [if_pos hr] at h₁
    split at h₁
    · exact initFpuRegisterOpnd_emits hq h₁ flags
    split at h₁
    · exact packed_emits hq (fun _ _ => initMmxRegisterOpnd_text) h₁ flags
    split at h₁
    · exact packed_emits hq (fun _ _ => initXmmRegisterOpnd_text) h₁ flags
    · exact initRegisterOpnd_emits hq h₁ flags
  obtain ⟨c, es, hinit, he⟩ := hbody
  exact ⟨c, es, hinit, hemits _ _ he⟩

theorem initOpnd_mem {m : ModRM} {flags : OpFlags} {u : Unit} (hn : g.needInit = true)
    (hp : g.instlist.Placed g.insertpos) (hm : m.Sound) (hset : g.initMemAddr = m.setup)
    (h : (initOpnd (oneInsnGenConst 1) (.mem m) flags none).run g = (.ok u, g')) :
    ∃ c es, Initialises (.mem m) flags c es ∧ Emits g g' es (selectionOf g.who c) := by
  obtain ⟨g₁, h₁, hemits⟩ := initOpnd_ok hn h
  have hq : g.quiet.Quiet := ⟨rfl, rfl, hp⟩
  unfold initBody at h₁
  obtain ⟨_, g₂, h₂, h₁⟩ := bind_ok.1 h₁
  obtain ⟨_, _, hg, h₂⟩ := bind_ok.1 h₂
  cases hg
  obtain ⟨hsetup, heq⟩ := insert_emits hq.placed h₂
  have hwho : g₂.who = g.who := by rw [heq]; rfl
  obtain ⟨c, ls, htext, hv, hstores⟩ := initMemoryOpnd_emits (hsetup.quiet hq) h₁
  refine ⟨c, _, initialises_mem hm htext hv, hemits _ _ ?_⟩
  have hall := hsetup.trans hstores
  rw [hwho] at hall
  rw [← hset]
  exact hall

theorem initOpnd_imm {x : BitVec 32} {flags : OpFlags} {varAddr : Option (Option (List Line))}
    {u : Unit} (hn : g.needInit = true) (hp : g.instlist.Placed g.insertpos)
    (h : (initOpnd (oneInsnGenConst 1) (.imm x) flags varAddr).run g = (.ok u, g')) :
    Emits g g' [] [] := by
  obtain ⟨g₁, h₁, hemits⟩ := initOpnd_ok hn h
  cases h₁
  exact hemits _ _ (.refl hp)

end

end

end Btrtg
