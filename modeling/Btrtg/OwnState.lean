import Btrtg.LabelRuns

/-!
# The state an instruction is made in

The operands of an instruction are made and initialised by the opcode,
`has_mem_opnd` and `trv_nodes` of the state. These belong to the instruction
when its walker has set them, as those of `I` and `G` elements do; a select
block takes the first two as they are.
-/

namespace Btrtg

open Prog OpFlags

/-- The state in which an operand of a walker's instruction is made belongs to the
instruction. -/
def Event.OwnState : Event → Prop
  | .operand 0 insn who opcode hasMemOpnd trvNodes own =>
    (insn ≠ .none → opcode = insn) ∧ (who = .explicit 0 → hasMemOpnd = false) ∧ trvNodes = own
  | _ => True

/-- `gen_control_transfer_insn` inserts a transfer for this opcode. -/
def X86PGState.Takes (g : X86PGState) (op : Opcode) : Prop :=
  g.lockCtrl = false ∧ (op.isJump ∧ g.labeli ≠ 0 ∨ op.isLoop ∨ op = .call)

/-- What a selected instruction finds is as good as set for it, or it has no operands
because it is inserted as a control transfer. -/
def Event.Prepared : Event → Prop
  | .select insn before => before.Takes insn ∨
    (before.opcode = .none ∨ before.opcode = insn) ∧ before.hasMemOpnd = false
  | _ => True

/-- An operand is of an instruction `n` deep at least. -/
def Event.Deeper (n : Nat) : Event → Prop
  | .operand m .. => n ≤ m
  | _ => True

/-- The instruction of this opcode is `n` deep, and its `trv_nodes` are set. -/
structure Held (n : Nat) (insn : Opcode) (ref own : Option TrvRef) (g : Gen) : Prop where
  nested : g.nested = n
  opcode : insn ≠ .none → g.opcode = insn
  trvNodes : g.trvNodes = ref
  own : g.own = own

/-- Operands were recorded `n` deep at least. -/
abbrev Deep (n : Nat) : Gen → Gen → Prop := Logs (fun _ => True) (Event.Deeper n)

/-- Operands of walkers' instructions found the state of their instruction. -/
abbrev Owns : Gen → Gen → Prop := Logs (fun _ => True) Event.OwnState

section
variable {n k : Nat} {insn : Opcode} {ref own : Option TrvRef} {g g' : Gen} {α : Type} {m : M α}

theorem Event.Deeper.mono {e : Event} (hk : n ≤ k) (h : e.Deeper k) : e.Deeper n := by
  cases e with
  | operand => exact Nat.le_trans hk h
  | _ => trivial

theorem Event.OwnState.of_deeper {e : Event} (h : e.Deeper 1) : e.OwnState := by
  cases e with
  | operand n =>
    cases n with
    | zero => exact absurd h (Nat.not_succ_le_zero 0)
    | succ n => trivial
  | _ => trivial

theorem Held.of_same (h : Held n insn ref own g) (hn : g'.nested = g.nested)
    (hop : g'.opcode = g.opcode) (ht : g'.trvNodes = g.trvNodes) (ho : g'.own = g.own) :
    Held n insn ref own g' :=
  ⟨hn.trans h.nested, fun hi => hop.trans (h.opcode hi), ht.trans h.trvNodes, ho.trans h.own⟩

theorem Held.off (h : Held n insn ref own g) (hl : OffList g g') : Held n insn ref own g' := by
  obtain ⟨_, _, _, _, _, _, _, rfl⟩ := hl
  exact h.of_same rfl rfl rfl rfl

theorem closed_deep {E : Fault → Prop} :
    Closed E fun _ m => Upholds (Held n insn ref own) (Deep k) m :=
  closed_upholds Logs.refl fun _ _ _ => Logs.trans

theorem deep_modify {f : Gen → Gen} (hf : ∀ g, Held n insn ref own g → Held n insn ref own (f g))
    (hlog : ∀ g, (f g).log = g.log) : Upholds (Held n insn ref own) (Deep k) (modify f : M PUnit) :=
  fun g h => ⟨hf g h, .of_eq (hlog g)⟩

theorem deep_record {e : Event} (he : e.Deeper k) :
    Upholds (Held n insn ref own) (Deep k) (record e) :=
  fun _ h => ⟨h.of_same rfl rfl rfl rfl, .one rfl fun _ => he⟩

theorem deep_list (h : Uses ListPrim NoOverflow m) : Upholds (Held n insn ref own) (Deep k) m := by
  exact fun g hg => (triple_list h g).mono (fun _ _ hl => ⟨hg.off hl, .of_eq hl.log⟩)
    fun _ _ hl => .of_eq hl.log

theorem deep_modrm (flags : OpFlags) :
    Upholds (Held n insn ref own) (Deep k) (createRandomModrm flags) := by
  refine (modrm_createRandomModrm flags).of_closed closed_deep fun m hm => ?_
  cases hm with
  | rand => exact deep_list (.prim .rand)
  | record b => exact deep_record trivial
  | modify hf =>
    exact deep_modify (fun g h => h.of_same (hf g).nested (hf g).opcode (hf g).trvNodes (hf g).own)
      fun g => (hf g).log

theorem deep_transfer (op : Opcode) :
    Upholds (Held n insn ref own) (Deep k) (callControlTransfer .insn op (-1)) := by
  intro g h
  refine (callControlTransfer_frame .insn op (-1) g).mono ?_ fun _ g' hl => .of_eq hl.log
  rintro r g' ⟨g₁, label, hl, rfl⟩
  refine ⟨(h.off hl).of_same rfl rfl rfl rfl, ?_⟩
  exact .one (e := .transfer .insn op _ label _) (by rw [hl.log]) fun _ => trivial

theorem deep_searchCurrBlk (check : Bool) (name : String) :
    Upholds (Held n insn ref own) (Deep k) (searchCurrBlk check name) :=
  fun _ h => ⟨h.of_same rfl rfl rfl rfl, .one (e := .resolve _ _ _ _ _) rfl fun _ => trivial⟩

theorem deep_prim {ev : Event → Prop} {nested : (α : Type) → M α → Prop}
    (hev : ∀ e, ev e → e.Deeper k)
    (hn : ∀ {β : Type} (m : M β), nested β m → Upholds (Held n insn ref own) (Deep k) m)
    (h : Uses (Prim ev nested) NoOverflow m) : Upholds (Held n insn ref own) (Deep k) m := by
  refine h.of_closed closed_deep fun m hm => ?_
  cases hm with
  | rand => exact deep_list (.prim .rand)
  | modify hf =>
    exact deep_modify (fun g h => h.of_same (hf g).nested (hf g).opcode (hf g).trvNodes (hf g).own)
      fun g => (hf g).log
  | setOpcode op =>
    refine deep_modify (fun g h => ⟨h.nested, fun hi => ?_, h.trvNodes, h.own⟩) fun _ => rfl
    -- the opcode is set already
    simp only [h.opcode hi, hi, if_false]
  | setVar blk i _ =>
    exact deep_modify (fun g h => h.of_same rfl rfl rfl rfl) fun _ => rfl
  | modrm flags => exact deep_modrm flags
  | seed o => exact seed_of_closed closed_deep (deep_searchCurrBlk false) o
  | record he => exact deep_record (hev _ he)
  | insert _ => exact deep_list (.prim (.insert _ _))
  | label => exact deep_list (list_genLabel _)
  | transfer op => exact deep_transfer op
  | nested hm => exact hn _ hm

-- ---------------------------------------------------------------------------
-- Nested instructions
-- ---------------------------------------------------------------------------

theorem deep_nestedInsn {constInsn : PseudoInsn → M Bool}
    (hc : ∀ p, Upholds (Held (n + 1) insn ref own) (Deep (n + 1)) (constInsn p)) (p : PseudoInsn) :
    Upholds (Held n insn ref own) (Deep (n + 1)) (nestedInsn constInsn p) := by
  intro g h
  have hin : Held (n + 1) insn ref own { g with nested := g.nested + 1 } :=
    ⟨congrArg (· + 1) h.nested, h.opcode, h.trvNodes, h.own⟩
  refine .bind_run (run_get g) (.bind_run rfl ?_)
  refine (hc p _ hin).bind fun b g' ⟨hg', hl⟩ => ?_
  exact ⟨⟨h.nested, hg'.opcode, hg'.trvNodes, hg'.own⟩, hl⟩

theorem deep_logOperand (insn' : Opcode) :
    Upholds (Held n insn ref own) (Deep n) (logOperand insn') := by
  intro g h
  refine ⟨h.of_same rfl rfl rfl rfl, .one (e := .operand _ _ _ _ _ _ _) rfl fun _ => ?_⟩
  exact Nat.le_of_eq h.nested.symm

theorem deep_oneInsnGenWith {constInsn : PseudoInsn → M Bool}
    (hc : ∀ n p, Upholds (Held n insn ref own) (Deep n) (constInsn p)) (src : Source) :
    Upholds (Held n insn ref own) (Deep n) (oneInsnGenWith constInsn src) := by
  have huses : Uses (Prim (fun e => e.Deeper n) (IsInsn constInsn)) NoOverflow
      (oneInsnGenWith constInsn src) := by
    refine prim_oneInsnGenWith (fun e he => ?_) src fun _ _ _ => trivial
    cases e <;> trivial
  refine deep_prim (fun _ h => h) (fun m hm => ?_) huses
  cases hm with
  | const p =>
    exact (deep_nestedInsn (hc (n + 1)) p).mono fun _ _ _ h =>
      h.mono (fun _ h => h) fun _ => Event.Deeper.mono (Nat.le_succ n)
  | operand insn' => exact deep_logOperand insn'

theorem deep_oneInsnGenConst (depth : Nat) (p : PseudoInsn) :
    Upholds (Held n insn ref own) (Deep n) (oneInsnGenConst depth p) := by
  induction depth generalizing n p with
  | zero => exact fun g _ => .refl g
  | succ depth ih => exact deep_oneInsnGenWith (fun _ => ih) (.pseudo p)

-- ---------------------------------------------------------------------------
-- The instruction of a walker
-- ---------------------------------------------------------------------------

theorem Deep.owns (h : Deep 1 g g') : Owns g g' := h.mono (fun _ h => h) fun _ => .of_deeper

/-- The program runs while the walker's instruction is made, and records operands that
find the state of the instruction. -/
def Makes (insn : Opcode) (ref : Option TrvRef) (m : M α) (g : Gen) : Prop :=
  Triple m g (fun _ g' => Held 0 insn ref ref g' ∧ Owns g g') fun _ g' => Owns g g'

theorem Makes.bind {β : Type} {f : α → M β} (hm : Makes insn ref m g)
    (hf : ∀ a g', Held 0 insn ref ref g' → Makes insn ref (f a) g') :
    Makes insn ref (m >>= f) g := by
  refine Triple.bind hm fun a g₁ ⟨hg₁, hl₁⟩ => (hf a g₁ hg₁).mono ?_ ?_
  · exact fun b g₂ h => ⟨h.1, hl₁.trans h.2⟩
  · exact fun e g₂ h => hl₁.trans h

theorem Makes.pure {a : α} (h : Held 0 insn ref ref g) : Makes insn ref (pure a : M α) g :=
  ⟨h, .refl g⟩

theorem makes_of_deep (hm : Upholds (Held 0 insn ref ref) (Deep 1) m) (h : Held 0 insn ref ref g) :
    Makes insn ref m g :=
  (hm g h).mono (fun _ _ h => ⟨h.1, h.2.owns⟩) fun _ _ h => h.owns

theorem makes_of_prim (hm : Uses (Prim (Event.Deeper 1) fun _ _ => False) NoOverflow m)
    (h : Held 0 insn ref ref g) : Makes insn ref m g :=
  makes_of_deep (deep_prim (fun _ h => h) (fun _ h => h.elim) hm) h

theorem makes_logOperand (h : Held 0 insn ref ref g)
    (hm : g.who = .explicit 0 → g.hasMemOpnd = false) : Makes insn ref (logOperand insn) g := by
  refine ⟨h.of_same rfl rfl rfl rfl, .one (e := .operand _ _ _ _ _ _ _) rfl fun _ => ?_⟩
  rw [h.nested]
  exact ⟨h.opcode, hm, h.trvNodes.trans h.own.symm⟩

theorem makes_logExplicit (src : Source) (opi : Nat) (h : Held 0 src.opcode ref ref g)
    (hm : g.who = .explicit 0 → g.hasMemOpnd = false) :
    Makes src.opcode ref (logExplicit src opi) g := by
  unfold logExplicit
  split
  · exact makes_logOperand h hm
  · exact .pure h

inductive IsNested (constInsn : PseudoInsn → M Bool) : (α : Type) → M α → Prop
  | intro (p : PseudoInsn) : IsNested constInsn _ (nestedInsn constInsn p)

theorem makes_of_nested
    (hm : Uses (Prim (Event.Deeper 1) (IsNested (oneInsnGenConst 1))) NoOverflow m)
    (h : Held 0 insn ref ref g) : Makes insn ref m g := by
  refine makes_of_deep (deep_prim (fun _ h => h) (fun m hm => ?_) hm) h
  cases hm with
  | intro p => exact deep_nestedInsn (deep_oneInsnGenConst 1) p

theorem deeper_of_isOperand (e : Event) (h : e.isOperand) : e.Deeper 1 := by
  cases e <;> trivial

theorem makes_operandLoop (src : Source) (room : Nat) (opnds : List (Option SizeWord × Opnd))
    (isLabel : Bool) (h : Held 0 src.opcode ref ref g) (hm : opnds = [] → g.hasMemOpnd = false) :
    Makes src.opcode ref (operandLoop (oneInsnGenConst 1) src room opnds isLabel) g := by
  induction room generalizing opnds isLabel g with
  | zero => exact .refl g
  | succ room ih =>
    refine .bind_run rfl (Makes.bind ?_ fun _ g₁ h₁ => Makes.bind ?_ fun made g₂ h₂ => ?_)
    · refine makes_logExplicit src _ (h.of_same rfl rfl rfl rfl) fun hw => hm ?_
      exact List.eq_nil_of_length_eq_zero (Who.explicit.inj hw)
    · exact makes_of_nested
        (prim_genOperand (fun p => .prim (.nested (.intro p))) deeper_of_isOperand src) h₁
    · cases made with
      | failed => exact .pure h₂
      | done => exact .pure h₂
      | opnd size o hasLabel => exact ih _ _ h₂ fun hn => absurd hn (by simp)

theorem makes_initImpliedFrom (j : Nat) (is : List Implied) (h : Held 0 insn ref ref g) :
    Makes insn ref (initImpliedFrom (oneInsnGenConst 1) insn j is) g := by
  induction is generalizing j g with
  | nil => exact .pure h
  | cons i is ih =>
    refine .bind_run rfl (Makes.bind ?_ fun _ g₁ h₁ => Makes.bind ?_ fun _ g₂ h₂ => ih _ h₂)
    · exact makes_logOperand (h.of_same rfl rfl rfl rfl) nofun
    · exact makes_of_nested
        (prim_implied (fun p => .prim (.nested (.intro p))) deeper_of_isOperand i) h₁

theorem makes_insnOperands (src : Source) (t : Bool) (h : Held 0 src.opcode ref ref g)
    (hm : g.hasMemOpnd = false) :
    Makes src.opcode ref (insnOperands (oneInsnGenConst 1) src t) g := by
  have hset : ∀ {b : Bool} {g : Gen}, Held 0 src.opcode ref ref g →
      Makes src.opcode ref (modify fun g => { g with needInit := b } : M PUnit) g :=
    fun h => ⟨h.of_same rfl rfl rfl rfl, .refl _⟩
  refine Makes.bind (makes_operandLoop src _ _ _ h fun _ => hm) fun r g₁ h₁ => ?_
  cases r with
  | none => exact .pure h₁
  | some r =>
    refine .bind_run (run_get g₁) ?_
    dsimp only
    split
    · refine Makes.bind ?_ fun _ g₂ h₂ => makes_of_prim ?_ h₂
      · refine (hset h₁).bind fun _ _ h => Makes.bind ?_ fun _ _ h => hset h
        exact makes_initImpliedFrom 0 _ h
      · refine .bind .get fun g => ?_
        split <;> grind [Entry.isCtrl, Event.Deeper]
    · refine makes_of_prim (.bind .get fun g => ?_) h₁
      split <;> grind [Entry.isCtrl, Event.Deeper]

/-- What a walker has set when it calls `one_insn_gen`. -/
structure Fresh (insn : Opcode) (ref : Option TrvRef) (g : Gen) : Prop where
  held : Held 0 .none ref ref g
  opcode : g.opcode = .none ∨ g.opcode = insn
  hasMemOpnd : g.hasMemOpnd = false

theorem Fresh.off (h : Fresh insn ref g) (hl : OffList g g') : Fresh insn ref g' := by
  have hheld := h.held.off hl
  obtain ⟨_, _, _, _, _, _, _, rfl⟩ := hl
  exact ⟨hheld, h.opcode, h.hasMemOpnd⟩

/-- `stat_set_opcode` sets the opcode or finds it. -/
theorem Fresh.setOpcode (h : Fresh insn ref g) :
    Held 0 insn ref ref { g with opcode := if g.opcode = .none then insn else g.opcode } := by
  refine ⟨h.held.nested, fun _ => ?_, h.held.trvNodes, h.held.own⟩
  rcases h.opcode with hop | hop <;> simp [hop]

theorem OffList.owns (h : OffList g g') : Owns g g' := .of_eq h.log

theorem owns_tell {e : Event} (he : e.OwnState) : Owns g (g.tell e) := .one rfl fun _ => he

/-- `one_insn_gen` from its control transfer on. -/
theorem makes_transferred (src : Source) (h : Held 0 src.opcode ref ref g)
    (hm : g.hasMemOpnd = false) :
    Makes src.opcode ref (do
      let (label, transferred) ← callControlTransfer .insn src.opcode (-1)
      if label ≥ 0 then
        return true
      insnOperands (oneInsnGenConst 1) src transferred) g := by
  refine ((callControlTransfer_frame .insn src.opcode (-1) g).mono (fun _ _ h => h)
    fun _ _ hl => OffList.owns hl).bind ?_
  rintro ⟨label, t⟩ g' ⟨g₁, label', hl, rfl⟩
  let g₂ := g₁.tell (.transfer .insn src.opcode g.toX86PGState label' g₁.toX86PGState)
  have h₂ : Held 0 src.opcode ref ref g₂ := (h.off hl).of_same rfl rfl rfl rfl
  have howns : Owns g g₂ := hl.owns.trans (owns_tell trivial)
  have hm₂ : g₂.hasMemOpnd = false := by
    obtain ⟨_, _, _, _, _, _, _, rfl⟩ := hl
    exact hm
  change Triple (if label ≥ 0 then pure true else insnOperands (oneInsnGenConst 1) src t) g₂ _ _
  split
  · exact ⟨h₂, howns⟩
  · exact (makes_insnOperands src t h₂ hm₂).mono (fun _ _ h => ⟨h.1, howns.trans h.2⟩)
      fun _ _ h => howns.trans h

theorem makes_oneInsnGen (src : Source) (h : Fresh src.opcode ref g) :
    Makes src.opcode ref (oneInsnGen src) g := by
  have hbegin : Owns g (g.tell (.begin g.hasMemOpnd)) := owns_tell trivial
  have h₀ : Fresh src.opcode ref (g.tell (.begin g.hasMemOpnd)) :=
    ⟨h.held.of_same rfl rfl rfl rfl, h.opcode, h.hasMemOpnd⟩
  refine .bind_run (run_get g) (.bind_run rfl ?_)
  refine ((triple_list list_likelyGenLabel (g.tell (.begin g.hasMemOpnd))).mono (fun _ _ h => h)
    fun _ g₁ hl => hbegin.trans hl.owns).bind fun _ g₁ hl₁ => .bind_run rfl ?_
  have hg₁ : Owns g g₁ := hbegin.trans hl₁.owns
  have h₁ := h₀.off hl₁
  exact (makes_transferred src h₁.setOpcode h₁.hasMemOpnd).mono
    (fun _ _ h => ⟨h.1, hg₁.trans h.2⟩) fun _ _ h => hg₁.trans h

-- ---------------------------------------------------------------------------
-- Selected control transfers
-- ---------------------------------------------------------------------------

theorem likelyGenLabel_lockCtrl (g : Gen) :
    Triple likelyGenLabel g (fun _ g' => g'.lockCtrl = g.lockCtrl) fun _ g' =>
      g'.lockCtrl = g.lockCtrl := by
  have trans : ∀ g₁ g₂ g₃ : Gen, g₂.lockCtrl = g₁.lockCtrl → g₃.lockCtrl = g₂.lockCtrl →
    g₃.lockCtrl = g₁.lockCtrl := fun _ _ _ h h' => h'.trans h
  have hinsert : ∀ e, Keeps (fun g g' : Gen => g'.lockCtrl = g.lockCtrl) (fun _ => True)
      (statInsertInsn e .after) := by
    intro e g
    simp only [statInsertInsn, run_bind, run_get]
    split <;> exact ⟨rfl, fun _ _ => trivial⟩
  have hlabel : Keeps (fun g g' : Gen => g'.lockCtrl = g.lockCtrl) (fun _ => True)
      (genLabel .after) := by
    refine Keeps.bind (m := get) (fun g => ⟨rfl, fun _ _ => trivial⟩) trans fun g => ?_
    split
    · exact fun g => ⟨rfl, fun _ _ => trivial⟩
    · refine (hinsert _).bind trans fun _ => Keeps.bind ?_ trans fun _ => ?_ <;>
        exact fun g => ⟨rfl, fun _ _ => trivial⟩
  have hlikely : Keeps (fun g g' : Gen => g'.lockCtrl = g.lockCtrl) (fun _ => True)
      (likelyHappenP 100) := by
    refine (draws_likelyHappenP (P := fun _ m => Keeps _ (fun _ => True) m) ?_ 100).of_closed
      (closed_keeps (R := fun g g' : Gen => g'.lockCtrl = g.lockCtrl) (fun _ => rfl) trans
        fun _ _ => trivial) fun _ h => h
    exact fun g => ⟨rfl, fun _ _ => trivial⟩
  refine (hlikely.bind trans fun b => ?_ : Keeps _ (fun _ => True) likelyGenLabel).triple g
  split
  · exact hlabel.bind trans fun _ g => ⟨rfl, fun _ _ => trivial⟩
  · exact fun g => ⟨rfl, fun _ _ => trivial⟩

theorem told_likelyGenLabel : Keeps (Told Both) (fun _ => True) likelyGenLabel := by
  have huses : Uses (Prim (fun _ => False) fun _ _ => False) NoOverflow likelyGenLabel := by
    grind [likelyGenLabel]
  exact told_prim (fun _ h => h.elim) (fun _ h => h.elim) huses

/-- An instruction that is inserted as a control transfer has no operands. -/
theorem makes_taken (src : Source) (w : g.Labelled) (ht : g.Takes src.opcode)
    (h : Held 0 .none ref ref g) : Makes .none ref (oneInsnGen src) g := by
  have hbegin : Owns g (g.tell (.begin g.hasMemOpnd)) := owns_tell trivial
  have w₀ : (g.tell (.begin g.hasMemOpnd)).Labelled := w.tell _
  have h₀ : Held 0 .none ref ref (g.tell (.begin g.hasMemOpnd)) := h.of_same rfl rfl rfl rfl
  have hl := ((triple_list list_likelyGenLabel (g.tell (.begin g.hasMemOpnd))).and
    (likelyGenLabel_lockCtrl _)).and (told_likelyGenLabel.triple _)
  refine .bind_run (run_get g) (.bind_run rfl ?_)
  refine (hl.mono (fun _ _ h => h) fun _ g₁ hl => hbegin.trans hl.1.1.owns).bind
    fun _ g₁ ⟨⟨hl₁, hu⟩, htold⟩ => .bind_run rfl ?_
  obtain ⟨w₁, hle, -⟩ := htold w₀
  have hg₁ : Owns g g₁ := hbegin.trans hl₁.owns
  let g₂ : Gen := { g₁ with opcode := if g₁.opcode = .none then src.opcode else g₁.opcode }
  have w₂ : g₂.Labelled := ⟨⟨w₁.placed, w₁.len, w₁.pos, w₁.uniq⟩, w₁.targets⟩
  have h₂ : Held 0 .none ref ref g₂ := ⟨(h₀.off hl₁).nested, nofun, (h₀.off hl₁).trvNodes, (h₀.off hl₁).own⟩
  obtain ⟨label, g₃, e, htr, -, rfl, -, hr⟩ := callControlTransfer_run w₂.toWellLabelled .insn
    src.opcode (-1)
  have hpos : 0 ≤ label := by
    refine (htr.label_of_regular w₂ ⟨hu.trans ht.1, ?_⟩).1
    refine ht.2.imp (fun hj => ⟨hj.1, fun h0 => hj.2 ?_⟩) id
    exact Nat.le_zero.1 (Nat.le_trans hle (Nat.le_of_eq h0))
  have hl₃ := (callControlTransfer_frame .insn src.opcode (-1) g₂).run_ok hr
  obtain ⟨g₄, label', hl₄, heq⟩ := hl₃
  refine .bind_run hr ?_
  change Triple (if label ≥ 0 then pure true else insnOperands _ src _) _ _ _
  rw [if_pos hpos, heq]
  have hg₄ : Owns g₁ g₄ := .of_eq hl₄.log
  refine ⟨(h₂.off hl₄).of_same rfl rfl rfl rfl, hg₁.trans (hg₄.trans ?_)⟩
  exact owns_tell (e := .transfer _ _ _ _ _) trivial

-- ---------------------------------------------------------------------------
-- Walkers
-- ---------------------------------------------------------------------------

structure Between (g : Gen) : Prop where
  labelled : g.Labelled
  nested : g.nested = 0
  trvNodes : g.trvNodes = none

/-- Operands of walkers' instructions found the state of their instruction, if select
blocks did. -/
abbrev OwnsIf : Gen → Gen → Prop := Logs Event.Prepared Event.OwnState

theorem Owns.ownsIf (h : Owns g g') : OwnsIf g g' := h.mono (fun _ _ => trivial) fun _ h => h

/-- A run from a state as `g₀`, up to what is recorded in order. -/
def Passes (g₀ : Gen) (m : M α) (g : Gen) : Prop :=
  Triple m g (fun _ g' => (g'.nested = 0 ∧ g'.trvNodes = none) ∧ OwnsIf g₀ g') fun _ g' => OwnsIf g₀ g'

theorem Passes.bind {β : Type} {g₀ : Gen} {f : α → M β} (hm : Makes insn ref m g)
    (h : OwnsIf g₀ g)
    (hf : ∀ a g', Held 0 insn ref ref g' → OwnsIf g₀ g' → Passes g₀ (f a) g') :
    Passes g₀ (m >>= f) g :=
  (hm.mono (fun _ _ h => h) fun _ _ h' => h.trans h'.ownsIf).bind fun a g' ⟨hg', hl⟩ =>
    hf a g' hg' (h.trans hl.ownsIf)

theorem passes_of_makes {g₀ : Gen} (h : OwnsIf g₀ g) (hm : Makes insn none m g) : Passes g₀ m g :=
  hm.mono (fun _ _ h' => ⟨⟨h'.1.nested, h'.1.trvNodes⟩, h.trans h'.2.ownsIf⟩)
    fun _ _ h' => h.trans h'.ownsIf

theorem passes_off {β : Type} {g₀ g₁ : Gen} {f : α → M β}
    (hm : Triple m g (fun _ g' => OffList g₁ g') fun _ g' => OffList g₁ g') (h : OwnsIf g₀ g₁)
    (hf : ∀ a g', OffList g₁ g' → OwnsIf g₀ g' → Passes g₀ (f a) g') : Passes g₀ (m >>= f) g :=
  (hm.mono (fun _ _ h => h) fun _ _ hl => h.trans (.of_eq hl.log)).bind fun a g' hl =>
    hf a g' hl (h.trans (.of_eq hl.log))

/-- Only the labels are left to look at. -/
theorem upholds_of_passes (hw : ∀ g : Gen, g.Labelled → (m.run g).2.Labelled)
    (h : ∀ g, Between g → Passes g m g) : Upholds Between OwnsIf m := by
  intro g hg
  have h' := h g hg
  have hw' := hw g hg.labelled
  unfold Passes Triple at *
  rcases hr : m.run g with ⟨e | a, g'⟩ <;> rw [hr] at h' hw'
  · exact h'
  · exact ⟨⟨hw', h'.1.1, h'.1.2⟩, h'.2⟩

theorem labelled_of_told (ht : Keeps (Told Both) (fun _ => True) m) (w : g.Labelled) :
    (m.run g).2.Labelled :=
  ((ht g).1 w).labelled

theorem selectInsn_triple (tree : WdRoot) (g : Gen) :
    Triple (selectInsn tree) g (fun _ g' => OffList { g with own := none } g')
      fun _ g' => OffList { g with own := none } g' := by
  refine .bind_run rfl (triple_list ?_ _)
  refine .bind (draws_wdtreeSelectLeafNode .rand tree) fun n => ?_
  cases n with
  | none => exact .throw (by rintro ⟨⟩)
  | some n => exact draws_createInsnSeed .rand n.asmOp

/-- A select block. -/
theorem upholds_genSelected (blk : BlkId) (tree : WdRoot) :
    Upholds Between OwnsIf (genSelected blk tree) := by
  refine upholds_of_passes (fun g => labelled_of_told (told_walk.selected blk tree))
    fun g hg => .bind_run rfl ?_
  have hsel := (selectInsn_triple tree { g with place := 0 :: blk }).and
    (((elem_selectInsn tree).of_closed closed_told fun _ => told_elem).triple _)
  refine (hsel.mono (fun _ _ h => h) fun _ g' hl => Logs.of_eq hl.1.log).bind
    fun seed g₁ ⟨hl, ht⟩ => ?_
  let e : Event := .select seed.opcode g₁.toX86PGState
  have h₁ : Held 0 .none none none (g₁.tell e) := by
    have h : Held 0 .none none none { g with place := 0 :: blk, own := none } := ⟨hg.nested, nofun, hg.trvNodes, rfl⟩
    exact (h.off hl).of_same rfl rfl rfl rfl
  have hlog : (g₁.tell e).log = g.log ++ [e] := congrArg (· ++ [e]) hl.log
  refine .bind_run rfl ?_
  suffices h : Passes g (oneInsnGen (.seed seed)) (g₁.tell e) from Triple.bind h fun _ _ h => h
  by_cases hp : e.Prepared
  · -- the instruction finds its own state, or has no operands
    have hfirst : OwnsIf g (g₁.tell e) := .one hlog fun _ => trivial
    rcases hp with htakes | ⟨hop, hmem⟩
    · exact passes_of_makes hfirst
        (makes_taken (.seed seed) ((ht hg.labelled).labelled.tell e) htakes h₁)
    · exact passes_of_makes hfirst (makes_oneInsnGen (.seed seed) ⟨h₁, hop, hmem⟩)
  · have hany : ∀ {g'}, Deep 0 (g₁.tell e) g' → OwnsIf g g' := by
      rintro g' ⟨es, hes, -⟩
      refine ⟨e :: es, ?_, fun hq => absurd (hq e List.mem_cons_self) hp⟩
      rw [hes, hlog, List.append_assoc, List.singleton_append]
    exact (deep_oneInsnGenWith (fun _ => deep_oneInsnGenConst 1) (.seed seed) _ h₁).mono
      (fun _ _ h => ⟨⟨h.1.nested, h.1.trvNodes⟩, hany h.2⟩) fun _ _ h => hany h

theorem passes_walkGElem {g₀ : Gen} (inip : Nat) (gTree : WdRoot) (h : Held 0 .none none own g)
    (hop : g.opcode = .none) (hg : OwnsIf g₀ g) : Passes g₀ (walkGElem inip gTree) g := by
  refine passes_off (triple_list (draws_likelyHappenP .rand inip) g) hg fun b g₁ hl₁ hg₁ =>
    .bind_run rfl (passes_off (selectInsn_triple gTree _) hg₁ fun seed g₂ hl₂ hg₂ => ?_)
  have h₁ : Fresh seed.opcode none { g₁ with needInit := b, hasMemOpnd := false, own := none } := by
    obtain ⟨_, _, _, _, _, _, _, rfl⟩ := hl₁
    exact ⟨⟨h.nested, nofun, h.trvNodes, rfl⟩, .inl hop, rfl⟩
  exact Passes.bind (makes_oneInsnGen (.seed seed) (h₁.off hl₂)) hg₂ fun _ g₃ h₃ hg₃ =>
    ⟨⟨h₃.nested, h₃.trvNodes⟩, hg₃⟩

theorem passes_walkIElem {g₀ : Gen} (inip : Nat) (asmInst : PseudoInsn) (trvNodes : Option TrvRef)
    (h : g.nested = 0) (hop : g.opcode = .none) (hg : OwnsIf g₀ g) :
    Passes g₀ (walkIElem inip asmInst trvNodes) g := by
  refine passes_off (triple_list (draws_likelyHappenP .rand inip) g) hg fun b g₁ hl₁ hg₁ =>
    .bind_run rfl (.bind_run rfl ?_)
  have h₁ : Fresh asmInst.opcode trvNodes { g₁ with
      needInit := b, hasMemOpnd := false, trvNodes := trvNodes, own := trvNodes } := by
    obtain ⟨_, _, _, _, _, _, _, rfl⟩ := hl₁
    exact ⟨⟨h, nofun, rfl, rfl⟩, .inl hop, rfl⟩
  exact Passes.bind (makes_oneInsnGen (.pseudo asmInst) h₁) hg₁ fun _ g₂ h₂ hg₂ =>
    ⟨⟨h₂.nested, rfl⟩, hg₂⟩

theorem passes_walkCElem {g₀ : Gen} (cType : CType) (h : Held 0 .none none own g)
    (hg : OwnsIf g₀ g) : Passes g₀ (walkCElem cType) g := by
  have hinsert : ∀ e, Upholds (Held 0 .none none own) (Deep 1) (oneInsnGenCtrl e .after) :=
    fun e => deep_list (.prim (.insert e .after))
  have hclosed : Closed NoOverflow fun _ m => Upholds (Held 0 .none none own) (Deep 1) m := closed_deep
  have hdeep : Upholds (Held 0 .none none own) (Deep 1) (walkCElem cType) := by
    cases cType with
    | text s => exact hinsert _
    | var name =>
      refine hclosed.bind (checked_of_closed hclosed (deep_searchCurrBlk true) name) fun v => ?_
      have hfault : Upholds (Held 0 .none none own) (Deep 1)
          (throw .nullDeref : M Unit) := hclosed.throw (by rintro ⟨⟩)
      have hfatal : ∀ t, Upholds (Held 0 .none none own) (Deep 1)
          (throw (.fatal t) : M PUnit) := fun t => hclosed.throw (by rintro ⟨⟩)
      dsimp only
      cases v.varVal with
      | none =>
        split
        · exact hclosed.bind (hfatal _) fun _ => hfault
        · exact hfault
      | some o =>
        split
        · exact hclosed.bind (hfatal _) fun _ => hinsert _
        · exact hinsert _
  exact (hdeep g h).mono (fun _ _ h' => ⟨⟨h'.1.nested, h'.1.trvNodes⟩, hg.trans h'.2.owns.ownsIf⟩)
    fun _ _ h' => hg.trans h'.owns.ownsIf

/-- An element. -/
theorem upholds_walkElemBlk (blk : BlkId) (e : Elem) :
    Upholds Between OwnsIf (do setPlace blk; walkElemBlk e) := by
  refine upholds_of_passes (fun g => labelled_of_told (told_walk.elem blk e)) fun g hg => ?_
  refine .bind_run rfl (.bind_run rfl ?_)
  have hlog : OwnsIf g { g with place := blk, opcode := .none } := .of_eq rfl
  cases e with
  | g inip gTree => exact passes_walkGElem inip gTree ⟨hg.nested, nofun, hg.trvNodes, rfl⟩ rfl hlog
  | c cType => exact passes_walkCElem cType ⟨hg.nested, nofun, hg.trvNodes, rfl⟩ hlog
  | i inip asmInst trvNodes => exact passes_walkIElem inip asmInst trvNodes hg.nested rfl hlog

theorem upholds_call (op : Opcode) (times : BitVec 32) :
    Upholds Between OwnsIf (callControlTransfer .block op times) := by
  refine upholds_of_passes (fun g w => ?_) fun g hg => ?_
  · obtain ⟨label, g', e, ht, -, rfl, -, hr⟩ := callControlTransfer_run w.toWellLabelled .block op times
    rw [hr]
    exact (ht.labelled w).tell _
  · refine (callControlTransfer_frame .block op times g).mono ?_ fun _ _ hl => .of_eq hl.log
    rintro r _ ⟨g₁, label, hl, rfl⟩
    have hlog : OwnsIf g₁ (g₁.tell (.transfer .block op g.toX86PGState label g₁.toX86PGState)) :=
      .one rfl fun _ => trivial
    refine ⟨?_, (Logs.of_eq hl.log).trans hlog⟩
    obtain ⟨_, _, _, _, _, _, _, rfl⟩ := hl
    exact ⟨hg.nested, hg.trvNodes⟩

theorem upholds_leave (label : Int) :
    Upholds Between OwnsIf (do callUpdateInsertPos label; statUnlockCtrl : M Unit) := by
  refine upholds_of_passes (fun g w => (told_leave label w).labelled) fun g hg => ?_
  have hup := triple_list (.prim (.moveTo label)) (g.tell (.leave label g.labelspos.length))
  have hlog : OwnsIf g (g.tell (.leave label g.labelspos.length)) := .one rfl fun _ => trivial
  refine Triple.bind (.bind_run (run_get g) (.bind_run rfl (hup.mono (fun _ _ h => h)
    fun _ _ hl => hlog.trans (.of_eq hl.log)))) fun _ g₁ hl => ⟨?_, hlog.trans (.of_eq hl.log)⟩
  obtain ⟨_, _, _, _, _, _, _, rfl⟩ := hl
  exact ⟨hg.nested, hg.trvNodes⟩

theorem upholds_setCurrBlk (blk : BlkId) : Upholds Between OwnsIf (setCurrBlk blk) :=
  fun _ hg => ⟨⟨⟨⟨hg.labelled.placed, hg.labelled.len, hg.labelled.pos, hg.labelled.uniq⟩,
    hg.labelled.targets⟩, hg.nested, hg.trvNodes⟩, .of_eq rfl⟩

theorem upholds_blkInvalidVarAll (blk : BlkId) : Upholds Between OwnsIf (blkInvalidVarAll blk) :=
  fun _ hg => ⟨⟨hg.labelled, hg.nested, hg.trvNodes⟩, .of_eq rfl⟩

theorem ownState_walk : PartsClosed True fun _ m => Upholds Between OwnsIf m where
  closed := closed_upholds Logs.refl fun _ _ _ => Logs.trans
  prim m hm := by
    have hw : ∀ g : Gen, g.Labelled → (m.run g).2.Labelled := fun g => labelled_of_told (told_walk.prim m hm)
    cases hm with
    | invalidate blk => exact upholds_blkInvalidVarAll blk
    | traverse _ hf =>
      exact fun g hg => ⟨⟨hw g hg.labelled, (hf g).nested.trans hg.nested,
        (hf g).trvNodes.trans hg.trvNodes⟩, .of_eq (hf g).log⟩
    | reached vals walked =>
      exact fun g hg => ⟨⟨hw g hg.labelled, hg.nested, hg.trvNodes⟩,
        .one (e := .reached vals walked) rfl fun _ => trivial⟩
    | nested hm => exact hm.elim
  selected := upholds_genSelected
  elem := upholds_walkElemBlk
  enter := upholds_setCurrBlk
  ttt blk body op times hb := by
    have trans : ∀ g₁ g₂ g₃, OwnsIf g₁ g₂ → OwnsIf g₂ g₃ → OwnsIf g₁ g₃ := fun _ _ _ => Logs.trans
    exact (upholds_setCurrBlk blk).bind trans fun _ => (upholds_blkInvalidVarAll blk).bind trans
      fun _ => (upholds_call op times).bind trans fun r => hb.bind trans fun _ => upholds_leave r.1

theorem start_between (h : g.toX86PGState = initX86PGState) (hn : g.nested = 0) : Between g :=
  ⟨start_labelled h, hn, by rw [h]; rfl⟩

/-- The end of a run makes no operand. -/
theorem ownsIf_endInsnGen (g : Gen) : OwnsIf g (endInsnGen.run g).2 := by
  have huses : Uses ListPrim NoOverflow genControlTransferFinish :=
    .bind .get fun _ => .bind (.prim (.insert _ _)) fun _ => .bind (list_genLabel _) fun _ => .pure _
  have hlog : OwnsIf g (g.tell (.finish g.lockCtrl)) := .one rfl fun _ => trivial
  exact hlog.trans (.of_eq ((list_keeps huses _).1).log)

end

section
variable (rand : Nat → Fin (2 ^ 31)) (patience : Nat) (tks : String → Option TkModel)
  (instructions : Opcode → List (List OpFlags)) (vars : BlkId → List BlkVar) (blks : List Blk)

/-- In a run in which select blocks find the state as if it were set for them, every
instruction of a walker is made in a state of its own. -/
theorem instructions_own_state
    (hsel : ∀ e ∈ eventsOf blks (.start rand patience tks instructions vars), e.Prepared) :
    ∀ e ∈ eventsOf blks (.start rand patience tks instructions vars), e.OwnState := by
  let g : Gen := .start rand patience tks instructions vars
  have hwalk := ownState_walk.walkBlk [] (.seq blks) (fun _ => trivial) g (start_between rfl rfl)
  obtain ⟨es, hes, howns⟩ : OwnsIf g ((generate blks).run g).2 := by
    unfold Triple at hwalk
    rcases hr : (walkBlk [] (.seq blks)).run g with ⟨e | u, g'⟩ <;> rw [hr] at hwalk
    · rw [show (generate blks).run g = _ from run_bind_error hr]
      exact hwalk
    · rw [show (generate blks).run g = _ from run_bind_ok hr]
      exact hwalk.2.trans (ownsIf_endInsnGen g')
  have hlog : eventsOf blks g = es := hes
  rw [hlog] at hsel ⊢
  exact howns hsel

end

def oneInsn (op : Opcode) : WdRoot := ⟨1, .leaf [⟨.asmOp, 0, op, 0, 0, 0, 0⟩]⟩

/-- Two opcodes with operands: `movsx` of a word, and moves of immediates. -/
def Gen.moving : Gen := .start (fun _ => 200) 1 (fun _ => none)
  (fun op => if op = .movsx then [[regGpr ||| bits32, memory ||| bits16]]
    else [[regGpr ||| bits32, immediate ||| bits32]]) fun _ => []

/-- A select block behind an element of the same opcode, and another element. -/
def movingBlks : List Blk :=
  [.elem (.i 0 ⟨.mov, [.type (regGpr ||| bits32), .type (immediate ||| bits32)]⟩ none),
    .sel (oneInsn .mov),
    .elem (.i 0 ⟨.movsx, [.type (regGpr ||| bits32), .type (memory ||| bits16)]⟩ none)]

/-- A new operand of an instruction that no traverse is around, with the opcode that is set. -/
def Event.isMade (insn opcode : Opcode) : Event → Bool
  | .operand 0 insn' (.explicit 1) opcode' _ none none => insn' == insn && opcode' == opcode
  | _ => false

theorem Event.exists_of_isMade {insn opcode : Opcode} {e : Event} (h : e.isMade insn opcode = true) :
    ∃ hasMemOpnd, e = .operand 0 insn (.explicit 1) opcode hasMemOpnd none none := by
  unfold Event.isMade at h
  split at h
  · simp only [Bool.and_eq_true, beq_iff_eq] at h
    obtain ⟨rfl, rfl⟩ := h
    exact ⟨_, rfl⟩
  · cases h

/-- A select block that finds its own opcode. -/
def Event.isReady : Event → Bool
  | .select insn before => before.opcode == insn && !before.hasMemOpnd
  | _ => true

theorem Event.prepared_of_isReady {e : Event} (h : e.isReady = true) : e.Prepared := by
  cases e with
  | select insn before =>
    simp only [Event.isReady, Bool.and_eq_true, beq_iff_eq, Bool.not_eq_true'] at h
    exact .inr ⟨.inr h.1, h.2⟩
  | _ => trivial

theorem instructions_own_state_first :
    (∀ op ∈ [Opcode.mov, .movsx], ∃ e ∈ eventsOf movingBlks Gen.moving,
      ∃ hasMemOpnd, e = .operand 0 op (.explicit 1) op hasMemOpnd none none) ∧
      ∀ e ∈ eventsOf movingBlks Gen.moving, e.OwnState := by
  have hready : (eventsOf movingBlks Gen.moving).all Event.isReady = true := by decide +kernel
  have hmade : ∀ op ∈ [Opcode.mov, .movsx],
      (eventsOf movingBlks Gen.moving).any (Event.isMade op op) = true := by decide +kernel
  refine ⟨fun op hop => ?_, instructions_own_state _ _ _ _ _ _ fun e he => ?_⟩
  · obtain ⟨e, he, hm⟩ := List.any_eq_true.1 (hmade op hop)
    exact ⟨e, he, Event.exists_of_isMade hm⟩
  · exact Event.prepared_of_isReady (List.all_eq_true.1 hready e he)

/-- A select block behind an element of another opcode: the operands of `movsx` are made as
if it were `mov`, and get no size keywords. -/
theorem selected_insn_stale_opcode :
    ¬ ∀ e ∈ eventsOf [.elem (.i 0 ⟨.mov, [.reg .eax, .imm 1]⟩ none), .sel (oneInsn .movsx)]
      Gen.moving, e.OwnState := by
  intro h
  have hmade : (eventsOf [.elem (.i 0 ⟨.mov, [.reg .eax, .imm 1]⟩ none), .sel (oneInsn .movsx)]
      Gen.moving).any (Event.isMade .movsx .mov) = true := by decide +kernel
  obtain ⟨e, he, hm⟩ := List.any_eq_true.1 hmade
  obtain ⟨hasMemOpnd, rfl⟩ := Event.exists_of_isMade hm
  have hop : Opcode.mov = .movsx := (h _ he).1 (by decide)
  cases hop

end Btrtg
