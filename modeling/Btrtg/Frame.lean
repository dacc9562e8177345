import Btrtg.Tmplt

/-!
# What the generator is put together from

The functions below the blocks, taken apart into the few programs that they
share. What a run of one of them leaves alone is then a property of those.
-/

namespace Btrtg

open Prog

/-- The faults of the functions that do no arithmetic on `int` and `long`. -/
def NoOverflow (e : Fault) : Prop := e ≠ .intOverflow

-- ---------------------------------------------------------------------------
-- Rules
-- ---------------------------------------------------------------------------

section
variable {P : (α : Type) → M α → Prop} {E : Fault → Prop} {α β : Type}

@[grind ←] theorem uses_bind {m : M α} {f : α → M β} (h : Uses P E m) (hf : ∀ a, Uses P E (f a)) :
    Uses P E (m >>= f) := .bind h hf

@[grind ←] theorem uses_pure (a : α) : Uses P E (pure a : M α) := .pure a

@[grind ←] theorem uses_get : Uses P E (get : M Gen) := .get

@[grind ←] theorem uses_throw {e : Fault} (h : e ≠ .intOverflow) :
    Uses P NoOverflow (throw e : M α) := .throw h

end

-- ---------------------------------------------------------------------------
-- Draws
-- ---------------------------------------------------------------------------

section
variable {P : (α : Type) → M α → Prop}

@[grind ←] theorem draws_regRandomRange (flags : OpFlags) :
    Uses P NoOverflow (regRandomRange flags) := by
  grind [regRandomRange]

variable (hrand : P _ rand)
include hrand

@[grind ←] theorem draws_rand : Uses P NoOverflow rand := .prim hrand

@[grind ←] theorem draws_nasmRandom32 (bound : Nat) :
    Uses P NoOverflow (nasmRandom32 bound) := by
  grind [nasmRandom32]

@[grind ←] theorem draws_nasmRandom64 (bound : Nat) :
    Uses P NoOverflow (nasmRandom64 bound) := by
  grind [nasmRandom64]

@[grind ←] theorem draws_likelyHappenP (pivot : Nat) :
    Uses P NoOverflow (likelyHappenP pivot) := by
  grind [likelyHappenP]

@[grind ←] theorem draws_drawUnlocked (regs : List Reg) (n patience : Nat) :
    Uses P NoOverflow (drawUnlocked regs n patience) := by
  induction patience with
  | zero => grind [drawUnlocked]
  | succ patience ih => grind [drawUnlocked]

@[grind ←] theorem draws_createInsnSeed (opcode : Opcode) :
    Uses P NoOverflow (createInsnSeed opcode) := by
  grind [createInsnSeed]

@[grind ←] theorem draws_selectSubtree (weights : List Int) (len : Nat) :
    Uses P NoOverflow (selectSubtree weights len) := by
  grind [selectSubtree]

omit hrand in
theorem draws_selectAt {ns : List WdNode}
    (h : ∀ n ∈ ns, Uses P NoOverflow (wdtreeSelectLeafNodeRecursive n)) (i : Nat) :
    Uses P NoOverflow (selectAt ns i) := by
  induction ns generalizing i with
  | nil => grind [selectAt]
  | cons n ns ih => cases i <;> grind [selectAt]

theorem draws_selectLeaf (n : WdNode) : Uses P NoOverflow (wdtreeSelectLeafNodeRecursive n) := by
  cases n with
  | leaf cs => grind [wdtreeSelectLeafNodeRecursive]
  | inner weights subs =>
    have h := draws_selectAt fun n (_ : n ∈ subs) => draws_selectLeaf n
    grind [wdtreeSelectLeafNodeRecursive]

@[grind ←] theorem draws_wdtreeSelectLeafNode (tree : WdRoot) :
    Uses P NoOverflow (wdtreeSelectLeafNode tree) := draws_selectLeaf hrand _

@[grind ←] theorem draws_selectPacked (tree : WdRoot) (n : Nat) : Uses P NoOverflow (selectPacked tree n) := by
  induction n with
  | zero => grind [selectPacked]
  | succ n ih => grind [selectPacked]

@[grind ←] theorem draws_createFileRegister (file : Fin 8 → Reg) (flags : OpFlags) :
    Uses P NoOverflow (createFileRegister file flags) := by
  grind [createFileRegister]

@[grind ←] theorem draws_createGprRegister (flags : OpFlags) :
    Uses P NoOverflow (createGprRegister flags) := by
  grind [createGprRegister]

@[grind ←] theorem draws_createSegmentRegister : Uses P NoOverflow createSegmentRegister := by
  grind [createSegmentRegister]

@[grind ←] theorem draws_createFpuRegister (flags : OpFlags) : Uses P NoOverflow (createFpuRegister flags) :=
  draws_createFileRegister hrand _ flags

@[grind ←] theorem draws_createMmxRegister (flags : OpFlags) : Uses P NoOverflow (createMmxRegister flags) :=
  draws_createFileRegister hrand _ flags

@[grind ←] theorem draws_createXmmRegister (flags : OpFlags) : Uses P NoOverflow (createXmmRegister flags) :=
  draws_createFileRegister hrand _ flags

@[grind ←] theorem draws_genRegister (flags : OpFlags) :
    Uses P NoOverflow (genRegister flags) := by
  grind [genRegister]

@[grind ←] theorem draws_createUnity (flags : OpFlags) :
    Uses P NoOverflow (createUnity flags) := by
  grind [createUnity]

@[grind ←] theorem draws_createSbyteword : Uses P NoOverflow createSbyteword := by
  grind [createSbyteword]

@[grind ←] theorem draws_createSbytedword : Uses P NoOverflow createSbytedword := by
  grind [createSbytedword]

@[grind ←] theorem draws_createImmediate (flags : OpFlags) :
    Uses P NoOverflow (createImmediate flags) := by
  grind [createImmediate]

@[grind ←] theorem draws_drawNonzero (bound patience : Nat) :
    Uses P NoOverflow (drawNonzero bound patience) := by
  induction patience with
  | zero => grind [drawNonzero]
  | succ patience ih => grind [drawNonzero]

@[grind ←] theorem draws_randomMemAddrFromData (mode : SibMode) :
    Uses P NoOverflow (randomMemAddrFromData mode) := by
  unfold randomMemAddrFromData
  refine .bind (draws_nasmRandom32 hrand _) fun base => .bind (draws_nasmRandom32 hrand _) fun s => ?_
  refine .bind .get fun g => ?_
  grind

end

-- ---------------------------------------------------------------------------
-- Requests
-- ---------------------------------------------------------------------------

def Event.isOperand : Event → Bool
  | .request .. | .selected .. | .begin _ | .modrm _ | .reuse .. => true
  | _ => false

section
variable {P : (α : Type) → M α → Prop}

@[local grind ←] theorem requests_trvValNodes (ref : TrvRef) (opi : Nat) :
    Uses P NoOverflow (trvValNodes ref opi) := by
  grind [trvValNodes]

@[local grind ←] theorem requests_tkTreeFor (asmOp : String) (opi : Nat) :
    Uses P NoOverflow (tkTreeFor asmOp opi) := by
  grind [tkTreeFor]

variable (hrec : ∀ e : Event, e.isOperand → Uses P NoOverflow (record e))
include hrec

@[local grind ←] theorem requests_logRequest (trv packed : Bool) (opi : Nat) :
    Uses P NoOverflow (logRequest trv packed opi) := .bind .get fun _ => hrec _ rfl

@[local grind ←] theorem requests_logSelected (c : ConstNode) : Uses P NoOverflow (logSelected c) :=
  .bind .get fun _ => hrec _ rfl

theorem requests_requestTrvNode (opi : Nat) : Uses P NoOverflow (requestTrvNode opi) := by
  unfold requestTrvNode
  refine .bind .get fun g => ?_
  split
  · exact .pure _
  · refine .bind (requests_logRequest hrec ..) fun _ => ?_
    grind

theorem requests_requestPackedTrvNode (opi : Nat) :
    Uses P NoOverflow (requestPackedTrvNode opi) := by
  have := hrec
  grind [requestPackedTrvNode]

variable (hrand : P _ rand)
include hrand

theorem requests_requestValNode (asmOp : String) (opi : Nat) :
    Uses P NoOverflow (requestValNode asmOp opi) := by
  unfold requestValNode
  refine .bind (requests_logRequest hrec ..) fun _ => .bind (requests_tkTreeFor ..) fun tree => ?_
  grind

theorem requests_requestPackedValNode (asmOp : String) (opi : Nat) :
    Uses P NoOverflow (requestPackedValNode asmOp opi) := by
  have := hrec
  grind [requestPackedValNode]

theorem requests_requestNode : Uses P NoOverflow requestNode := by
  refine .bind .get fun g => .bind (requests_requestTrvNode hrec g.opi) fun c => ?_
  split
  · exact .pure _
  · exact requests_requestValNode hrec hrand ..

theorem requests_requestPackedNodes : Uses P NoOverflow requestPackedNodes := by
  refine .bind .get fun g => .bind (requests_requestPackedTrvNode hrec g.opi) fun cs => ?_
  split
  · exact .pure _
  · exact requests_requestPackedValNode hrec hrand ..

end

-- ---------------------------------------------------------------------------
-- Constants and set-up texts
-- ---------------------------------------------------------------------------

/-- The programs of an initialisation but for its nested instruction. -/
inductive Pick : (α : Type) → M α → Prop
  | rand : Pick _ rand
  | node : Pick _ requestNode
  | packedNodes : Pick _ requestPackedNodes
  | lines (ls : List Line) : Pick _ (oneInsnGenCtrl (.lines ls) .after)

abbrev Picks {α : Type} (m : M α) : Prop := Uses Pick NoOverflow m

section
variable {α : Type}

attribute [grind ←] Pick.rand

@[grind ←] theorem picks_requestNode : Picks requestNode := .prim .node

@[grind ←] theorem picks_requestPackedNodes : Picks requestPackedNodes := .prim .packedNodes

@[grind ←] theorem picks_genText (ls : Option (List Line)) : Picks (genText ls) := by
  cases ls with
  | none => grind [genText]
  | some ls => exact .prim (.lines ls)

end

@[grind ←] theorem picks_initImmediateOpnd (flags : OpFlags) : Picks (initImmediateOpnd flags) := by
  grind [initImmediateOpnd]

@[grind ←] theorem picks_genImmediate (flags : OpFlags) : Picks (genImmediate flags) := by
  grind [genImmediate]

@[grind ←] theorem picks_initMemoryOpndInt (m : ModRM) (flags : OpFlags) (v : Option ConstNode) :
    Picks (initMemoryOpndInt m flags v) := by
  cases v <;> grind [initMemoryOpndInt]

@[grind ←] theorem picks_initMemoryOpnd (m : ModRM) (flags : OpFlags) :
    Picks (initMemoryOpnd m flags) := by
  grind [initMemoryOpnd, initMemoryOpndFloat, initMemoryOpndX87env, initMemoryOpndImm64,
    initMemoryOpndBcd80]

@[grind ←] theorem picks_initFpuRegisterOpnd (r : Reg) : Picks (initFpuRegisterOpnd r) := by
  grind [initFpuRegisterOpnd]

@[grind ←] theorem picks_initPopf : Picks initPopf := by
  grind [initPopf]

-- ---------------------------------------------------------------------------
-- The list
-- ---------------------------------------------------------------------------

/-- Only the list, its labels and the locks may change. -/
def OffList (g g' : Gen) : Prop :=
  ∃ l p n ls c r i, g' = { g with
    instlist := l, insertpos := p, labeli := n, labelspos := ls, lockCtrl := c,
    lockRegCases := r, randi := i }

theorem OffList.refl (g : Gen) : OffList g g := ⟨_, _, _, _, _, _, _, rfl⟩

theorem OffList.trans {g₁ g₂ g₃ : Gen} (h : OffList g₁ g₂) (h' : OffList g₂ g₃) : OffList g₁ g₃ := by
  obtain ⟨_, _, _, _, _, _, _, rfl⟩ := h
  obtain ⟨_, _, _, _, _, _, _, rfl⟩ := h'
  exact ⟨_, _, _, _, _, _, _, rfl⟩

theorem OffList.log {g₁ g₂ : Gen} (h : OffList g₁ g₂) : g₂.log = g₁.log := by
  obtain ⟨_, _, _, _, _, _, _, rfl⟩ := h
  rfl

inductive ListPrim : (α : Type) → M α → Prop
  | rand : ListPrim _ rand
  | modify {f : Gen → Gen} : (∀ g, OffList g (f g)) → ListPrim _ (modify f)
  | insert (e : Entry) (pos : Position) : ListPrim _ (statInsertInsn e pos)
  | moveTo (label : Int) : ListPrim _ (updateInsertPosToLabel label)

section
variable {α : Type}

theorem ListPrim.keeps {m : M α} (h : ListPrim α m) : Keeps OffList NoOverflow m := by
  intro g
  cases h with
  | rand => exact ⟨⟨_, _, _, _, _, _, _, rfl⟩, nofun⟩
  | modify hf => exact ⟨hf g, nofun⟩
  | insert e pos =>
    simp only [statInsertInsn, run_bind, run_get]
    split <;> exact ⟨⟨_, _, _, _, _, _, _, rfl⟩, by simp [NoOverflow]⟩
  | moveTo label =>
    simp only [updateInsertPosToLabel, run_bind, run_get]
    cases label with
    | ofNat n =>
      dsimp only
      split <;> exact ⟨⟨_, _, _, _, _, _, _, rfl⟩, by simp [NoOverflow]⟩
    | negSucc n => exact ⟨⟨_, _, _, _, _, _, _, rfl⟩, by simp [NoOverflow]⟩

theorem list_keeps {m : M α} (h : Uses ListPrim NoOverflow m) : Keeps OffList NoOverflow m :=
  h.keeps OffList.refl (fun _ _ _ => OffList.trans) fun _ hm => hm.keeps

theorem triple_list {m : M α} (h : Uses ListPrim NoOverflow m) (g : Gen) :
    Triple m g (fun _ g' => OffList g g') fun _ g' => OffList g g' :=
  (list_keeps h).triple g

attribute [local grind ←] ListPrim.rand

@[local grind ←] theorem list_modify {f : Gen → Gen} (h : ∀ g, OffList g (f g)) :
    Uses ListPrim NoOverflow (modify f : M PUnit) := .prim (.modify h)

@[local grind ←] theorem list_insert (e : Entry) (pos : Position) :
    Uses ListPrim NoOverflow (oneInsnGenCtrl e pos) := .prim (.insert e pos)

@[local grind ←] theorem list_genLabel (pos : Position) : Uses ListPrim NoOverflow (genLabel pos) := by
  unfold genLabel
  repeat' first | with_reducible refine .bind ?_ fun _ => ?_ | split | dsimp only
  all_goals first | grind | exact list_modify fun g => ⟨_, _, _, _, _, _, _, rfl⟩

@[local grind ←] theorem list_moveTo (label : Int) :
    Uses ListPrim NoOverflow (updateInsertPosToLabel label) := .prim (.moveTo label)

@[local grind ←] theorem list_statLockCtrl : Uses ListPrim NoOverflow statLockCtrl :=
  list_modify fun _ => ⟨_, _, _, _, _, _, _, rfl⟩

@[local grind ←] theorem list_statLockReg (reg : Reg) (c : LockRegCase) :
    Uses ListPrim NoOverflow (statLockReg reg c) :=
  list_modify fun _ => ⟨_, _, _, _, _, _, _, rfl⟩

theorem list_likelyGenLabel : Uses ListPrim NoOverflow likelyGenLabel := by
  grind [likelyGenLabel]

theorem list_genControlTransferInsn (op : Opcode) (times : BitVec 32) :
    Uses ListPrim NoOverflow (genControlTransferInsn op times) := by
  unfold genControlTransferInsn
  repeat' first | with_reducible refine .bind ?_ fun _ => ?_ | split | dsimp only
  all_goals grind [selectOneLabel, genJmpToLabel]

/-- A recorded call changes the list, and records itself when it returns. -/
theorem callControlTransfer_frame (caller : Caller) (op : Opcode) (times : BitVec 32) (g : Gen) :
    Triple (callControlTransfer caller op times) g
      (fun _ g' => ∃ g₁ label, OffList g g₁ ∧ g' = { g₁ with
        log := g₁.log ++ [.transfer caller op g.toX86PGState label g₁.toX86PGState] })
      fun _ g' => OffList g g' := by
  have h := (list_keeps (list_genControlTransferInsn op times) g).1
  unfold Triple
  rcases hr : (genControlTransferInsn op times).run g with ⟨e | label, g₁⟩ <;> rw [hr] at h
  · simp only [callControlTransfer, run_bind, run_get, hr]
    exact h
  · simp only [callControlTransfer, run_bind, run_get, hr]
    exact ⟨g₁, label, h, rfl⟩

end

-- ---------------------------------------------------------------------------
-- What is recorded
-- ---------------------------------------------------------------------------

/-- What was recorded in between has `P`, if all of it has `Q`. -/
def Logs (Q P : Event → Prop) (g g' : Gen) : Prop :=
  ∃ es, g'.log = g.log ++ es ∧ ((∀ e ∈ es, Q e) → ∀ e ∈ es, P e)

section
variable {Q P : Event → Prop} {g g' g₁ g₂ : Gen}

theorem Logs.of_eq (h : g'.log = g.log) : Logs Q P g g' :=
  ⟨[], by simpa using h, fun _ => List.forall_mem_nil _⟩

theorem Logs.refl (g : Gen) : Logs Q P g g := .of_eq rfl

theorem Logs.one {e : Event} (h : g'.log = g.log ++ [e]) (he : Q e → P e) : Logs Q P g g' :=
  ⟨[e], h, by simpa using he⟩

theorem Logs.trans (h₁ : Logs Q P g g₁) (h₂ : Logs Q P g₁ g₂) : Logs Q P g g₂ := by
  obtain ⟨es₁, hlog₁, hp₁⟩ := h₁
  obtain ⟨es₂, hlog₂, hp₂⟩ := h₂
  refine ⟨es₁ ++ es₂, by rw [hlog₂, hlog₁, List.append_assoc], fun hq => ?_⟩
  obtain ⟨hq₁, hq₂⟩ := List.forall_mem_append.1 hq
  exact List.forall_mem_append.2 ⟨hp₁ hq₁, hp₂ hq₂⟩

theorem Logs.mono {Q' P' : Event → Prop} (h : Logs Q P g g') (hq : ∀ e, Q' e → Q e)
    (hp : ∀ e, P e → P' e) : Logs Q' P' g g' := by
  obtain ⟨es, hlog, hes⟩ := h
  exact ⟨es, hlog, fun h e he => hp e (hes (fun e he => hq e (h e he)) e he)⟩

end

-- ---------------------------------------------------------------------------
-- Instructions
-- ---------------------------------------------------------------------------

/-- Neither the list with its labels nor a lock nor a traverse is touched. -/
structure Quiet (g g' : Gen) : Prop where
  instlist : g'.instlist = g.instlist
  insertpos : g'.insertpos = g.insertpos
  labeli : g'.labeli = g.labeli
  labelspos : g'.labelspos = g.labelspos
  lockCtrl : g'.lockCtrl = g.lockCtrl
  lockRegCases : g'.lockRegCases = g.lockRegCases
  trvArrays : g'.trvArrays = g.trvArrays
  valArrays : g'.valArrays = g.valArrays
  nextVal : g'.nextVal = g.nextVal
  trvStep : g'.trvStep = g.trvStep
  trvIndex : g'.trvIndex = g.trvIndex
  log : g'.log = g.log

/-- What belongs to the element that is walked is not touched either. -/
structure Still (g g' : Gen) : Prop extends Quiet g g' where
  currBlk : g'.currBlk = g.currBlk
  opcode : g'.opcode = g.opcode
  trvNodes : g'.trvNodes = g.trvNodes
  vars : g'.vars = g.vars
  place : g'.place = g.place
  own : g'.own = g.own
  nested : g'.nested = g.nested

/-- `create_random_modrm` may lock a register for as long as it runs. -/
structure Locking (g g' : Gen) : Prop where
  instlist : g'.instlist = g.instlist
  insertpos : g'.insertpos = g.insertpos
  labeli : g'.labeli = g.labeli
  labelspos : g'.labelspos = g.labelspos
  lockCtrl : g'.lockCtrl = g.lockCtrl
  trvArrays : g'.trvArrays = g.trvArrays
  valArrays : g'.valArrays = g.valArrays
  nextVal : g'.nextVal = g.nextVal
  trvStep : g'.trvStep = g.trvStep
  trvIndex : g'.trvIndex = g.trvIndex
  currBlk : g'.currBlk = g.currBlk
  opcode : g'.opcode = g.opcode
  trvNodes : g'.trvNodes = g.trvNodes
  vars : g'.vars = g.vars
  place : g'.place = g.place
  own : g'.own = g.own
  nested : g'.nested = g.nested
  log : g'.log = g.log

inductive ModrmPrim : (α : Type) → M α → Prop
  | rand : ModrmPrim _ rand
  | modify {f : Gen → Gen} : (∀ g, Locking g (f g)) → ModrmPrim _ (modify f)
  | record (hasMemOpnd : Bool) : ModrmPrim _ (record (.modrm hasMemOpnd))

theorem modrm_createRandomModrm (flags : OpFlags) :
    Uses ModrmPrim NoOverflow (createRandomModrm flags) := by
  have hmodify : ∀ {f : Gen → Gen}, (∀ g, Locking g (f g)) →
      Uses ModrmPrim NoOverflow (modify f : M PUnit) := fun h => .prim (.modify h)
  have hrecord : ∀ b, Uses ModrmPrim NoOverflow (record (.modrm b)) := fun b => .prim (.record b)
  have hrand : ModrmPrim _ rand := .rand
  unfold createRandomModrm statLockReg statUnlockReg
  repeat' first | with_reducible refine .bind ?_ fun _ => ?_ | split
  all_goals grind [Locking]

/-- `stat_set_opcode` in `one_insn_gen`: only where there is none. -/
def setOpcode (opcode : Opcode) : M Unit :=
  modify fun g => { g with opcode := if g.opcode = .none then opcode else g.opcode }

/-- The programs of `one_insn_gen`; `ev` holds of what is recorded, and `nested` of the
programs that are taken as they are. -/
inductive Prim (ev : Event → Prop) (nested : (α : Type) → M α → Prop) : (α : Type) → M α → Prop
  | rand : Prim ev nested _ rand
  | modify {f : Gen → Gen} : (∀ g, Still g (f g)) → Prim ev nested _ (modify f)
  | setOpcode (opcode : Opcode) : Prim ev nested _ (setOpcode opcode)
  | setVar (blk : BlkId) (i : Nat) {f : BlkVar → BlkVar} : (∀ v, (f v).name = v.name) →
      Prim ev nested _ (setVar blk i f)
  | modrm (flags : OpFlags) : Prim ev nested _ (createRandomModrm flags)
  | seed (o : PseudoOpnd) : Prim ev nested _ (createOpndSeed o)
  | record {e : Event} : ev e → Prim ev nested _ (record e)
  | insert {e : Entry} : e.isCtrl = false → Prim ev nested _ (statInsertInsn e .after)
  | label : Prim ev nested _ (genLabel .after)
  | transfer (op : Opcode) : Prim ev nested _ (callControlTransfer .insn op (-1))
  | nested {α : Type} {m : M α} : nested α m → Prim ev nested α m

theorem seed_of_closed {K : (α : Type) → M α → Prop} (h : Closed NoOverflow K)
    (hs : ∀ name, K _ (searchCurrBlk false name)) (o : PseudoOpnd) : K _ (createOpndSeed o) := by
  cases o with
  | var name =>
    refine h.bind (hs name) fun r => ?_
    cases r with
    | none => exact h.throw nofun
    | some r => exact h.pure _
  | type | reg | imm => exact h.pure _

theorem nested_of_closed {E : Fault → Prop} {K : (α : Type) → M α → Prop} (h : Closed E K)
    (hset : ∀ n, K Unit (setNested n)) {constInsn : PseudoInsn → M Bool}
    (hc : ∀ p, K Bool (constInsn p)) (p : PseudoInsn) : K Unit (nestedInsn constInsn p) :=
  h.bind h.get fun g => h.bind (hset (g.nested + 1)) fun _ => h.bind (hc p) fun _ => hset g.nested

/-- What is said of an instruction and of the ones nested in it. -/
inductive IsInsn (constInsn : PseudoInsn → M Bool) : (α : Type) → M α → Prop
  | const (p : PseudoInsn) : IsInsn constInsn _ (nestedInsn constInsn p)
  | operand (insn : Opcode) : IsInsn constInsn _ (logOperand insn)

section
variable {ev : Event → Prop} {nested : (α : Type) → M α → Prop} {α : Type}

attribute [grind ←] Prim.rand

@[grind ←] theorem prim_createOpndSeed (o : PseudoOpnd) :
    Uses (Prim ev nested) NoOverflow (createOpndSeed o) := .prim (.seed o)

@[grind ←] theorem prim_modify {f : Gen → Gen} (h : ∀ g, Still g (f g)) :
    Uses (Prim ev nested) NoOverflow (modify f : M PUnit) := .prim (.modify h)

@[grind ←] theorem prim_setOpcode (opcode : Opcode) :
    Uses (Prim ev nested) NoOverflow (setOpcode opcode) := .prim (.setOpcode opcode)

@[grind ←] theorem prim_setVar (blk : BlkId) (i : Nat) {f : BlkVar → BlkVar}
    (hf : ∀ v, (f v).name = v.name) : Uses (Prim ev nested) NoOverflow (setVar blk i f) :=
  .prim (.setVar blk i hf)

theorem prim_setOpcode' (opcode : Opcode) :
    Uses (Prim ev nested) NoOverflow (modify fun g : Gen =>
      { g with opcode := if g.opcode = .none then opcode else g.opcode } : M PUnit) :=
  prim_setOpcode opcode

@[grind ←] theorem prim_createRandomModrm (flags : OpFlags) :
    Uses (Prim ev nested) NoOverflow (createRandomModrm flags) := .prim (.modrm flags)

@[grind ←] theorem prim_record {e : Event} (h : ev e) : Uses (Prim ev nested) NoOverflow (record e) :=
  .prim (.record h)

@[grind ←] theorem prim_insert {e : Entry} (h : e.isCtrl = false) :
    Uses (Prim ev nested) NoOverflow (statInsertInsn e .after) := .prim (.insert h)

@[grind ←] theorem prim_insertCtrl {e : Entry} (h : e.isCtrl = false) :
    Uses (Prim ev nested) NoOverflow (oneInsnGenCtrl e .after) := .prim (.insert h)

@[grind ←] theorem prim_lines (ls : List Line) :
    Uses (Prim ev nested) NoOverflow (oneInsnGenCtrl (.lines ls) .after) := prim_insertCtrl rfl

@[grind ←] theorem prim_check (cType : String) :
    Uses (Prim ev nested) NoOverflow (oneInsnGenCtrl (.check cType) .after) := prim_insertCtrl rfl

@[grind ←] theorem prim_genLabel : Uses (Prim ev nested) NoOverflow (genLabel .after) := .prim .label

@[grind ←] theorem prim_callControlTransfer (op : Opcode) :
    Uses (Prim ev nested) NoOverflow (callControlTransfer .insn op (-1)) := .prim (.transfer op)

variable (hev : ∀ e : Event, e.isOperand → ev e)
include hev

@[grind ←] theorem prim_requestNode : Uses (Prim ev nested) NoOverflow requestNode :=
  requests_requestNode (fun _ he => prim_record (hev _ he)) .rand

@[grind ←] theorem prim_requestPackedNodes : Uses (Prim ev nested) NoOverflow requestPackedNodes :=
  requests_requestPackedNodes (fun _ he => prim_record (hev _ he)) .rand

theorem prim_of_picks {m : M α} (h : Picks m) : Uses (Prim ev nested) NoOverflow m := by
  refine h.mono (fun _ h => ?_) fun _ h => h
  cases h with
  | rand => exact .prim .rand
  | node => exact prim_requestNode hev
  | packedNodes => exact prim_requestPackedNodes hev
  | lines ls => exact .prim (.insert rfl)

@[grind ←] theorem prim_genText (ls : Option (List Line)) :
    Uses (Prim ev nested) NoOverflow (genText ls) := prim_of_picks hev (picks_genText ls)

@[grind ←] theorem prim_genImmediate (flags : OpFlags) :
    Uses (Prim ev nested) NoOverflow (genImmediate flags) := prim_of_picks hev (picks_genImmediate flags)

@[grind ←] theorem prim_initMemoryOpnd (m : ModRM) (flags : OpFlags) :
    Uses (Prim ev nested) NoOverflow (initMemoryOpnd m flags) :=
  prim_of_picks hev (picks_initMemoryOpnd m flags)

@[grind ←] theorem prim_initFpuRegisterOpnd (r : Reg) :
    Uses (Prim ev nested) NoOverflow (initFpuRegisterOpnd r) :=
  prim_of_picks hev (picks_initFpuRegisterOpnd r)

@[grind ←] theorem prim_initPopf : Uses (Prim ev nested) NoOverflow initPopf :=
  prim_of_picks hev picks_initPopf

@[grind ←] theorem prim_genOperandInternal (flags : OpFlags) :
    Uses (Prim ev nested) NoOverflow (genOperandInternal flags) := by
  unfold genOperandInternal genRegMem createMemory
  repeat' first | with_reducible refine .bind ?_ fun _ => ?_ | split
  all_goals grind

end

-- ---------------------------------------------------------------------------
-- Operands
-- ---------------------------------------------------------------------------

section
variable {ev : Event → Prop} {nested : (α : Type) → M α → Prop} {constInsn : PseudoInsn → M Bool}
  (hc : ∀ p, Uses (Prim ev nested) NoOverflow (nestedInsn constInsn p))
include hc

@[grind ←] theorem prim_movConst (r : Reg) (v : Option ConstNode) :
    Uses (Prim ev nested) NoOverflow (movConst constInsn r v) := by
  cases v <;> grind [movConst]

variable (hev : ∀ e : Event, e.isOperand → ev e)
include hev

@[grind ←] theorem prim_initOpnd (o : Opnd) (flags : OpFlags)
    (varAddr : Option (Option (List Line))) :
    Uses (Prim ev nested) NoOverflow (initOpnd constInsn o flags varAddr) := by
  unfold initOpnd initRegisterOpnd
  repeat' first | with_reducible refine .bind ?_ fun _ => ?_ | split
  all_goals grind [Still, Quiet]

@[grind ←] theorem prim_initSpecificRegister (r : Reg) :
    Uses (Prim ev nested) NoOverflow (initSpecificRegister constInsn r) := by
  unfold initSpecificRegister
  repeat' first | with_reducible refine .bind ?_ fun _ => ?_ | split
  all_goals grind [Still, Quiet]

theorem prim_implied (i : Implied) : Uses (Prim ev nested) NoOverflow (i.init constInsn) := by
  cases i <;> grind [Implied.init]

@[grind ←] theorem prim_genOperand (src : Source) :
    Uses (Prim ev nested) NoOverflow (genOperand constInsn src) := by
  have hreuse : ∀ v b ls, ev (.reuse v b ls) := fun _ _ _ => hev _ rfl
  cases src with
  | seed s =>
    unfold genOperand genOperandInsnSeed
    repeat' first | with_reducible refine .bind ?_ fun _ => ?_ | split
    all_goals grind
  | pseudo p =>
    unfold genOperand genOperandPseudoCode
    repeat' first | with_reducible refine .bind ?_ fun _ => ?_ | split | dsimp only
    all_goals grind [Still, Quiet]

end

-- ---------------------------------------------------------------------------
-- Whole instructions
-- ---------------------------------------------------------------------------

section
variable {ev : Event → Prop} {constInsn : PseudoInsn → M Bool}

theorem prim_nestedInsn (p : PseudoInsn) :
    Uses (Prim ev (IsInsn constInsn)) NoOverflow (nestedInsn constInsn p) :=
  .prim (.nested (.const p))

theorem prim_logOperand (insn : Opcode) :
    Uses (Prim ev (IsInsn constInsn)) NoOverflow (logOperand insn) :=
  .prim (.nested (.operand insn))

theorem prim_logExplicit (src : Source) (opi : Nat) :
    Uses (Prim ev (IsInsn constInsn)) NoOverflow (logExplicit src opi) := by
  unfold logExplicit
  split
  · exact prim_logOperand _
  · exact .pure _

variable (hev : ∀ e : Event, e.isOperand → ev e)
include hev

theorem prim_initImpliedFrom (opcode : Opcode) (j : Nat) (is : List Implied) :
    Uses (Prim ev (IsInsn constInsn)) NoOverflow (initImpliedFrom constInsn opcode j is) := by
  induction is generalizing j with
  | nil => exact .pure _
  | cons i is ih =>
    refine .bind (prim_modify fun g => ?_) fun _ => .bind (prim_logOperand opcode) fun _ =>
      .bind (prim_implied prim_nestedInsn hev i) fun _ => ih (j + 1)
    grind [Still, Quiet]

@[grind ←] theorem prim_initImpliedOperands (opcode : Opcode)
    (opnds : List (Option SizeWord × Opnd)) :
    Uses (Prim ev (IsInsn constInsn)) NoOverflow (initImpliedOperands constInsn opcode opnds) := by
  have := @prim_initImpliedFrom ev constInsn hev
  grind [initImpliedOperands, Still, Quiet]

theorem prim_operandLoop (src : Source) (room : Nat) (opnds : List (Option SizeWord × Opnd))
    (isLabel : Bool) : Uses (Prim ev (IsInsn constInsn)) NoOverflow (operandLoop constInsn src room opnds isLabel) := by
  induction room generalizing opnds isLabel with
  | zero => exact .throw nofun
  | succ room ih =>
    refine .bind (prim_modify fun g => ?_) fun _ => .bind (prim_logExplicit src _) fun _ =>
      .bind (prim_genOperand prim_nestedInsn hev src) fun made => ?_
    · grind [Still, Quiet]
    · cases made with
      | failed => exact .pure _
      | done => exact .pure _
      | opnd size o hasLabel => exact ih _ _

theorem prim_insnOperands (src : Source) {transferred : Bool}
    (hemit : ∀ opnds isLabel setup, ev (.emit ⟨src.opcode, opnds, isLabel⟩ setup transferred)) :
    Uses (Prim ev (IsInsn constInsn)) NoOverflow (insnOperands constInsn src transferred) := by
  have := @prim_operandLoop ev constInsn hev
  unfold insnOperands
  repeat' first | with_reducible refine .bind ?_ fun _ => ?_ | split | dsimp only
  all_goals grind [Entry.isCtrl]

theorem prim_oneInsnGenWith (src : Source) (hemit : ∀ insn setup t, ev (.emit insn setup t)) :
    Uses (Prim ev (IsInsn constInsn)) NoOverflow (oneInsnGenWith constInsn src) := by
  have hops := fun t => @prim_insnOperands ev constInsn hev src t fun opnds isLabel s =>
    hemit ⟨src.opcode, opnds, isLabel⟩ s t
  unfold oneInsnGenWith likelyGenLabel
  repeat' first
    | with_reducible exact prim_setOpcode' _
    | with_reducible refine .bind ?_ fun _ => ?_
    | split
    | dsimp only
  all_goals grind [Still, Quiet, Event.isOperand]

end

end Btrtg
