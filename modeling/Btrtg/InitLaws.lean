import Btrtg.OpndRuns

/-!
# What an instruction finds

A run of `one_insn_gen` with `need_init` and the entries it inserts, executed up
to the instruction: the operands, explicit and implied, hold the constants that
were selected for them, unless a later initialisation writes over them.
-/

namespace Btrtg

open Prog OpFlags Bytes

-- ---------------------------------------------------------------------------
-- The operand loop
-- ---------------------------------------------------------------------------

/-- The operands from the `j`th one on, with what was inserted and selected for them. -/
inductive Prepared (src : Source) : Nat → Gen → List (Option SizeWord × Opnd) → List Entry →
    List (Who × ConstNode) → Gen → Prop
  | nil {j g} : Prepared src j g [] [] [] (g.atOperand src j)
  | cons {j g g₁ g' size o c es os es' sel'} :
      Prepares src j (g.atOperand src j) o c es g₁ →
      Prepared src (j + 1) g₁ os es' sel' g' →
      Prepared src j g ((size, o) :: os) (es ++ es') (selectionOf (.explicit j) c ++ sel') g'

section
variable {src : Source} {j : Nat} {g g' : Gen} {os : List (Option SizeWord × Opnd)}
  {es : List Entry} {sel : List (Who × ConstNode)}

theorem Gen.Ready.atOperand (hg : g.Ready) (src : Source) (n : Nat) : (g.atOperand src n).Ready :=
  ⟨hg.needInit, hg.placed, hg.lockRegCases, hg.datasizes, hg.datasize⟩

@[simp] theorem selections_atOperand (g : Gen) (src : Source) (n : Nat) :
    (g.atOperand src n).selections = g.selections := by
  unfold Gen.atOperand
  split <;> simp [Gen.selections, Event.selected?]

theorem genOperand_end {constInsn : PseudoInsn → M Bool}
    (h : (genOperand constInsn src).run g = (.ok .done, g')) : g' = g := by
  cases src with
  | seed s =>
    obtain ⟨_, _, hs, h⟩ := bind_ok.1 h
    cases hs
    dsimp only at h
    split at h
    · cases h
      rfl
    · obtain ⟨⟨o?, flags⟩, _, -, h⟩ := bind_ok.1 h
      dsimp only at h
      split at h
      · cases h
      · obtain ⟨_, _, -, h⟩ := bind_ok.1 h
        cases h
  | pseudo p =>
    obtain ⟨_, _, hs, h⟩ := bind_ok.1 h
    cases hs
    dsimp only at h
    cases ho : p.opnds[g.opi]? with
    | none =>
      rw [ho] at h
      cases h
      rfl
    | some po =>
      rw [ho] at h
      obtain ⟨⟨seed, place⟩, _, -, h⟩ := bind_ok.1 h
      -- every other way ends with an operand, without one, or in a fault
      exfalso
      dsimp only at h
      repeat' first
        | cases h
        | split at h
        | obtain ⟨_, _, -, h⟩ := bind_ok.1 h

/-- A run of the operand loop. -/
theorem operandLoop_prepared {room : Nat} {opnds opnds' : List (Option SizeWord × Opnd)}
    {isLabel isLabel' : Bool} (hg : g.Ready) (hv : src.noVars)
    (h : (operandLoop (oneInsnGenConst 1) src room opnds isLabel).run g =
      (.ok (some (opnds', isLabel')), g')) :
    ∃ os es sel, opnds' = opnds ++ os ∧ Prepared src opnds.length g os es sel g' := by
  induction room generalizing g opnds isLabel with
  | zero => cases h
  | succ room ih =>
    obtain ⟨room', made, g₁, hroom, hmade, h⟩ := operandLoop_ok h
    cases hroom
    cases made with
    | failed => cases h.1
    | done =>
      obtain ⟨h, rfl⟩ := h
      cases h
      rw [genOperand_end hmade]
      exact ⟨[], [], [], (List.append_nil _).symm, .nil⟩
    | opnd size o hasLabel =>
      obtain ⟨c, es, hprep⟩ := genOperand_prepares (hg.atOperand _ _) hv rfl rfl hmade
      obtain ⟨os, es', sel', hos, hrest⟩ := ih hprep.ready h
      rw [List.length_append] at hrest
      exact ⟨(size, o) :: os, es ++ es', _, by simp [hos], .cons hprep hrest⟩

/-- What was selected for one and for those behind it is for one that is there. -/
theorem selected_cons {α : Type} {f : Nat → Who} {who : Who} {c : Option ConstNode} {v : ConstNode}
    {x : α} {xs : List α} (hv : (who, v) ∈ selectionOf (f j) c ++ sel)
    (hrest : (who, v) ∈ sel → ∃ i y, who = f (j + 1 + i) ∧ xs[i]? = some y) :
    ∃ i y, who = f (j + i) ∧ (x :: xs)[i]? = some y := by
  rcases List.mem_append.1 hv with hv | hv
  · obtain ⟨_, -, h⟩ := List.mem_map.1 hv
    cases h
    exact ⟨0, x, rfl, rfl⟩
  · obtain ⟨i, y, hwho, hi⟩ := hrest hv
    exact ⟨i + 1, y, by rw [hwho, Nat.add_assoc, Nat.add_comm 1 i], hi⟩

/-- The constant is that of the first, or one of those behind it. -/
theorem mem_selectionOf_append {α : Type} {f : Nat → Who} (hf : f.Injective) {c : Option ConstNode}
    {v : ConstNode} {i : Nat} {xs : List α} (hv : (f (j + i), v) ∈ selectionOf (f j) c ++ sel)
    (hrest : (f (j + i), v) ∈ sel → ∃ i' y, f (j + i) = f (j + 1 + i') ∧ xs[i']? = some y) :
    (i = 0 ∧ c = some v) ∨ ∃ i', i = i' + 1 ∧ (f (j + 1 + i'), v) ∈ sel := by
  rcases List.mem_append.1 hv with hv | hv
  · obtain ⟨w, hw, heq⟩ := List.mem_map.1 hv
    obtain ⟨hwho, rfl⟩ := Prod.mk.inj heq
    have hi : i = 0 := by simpa using hf hwho
    exact .inl ⟨hi, Option.mem_toList.1 hw⟩
  · obtain ⟨i', -, hwho, -⟩ := hrest hv
    obtain rfl : i = i' + 1 := by
      have := hf hwho
      omega
    rw [← Nat.add_assoc, Nat.add_right_comm] at hv
    exact .inr ⟨i', rfl, hv⟩

theorem explicit_injective : Who.explicit.Injective := fun _ _ h => Who.explicit.inj h

theorem implied_injective : Who.implied.Injective := fun _ _ h => Who.implied.inj h

/-- What is written elsewhere does not matter. -/
theorem Opnd.Holds.kept {L : Layout} {t t' : Target} {o : Opnd} {size : OpFlags} {v : ConstNode}
    {rs : List Reg} {s : Bool} (h : o.Holds L t size v) (hm : o.isMem = false)
    (hk : Target.Kept L rs s t t') (ha : ∀ r ∈ o.regs, ∀ r' ∈ rs, r.Apart r') :
    o.Holds L t' size v := by
  cases o with
  | imm x => exact h
  | mem m => cases hm
  | reg r =>
    have har := ha r (.head _)
    cases r with
    | st i => exact hk.st i _ har h
    | _ =>
      obtain ⟨p, hp, hreg⟩ := h
      exact ⟨p, hp, by rw [hk.reg _ (by rw [hp]; rfl) har, hreg]⟩

namespace Prepared

theorem ready (h : Prepared src j g os es sel g') (hg : g.Ready) : g'.Ready := by
  induction h with
  | nil => exact hg.atOperand _ _
  | cons hprep _ ih => exact ih hprep.ready

theorem inserts (h : Prepared src j g os es sel g') :
    g.instlist.Inserts g.insertpos es g'.instlist g'.insertpos := by
  induction h with
  | nil => exact .nil
  | cons hprep _ ih => exact Insnlist.Inserts.trans hprep.inserts ih

theorem selections (h : Prepared src j g os es sel g') : g'.selections = g.selections ++ sel := by
  induction h with
  | nil => simp
  | cons hprep _ ih => rw [ih, hprep.selections, selections_atOperand, List.append_assoc]

/-- The constants are for operands that are there. -/
theorem selected (h : Prepared src j g os es sel g') {who : Who} {v : ConstNode}
    (hv : (who, v) ∈ sel) : ∃ i so, who = .explicit (j + i) ∧ os[i]? = some so := by
  induction h with
  | nil => cases hv
  | cons hprep _ ih => exact selected_cons hv ih

section
variable {L : Layout} {t t' : Target}

theorem kept (h : Prepared src j g os es sel g') (ht : t.execAll L es = some t') :
    Target.Kept L (os.flatMap fun so => so.2.regs) (os.all fun so => !so.2.isMem) t t' := by
  induction h generalizing t with
  | nil =>
    cases ht
    exact .refl _
  | cons hprep _ ih =>
    obtain ⟨t₁, h₁, h₂⟩ := Target.execAll_append ht
    exact (hprep.initialises.kept L _ t₁ h₁).trans (ih h₂)

/-- A register or an immediate that no later operand goes through. -/
theorem holds (h : Prepared src j g os es sel g') (ht : t.execAll L es = some t') {i : Nat}
    {size : Option SizeWord} {o : Opnd} {v : ConstNode} (hi : os[i]? = some (size, o))
    (hv : (Who.explicit (j + i), v) ∈ sel) (hp : (src.flags (j + i)).isPacked = false)
    (hm : o.isMem = false)
    (hlater : ∀ r ∈ o.regs, ∀ r' ∈ (os.drop (i + 1)).flatMap (fun so => so.2.regs), r.Apart r') :
    o.Holds L t' (src.flags (j + i) &&& sizeMask) v := by
  induction h generalizing t i with
  | nil => cases hi
  | cons hprep hrest ih =>
    obtain ⟨t₁, h₁, h₂⟩ := Target.execAll_append ht
    rcases mem_selectionOf_append explicit_injective hv hrest.selected with
      ⟨rfl, hc⟩ | ⟨i', rfl, hv'⟩
    · cases hi
      exact Opnd.Holds.kept (hprep.initialises.holds L _ t₁ h₁ hp v hc) hm (hrest.kept h₂) hlater
    · rw [← Nat.add_assoc, Nat.add_right_comm] at hp ⊢
      exact ih h₂ hi hv' hp hlater

/-- Operands that are not in memory leave the set-up text alone. -/
theorem setup_notMem (h : Prepared src j g os es sel g') (hos : ∀ so ∈ os, so.2.isMem = false) :
    g'.initMemAddr = g.initMemAddr ∧ g'.hasMemOpnd = g.hasMemOpnd := by
  induction h with
  | nil => exact ⟨rfl, rfl⟩
  | cons hprep _ ih =>
    obtain ⟨ho, hos⟩ := List.forall_mem_cons.1 hos
    obtain ⟨haddr, hmem⟩ := ih hos
    obtain ⟨haddr', hmem'⟩ := hprep.notMem ho
    exact ⟨haddr.trans haddr', hmem.trans hmem'⟩

/-- The set-up text is that of an operand, or there was none. -/
theorem setup_last (h : Prepared src j g os es sel g') :
    (g'.initMemAddr = g.initMemAddr ∧ g'.hasMemOpnd = g.hasMemOpnd) ∨
      ∃ size m, (size, Opnd.mem m) ∈ os ∧ g'.initMemAddr = m.setup := by
  induction h with
  | nil => exact .inl ⟨rfl, rfl⟩
  | @cons j g g₁ g' size o c es os es' sel' hprep _ ih =>
    rcases ih with ⟨haddr, hmem⟩ | ⟨size', m, hm, haddr⟩
    · cases ho : o.isMem with
      | false =>
        obtain ⟨haddr', hmem'⟩ := hprep.notMem ho
        exact .inl ⟨haddr.trans haddr', hmem.trans hmem'⟩
      | true =>
        cases o with
        | reg r => cases ho
        | imm x => cases ho
        | mem m =>
          obtain ⟨-, -, haddr', -⟩ := hprep.mem m rfl
          exact .inr ⟨size, m, .head _, haddr.trans haddr'⟩
    · exact .inr ⟨size', m, .tail _ hm, haddr⟩

structure OnlyMem (os : List (Option SizeWord × Opnd)) (i : Nat) (m : ModRM) : Prop where
  at_ : ∃ size, os[i]? = some (size, .mem m)
  only : ∀ i' ≠ i, ∀ so, os[i']? = some so → so.2.isMem = false

theorem OnlyMem.head {so : Option SizeWord × Opnd} {m : ModRM} (h : OnlyMem (so :: os) 0 m) :
    so.2 = .mem m ∧ ∀ so ∈ os, so.2.isMem = false := by
  obtain ⟨size, hat⟩ := h.at_
  cases hat
  refine ⟨rfl, fun so' hso => ?_⟩
  obtain ⟨i, hi⟩ := List.mem_iff_getElem?.1 hso
  exact h.only (i + 1) (by simp) so' hi

theorem OnlyMem.tail {so : Option SizeWord × Opnd} {i : Nat} {m : ModRM}
    (h : OnlyMem (so :: os) (i + 1) m) : so.2.isMem = false ∧ OnlyMem os i m :=
  ⟨h.only 0 (by simp) so rfl, h.at_, fun i' hi' so' hso => h.only (i' + 1) (by simpa using hi') so' hso⟩

theorem setup_mem (h : Prepared src j g os es sel g') {i : Nat} {m : ModRM} (hm : OnlyMem os i m) :
    m.Sound ∧ g.InBlock m ∧ g'.initMemAddr = m.setup ∧ g'.hasMemOpnd = (g.hasMemOpnd || m.usesReg) := by
  induction h generalizing i with
  | nil =>
    obtain ⟨size, hat⟩ := hm.at_
    cases hat
  | @cons j g g₁ g' size o c es os es' sel' hprep hrest ih =>
    cases i with
    | zero =>
      obtain ⟨ho, hos⟩ := hm.head
      obtain ⟨haddr, hmem⟩ := hrest.setup_notMem hos
      obtain ⟨hsound, hin, haddr', hmem'⟩ := hprep.mem m ho
      exact ⟨hsound, hin, haddr.trans haddr', hmem.trans hmem'⟩
    | succ i =>
      obtain ⟨ho, hm⟩ := hm.tail
      obtain ⟨hsound, hin, haddr, hmem⟩ := ih hm
      obtain ⟨-, hmem'⟩ := hprep.notMem ho
      refine ⟨hsound, ?_, haddr, by rw [hmem, hmem']; rfl⟩
      rw [Gen.InBlock, hprep.datasizes] at hin
      exact hin

/-- The only memory operand holds its constant, at the address that its set-up gives. -/
theorem holds_mem (h : Prepared src j g os es sel g') (ht : t.execAll L es = some t') {i : Nat}
    {m : ModRM} {v : ConstNode} (hm : OnlyMem os i m) (hv : (Who.explicit (j + i), v) ∈ sel)
    (hp : (src.flags (j + i)).isPacked = false) {a : BitVec 32}
    (ha : ∀ regs, m.SetUp regs L.data → m.address regs L.data = a)
    (hoff : L.OffScratch a (v.bytesFor (src.flags (j + i) &&& sizeMask)).length) :
    load t'.mem a (v.bytesFor (src.flags (j + i) &&& sizeMask)).length =
      v.bytesFor (src.flags (j + i) &&& sizeMask) := by
  induction h generalizing t i with
  | nil =>
    obtain ⟨size, hat⟩ := hm.at_
    cases hat
  | @cons j g g₁ g' size o c es os es' sel' hprep hrest ih =>
    obtain ⟨t₁, h₁, h₂⟩ := Target.execAll_append ht
    rcases mem_selectionOf_append explicit_injective hv hrest.selected with
      ⟨rfl, hc⟩ | ⟨i', rfl, hv'⟩
    · obtain ⟨ho, hos⟩ := hm.head
      dsimp only at ho
      subst ho
      have hset := hprep.initialises.setUp L _ t₁ h₁ m rfl
      have hholds := hprep.initialises.holds L _ t₁ h₁ hp v hc
      rw [Opnd.Holds, ha _ hset] at hholds
      have hspare : (os.all fun so => !so.2.isMem) = true := by
        simpa using hos
      rw [(hrest.kept h₂).mem hspare a _ hoff]
      exact hholds
    · rw [← Nat.add_assoc, Nat.add_right_comm] at hp hoff ⊢
      exact ih h₂ hm.tail.2 hv' hp hoff

end

end Prepared

end

-- ---------------------------------------------------------------------------
-- Implied operands
-- ---------------------------------------------------------------------------

namespace Implied

/-- The registers that an implied operand writes. -/
def regs : Implied → List Reg
  | .register r | .fpuDest r | .mem r _ => [r]
  | .popf => [.esp]

/-- The implied operand holds the constant; that of `popf` is on the stack. -/
def Holds (L : Layout) (t : Target) (v : ConstNode) : Implied → Prop
  | .register (.st i) => t.fpu.st i = some (L.number (v.type = .float32i) v)
  | .register r => ∃ p, r.part? = some p ∧ t.reg r = (v.imm32.setWidth p.width).setWidth 32
  | .popf => load t.mem (t.gpr 4) 4 = leBytes 4 v.imm32.toNat
  | .fpuDest _ | .mem .. => True

theorem Holds.kept {L : Layout} {t t' : Target} {i : Implied} {v : ConstNode} {rs : List Reg}
    {s : Bool} (h : i.Holds L t v) (hi : i ≠ .popf) (hk : Target.Kept L rs s t t')
    (ha : ∀ r ∈ i.regs, ∀ r' ∈ rs, r.Apart r') : i.Holds L t' v := by
  cases i with
  | popf => exact absurd rfl hi
  | fpuDest r | mem r data => trivial
  | register r =>
    have har := ha r (.head _)
    cases r with
    | st i => exact hk.st i _ har h
    | _ =>
      obtain ⟨p, hp, hreg⟩ := h
      exact ⟨p, hp, by rw [hk.reg _ (by rw [hp]; rfl) har, hreg]⟩

/-- The entries initialise an implied operand. -/
structure Initialises (i : Implied) (c : Option ConstNode) (es : List Entry) : Prop where
  kept : ∀ L t t', Target.execAll L t es = some t' → Target.Kept L i.regs (i ≠ .popf) t t'
  holds : ∀ L t t', Target.execAll L t es = some t' → ∀ v, c = some v → i.Holds L t' v

theorem initialises_fpu {i : Fin 8} {v : ConstNode} :
    (register (.st i)).Initialises (some v)
      [.lines (fpuText (i = 0) (v.type = .float32i) i v)] := by
  have hexec : ∀ L t t', Target.execAll L t [.lines (fpuText (i = 0) (v.type = .float32i) i v)] =
      some t' → t'.fpu.st i = some (L.number (v.type = .float32i) v) ∧
        Target.Kept L [.st i] true t t' := by
    intro L t t' h
    have htop : decide (i = 0) = true → i = 0 := of_decide_eq_true
    obtain ⟨t₁, h₁, hst, hkept⟩ := Target.exec_fpuText L htop t
    cases (Target.execAll_one.symm.trans h).symm.trans h₁
    exact ⟨hst, hkept⟩
  refine ⟨fun L t t' h => (hexec L t t' h).2, fun L t t' h w hw => ?_⟩
  cases hw
  exact (hexec L t t' h).1

theorem initialises_dest (r : Reg) : (fpuDest r).Initialises none [.lines [.ffree r]] := by
  refine ⟨fun L t t' h => ?_, fun _ _ _ _ _ hv => by cases hv⟩
  cases r with
  | st i =>
    cases h
    refine ⟨fun _ _ _ => rfl, fun j x hj hx => ?_, fun _ _ _ _ => rfl⟩
    have hne : j ≠ i := by
      rintro rfl
      exact hj _ (.head _) rfl
    simp [Fpu.free, hne, hx]
  | _ => cases h

theorem initialises_lea (r : Reg) (data : Nat) :
    (mem r data).Initialises none [.lines [.leaSpecific r data]] :=
  ⟨fun _ _ _ h => Target.lines_kept rfl (Target.execAll_one.symm.trans h),
    fun _ _ _ _ _ hv => by cases hv⟩

theorem initialises_popf (v : ConstNode) : popf.Initialises (some v) [.lines [.push v.imm32]] := by
  refine ⟨fun L t t' h => Target.lines_kept rfl (Target.execAll_one.symm.trans h), fun L t t' h w hw => ?_⟩
  cases hw
  cases h
  have hload : load (Bytes.store t.mem (t.gpr 4 - 4) (leBytes 4 v.imm32.toNat)) (t.gpr 4 - 4)
      (leBytes 4 v.imm32.toNat).length = leBytes 4 v.imm32.toNat := load_store (by simp)
  rw [leBytes_length] at hload
  simpa [Holds] using hload

end Implied

/-- What `init_specific_register` runs with `has_mem_opnd` clear. -/
def specificBody (constInsn : PseudoInsn → M Bool) (r : Reg) (c : Option ConstNode) : M Unit :=
  match r, c with
  | .st _, none => throw .nullDeref
  | .st i, some v => genText (some (fpuText (i = 0) (v.type = .float32i) i v))
  | r, c => movConst constInsn r c

theorem initSpecificRegister_eq (constInsn : PseudoInsn → M Bool) (r : Reg) :
    initSpecificRegister constInsn r = (do
      let v ← requestNode
      let g ← get
      modify fun g => { g with hasMemOpnd := false }
      specificBody constInsn r v
      modify fun g' => { g' with hasMemOpnd := g.hasMemOpnd }) := by
  unfold initSpecificRegister
  refine bind_congr fun v => bind_congr fun g => bind_congr fun _ => ?_
  cases r with
  | st i =>
    cases v with
    | none => rfl
    | some v =>
      dsimp only [specificBody]
      split_ifs with hsingle hi hi <;> simp [fpuText, pushNumber, hsingle, hi]
  | _ => rfl

section
variable {g g' : Gen}

theorem specificBody_emits {r : Reg} {c : Option ConstNode} {u : Unit} (hq : g.Quiet)
    (h : (specificBody (oneInsnGenConst 1) r c).run g = (.ok u, g')) :
    ∃ es, (Implied.register r).Initialises c es ∧ Emits g g' es [] := by
  cases r with
  | st i =>
    cases c with
    | none => cases h
    | some v =>
      dsimp only [specificBody] at h
      obtain ⟨ls, hls, htext⟩ := genText_emits hq.placed h
      cases hls
      exact ⟨_, Implied.initialises_fpu, htext⟩
  | _ =>
    obtain ⟨es, hinit, hemits⟩ := movConst_emits hq h 0
    exact ⟨es, ⟨hinit.kept, fun L t t' ht v hv => hinit.holds L t t' ht rfl v hv⟩, hemits⟩

/-- An implied operand is initialised. -/
theorem implied_emits {i : Implied} {u : Unit} (hn : g.needInit = false)
    (hp : g.instlist.Placed g.insertpos) (h : (i.init (oneInsnGenConst 1)).run g = (.ok u, g')) :
    ∃ c es, i.Initialises c es ∧ Emits g g' es (selectionOf g.who c) := by
  cases i with
  | fpuDest r =>
    dsimp only [Implied.init] at h
    obtain ⟨ls, hls, htext⟩ := genText_emits hp h
    cases hls
    exact ⟨none, _, Implied.initialises_dest r, htext⟩
  | mem r data =>
    dsimp only [Implied.init] at h
    obtain ⟨ls, hls, htext⟩ := genText_emits hp h
    cases hls
    exact ⟨none, _, Implied.initialises_lea r data, htext⟩
  | popf =>
    obtain ⟨c, g₁, h₁, h⟩ := bind_ok.1 h
    have hnode := requestNode_emits hp h₁
    cases c with
    | none => cases h
    | some v =>
      obtain ⟨ls, hls, htext⟩ := genText_emits hnode.placed h
      cases hls
      exact ⟨some v, _, Implied.initialises_popf v, by simpa using hnode.trans htext⟩
  | register r =>
    rw [Implied.init, initSpecificRegister_eq] at h
    obtain ⟨c, g₁, h₁, h⟩ := bind_ok.1 h
    have hnode := requestNode_emits hp h₁
    obtain ⟨_, _, hs, h⟩ := bind_ok.1 h
    cases hs
    obtain ⟨_, _, hs, h⟩ := bind_ok.1 h
    cases hs
    obtain ⟨_, g₂, h₂, h⟩ := bind_ok.1 h
    obtain ⟨es, hinit, hbody⟩ := specificBody_emits (g := { g₁ with hasMemOpnd := false })
      ⟨hnode.needInit.trans hn, rfl, hnode.placed⟩ h₂
    cases h
    refine ⟨c, es, hinit, ?_⟩
    have hall : Emits g₁ { g₂ with hasMemOpnd := g₁.hasMemOpnd } es [] :=
      ⟨hbody.inserts, hbody.placed, hbody.selections, hbody.needInit, rfl, hbody.initMemAddr,
        hbody.lockRegCases, hbody.datasizes⟩
    simpa using hnode.trans hall

def Gen.atImplied (g : Gen) (insn : Opcode) (j : Nat) : Gen :=
  { g with
    who := .implied j
    log := g.log ++ [.operand g.nested insn (.implied j) g.opcode g.hasMemOpnd g.trvNodes g.own] }

/-- The implied operands from the `j`th one on. -/
inductive ImpliedPrepared (insn : Opcode) : Nat → Gen → List Implied → List Entry →
    List (Who × ConstNode) → Gen → Prop
  | nil {j g} : ImpliedPrepared insn j g [] [] [] g
  | cons {j g g₁ g' i c is es es' sel'} : i.Initialises c es →
      Emits (g.atImplied insn j) g₁ es (selectionOf (.implied j) c) →
      ImpliedPrepared insn (j + 1) g₁ is es' sel' g' →
      ImpliedPrepared insn j g (i :: is) (es ++ es') (selectionOf (.implied j) c ++ sel') g'

theorem initImpliedFrom_prepared {opcode : Opcode} {j : Nat} {is : List Implied} {u : Unit}
    (hn : g.needInit = false) (hp : g.instlist.Placed g.insertpos)
    (h : (initImpliedFrom (oneInsnGenConst 1) opcode j is).run g = (.ok u, g')) :
    ∃ es sel, ImpliedPrepared opcode j g is es sel g' := by
  induction is generalizing g j with
  | nil =>
    cases h
    exact ⟨[], [], .nil⟩
  | cons i is ih =>
    obtain ⟨_, _, hs, h⟩ := bind_ok.1 h
    cases hs
    obtain ⟨_, _, hs, h⟩ := bind_ok.1 h
    cases hs
    obtain ⟨_, g₁, h₁, h⟩ := bind_ok.1 h
    obtain ⟨c, es, hinit, hemits⟩ := implied_emits (g := g.atImplied opcode j) hn hp h₁
    obtain ⟨es', sel', hrest⟩ := ih (hemits.needInit.trans hn) hemits.placed h
    exact ⟨_, _, .cons hinit hemits hrest⟩

namespace ImpliedPrepared

variable {insn : Opcode} {j : Nat} {is : List Implied} {es : List Entry}
  {sel : List (Who × ConstNode)}

@[simp] theorem selections_atImplied (g : Gen) (insn : Opcode) (n : Nat) :
    (g.atImplied insn n).selections = g.selections := by
  simp [Gen.atImplied, Gen.selections, Event.selected?]

theorem emits (h : ImpliedPrepared insn j g is es sel g') (hp : g.instlist.Placed g.insertpos) :
    Emits g g' es sel := by
  induction h with
  | nil => exact .refl hp
  | @cons j g g₁ g' i c is es es' sel' hinit he hrest ih =>
    have hall := he.trans (ih he.placed)
    exact ⟨hall.inserts, hall.placed, by rw [hall.selections, selections_atImplied], hall.needInit,
      hall.hasMemOpnd, hall.initMemAddr, hall.lockRegCases, hall.datasizes⟩

theorem selected (h : ImpliedPrepared insn j g is es sel g') {who : Who} {v : ConstNode}
    (hv : (who, v) ∈ sel) : ∃ k i, who = .implied (j + k) ∧ is[k]? = some i := by
  induction h with
  | nil => cases hv
  | cons _ _ _ ih => exact selected_cons hv ih

variable {L : Layout} {t t' : Target}

theorem kept (h : ImpliedPrepared insn j g is es sel g') (ht : t.execAll L es = some t') :
    Target.Kept L (is.flatMap Implied.regs) (is.all (· ≠ .popf)) t t' := by
  induction h generalizing t with
  | nil =>
    cases ht
    exact .refl _
  | cons hinit _ _ ih =>
    obtain ⟨t₁, h₁, h₂⟩ := Target.execAll_append ht
    exact (hinit.kept L _ t₁ h₁).trans (ih h₂)

theorem holds (h : ImpliedPrepared insn j g is es sel g') (ht : t.execAll L es = some t') {k : Nat}
    {i : Implied} {v : ConstNode} (hi : is[k]? = some i) (hv : (Who.implied (j + k), v) ∈ sel)
    (hlater : ∀ r ∈ i.regs, ∀ r' ∈ (is.drop (k + 1)).flatMap Implied.regs, r.Apart r')
    (hpopf : i = .popf → is.length = k + 1) : i.Holds L t' v := by
  induction h generalizing t k with
  | nil => cases hi
  | @cons j g g₁ g' i' c is es es' sel' hinit _ hrest ih =>
    obtain ⟨t₁, h₁, h₂⟩ := Target.execAll_append ht
    rcases mem_selectionOf_append implied_injective hv hrest.selected with
      ⟨rfl, hc⟩ | ⟨k', rfl, hv'⟩
    · cases hi
      have hholds := hinit.holds L _ t₁ h₁ v hc
      by_cases hi : i = .popf
      · obtain rfl : is = [] := by
          have := hpopf hi
          simpa using this
        cases hrest
        cases h₂
        exact hholds
      · exact hholds.kept hi (hrest.kept h₂) hlater
    · exact ih h₂ hi hv' hlater fun h => by simpa using hpopf h

end ImpliedPrepared

end

-- ---------------------------------------------------------------------------
-- Whole instructions
-- ---------------------------------------------------------------------------

/-- The implied operands of an instruction with these operands. -/
def Source.implied (src : Source) (opnds : List (Option SizeWord × Opnd)) : List Implied :=
  impliedOperands src.opcode (calOperandSize src.opcode (opnds.map parsedType) 0) opnds.length

/-- A run of `one_insn_gen`: perhaps a label, the operands, the implied operands, the set-up
text again and the instruction. -/
structure Generated (src : Source) (g : Gen) (insn : Insn) (g' : Gen) where
  labels : List Entry
  ops : List Entry
  impl : List Entry
  opSel : List (Who × ConstNode)
  implSel : List (Who × ConstNode)
  g₁ : Gen
  g₂ : Gen
  g₃ : Gen
  opcode : insn.opcode = src.opcode
  isLabels : Labels labels
  start : Emits g g₁ labels []
  operands : Prepared src 0 g₁ insn.opnds ops opSel g₂
  implied : ImpliedPrepared src.opcode 0 { g₂ with needInit := false } (src.implied insn.opnds) impl
    implSel g₃
  last : Emits { g₃ with needInit := true } g' (g₃.lastSetup ++ [.insn insn]) []

def Insn.memRegs (i : Insn) : List Reg :=
  (i.opnds.filter fun so => so.2.isMem).flatMap fun so => so.2.regs

section
variable {src : Source} {g g' : Gen}

theorem initImpliedOperands_ok {constInsn : PseudoInsn → M Bool} {opcode : Opcode}
    {opnds : List (Option SizeWord × Opnd)} {u : Unit}
    (h : (initImpliedOperands constInsn opcode opnds).run g = (.ok u, g')) :
    ∃ g₁, (initImpliedFrom constInsn opcode 0 (impliedOperands opcode
        (calOperandSize opcode (opnds.map parsedType) 0) opnds.length)).run
        { g with needInit := false } = (.ok (), g₁) ∧ g' = { g₁ with needInit := true } := by
  obtain ⟨_, _, hs, h⟩ := bind_ok.1 h
  cases hs
  obtain ⟨_, g₁, h₁, h⟩ := bind_ok.1 h
  cases h
  exact ⟨g₁, h₁, rfl⟩

theorem oneInsnGen_generated (hg : g.Ready) (hop : src.opcode.fallsThrough) (hv : src.noVars)
    (h : (oneInsnGen src).run g = (.ok true, g')) :
    ∃ insn, Nonempty (Generated src g insn g') := by
  obtain ⟨labels, g₁, hlabels, hlabel, h⟩ := oneInsnGenWith_ok hop hg.placed h
  obtain ⟨a, g₂, hloop, h⟩ := insnOperands_ok h
  cases a with
  | none =>
    obtain ⟨h, -⟩ := h
    cases h
  | some a =>
    obtain ⟨opnds, isLabel⟩ := a
    obtain ⟨-, g₃, h₃, hlast⟩ := h
    obtain ⟨os, ops, opSel, hos, hprep⟩ := operandLoop_prepared (hlabel.ready hg) hv hloop
    obtain rfl : opnds = os := hos
    have hg₂ := hprep.ready (hlabel.ready hg)
    rw [if_pos hg₂.needInit] at h₃
    obtain ⟨g₄, h₄, rfl⟩ := initImpliedOperands_ok h₃
    obtain ⟨impl, implSel, himpl⟩ := initImpliedFrom_prepared (g := { g₂ with needInit := false })
      rfl hg₂.placed h₄
    have hemits := himpl.emits hg₂.placed
    exact ⟨⟨src.opcode, opnds, isLabel⟩, ⟨labels, ops, impl, opSel, implSel, g₁, g₂, g₄, rfl, hlabels,
      hlabel, hprep, himpl, hlast hemits.placed⟩⟩

namespace Generated

variable {insn : Insn}

def entries (h : Generated src g insn g') : List Entry :=
  h.labels ++ (h.ops ++ (h.impl ++ h.g₃.lastSetup))

theorem implied_run (h : Generated src g insn g') (hg : g.Ready) :
    Emits { h.g₂ with needInit := false } h.g₃ h.impl h.implSel :=
  h.implied.emits (h.operands.ready (h.start.ready hg)).placed

/-- The implied operands leave the set-up text alone. -/
theorem setup_implied (h : Generated src g insn g') (hg : g.Ready) :
    h.g₃.initMemAddr = h.g₂.initMemAddr ∧ h.g₃.hasMemOpnd = h.g₂.hasMemOpnd :=
  ⟨(h.implied_run hg).initMemAddr, (h.implied_run hg).hasMemOpnd⟩

theorem leads (h : Generated src g insn g') (hg : g.Ready) :
    g'.instlist.Leads g.insertpos (h.entries ++ [.insn insn]) g'.insertpos := by
  have hall := h.start.inserts.trans (h.operands.inserts.trans
    ((h.implied_run hg).inserts.trans h.last.inserts))
  have hes : h.labels ++ (h.ops ++ (h.impl ++ (h.g₃.lastSetup ++ [.insn insn]))) =
      h.entries ++ [.insn insn] := by
    simp [entries]
  rw [hes] at hall
  exact hall.leads hg.placed

theorem selections (h : Generated src g insn g') (hg : g.Ready) :
    g'.selections = g.selections ++ (h.opSel ++ h.implSel) := by
  have hlast : g'.selections = h.g₃.selections ++ [] := h.last.selections
  have himpl : h.g₃.selections = h.g₂.selections ++ h.implSel := (h.implied_run hg).selections
  rw [hlast, himpl, h.operands.selections, h.start.selections]
  simp

/-- The three parts of an execution up to the instruction. -/
theorem exec {L : Layout} {t t' : Target} (h : Generated src g insn g')
    (ht : t.execAll L h.entries = some t') :
    ∃ t₁ t₂, t.execAll L h.ops = some t₁ ∧ t₁.execAll L h.impl = some t₂ ∧
      t₂.execAll L h.g₃.lastSetup = some t' := by
  obtain ⟨t₀, h₀, ht⟩ := Target.execAll_append ht
  cases (Target.execAll_labels h.isLabels).symm.trans h₀
  obtain ⟨t₁, h₁, ht⟩ := Target.execAll_append ht
  obtain ⟨t₂, h₂, ht⟩ := Target.execAll_append ht
  exact ⟨t₁, t₂, h₁, h₂, ht⟩

/-- The last set-up writes registers of memory operands alone. -/
theorem lastSetup_kept {L : Layout} {t t' : Target} (h : Generated src g insn g') (hg : g.Ready)
    (hm : g.hasMemOpnd = false) (ht : t.execAll L h.g₃.lastSetup = some t') :
    Target.Kept L insn.memRegs true t t' := by
  obtain ⟨haddr, hmem⟩ := h.setup_implied hg
  unfold Gen.lastSetup at ht
  split at ht
  · rename_i hset
    rcases h.operands.setup_last with ⟨-, hsame⟩ | ⟨size, m, hmem', haddr'⟩
    · rw [hmem, hsame, h.start.hasMemOpnd, hm] at hset
      cases hset
    · rw [haddr, haddr'] at ht
      have hkept := Target.lines_kept m.setup_sparesFpu (Target.execAll_one.symm.trans ht)
      rw [m.setup_regs, m.setup_inScratch] at hkept
      refine hkept.mono (fun r hr => ?_) fun h => h
      exact List.mem_flatMap.2 ⟨(size, .mem m), List.mem_filter.2 ⟨hmem', rfl⟩, hr⟩
  · cases ht
    exact (Target.Kept.refl _).mono (List.nil_subset _) fun h => h

end Generated

/-- No later initialisation goes through a register of the operand, and nothing else is
in memory beside an operand in memory. -/
def Insn.Undisturbed (i : Insn) (implied : List Implied) (k : Nat) : Opnd → Prop
  | .mem m => Prepared.OnlyMem i.opnds k m ∧ ∀ x ∈ implied, x ≠ .popf
  | o => ∀ r ∈ o.regs, ∀ r' ∈ (i.opnds.drop (k + 1)).flatMap (fun so => so.2.regs) ++
      implied.flatMap Implied.regs ++ i.memRegs, r.Apart r'

/-- No later initialisation and no register of a memory operand is in the way of an implied
operand. -/
def Insn.ImpliedUndisturbed (i : Insn) (implied : List Implied) (k : Nat) : Implied → Prop
  | .popf => ∀ so ∈ i.opnds, so.2.isMem = false
  | x => ∀ r ∈ x.regs, ∀ r' ∈ (implied.drop (k + 1)).flatMap Implied.regs ++ i.memRegs, r.Apart r'

theorem impliedOperands_popf {opcode : Opcode} {size : OpFlags} {operands : Nat}
    (h : .popf ∈ impliedOperands opcode size operands) :
    impliedOperands opcode size operands = [.popf] := by
  by_cases hop : opcode = .popf
  · subst hop
    rfl
  · exfalso
    unfold impliedOperands at h
    split at h
    all_goals first
      | exact hop rfl
      | split_ifs at h <;> simp at h
      | simp at h

/-- The scratch buffer is not in a data block. -/
def Layout.Separate (L : Layout) (datasizes : List Nat) : Prop :=
  ∀ d size i j, datasizes[d]? = some size → i < size → j < 16 →
    L.data d + .ofNat 32 i ≠ L.floatData + .ofNat 32 j

theorem ConstNode.bytesFor_length (v : ConstNode) (size : OpFlags) :
    (v.bytesFor size).length ≤ 128 := by
  unfold ConstNode.bytesFor
  split_ifs <;> simp

theorem Layout.Separate.offScratch {L : Layout} {datasizes : List Nat} (h : L.Separate datasizes)
    {d size offset n : Nat} (hd : datasizes[d]? = some size) (hn : offset + n ≤ size) :
    L.OffScratch (L.data d + .ofNat 32 offset) n := by
  intro i hi j hj
  rw [BitVec.add_assoc, ← BitVec.ofNat_add]
  exact h d size (offset + i) j hd (by omega) hj

namespace Generated

variable {insn : Insn} {L : Layout} {t t' : Target}

/-- At the instruction the registers of its only memory operand are set up. -/
theorem setUp_mem (h : Generated src g insn g') (hg : g.Ready) (hm : g.hasMemOpnd = false) {k : Nat}
    {m : ModRM} (hk : Prepared.OnlyMem insn.opnds k m) (ht : t.execAll L h.g₃.lastSetup = some t') :
    m.SetUp t'.reg L.data := by
  obtain ⟨haddr₃, hmem₃⟩ := h.setup_implied hg
  obtain ⟨hsound, -, haddr, hmem⟩ := h.operands.setup_mem hk
  have hmem' : h.g₃.hasMemOpnd = m.usesReg := by
    rw [hmem₃, hmem, h.start.hasMemOpnd, hm, Bool.false_or]
  unfold Gen.lastSetup at ht
  rw [hmem', haddr₃, haddr] at ht
  cases hu : m.usesReg with
  | true =>
    rw [hu, if_pos rfl, Target.execAll_one] at ht
    obtain ⟨t₁, h₁, hset, -⟩ := Target.exec_setup (L := L) hsound t
    cases h₁.symm.trans ht
    exact hset
  | false =>
    -- no register is used
    simp only [ModRM.usesReg, Bool.or_eq_false_iff, Option.isSome_eq_false_iff,
      Option.isNone_iff_eq_none] at hu
    exact ⟨fun r hr => (by rw [hu.1] at hr; cases hr), fun r hr => (by rw [hu.2] at hr; cases hr)⟩

theorem inBlock (h : Generated src g insn g') {k : Nat} {m : ModRM}
    (hk : Prepared.OnlyMem insn.opnds k m) : g.InBlock m := by
  obtain ⟨-, hin, -, -⟩ := h.operands.setup_mem hk
  rwa [Gen.InBlock, h.start.datasizes] at hin

theorem holds (h : Generated src g insn g') (hg : g.Ready) (hm : g.hasMemOpnd = false)
    (hL : L.Separate g.datasizes) (ht : t.execAll L h.entries = some t') {k : Nat}
    {size : Option SizeWord} {o : Opnd} {v : ConstNode} (hk : insn.opnds[k]? = some (size, o))
    (hv : (Who.explicit k, v) ∈ h.opSel) (hp : (src.flags k).isPacked = false)
    (hu : insn.Undisturbed (src.implied insn.opnds) k o) :
    o.Holds L t' (src.flags k &&& sizeMask) v := by
  obtain ⟨t₁, t₂, h₁, h₂, h₃⟩ := h.exec ht
  have himpl := h.implied.kept h₂
  have hlast := h.lastSetup_kept hg hm h₃
  rw [← Nat.zero_add k] at hv hp ⊢
  cases o with
  | mem m =>
    obtain ⟨honly, hpopf⟩ := hu
    obtain ⟨sz, offset, hsize, hfit, haddr⟩ := h.inBlock honly
    have hoff : L.OffScratch (L.data m.data + .ofNat 32 offset)
        (v.bytesFor (src.flags (0 + k) &&& sizeMask)).length := by
      have hlen := v.bytesFor_length (src.flags (0 + k) &&& sizeMask)
      exact hL.offScratch hsize (by omega)
    have hload := h.operands.holds_mem h₁ honly hv hp (fun regs => haddr regs L.data) hoff
    have hspare : (src.implied insn.opnds).all (· ≠ .popf) = true := by
      simpa using fun i hi => hpopf i hi
    rw [Opnd.Holds, haddr _ _ (h.setUp_mem hg hm honly h₃), hlast.mem rfl _ _ hoff,
      himpl.mem hspare _ _ hoff]
    exact hload
  | imm x => exact h.operands.holds h₁ hk hv hp rfl (fun r hr => by cases hr)
  | reg r =>
    have hops := h.operands.holds h₁ hk hv hp rfl fun r hr r' hr' =>
      hu r hr r' (List.mem_append_left _ (List.mem_append_left _ hr'))
    have hafter := hops.kept rfl himpl fun r hr r' hr' =>
      hu r hr r' (List.mem_append_left _ (List.mem_append_right _ hr'))
    exact hafter.kept rfl hlast fun r hr r' hr' => hu r hr r' (List.mem_append_right _ hr')

theorem holds_implied (h : Generated src g insn g') (hg : g.Ready) (hm : g.hasMemOpnd = false)
    (ht : t.execAll L h.entries = some t') {k : Nat} {i : Implied} {v : ConstNode}
    (hk : (src.implied insn.opnds)[k]? = some i) (hv : (Who.implied k, v) ∈ h.implSel)
    (hu : insn.ImpliedUndisturbed (src.implied insn.opnds) k i) : i.Holds L t' v := by
  obtain ⟨t₁, t₂, -, h₂, h₃⟩ := h.exec ht
  rw [← Nat.zero_add k] at hv
  by_cases hpop : i = .popf
  · -- `popf` has no other implied operand, and no set-up text follows
    subst hpop
    have hall : src.implied insn.opnds = [.popf] := impliedOperands_popf (List.mem_of_getElem? hk)
    have hset : h.g₃.lastSetup = [] := by
      obtain ⟨-, hmem₃⟩ := h.setup_implied hg
      rcases h.operands.setup_last with ⟨-, hsame⟩ | ⟨size, m, hmem, -⟩
      · rw [Gen.lastSetup, hmem₃, hsame, h.start.hasMemOpnd, hm]
        rfl
      · cases hu _ hmem
    rw [hset] at h₃
    cases h₃
    rw [hall] at hk
    obtain rfl : k = 0 := by
      cases k with
      | zero => rfl
      | succ k => cases hk
    exact h.implied.holds h₂ (by rw [hall]; rfl) hv (by simp [hall]) fun _ => by simp [hall]
  · have hlater : ∀ r ∈ i.regs, ∀ r' ∈ ((src.implied insn.opnds).drop (k + 1)).flatMap Implied.regs ++
        insn.memRegs, r.Apart r' := by
      cases i with
      | popf => exact absurd rfl hpop
      | _ => exact hu
    have hholds := h.implied.holds h₂ hk hv
      (fun r hr r' hr' => hlater r hr r' (List.mem_append_left _ hr')) fun h => absurd h hpop
    exact hholds.kept hpop (h.lastSetup_kept hg hm h₃) fun r hr r' hr' =>
      hlater r hr r' (List.mem_append_right _ hr')

end Generated

/-- The instruction that a run put at the insert position, with the entries before it, and
every explicit operand that got a constant: it holds the constant when control gets to the
instruction. -/
def SetsOperands (src : Source) (g g' : Gen) : Prop :=
  ∃ insn es sel, insn.opcode = src.opcode ∧
    g'.instlist.Leads g.insertpos (es ++ [.insn insn]) g'.insertpos ∧
    g'.selections = g.selections ++ sel ∧
    ∀ k v, (Who.explicit k, v) ∈ sel → ∃ size o, insn.opnds[k]? = some (size, o) ∧
      ∀ L t t', L.Separate g.datasizes → Target.execAll L t es = some t' →
        (src.flags k).isPacked = false → insn.Undisturbed (src.implied insn.opnds) k o →
        o.Holds L t' (src.flags k &&& sizeMask) v

/-- The same for the implied operands. -/
def SetsImplied (src : Source) (g g' : Gen) : Prop :=
  ∃ insn es sel, insn.opcode = src.opcode ∧
    g'.instlist.Leads g.insertpos (es ++ [.insn insn]) g'.insertpos ∧
    g'.selections = g.selections ++ sel ∧
    ∀ k v, (Who.implied k, v) ∈ sel → ∃ i, (src.implied insn.opnds)[k]? = some i ∧
      ∀ L t t', Target.execAll L t es = some t' →
        insn.ImpliedUndisturbed (src.implied insn.opnds) k i → i.Holds L t' v

/-- The address of an only memory operand, when control gets to the instruction, is in the
data block of the operand, with 128 bytes behind it. -/
def SetsAddress (src : Source) (g g' : Gen) : Prop :=
  ∃ insn es, insn.opcode = src.opcode ∧
    g'.instlist.Leads g.insertpos (es ++ [.insn insn]) g'.insertpos ∧
    ∀ k m, Prepared.OnlyMem insn.opnds k m → ∃ size offset, g.datasizes[m.data]? = some size ∧
      offset + 128 ≤ size ∧ ∀ L t t', Target.execAll L t es = some t' →
        m.address t'.reg L.data = L.data m.data + .ofNat 32 offset

/-- Before an instruction whose operands all get one constant. -/
def Gen.traversed (v : ConstNode) : Gen :=
  { Gen.plain 129 with
    needInit := true
    trvNodes := some 0
    trvArrays := fun _ => [0, 0]
    valArrays := fun _ => some [v] }

theorem ready_traversed (v : ConstNode) : (Gen.traversed v).Ready := by
  refine ⟨rfl, rfl, fun t h => (by cases h), rfl, ?_⟩
  simp [Gen.traversed, Gen.plain, Gen.start, initX86PGState]

/-- Every run of `one_insn_gen` initialises the explicit operands. -/
theorem oneInsnGen_operands (hg : g.Ready) (hm : g.hasMemOpnd = false)
    (hop : src.opcode.fallsThrough) (hv : src.noVars) (h : (oneInsnGen src).run g = (.ok true, g')) :
    SetsOperands src g g' := by
  obtain ⟨insn, ⟨hgen⟩⟩ := oneInsnGen_generated hg hop hv h
  refine ⟨insn, hgen.entries, _, hgen.opcode, hgen.leads hg, hgen.selections hg, fun k v hsel => ?_⟩
  have hop : (Who.explicit k, v) ∈ hgen.opSel := by
    refine (List.mem_append.1 hsel).resolve_right fun himpl => ?_
    obtain ⟨_, _, hwho, -⟩ := hgen.implied.selected himpl
    cases hwho
  obtain ⟨i, ⟨size, o⟩, hwho, hi⟩ := hgen.operands.selected hop
  obtain rfl : k = i := by simpa using hwho
  exact ⟨size, o, hi, fun L t t' hL ht hp hu => hgen.holds hg hm hL ht hi hop hp hu⟩

theorem oneInsnGen_operands_add :
    let src := Source.pseudo ⟨.other "add", [.reg .ebx, .type (memory ||| bits32)]⟩
    let g := Gen.traversed ⟨.imm32, 7, .none, 0, 0, 0, 0⟩
    SetsOperands src g ((oneInsnGen src).run g).2 :=
  oneInsnGen_operands (ready_traversed _) rfl rfl rfl (run_eq (by decide +kernel))

/-- Every run of `one_insn_gen` initialises the implied operands. -/
theorem oneInsnGen_implied (hg : g.Ready) (hm : g.hasMemOpnd = false)
    (hop : src.opcode.fallsThrough) (hv : src.noVars) (h : (oneInsnGen src).run g = (.ok true, g')) :
    SetsImplied src g g' := by
  obtain ⟨insn, ⟨hgen⟩⟩ := oneInsnGen_generated hg hop hv h
  refine ⟨insn, hgen.entries, _, hgen.opcode, hgen.leads hg, hgen.selections hg, fun k v hsel => ?_⟩
  have himpl : (Who.implied k, v) ∈ hgen.implSel := by
    refine (List.mem_append.1 hsel).resolve_left fun hop => ?_
    obtain ⟨_, _, hwho, -⟩ := hgen.operands.selected hop
    cases hwho
  obtain ⟨k', i, hwho, hi⟩ := hgen.implied.selected himpl
  obtain rfl : k = k' := by simpa using hwho
  exact ⟨i, hi, fun L t t' ht hu => hgen.holds_implied hg hm ht hi himpl hu⟩

theorem oneInsnGen_implied_cwd :
    let src := Source.pseudo ⟨.cwd, []⟩
    let g := Gen.traversed ⟨.imm32, 7, .none, 0, 0, 0, 0⟩
    SetsImplied src g ((oneInsnGen src).run g).2 :=
  oneInsnGen_implied (ready_traversed _) rfl rfl rfl (run_eq (by decide +kernel))

/-- Every run of `one_insn_gen` addresses a data block. -/
theorem oneInsnGen_address (hg : g.Ready) (hm : g.hasMemOpnd = false)
    (hop : src.opcode.fallsThrough) (hv : src.noVars) (h : (oneInsnGen src).run g = (.ok true, g')) :
    SetsAddress src g g' := by
  obtain ⟨insn, ⟨hgen⟩⟩ := oneInsnGen_generated hg hop hv h
  refine ⟨insn, hgen.entries, hgen.opcode, hgen.leads hg, fun k m honly => ?_⟩
  obtain ⟨size, offset, hsize, hfit, haddr⟩ := hgen.inBlock honly
  refine ⟨size, offset, hsize, hfit, fun L t t' ht => ?_⟩
  obtain ⟨t₁, t₂, -, -, h₃⟩ := hgen.exec ht
  exact haddr _ _ (hgen.setUp_mem hg hm honly h₃)

theorem oneInsnGen_address_inc :
    let src := Source.pseudo ⟨.other "inc", [.type (memory ||| bits32)]⟩
    let g := Gen.traversed ⟨.imm32, 7, .none, 0, 0, 0, 0⟩
    SetsAddress src g ((oneInsnGen src).run g).2 :=
  oneInsnGen_address (ready_traversed _) rfl rfl rfl (run_eq (by decide +kernel))

end

end Btrtg
