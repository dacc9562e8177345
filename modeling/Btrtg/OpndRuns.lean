import Btrtg.InitRuns
import Btrtg.MemRange

/-!
# Operands that are made and initialised

`gen_operand` for an instruction with `need_init`: the operand as it is drawn,
and what its initialisation inserts.
-/

namespace Btrtg

open Prog OpFlags

-- ---------------------------------------------------------------------------
-- Making an operand
-- ---------------------------------------------------------------------------

section
variable {g g' : Gen}

/-- What `create_random_modrm` and the draws leave alone. -/
structure OffModrm (g g' : Gen) : Prop where
  instlist : g'.instlist = g.instlist
  insertpos : g'.insertpos = g.insertpos
  needInit : g'.needInit = g.needInit
  datasizes : g'.datasizes = g.datasizes
  who : g'.who = g.who

theorem createRandomModrm_off (flags : OpFlags) :
    Keeps OffModrm NoOverflow (createRandomModrm flags) := by
  have hrand : Keeps OffModrm NoOverflow rand := fun g => ⟨⟨rfl, rfl, rfl, rfl, rfl⟩, fun _ h => by cases h⟩
  have hmodify : ∀ {f : Gen → Gen}, (∀ g, OffModrm g (f g)) →
      Uses (fun _ m => Keeps OffModrm NoOverflow m) NoOverflow (modify f : M PUnit) :=
    fun h => .prim fun g => ⟨h g, fun _ h => by cases h⟩
  have hrecord : ∀ e, Uses (fun _ m => Keeps OffModrm NoOverflow m) NoOverflow (record e) :=
    fun e => .prim fun g => ⟨⟨rfl, rfl, rfl, rfl, rfl⟩, fun _ h => by cases h⟩
  have huses : Uses (fun _ m => Keeps OffModrm NoOverflow m) NoOverflow (createRandomModrm flags) := by
    unfold createRandomModrm statLockReg statUnlockReg
    repeat' first | with_reducible refine .bind ?_ fun _ => ?_ | split
    all_goals grind [OffModrm]
  refine huses.keeps (fun g => ⟨rfl, rfl, rfl, rfl, rfl⟩) (fun g₁ g₂ g₃ h h' => ?_) fun _ h => h
  exact ⟨h'.instlist.trans h.instlist, h'.insertpos.trans h.insertpos, h'.needInit.trans h.needInit,
    h'.datasizes.trans h.datasizes, h'.who.trans h.who⟩

theorem drawUnlocked_mem {regs : List Reg} {n patience : Nat} {r : Reg}
    (h : (drawUnlocked regs n patience).run g = (.ok r, g')) : r ∈ regs := by
  induction patience generalizing g with
  | zero => cases h
  | succ patience ih =>
    obtain ⟨i, g₁, -, h⟩ := bind_ok.1 h
    split at h
    · cases h
    · rename_i reg hreg
      obtain ⟨_, _, hg, h⟩ := bind_ok.1 h
      cases hg
      split at h
      · exact ih h
      · cases h
        exact List.mem_of_getElem? hreg

theorem drawBase_mem {mode : SibMode} {data patience : Nat} {r : Reg}
    (h : (drawBase mode data patience).run g = (.ok r, g')) : r ∈ addrRegs := by
  unfold drawBase at h
  split at h
  · obtain ⟨base, g₁, hd, h⟩ := bind_ok.1 h
    cases h
    exact drawUnlocked_mem hd
  · cases h
    decide

theorem drawIndex_mem {mode : SibMode} {value patience : Nat} {r : Reg}
    (h : (drawIndex mode value patience).run g = (.ok r, g')) : r ∈ addrRegs := by
  unfold drawIndex at h
  split at h
  · obtain ⟨index, g₁, hd, h⟩ := bind_ok.1 h
    cases h
    exact drawUnlocked_mem hd
  · cases h
    decide

theorem createRandomModrm_mem {flags : OpFlags} {m : ModRM}
    (h : (createRandomModrm flags).run g = (.ok m, g')) :
    ∀ r, m.base? = some r ∨ m.index? = some r → r ∈ addrRegs := by
  rw [createRandomModrm_eq] at h
  obtain ⟨_, _, -, h⟩ := bind_ok.1 h
  obtain ⟨_, _, -, h⟩ := bind_ok.1 h
  obtain ⟨mode, _, -, h⟩ := bind_ok.1 h
  obtain ⟨addr, _, -, h⟩ := bind_ok.1 h
  obtain ⟨_, _, -, h⟩ := bind_ok.1 h
  obtain ⟨base, _, hbase, h⟩ := bind_ok.1 h
  obtain ⟨index, _, hindex, h⟩ := bind_ok.1 h
  have hb := drawBase_mem hbase
  have hi := drawIndex_mem hindex
  have hm : m = modrmOf mode addr base index := by
    obtain ⟨_, _, -, h⟩ := bind_ok.1 h
    split at h
    · obtain ⟨_, _, -, h⟩ := bind_ok.1 h
      cases h
      rfl
    · cases h
      rfl
  rw [hm]
  cases mode <;> rintro r (hr | hr) <;> cases hr <;> assumption

/-- Of two address registers with entries of their own. -/
theorem apart_of_lockRegType {b i : Reg} (hb : b ∈ addrRegs) (hi : i ∈ addrRegs)
    (h : getLockRegType b ≠ getLockRegType i) : b.Apart i := by
  simp only [addrRegs, List.mem_cons, List.not_mem_nil, or_false] at hb hi
  rcases hb with rfl | rfl | rfl | rfl | rfl | rfl <;>
    rcases hi with rfl | rfl | rfl | rfl | rfl | rfl <;>
      first | exact absurd rfl h | exact .inl (by decide)

theorem createRandomModrm_sound {flags : OpFlags} {m : ModRM} (w : ∀ t, g.lockRegCases t ≠ .mem)
    (h : (createRandomModrm flags).run g = (.ok m, g')) : m.Sound where
  mem := createRandomModrm_mem h
  apart b i hb hi := apart_of_lockRegType (createRandomModrm_mem h b (.inl hb))
    (createRandomModrm_mem h i (.inr hi)) ((createRandomModrm_ok w h).apart b i hb hi)

/-- The size and the packed classes are those of the other flags. -/
def SameKind (flags flags' : OpFlags) : Prop :=
  flags' &&& sizeMask = flags &&& sizeMask ∧ flags'.isPacked = flags.isPacked

theorem isClass_of_and {cls a b : OpFlags} (h : a &&& cls = b &&& cls) :
    isClass cls a = isClass cls b := by
  have hbits : cls &&& ~~~a = cls &&& ~~~b := by
    refine BitVec.eq_of_getLsbD_eq fun i hi => ?_
    have hi' := congrArg (fun x => BitVec.getLsbD x i) h
    simp only [BitVec.getLsbD_and, BitVec.getLsbD_not, hi, decide_true, Bool.true_and] at hi' ⊢
    cases hc : cls.getLsbD i
    · simp
    · simpa [hc] using hi'
  rw [isClass, isClass, hbits]

/-- Bits that a mask keeps and that are not added. -/
theorem or_and_mask {x a b c : OpFlags} (ha : a &&& c = c) (hb : b &&& c = 0) :
    ((x &&& a) ||| b) &&& c = x &&& c := by
  rw [BitVec.and_or_distrib_right, hb, BitVec.and_assoc, ha]
  simp

theorem sameKind_memory (flags : OpFlags) : SameKind flags ((flags &&& ~~~optypeMask) ||| memory) := by
  refine ⟨or_and_mask (by decide) (by decide), ?_⟩
  rw [isPacked, isPacked, isClass_of_and (or_and_mask (by decide) (by decide)),
    isClass_of_and (or_and_mask (by decide) (by decide))]

theorem sameKind_register (flags : OpFlags) : SameKind flags (flags ||| register) := by
  have hones : flags ||| register = (flags &&& BitVec.allOnes 64) ||| register := by
    rw [BitVec.and_allOnes]
  rw [hones]
  refine ⟨or_and_mask (by decide) (by decide), ?_⟩
  rw [isPacked, isPacked, isClass_of_and (or_and_mask (by decide) (by decide)),
    isClass_of_and (or_and_mask (by decide) (by decide))]

/-- Before an instruction whose operands are initialised. -/
structure Gen.Ready (g : Gen) : Prop where
  needInit : g.needInit = true
  placed : g.instlist.Placed g.insertpos
  lockRegCases : ∀ t, g.lockRegCases t ≠ .mem
  datasizes : g.datasizes.length = sectionDataNum
  datasize : ∀ size ∈ g.datasizes, 128 + 8 ≤ size

def Gen.InBlock (g : Gen) (m : ModRM) : Prop :=
  ∃ size offset, g.datasizes[m.data]? = some size ∧ offset + 128 ≤ size ∧
    ∀ regs label, m.SetUp regs label → m.address regs label = label m.data + .ofNat 32 offset

/-- An operand was made: a register, an immediate with its constant, or a memory operand
with its set-up text. -/
inductive Builds (g : Gen) (flags : OpFlags) : Opnd → Gen → Prop
  | reg {r g'} : isClass register flags → Emits g g' [] [] → g'.who = g.who → Builds g flags (.reg r) g'
  | imm {v g'} : Emits g g' [] [(g.who, v)] →
      Builds g flags (.imm (v.cut (flags &&& sizeMask))) g'
  | mem {m g'} : m.Sound → g.InBlock m → OffModrm g g' → g'.selections = g.selections →
      g'.lockRegCases = g.lockRegCases → g'.initMemAddr = m.setup →
      g'.hasMemOpnd = (g.hasMemOpnd || m.usesReg) → Builds g flags (.mem m) g'

theorem createMemory_builds {flags flags' : OpFlags} {o : Opnd} (hg : g.Ready)
    (h : (createMemory flags).run g = (.ok o, g')) : Builds g flags' o g' := by
  obtain ⟨m, g₁, h₁, h⟩ := bind_ok.1 h
  cases h
  have hoff := (createRandomModrm_off flags).of_run h₁
  have hmade := createRandomModrm_ok hg.lockRegCases h₁
  have hin := (createRandomModrm_inBlock hg.datasizes hg.datasize flags).run_ok h₁
  obtain ⟨size, offset, hsize, hfit, -, haddr⟩ := hin
  refine .mem (createRandomModrm_sound hg.lockRegCases h₁) ⟨size, offset, hsize, hfit, haddr⟩ hoff ?_
    hmade.lockRegCases hmade.initMemAddr hmade.hasMemOpnd
  rw [Gen.selections, Gen.selections, hmade.log]
  simp [Event.selected?]

theorem createFileRegister_reg {file : Fin 8 → Reg} {flags : OpFlags} {o : Opnd}
    (h : (createFileRegister file flags).run g = (.ok o, g')) : ∃ r, o = .reg r := by
  obtain ⟨n, g₁, -, h⟩ := bind_ok.1 h
  obtain ⟨i, g₂, -, h⟩ := bind_ok.1 h
  split at h
  · cases h
    exact ⟨_, rfl⟩
  · cases h

theorem genRegister_reg {flags : OpFlags} {o : Opnd}
    (h : (genRegister flags).run g = (.ok (some o), g')) : ∃ r, o = .reg r := by
  -- one of the creations, and its result
  have hsome : ∀ {m : M Opnd}, (m >>= fun o => pure (some o)).run g = (.ok (some o), g') →
      ∃ g₁, m.run g = (.ok o, g₁) := by
    intro m h
    obtain ⟨o', g₁, h₁, h⟩ := bind_ok.1 h
    cases h
    exact ⟨g', h₁⟩
  unfold genRegister at h
  split at h
  · cases h
    exact ⟨_, rfl⟩
  split at h
  · cases h
  split at h
  · obtain ⟨g₁, h⟩ := hsome h
    obtain ⟨n, _, -, h⟩ := bind_ok.1 h
    obtain ⟨_, _, -, h⟩ := bind_ok.1 h
    obtain ⟨r, _, -, h⟩ := bind_ok.1 h
    cases h
    exact ⟨_, rfl⟩
  split at h
  · obtain ⟨g₁, h⟩ := hsome h
    obtain ⟨n, _, -, h⟩ := bind_ok.1 h
    obtain ⟨i, _, -, h⟩ := bind_ok.1 h
    split at h <;> cases h
    exact ⟨_, rfl⟩
  iterate 3
    split at h
    · obtain ⟨g₁, h⟩ := hsome h
      exact createFileRegister_reg h
  split at h <;> cases h

theorem genRegister_builds {flags flags' : OpFlags} {o : Opnd} (hp : g.instlist.Placed g.insertpos)
    (hr : isClass register flags') (h : (genRegister flags).run g = (.ok (some o), g')) :
    Builds g flags' o g' := by
  obtain ⟨r, rfl⟩ := genRegister_reg h
  have hdrawn := (drawn_draws (draws_genRegister drawn_rand flags)).of_run h
  refine .reg hr (hdrawn.emits hp) ?_
  obtain ⟨n, rfl⟩ := hdrawn
  rfl

/-- What `init_immediate_opnd` writes. -/
theorem cut_eq (v : ConstNode) (size : OpFlags) : v.cut size =
    if size = bits8 then v.imm8.setWidth 32
    else if size = bits16 then v.imm16.setWidth 32 else v.imm32 := by
  have h8 : v.imm32.setWidth 8 = v.imm8 := BitVec.setWidth_setWidth_of_le _ (by decide)
  have h16 : v.imm32.setWidth 16 = v.imm16 := BitVec.setWidth_setWidth_of_le _ (by decide)
  rw [ConstNode.cut, h8, h16]

theorem genImmediate_builds {flags : OpFlags} {o : Opnd} (hg : g.Ready)
    (h : (genImmediate flags).run g = (.ok o, g')) : Builds g flags o g' := by
  -- with `need_init` set every kind of immediate is a constant
  have hinit : (initImmediateOpnd flags).run g = (.ok o, g') := by
    obtain ⟨_, _, hs, h⟩ := bind_ok.1 h
    cases hs
    simp only [hg.needInit, if_true] at h
    repeat' split at h
    all_goals first | exact h | cases h
  obtain ⟨c, g₁, h₁, h⟩ := bind_ok.1 hinit
  have hnode := requestNode_emits hg.placed h₁
  cases c with
  | none => cases h
  | some v =>
    cases h
    rw [← cut_eq]
    exact .imm hnode

theorem Drawn.ready (h : Drawn g g') (hg : g.Ready) : g'.Ready := by
  obtain ⟨n, rfl⟩ := h
  exact ⟨hg.needInit, hg.placed, hg.lockRegCases, hg.datasizes, hg.datasize⟩

theorem Builds.of_drawn {g₁ : Gen} {flags : OpFlags} {o : Opnd} (h : Builds g₁ flags o g')
    (hg : g.Ready) (hd : Drawn g g₁) : Builds g flags o g' := by
  have he := hd.emits hg.placed
  obtain ⟨n, rfl⟩ := hd
  cases h with
  | reg hr hemits hwho => exact .reg hr (he.trans hemits) hwho
  | imm hemits => exact .imm (he.trans hemits)
  | mem hm hin hoff hsel hlock hset hmem =>
    exact .mem hm hin ⟨hoff.instlist, hoff.insertpos, hoff.needInit, hoff.datasizes, hoff.who⟩ hsel
      hlock hset hmem

theorem genOperandInternal_builds {flags flags' : OpFlags} {o : Opnd} (hg : g.Ready)
    (h : (genOperandInternal flags).run g = (.ok (some o, flags'), g')) :
    SameKind flags flags' ∧ Builds g flags' o g' := by
  unfold genOperandInternal at h
  split at h
  · rename_i hr
    obtain ⟨o', g₁, h₁, h⟩ := bind_ok.1 h
    cases h
    exact ⟨⟨rfl, rfl⟩, genRegister_builds hg.placed hr h₁⟩
  split at h
  · obtain ⟨o', g₁, h₁, h⟩ := bind_ok.1 h
    cases h
    exact ⟨⟨rfl, rfl⟩, genImmediate_builds hg h₁⟩
  split at h
  · unfold genRegMem at h
    split at h
    · obtain ⟨o', g₁, h₁, h⟩ := bind_ok.1 h
      cases h
      exact ⟨⟨rfl, rfl⟩, createMemory_builds hg h₁⟩
    · obtain ⟨b, g₁, h₁, h⟩ := bind_ok.1 h
      have hdrawn := (drawn_draws (draws_likelyHappenP drawn_rand 5000)).of_run h₁
      have hg₁ := hdrawn.ready hg
      split at h
      · obtain ⟨o', g₂, h₂, h⟩ := bind_ok.1 h
        cases h
        exact ⟨sameKind_memory flags, (createMemory_builds hg₁ h₂).of_drawn hg hdrawn⟩
      · obtain ⟨o', g₂, h₂, h⟩ := bind_ok.1 h
        cases h
        have hr : isClass register (flags ||| register) := by
          rw [isClass, BitVec.not_or, BitVec.and_comm (~~~flags), ← BitVec.and_assoc]
          simp
        exact ⟨sameKind_register flags, (genRegister_builds hg₁.placed hr h₂).of_drawn hg hdrawn⟩
  · cases h

end

-- ---------------------------------------------------------------------------
-- Operands
-- ---------------------------------------------------------------------------

def Source.flags : Source → Nat → OpFlags
  | .seed s, j => s.opd.getD j 0 ||| calOperandSize s.opcode s.opd j
  | .pseudo p, j =>
    match p.opnds[j]? with
    | some (.type flags) => flags
    | some (.reg r) => r.flags
    | _ => 0

def Source.noVars : Source → Bool
  | .seed _ => true
  | .pseudo p => p.opnds.all fun o =>
    match o with
    | .var _ => false
    | _ => true

section
variable {g g' : Gen} {src : Source}

/-- An operand with its initialisation: what was inserted and selected for it. -/
structure Prepares (src : Source) (j : Nat) (g : Gen) (o : Opnd) (c : Option ConstNode)
    (es : List Entry) (g' : Gen) : Prop where
  initialises : Initialises o (src.flags j) c es
  inserts : g.instlist.Inserts g.insertpos es g'.instlist g'.insertpos
  selections : g'.selections = g.selections ++ selectionOf (.explicit j) c
  ready : g'.Ready
  datasizes : g'.datasizes = g.datasizes
  mem : ∀ m, o = .mem m → m.Sound ∧ g.InBlock m ∧ g'.initMemAddr = m.setup ∧
    g'.hasMemOpnd = (g.hasMemOpnd || m.usesReg)
  notMem : o.isMem = false → g'.initMemAddr = g.initMemAddr ∧ g'.hasMemOpnd = g.hasMemOpnd

theorem Initialises.sameKind {o : Opnd} {flags flags' : OpFlags} {c : Option ConstNode}
    {es : List Entry} (h : Initialises o flags' c es) (hk : SameKind flags flags') :
    Initialises o flags c es where
  kept := h.kept
  setUp := h.setUp
  holds L t t' ht hp v hv := by
    rw [← hk.1]
    exact h.holds L t t' ht (hk.2.trans hp) v hv

theorem Emits.ready {es : List Entry} {sel : List (Who × ConstNode)} (h : Emits g g' es sel)
    (hg : g.Ready) : g'.Ready where
  needInit := h.needInit.trans hg.needInit
  placed := h.placed
  lockRegCases := by rw [h.lockRegCases]; exact hg.lockRegCases
  datasizes := by rw [h.datasizes]; exact hg.datasizes
  datasize := by rw [h.datasizes]; exact hg.datasize

/-- What is made and then initialised. -/
theorem Builds.prepares {j : Nat} {flags : OpFlags} {o : Opnd} {g₁ : Gen} {u : Unit} (hg : g.Ready)
    (hwho : g.who = .explicit j) (hk : SameKind (src.flags j) flags) (hm : Builds g flags o g₁)
    (h : (initOpnd (oneInsnGenConst 1) o flags none).run g₁ = (.ok u, g')) :
    ∃ c es, Prepares src j g o c es g' := by
  cases hm with
  | @reg r _ hr he hwho₁ =>
    have hg₁ := he.ready hg
    obtain ⟨c, es, hinit, he'⟩ := initOpnd_reg hg₁.needInit hg₁.placed hr h
    rw [hwho₁, hwho] at he'
    have hall := he.trans he'
    exact ⟨c, es, hinit.sameKind hk, hall.inserts, hall.selections, hall.ready hg, hall.datasizes,
      fun m hm => (by cases hm), fun _ => ⟨hall.initMemAddr, hall.hasMemOpnd⟩⟩
  | @imm v _ he =>
    have hg₁ := he.ready hg
    have hall := he.trans (initOpnd_imm hg₁.needInit hg₁.placed h)
    rw [hwho] at hall
    exact ⟨some v, [], (initialises_imm v).sameKind hk, hall.inserts, hall.selections, hall.ready hg,
      hall.datasizes, fun m hm => (by cases hm), fun _ => ⟨hall.initMemAddr, hall.hasMemOpnd⟩⟩
  | @mem m _ hsound hin hoff hsel hlock hset hmem =>
    have hp₁ : g₁.instlist.Placed g₁.insertpos := by
      rw [hoff.instlist, hoff.insertpos]
      exact hg.placed
    obtain ⟨c, es, hinit, he⟩ := initOpnd_mem (hoff.needInit.trans hg.needInit) hp₁ hsound hset h
    rw [hoff.who, hwho] at he
    refine ⟨c, es, hinit.sameKind hk, ?_, ?_, ⟨?_, he.placed, ?_, ?_, ?_⟩, ?_, ?_, ?_⟩
    · rw [← hoff.instlist, ← hoff.insertpos]
      exact he.inserts
    · rw [he.selections, hsel]
    · rw [he.needInit, hoff.needInit, hg.needInit]
    · rw [he.lockRegCases, hlock]
      exact hg.lockRegCases
    · rw [he.datasizes, hoff.datasizes]
      exact hg.datasizes
    · rw [he.datasizes, hoff.datasizes]
      exact hg.datasize
    · rw [he.datasizes, hoff.datasizes]
    · intro m' hm'
      cases hm'
      exact ⟨hsound, hin, he.initMemAddr.trans hset, he.hasMemOpnd.trans hmem⟩
    · intro hm'
      cases hm'

/-- An immediate that is written out. -/
theorem initialises_written (x : BitVec 32) (flags : OpFlags) : Initialises (.imm x) flags none [] where
  kept L t t' h := by
    cases h
    exact .refl t
  setUp L t t' h m hm := by cases hm
  holds L t t' h hp v hv := by cases hv

theorem isClass_register_flags (r : Reg) : isClass register r.flags := by
  cases r with
  | st i | xmm i =>
    simp only [Reg.flags]
    split_ifs <;> rfl
  | mm i => exact (rfl : isClass register mmxreg = true)
  | _ => rfl

theorem genOperandInsnSeed_prepares {s : InsnSeed} {size : Option SizeWord} {o : Opnd}
    {hasLabel : Bool} (hg : g.Ready) (hwho : g.who = .explicit g.opi)
    (h : (genOperandInsnSeed (oneInsnGenConst 1) s).run g = (.ok (.opnd size o hasLabel), g')) :
    ∃ c es, Prepares (.seed s) g.opi g o c es g' := by
  obtain ⟨_, _, hs, h⟩ := bind_ok.1 h
  cases hs
  dsimp only at h
  split at h
  · cases h
  obtain ⟨⟨o?, flags⟩, g₁, h₁, h⟩ := bind_ok.1 h
  dsimp only at h
  split at h
  · cases h
  obtain ⟨hk, hm⟩ := genOperandInternal_builds hg h₁
  obtain ⟨_, g₂, h₂, h⟩ := bind_ok.1 h
  cases h
  exact hm.prepares hg hwho hk h₂

theorem genOperandPseudoCode_prepares {p : PseudoInsn} {size : Option SizeWord} {o : Opnd}
    {hasLabel : Bool} (hg : g.Ready) (hv : (Source.pseudo p).noVars) (hwho : g.who = .explicit g.opi)
    (h : (genOperandPseudoCode (oneInsnGenConst 1) p).run g = (.ok (.opnd size o hasLabel), g')) :
    ∃ c es, Prepares (.pseudo p) g.opi g o c es g' := by
  obtain ⟨_, _, hs, h⟩ := bind_ok.1 h
  cases hs
  dsimp only at h
  cases ho : p.opnds[g.opi]? with
  | none =>
    rw [ho] at h
    cases h
  | some po =>
    rw [ho] at h
    dsimp only at h
    obtain ⟨⟨seed, place⟩, g₁, h₁, h⟩ := bind_ok.1 h
    cases po with
    | var name =>
      have := List.all_eq_true.1 hv _ (List.mem_of_getElem? ho)
      cases this
    | type flags =>
      have hf : (Source.pseudo p).flags g.opi = flags := by simp only [Source.flags, ho]
      cases h₁
      dsimp only at h
      obtain ⟨⟨o?, flags'⟩, g₂, h₂, h⟩ := bind_ok.1 h
      dsimp only at h
      split at h
      · cases h
      obtain ⟨hk, hm⟩ := genOperandInternal_builds hg h₂
      obtain ⟨_, g₃, h₃, h⟩ := bind_ok.1 h
      cases h
      rw [← hf] at hk
      exact hm.prepares hg hwho hk h₃
    | reg r =>
      have hf : (Source.pseudo p).flags g.opi = r.flags := by simp only [Source.flags, ho]
      cases h₁
      obtain ⟨_, g₂, h₂, h⟩ := bind_ok.1 h
      cases h
      have hm : Builds g r.flags (.reg r) g :=
        .reg (isClass_register_flags r) (.refl hg.placed) rfl
      exact hm.prepares hg hwho ⟨by rw [hf], by rw [hf]⟩ h₂
    | imm x =>
      cases h₁
      cases h
      exact ⟨none, [], initialises_written x _, .nil, by simp [selectionOf], hg, rfl,
        fun m hm => (by cases hm), fun _ => ⟨rfl, rfl⟩⟩

/-- The operand that a call of `gen_operand` makes for an instruction that is initialised. -/
theorem genOperand_prepares {j : Nat} {size : Option SizeWord} {o : Opnd} {hasLabel : Bool}
    (hg : g.Ready) (hv : src.noVars) (hwho : g.who = .explicit j) (hopi : g.opi = j)
    (h : (genOperand (oneInsnGenConst 1) src).run g = (.ok (.opnd size o hasLabel), g')) :
    ∃ c es, Prepares src j g o c es g' := by
  subst hopi
  cases src with
  | seed s => exact genOperandInsnSeed_prepares hg hwho h
  | pseudo p => exact genOperandPseudoCode_prepares hg hv hwho h

end

end Btrtg
