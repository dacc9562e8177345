import Btrtg.Frame

/-!
# How deep initialisations nest

An initialisation clears `need_init` before it generates an instruction and sets
it again afterwards, so the nested instruction initialises nothing: two runs
that differ in what a nested instruction would nest in its turn are the same.
-/

namespace Btrtg

open Prog OpFlags

-- ---------------------------------------------------------------------------
-- What keeps `need_init`
-- ---------------------------------------------------------------------------

/-- Neither a constant is requested nor an implied operand initialised. -/
def Event.Plain : Event → Prop
  | .request .. | .selected .. | .operand _ _ (.implied _) .. => False
  | _ => True

/-- What may be recorded: where `q` is set, plain events only. -/
def Allowed (q : Bool) (e : Event) : Prop := q = true → e.Plain

/-- The log goes on with what is allowed. -/
abbrev LogsPlain (q : Bool) : Gen → Gen → Prop := Logs (fun _ => True) (Allowed q)

def Flagged (q : Bool) (g g' : Gen) : Prop := g'.needInit = g.needInit ∧ LogsPlain q g g'

/-- Programs that do not write `need_init`. -/
inductive FlagPrim (q : Bool) : (α : Type) → M α → Prop
  | rand : FlagPrim q _ rand
  | modify {f : Gen → Gen} : (∀ g, (f g).needInit = g.needInit ∧ (f g).log = g.log) →
      FlagPrim q _ (modify f)
  | record {e : Event} : Allowed q e → FlagPrim q _ (record e)
  | list {α : Type} {m : M α} : Uses ListPrim NoOverflow m → FlagPrim q α m

section
variable {b q : Bool} {g g' : Gen} {α : Type} {m m' : M α}

theorem Flagged.refl (q : Bool) (g : Gen) : Flagged q g g := ⟨rfl, .refl g⟩

theorem Flagged.trans {g₁ g₂ g₃ : Gen} (h : Flagged q g₁ g₂) (h' : Flagged q g₂ g₃) :
    Flagged q g₁ g₃ := ⟨h'.1.trans h.1, h.2.trans h'.2⟩

theorem OffList.flagged (h : OffList g g') : Flagged q g g' := by
  refine ⟨?_, .of_eq h.log⟩
  obtain ⟨_, _, _, _, _, _, _, rfl⟩ := h
  rfl

theorem FlagPrim.keeps (h : FlagPrim q α m) : Keeps (Flagged q) (fun _ => True) m := by
  intro g
  refine ⟨?_, fun _ _ => trivial⟩
  cases h with
  | rand => exact (ListPrim.rand.keeps g).1.flagged
  | modify hf => exact ⟨(hf g).1, .of_eq (hf g).2⟩
  | record he => exact ⟨rfl, .one rfl fun _ => he⟩
  | list hm => exact (list_keeps hm g).1.flagged

/-- The runs of two programs with `need_init` as it is. -/
abbrev Alike (b q : Bool) (m m' : M α) : Prop :=
  Twin (fun g => g.needInit = b) (fun g => g.needInit = b) (LogsPlain q) m m'

theorem alike_of_flags (h : Uses (FlagPrim q) NoOverflow m) : Alike b q m m := by
  have hkeeps : Keeps (Flagged q) (fun _ => True) m :=
    (h.mono (fun _ hm => .prim hm) fun _ _ => trivial).keeps (Flagged.refl q)
      (fun _ _ _ => Flagged.trans) fun _ hm => hm.keeps
  refine Upholds.twin fun g hg => (hkeeps.triple g).mono (fun _ g' h => ?_) fun _ g' h => h.2
  exact ⟨h.1.trans hg, h.2⟩

theorem Alike.bind {β : Type} {f f' : α → M β} (hm : Alike b q m m') (hf : ∀ a, Alike b q (f a) (f' a)) :
    Alike b q (m >>= f) (m' >>= f') := Twin.bind hm (fun _ _ _ => Logs.trans) hf

theorem alike_pure (a : α) : Alike b q (pure a) (pure a) := alike_of_flags (.pure a)

theorem alike_throw {e : Fault} (h : NoOverflow e) : Alike b q (throw e : M α) (throw e) :=
  alike_of_flags (.throw h)

end

-- ---------------------------------------------------------------------------
-- Operands
-- ---------------------------------------------------------------------------

section
variable {b q : Bool} {α : Type} {m : M α}

attribute [local grind ←] FlagPrim.rand

@[local grind ←] theorem flag_modify {f : Gen → Gen}
    (h : ∀ g, (f g).needInit = g.needInit ∧ (f g).log = g.log) :
    Uses (FlagPrim q) NoOverflow (modify f : M PUnit) := .prim (.modify h)

@[local grind ←] theorem flag_record {e : Event} (h : Allowed q e) :
    Uses (FlagPrim q) NoOverflow (record e) := .prim (.record h)

theorem flag_list (h : Uses ListPrim NoOverflow m) : Uses (FlagPrim q) NoOverflow m := .prim (.list h)

@[local grind ←] theorem flag_insert (e : Entry) : Uses (FlagPrim q) NoOverflow (statInsertInsn e .after) :=
  flag_list (.prim (.insert e .after))

@[local grind ←] theorem flag_createRandomModrm (flags : OpFlags) :
    Uses (FlagPrim q) NoOverflow (createRandomModrm flags) := by
  have hrecord : ∀ h, Uses (FlagPrim q) NoOverflow (record (.modrm h)) :=
    fun _ => flag_record fun _ => trivial
  have hrand : FlagPrim q _ rand := .rand
  unfold createRandomModrm statLockReg statUnlockReg
  repeat' first | with_reducible refine .bind ?_ fun _ => ?_ | split
  all_goals grind

theorem flag_createOpndSeed (o : PseudoOpnd) : Uses (FlagPrim q) NoOverflow (createOpndSeed o) := by
  cases o with
  | var name =>
    refine .bind (.bind .get fun g => .bind (flag_record fun _ => trivial) fun _ => .pure _) fun r => ?_
    cases r with
    | none => exact .throw nofun
    | some r => exact .pure _
  | type | reg | imm => exact .pure _

theorem alike_modify {f : Gen → Gen} (h : ∀ g, (f g).needInit = g.needInit ∧ (f g).log = g.log) :
    Alike b q (modify f : M PUnit) (modify f) := alike_of_flags (flag_modify h)

theorem alike_record {e : Event} (h : Allowed q e) : Alike b q (record e) (record e) :=
  alike_of_flags (flag_record h)

/-- With `need_init` set everything may be recorded. -/
theorem flags_of_picks (h : Picks m) : Uses (FlagPrim false) NoOverflow m := by
  have hrec : ∀ e : Event, e.isOperand → Uses (FlagPrim false) NoOverflow (record e) :=
    fun _ _ => flag_record nofun
  refine h.mono (fun _ h => ?_) fun _ h => h
  cases h with
  | rand => exact .prim .rand
  | node => exact requests_requestNode hrec .rand
  | packedNodes => exact requests_requestPackedNodes hrec .rand
  | lines ls => exact flag_insert _

variable (hq : q = true → b = false)
include hq

theorem alike_genImmediate (flags : OpFlags) :
    Alike b q (genImmediate flags) (genImmediate flags) := by
  cases b with
  | true =>
    cases q with
    | true => exact nomatch hq rfl
    | false => exact alike_of_flags (flags_of_picks (picks_genImmediate flags))
  | false =>
    -- no constant is requested
    refine Twin.get_bind fun g hg => ?_
    have hrand : FlagPrim q _ rand := .rand
    simp only [hg, Bool.false_eq_true, if_false]
    refine alike_of_flags ?_
    grind

theorem alike_genOperandInternal (flags : OpFlags) :
    Alike b q (genOperandInternal flags) (genOperandInternal flags) := by
  have hrand : FlagPrim q _ rand := .rand
  unfold genOperandInternal
  split
  · exact alike_of_flags (by grind)
  split
  · exact (alike_genImmediate hq flags).bind fun o => alike_pure _
  refine alike_of_flags ?_
  unfold genRegMem createMemory
  grind

variable {constInsn constInsn' : PseudoInsn → M Bool}
  (hinit : ∀ o flags varAddr,
    Alike b q (initOpnd constInsn o flags varAddr) (initOpnd constInsn' o flags varAddr))
include hinit

theorem alike_genOperand (src : Source) :
    Alike b q (genOperand constInsn src) (genOperand constInsn' src) := by
  cases src with
  | seed s =>
    unfold genOperand genOperandInsnSeed
    refine Twin.get_bind fun g hg => ?_
    dsimp only
    split
    · exact alike_pure _
    refine (alike_genOperandInternal hq _).bind fun ⟨o, flags⟩ => ?_
    cases o with
    | none => exact alike_pure _
    | some o => exact (hinit o flags none).bind fun _ => alike_pure _
  | pseudo p =>
    unfold genOperand genOperandPseudoCode
    refine Twin.get_bind fun g hg => ?_
    dsimp only
    split
    · exact alike_pure _
    refine (alike_of_flags (flag_createOpndSeed _)).bind fun ⟨seed, place⟩ => ?_
    dsimp only
    split
    · split
      · refine (alike_genOperandInternal hq _).bind fun ⟨o, flags⟩ => ?_
        cases o with
        | none => exact alike_pure _
        | some o =>
          refine Twin.get_bind fun g hg => ?_
          refine Alike.bind (alike_modify fun g => ⟨rfl, rfl⟩) fun _ => ?_
          exact (hinit o flags _).bind fun _ => alike_pure _
      · split
        · exact alike_throw nofun
        · refine Alike.bind (alike_record fun _ => trivial) fun _ => ?_
          refine Alike.bind (alike_modify fun g => ⟨rfl, rfl⟩) fun _ => ?_
          exact (hinit _ _ _).bind fun _ => alike_pure _
    · refine (alike_genOperandInternal hq _).bind fun ⟨o, flags⟩ => ?_
      cases o with
      | none => exact alike_pure _
      | some o => exact (hinit o flags none).bind fun _ => alike_pure _
    · exact (hinit _ _ none).bind fun _ => alike_pure _
    · exact alike_pure _
    · exact alike_throw nofun

omit hq hinit in
/-- An explicit operand is recorded. -/
theorem Alike.explicit {m m' : M α} (hm : Alike b q m m') (src : Source) (n : Nat) :
    Alike b q (do
        modify fun g => { g with opi := n, who := .explicit n }
        logExplicit src n
        m) (do
        modify fun g => { g with opi := n, who := .explicit n }
        logExplicit src n
        m') := by
  have hlog : Alike b q (do
      modify fun g => { g with opi := n, who := .explicit n }
      logExplicit src n) (do
      modify fun g => { g with opi := n, who := .explicit n }
      logExplicit src n) := by
    unfold logExplicit
    split
    · exact Upholds.twin fun _ hg => ⟨hg, .one rfl fun _ _ => trivial⟩
    · exact alike_modify fun g => ⟨rfl, rfl⟩
  simpa only [bind_assoc] using hlog.bind fun _ => hm

theorem alike_operandLoop (src : Source) (room : Nat)
    (opnds : List (Option SizeWord × Opnd)) (isLabel : Bool) :
    Alike b q (operandLoop constInsn src room opnds isLabel)
      (operandLoop constInsn' src room opnds isLabel) := by
  induction room generalizing opnds isLabel with
  | zero => exact alike_throw nofun
  | succ room ih =>
    simp only [operandLoop]
    refine Alike.explicit ((alike_genOperand hq hinit src).bind fun made => ?_) _ _
    cases made with
    | failed => exact alike_pure _
    | done => exact alike_pure _
    | opnd size o hasLabel => exact ih _ _

omit hq hinit in
/-- The instruction is inserted. -/
theorem flag_emit (insn : Insn) (transferred : Bool) : Uses (FlagPrim q) NoOverflow (do
    let g ← get
    if g.hasMemOpnd then do
      oneInsnGenCtrl (.lines g.initMemAddr) .after
      record (.emit insn (some g.initMemAddr) transferred)
      statInsertInsn (.insn insn) .after
      return true
    else do
      record (.emit insn none transferred)
      statInsertInsn (.insn insn) .after
      return true) := by
  refine .bind .get fun g => ?_
  split
  · exact .bind (flag_insert _) fun _ => .bind (flag_record fun _ => trivial) fun _ =>
      .bind (flag_insert _) fun _ => .pure _
  · exact .bind (flag_record fun _ => trivial) fun _ => .bind (flag_insert _) fun _ => .pure _

variable (himplied : b = true → ∀ opcode opnds,
  Alike b q (initImpliedOperands constInsn opcode opnds)
    (initImpliedOperands constInsn' opcode opnds))
include himplied

theorem alike_insnOperands (src : Source) (transferred : Bool) :
    Alike b q (insnOperands constInsn src transferred)
      (insnOperands constInsn' src transferred) := by
  unfold insnOperands
  refine (alike_operandLoop hq hinit src _ _ _).bind fun made => ?_
  cases made with
  | none => exact alike_pure _
  | some made =>
    refine Twin.get_bind fun g hg => ?_
    dsimp only
    split
    case isTrue h =>
      refine Alike.bind (himplied (hg.symm.trans h) _ _) fun _ => ?_
      exact alike_of_flags (flag_emit ⟨src.opcode, made.1, made.2⟩ transferred)
    case isFalse =>
      exact alike_of_flags (flag_emit ⟨src.opcode, made.1, made.2⟩ transferred)

/-- The runs of an instruction are alike if the initialisations are. -/
theorem alike_oneInsnGenWith (src : Source) :
    Alike b q (oneInsnGenWith constInsn src) (oneInsnGenWith constInsn' src) := by
  have hlabel : Uses (FlagPrim q) NoOverflow likelyGenLabel := flag_list list_likelyGenLabel
  have htransfer : ∀ op, Uses (FlagPrim q) NoOverflow (callControlTransfer .insn op (-1)) :=
    fun op => .bind .get fun _ => .bind (flag_list (list_genControlTransferInsn op _)) fun _ =>
      .bind .get fun _ => .bind (flag_record fun _ => trivial) fun _ => .pure _
  refine Twin.get_bind fun g hg => ?_
  refine Alike.bind (alike_record fun _ => trivial) fun _ => ?_
  refine (alike_of_flags hlabel).bind fun _ => ?_
  refine Alike.bind (alike_modify fun g => ⟨rfl, rfl⟩) fun _ => ?_
  refine (alike_of_flags (htransfer _)).bind fun ⟨label, transferred⟩ => ?_
  dsimp only
  split
  · exact alike_pure _
  · exact alike_insnOperands hq hinit himplied src transferred

end

-- ---------------------------------------------------------------------------
-- Initialisations
-- ---------------------------------------------------------------------------

section
variable {constInsn constInsn' : PseudoInsn → M Bool}

/-- With `need_init` clear no operand is initialised. -/
theorem initOpnd_off {g : Gen} (h : g.needInit = false) (o : Opnd) (flags : OpFlags)
    (varAddr : Option (Option (List Line))) :
    (initOpnd constInsn o flags varAddr).run g = (.ok (), g) := by
  simp [initOpnd, run_bind, h]

/-- A nested instruction runs alike whatever it would nest, and initialises nothing. -/
theorem alike_off (src : Source) :
    Alike false true (oneInsnGenWith constInsn src) (oneInsnGenWith constInsn' src) := by
  refine alike_oneInsnGenWith (fun _ => rfl) (fun o flags varAddr => ?_) nofun src
  refine ⟨fun g hg => ?_, fun g hg => ?_⟩
  · rw [initOpnd_off hg, initOpnd_off hg]
  · exact .of_run (initOpnd_off hg ..) ⟨hg, .refl g⟩

/-- Runs that find `need_init` clear and leave it set. -/
abbrev Restores (m m' : M Unit) : Prop :=
  Twin (fun g => g.needInit = false) (fun g => g.needInit = true) (LogsPlain false) m m'

theorem Alike.restores {α : Type} {m m' : M α} {f f' : α → M Unit} (hm : Alike false false m m')
    (hf : ∀ a, Restores (f a) (f' a)) : Restores (m >>= f) (m' >>= f') :=
  Twin.bind hm (fun _ _ _ => Logs.trans) hf

theorem restores_set : Restores (modify fun g => { g with needInit := true })
    (modify fun g => { g with needInit := true }) :=
  ⟨fun _ _ => rfl, fun _ _ => ⟨rfl, .of_eq rfl⟩⟩

/-- An initialisation clears `need_init` for what it runs. -/
theorem Restores.alike {m m' : M Unit} (h : Restores m m') :
    Alike true false (modify (fun g => { g with needInit := false }) >>= fun _ => m)
      (modify (fun g => { g with needInit := false }) >>= fun _ => m') := by
  have hclear : Twin (fun g => g.needInit = true) (fun g => g.needInit = false) (LogsPlain false)
      (modify fun g => { g with needInit := false } : M Unit)
      (modify fun g => { g with needInit := false }) :=
    ⟨fun _ _ => rfl, fun _ _ => ⟨rfl, .of_eq rfl⟩⟩
  exact hclear.bind (fun _ _ _ => Logs.trans) fun _ => h

theorem alike_nestedInsn (hc : ∀ p, Alike false false (constInsn p) (constInsn' p))
    (p : PseudoInsn) : Alike false false (nestedInsn constInsn p) (nestedInsn constInsn' p) := by
  have hset : ∀ n, Alike false false (setNested n) (setNested n) := fun n =>
    alike_modify fun g => ⟨rfl, rfl⟩
  exact Twin.get_bind fun g _ => (hset _).bind fun _ => (hc p).bind fun _ => hset _

/-- What `init_opnd` runs with both flags clear. -/
def initBody (constInsn : PseudoInsn → M Bool) (o : Opnd) (flags : OpFlags)
    (varAddr : Option (Option (List Line))) : M Unit :=
  match o with
  | .reg r =>
    if isClass register flags then
      if isClass regClassFpureg flags then initFpuRegisterOpnd r
      else if isClass regClassRmMmx flags then
        requestPackedNodes >>= fun vals => genText (initMmxRegisterOpnd r vals)
      else if isClass regClassRmXmm flags then
        requestPackedNodes >>= fun vals => genText (initXmmRegisterOpnd r vals)
      else initRegisterOpnd constInsn r
    else pure ()
  | .mem m => do
    match varAddr with
    | some none => throw .uninitialised
    | some (some ls) => oneInsnGenCtrl (.lines ls) .after
    | none => get >>= fun g => oneInsnGenCtrl (.lines g.initMemAddr) .after
    initMemoryOpnd m flags
  | .imm _ => pure ()

/-- `init_opnd` around it. -/
theorem initOpnd_eq (o : Opnd) (flags : OpFlags) (varAddr : Option (Option (List Line))) :
    initOpnd constInsn o flags varAddr = (do
      let g ← get
      if !g.needInit then return ()
      modify fun g => { g with needInit := false }
      modify fun g => { g with hasMemOpnd := false }
      initBody constInsn o flags varAddr
      modify fun g' => { g' with hasMemOpnd := g.hasMemOpnd }
      modify fun g => { g with needInit := true }) := by
  unfold initOpnd initBody
  congr 1
  funext g
  split
  · rfl
  cases o with
  | reg r =>
    dsimp only
    repeat' split
    all_goals simp only [bind_assoc, pure_bind]
  | mem m => rcases varAddr with _ | _ | ls <;> simp only [bind_assoc]
  | imm v => rfl

variable (hc : ∀ p, Alike false false (constInsn p) (constInsn' p))
include hc

theorem alike_movConst (r : Reg) (v : Option ConstNode) :
    Alike false false (movConst constInsn r v) (movConst constInsn' r v) := by
  have hrand : FlagPrim false _ rand := .rand
  unfold movConst
  cases v with
  | none =>
    refine Alike.bind (alike_of_flags (by grind)) fun val => ?_
    exact alike_nestedInsn hc _
  | some v => exact alike_nestedInsn hc _

theorem alike_initBody (o : Opnd) (flags : OpFlags) (varAddr : Option (Option (List Line))) :
    Alike false false (initBody constInsn o flags varAddr) (initBody constInsn' o flags varAddr) := by
  have hpicks : ∀ {m : M Unit}, Picks m → Alike false false m m := fun h =>
    alike_of_flags (flags_of_picks h)
  cases o with
  | reg r =>
    unfold initBody
    dsimp only
    split_ifs
    · exact hpicks (by grind)
    · exact hpicks (by grind)
    · exact hpicks (by grind)
    · exact (alike_of_flags (flags_of_picks picks_requestNode)).bind fun v => alike_movConst hc r v
    · exact alike_pure _
  | mem m =>
    refine alike_of_flags ?_
    unfold initBody
    rcases varAddr with _ | _ | ls
    · exact .bind (.bind .get fun g => flag_insert _) fun _ => flags_of_picks (picks_initMemoryOpnd m flags)
    · exact .bind (.throw nofun) fun _ => flags_of_picks (picks_initMemoryOpnd m flags)
    · exact .bind (flag_insert _) fun _ => flags_of_picks (picks_initMemoryOpnd m flags)
  | imm v => exact alike_pure _

theorem alike_initOpnd (o : Opnd) (flags : OpFlags) (varAddr : Option (Option (List Line))) :
    Alike true false (initOpnd constInsn o flags varAddr) (initOpnd constInsn' o flags varAddr) := by
  rw [initOpnd_eq, initOpnd_eq]
  refine Twin.get_bind fun g hg => ?_
  simp only [hg, Bool.not_true, Bool.false_eq_true, if_false]
  refine Restores.alike (Alike.restores (alike_modify fun g => ⟨rfl, rfl⟩) fun _ => ?_)
  refine (alike_initBody hc o flags varAddr).restores fun _ => ?_
  exact Alike.restores (alike_modify fun g => ⟨rfl, rfl⟩) fun _ => restores_set

theorem alike_initSpecificRegister (r : Reg) :
    Alike false false (initSpecificRegister constInsn r) (initSpecificRegister constInsn' r) := by
  have htext : ∀ ls, Alike false false (genText ls) (genText ls) := fun ls =>
    alike_of_flags (flags_of_picks (picks_genText ls))
  have hmove := fun v => alike_movConst hc r v
  unfold initSpecificRegister
  refine (alike_of_flags (flags_of_picks picks_requestNode)).bind fun v => Twin.get_bind fun g _ => ?_
  refine Alike.bind (alike_modify fun g => ⟨rfl, rfl⟩) fun _ => ?_
  split
  · split
    · have hthrow : Alike false false (throw .nullDeref : M Unit) (throw .nullDeref) :=
        alike_throw nofun
      exact hthrow.bind fun _ => alike_modify fun g => ⟨rfl, rfl⟩
    · dsimp only
      split_ifs <;> exact (htext _).bind fun _ => alike_modify fun g => ⟨rfl, rfl⟩
  · exact (hmove v).bind fun _ => alike_modify fun g => ⟨rfl, rfl⟩

theorem alike_implied (i : Implied) : Alike false false (i.init constInsn) (i.init constInsn') := by
  cases i with
  | register r => exact alike_initSpecificRegister hc r
  | popf => exact alike_of_flags (flags_of_picks picks_initPopf)
  | fpuDest r => exact alike_of_flags (flags_of_picks (picks_genText (some [.ffree r])))
  | mem r data => exact alike_of_flags (flags_of_picks (picks_genText (some [.leaSpecific r data])))

theorem alike_initImpliedFrom (opcode : Opcode) (j : Nat) (is : List Implied) :
    Alike false false (initImpliedFrom constInsn opcode j is)
      (initImpliedFrom constInsn' opcode j is) := by
  induction is generalizing j with
  | nil => exact alike_pure _
  | cons i is ih =>
    have hlog : Alike false false (logOperand opcode) (logOperand opcode) :=
      Twin.get_bind fun g _ => alike_record nofun
    refine Alike.bind (alike_modify fun g => ⟨rfl, rfl⟩) fun _ => hlog.bind fun _ => ?_
    exact (alike_implied hc i).bind fun _ => ih (j + 1)

theorem alike_initImpliedOperands (opcode : Opcode) (opnds : List (Option SizeWord × Opnd)) :
    Alike true false (initImpliedOperands constInsn opcode opnds)
      (initImpliedOperands constInsn' opcode opnds) :=
  Restores.alike ((alike_initImpliedFrom hc ..).restores fun _ => restores_set)

theorem alike_on (src : Source) :
    Alike true false (oneInsnGenWith constInsn src) (oneInsnGenWith constInsn' src) :=
  alike_oneInsnGenWith (b := true) (q := false) nofun (alike_initOpnd hc)
    (fun _ => alike_initImpliedOperands hc) src

end

-- ---------------------------------------------------------------------------
-- The flags afterwards
-- ---------------------------------------------------------------------------

def FlagsKept (g g' : Gen) : Prop := g'.needInit = g.needInit ∧ g'.hasMemOpnd = g.hasMemOpnd

section
variable {constInsn : PseudoInsn → M Bool}

theorem yields_initOpnd (o : Opnd) (flags : OpFlags) (varAddr : Option (Option (List Line))) :
    Yields FlagsKept (initOpnd constInsn o flags varAddr) := by
  intro g u g' h
  rw [initOpnd_eq] at h
  obtain ⟨_, _, hget, h⟩ := bind_ok.1 h
  cases hget
  split at h
  · cases h
    exact ⟨rfl, rfl⟩
  · rename_i hneed
    obtain ⟨_, _, -, h⟩ := bind_ok.1 h
    obtain ⟨_, _, -, h⟩ := bind_ok.1 h
    obtain ⟨_, g₁, -, h⟩ := bind_ok.1 h
    cases h
    exact ⟨by simpa using hneed, rfl⟩

def MemKept (g g' : Gen) : Prop := g'.hasMemOpnd = g.hasMemOpnd

theorem MemKept.trans {g₁ g₂ g₃ : Gen} (h : MemKept g₁ g₂) (h' : MemKept g₂ g₃) : MemKept g₁ g₃ :=
  Eq.trans h' h

theorem keeps_mem_of_picks {α : Type} {m : M α} (h : Picks m) : Keeps MemKept NoOverflow m := by
  have huses : ∀ {α : Type} {m : M α},
      Uses (fun _ m => Keeps MemKept NoOverflow m) NoOverflow m → Keeps MemKept NoOverflow m :=
    fun h => h.keeps (fun _ => rfl) (fun _ _ _ => MemKept.trans) fun _ hm => hm
  have hlist : ∀ {α : Type} {m : M α}, ListPrim α m → Keeps MemKept NoOverflow m := by
    intro α m hm g
    obtain ⟨⟨_, _, _, _, _, _, _, heq⟩, hfault⟩ := hm.keeps g
    refine ⟨?_, hfault⟩
    rw [MemKept, heq]
  have hrec : ∀ e : Event, e.isOperand →
      Uses (fun _ m => Keeps MemKept NoOverflow m) NoOverflow (record e) :=
    fun e _ => .prim fun g => ⟨rfl, nofun⟩
  refine h.keeps (fun _ => rfl) (fun _ _ _ => MemKept.trans) fun m hm => ?_
  cases hm with
  | rand => exact hlist .rand
  | node => exact huses (requests_requestNode hrec (hlist .rand))
  | packedNodes => exact huses (requests_requestPackedNodes hrec (hlist .rand))
  | lines ls => exact hlist (.insert _ _)

theorem yields_initSpecificRegister (r : Reg) :
    Yields MemKept (initSpecificRegister constInsn r) := by
  intro g u g' h
  unfold initSpecificRegister at h
  obtain ⟨v, g₁, hnode, h⟩ := bind_ok.1 h
  have hkept : MemKept g g₁ := (keeps_mem_of_picks picks_requestNode).of_run hnode
  obtain ⟨_, _, hget, h⟩ := bind_ok.1 h
  cases hget
  obtain ⟨_, g₂, -, h⟩ := bind_ok.1 h
  -- the last step of every branch writes it back
  have hlast : ∀ {m : M Unit}, (m >>= fun _ => modify fun g => { g with
      hasMemOpnd := g₁.hasMemOpnd }).run g₂ = (.ok u, g') → MemKept g g' := by
    intro m h
    obtain ⟨_, _, -, h⟩ := bind_ok.1 h
    cases h
    exact hkept
  dsimp only at h
  repeat' split at h
  all_goals exact hlast h

theorem yields_implied (i : Implied) : Yields MemKept (i.init constInsn) := by
  cases i with
  | register r => exact yields_initSpecificRegister r
  | popf => exact (keeps_mem_of_picks picks_initPopf).yields
  | fpuDest r => exact (keeps_mem_of_picks (picks_genText (some [.ffree r]))).yields
  | mem r data => exact (keeps_mem_of_picks (picks_genText (some [.leaSpecific r data]))).yields

theorem yields_initImpliedFrom (opcode : Opcode) (j : Nat) (is : List Implied) :
    Yields MemKept (initImpliedFrom constInsn opcode j is) := by
  have htrans : ∀ a b c, MemKept a b → MemKept b c → MemKept a c := fun _ _ _ => MemKept.trans
  induction is generalizing j with
  | nil =>
    intro g u g' h
    cases h
    rfl
  | cons i is ih =>
    have hwho : Yields MemKept (modify fun g => { g with who := .implied j } : M Unit) := by
      intro g u g' h
      cases h
      rfl
    have hlog : Yields MemKept (logOperand opcode) := by
      intro g u g' h
      cases h
      rfl
    exact hwho.bind htrans fun _ => hlog.bind htrans fun _ =>
      (yields_implied i).bind htrans fun _ => ih (j + 1)

theorem yields_initImpliedOperands (opcode : Opcode) (opnds : List (Option SizeWord × Opnd)) :
    Yields MemKept (initImpliedOperands constInsn opcode opnds) := by
  intro g u g' h
  obtain ⟨_, g₁, hclear, h⟩ := bind_ok.1 h
  cases hclear
  obtain ⟨_, g₂, hfrom, h⟩ := bind_ok.1 h
  cases h
  have hkept := yields_initImpliedFrom opcode 0 _ _ _ _ hfrom
  exact hkept

end

theorem Alike.mono {α : Type} {b : Bool} {m m' : M α} (h : Alike b true m m') : Alike b false m m' :=
  have hlogs : ∀ g g', LogsPlain true g g' → LogsPlain false g g' := fun _ _ h =>
    h.mono (fun _ h => h) fun _ _ => nofun
  ⟨h.run_eq, fun g hg => (h.triple g hg).mono (fun _ _ h => ⟨h.1, hlogs _ _ h.2⟩) fun _ _ => hlogs _ _⟩

/-- The flag is as it was after a run from a state that has it. -/
theorem Alike.needInit {α : Type} {b q : Bool} {m m' : M α} (h : Alike b q m m') {g g' : Gen} {a : α}
    (hg : g.needInit = b) (hrun : m.run g = (.ok a, g')) : g'.needInit = g.needInit :=
  ((h.triple g hg).run_ok hrun).1.trans hg.symm

/-- An instruction that is only nested where `need_init` is clear. -/
def whereOff (constInsn other : PseudoInsn → M Bool) (p : PseudoInsn) : M Bool := do
  let g ← get
  if g.needInit then other p else oneInsnGenWith constInsn (.pseudo p)

theorem alike_whereOff (constInsn other : PseudoInsn → M Bool) (p : PseudoInsn) :
    Alike false false (oneInsnGenConst 1 p) (whereOff constInsn other p) := by
  have hoff : Alike false false (oneInsnGenConst 1 p) (oneInsnGenWith constInsn (.pseudo p)) :=
    (alike_off _).mono
  refine ⟨fun g hg => ?_, hoff.triple⟩
  rw [hoff.run_eq g hg, whereOff, run_bind_ok (run_get g), hg]
  rfl

/-- Initialisations nest one level deep: a nested instruction runs with `need_init` clear, and
with `need_init` clear an instruction nests none and initialises nothing. Each initialisation
leaves both flags as it found them. -/
theorem one_level_deep (src : Source) (g : Gen) :
    (∀ constInsn other : PseudoInsn → M Bool,
      (oneInsnGen src).run g = (oneInsnGenWith (whereOff constInsn other) src).run g) ∧
    (g.needInit = false → ∀ constInsn : PseudoInsn → M Bool,
      (oneInsnGenWith constInsn src).run g = (oneInsnGen src).run g ∧
        ∃ es, ((oneInsnGenWith constInsn src).run g).2.log = g.log ++ es ∧ ∀ e ∈ es, e.Plain) ∧
    (∀ o flags varAddr g', (initOpnd (oneInsnGenConst 1) o flags varAddr).run g = (.ok (), g') →
      g'.needInit = g.needInit ∧ g'.hasMemOpnd = g.hasMemOpnd) ∧
    (g.needInit = true → ∀ opcode opnds g',
      (initImpliedOperands (oneInsnGenConst 1) opcode opnds).run g = (.ok (), g') →
        g'.needInit = g.needInit ∧ g'.hasMemOpnd = g.hasMemOpnd) ∧
    ∀ b g', (oneInsnGen src).run g = (.ok b, g') → g'.needInit = g.needInit := by
  have hoff : ∀ constInsn, Alike false true (oneInsnGenWith constInsn src) (oneInsnGen src) :=
    fun _ => alike_off src
  have hon : ∀ constInsn other, Alike true false (oneInsnGen src)
      (oneInsnGenWith (whereOff constInsn other) src) := fun constInsn other =>
    alike_on (alike_whereOff constInsn other) src
  refine ⟨fun constInsn other => ?_, fun hg constInsn => ⟨(hoff constInsn).run_eq g hg, ?_⟩,
    fun o flags varAddr g' h => yields_initOpnd o flags varAddr g () g' h,
    fun hg opcode opnds g' h => ⟨?_, yields_initImpliedOperands opcode opnds g () g' h⟩,
    fun b g' h => ?_⟩
  · cases hg : g.needInit with
    | false => exact ((hoff (whereOff constInsn other)).run_eq g hg).symm
    | true => exact (hon constInsn other).run_eq g hg
  · have hlogs : LogsPlain true g ((oneInsnGenWith constInsn src).run g).2 := by
      have htriple := (hoff constInsn).triple g hg
      unfold Triple at htriple
      rcases hr : (oneInsnGenWith constInsn src).run g with ⟨e | b, g'⟩ <;> rw [hr] at htriple
      · exact htriple
      · exact htriple.2
    obtain ⟨es, hlog, hes⟩ := hlogs
    exact ⟨es, hlog, fun e he => hes (fun _ _ => trivial) e he rfl⟩
  · exact (alike_initImpliedOperands (alike_whereOff (oneInsnGenConst 1) (oneInsnGenConst 1))
      opcode opnds).needInit hg h
  · by_cases hg : g.needInit = true
    · exact (hon (oneInsnGenConst 1) (oneInsnGenConst 1)).needInit hg h
    · have hself : Alike false true (oneInsnGen src) (oneInsnGen src) := alike_off src
      exact hself.needInit (by simpa using hg) h

end Btrtg
