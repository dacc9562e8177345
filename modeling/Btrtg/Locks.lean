import Btrtg.LabelRuns
import Btrtg.Modrm

/-!
# Locks over whole walks

A register is locked by a loop and, for as long as an address is made, by
`create_random_modrm`; control transfer is locked by loops and calls. What a
walk does to the locks is read off the transfers that it records.
-/

namespace Btrtg

open Prog

-- ---------------------------------------------------------------------------
-- Register locks
-- ---------------------------------------------------------------------------

def Event.locksEcx : Event → Bool
  | .transfer _ op before _ _ => !before.lockCtrl && op.isLoop
  | _ => false

def lockedBy (es : List Event) (regs : LockRegType → LockRegCase) : LockRegType → LockRegCase :=
  fun t => if t = .cx ∧ es.any Event.locksEcx then .loop else regs t

/-- The state between two instructions: no register is locked for an address. -/
structure X86PGState.Resting (g : X86PGState) : Prop extends g.Labelled where
  regs : ∀ t, g.lockRegCases t ≠ .mem

structure Rested (g g' : Gen) : Prop where
  resting : g'.Resting
  log : ∃ es, g'.log = g.log ++ es ∧ g'.lockRegCases = lockedBy es g.lockRegCases

def Rests (g g' : Gen) : Prop := g.Resting → Rested g g'

section
variable {g g' g₁ g₂ : Gen} {α : Type} {m : M α} {es es' : List Event}

theorem lockedBy_append (regs : LockRegType → LockRegCase) :
    lockedBy (es ++ es') regs = lockedBy es' (lockedBy es regs) := by
  funext t
  simp only [lockedBy, List.any_append, Bool.or_eq_true]
  by_cases ht : t = .cx
  · by_cases h : es'.any Event.locksEcx = true <;> simp only [ht, h, true_and, or_true,
      if_true, or_false, Bool.false_eq_true, if_false]
  · simp only [ht, false_and, if_false]

theorem lockedBy_of_none (h : ∀ e ∈ es, e.locksEcx = false) (regs : LockRegType → LockRegCase) :
    lockedBy es regs = regs := by
  have hany : es.any Event.locksEcx = false := List.any_eq_false.2 fun e he => by simp [h e he]
  funext t
  simp [lockedBy, hany]

theorem Rested.of_regs (w : g.Resting) (hl : g'.Labelled) (hlog : g'.log = g.log ++ es)
    (hregs : g'.lockRegCases = lockedBy es g.lockRegCases) : Rested g g' := by
  refine ⟨⟨hl, fun t => ?_⟩, es, hlog, hregs⟩
  rw [hregs, lockedBy]
  split
  · exact nofun
  · exact w.regs t

theorem Rests.refl (g : Gen) : Rests g g := fun w =>
  .of_regs w w.toLabelled (List.append_nil _).symm (lockedBy_of_none (List.forall_mem_nil _) _).symm

theorem Rests.trans (h₁ : Rests g g₁) (h₂ : Rests g₁ g₂) : Rests g g₂ := by
  intro w
  obtain ⟨w₁, es₁, hlog₁, hregs₁⟩ := h₁ w
  obtain ⟨w₂, es₂, hlog₂, hregs₂⟩ := h₂ w₁
  refine ⟨w₂, es₁ ++ es₂, ?_, ?_⟩
  · rw [hlog₂, hlog₁, List.append_assoc]
  · rw [hregs₂, hregs₁, lockedBy_append]

theorem closed_rests {E : Fault → Prop} : Closed E fun _ m => Yields Rests m :=
  closed_yields Rests.refl fun _ _ _ => Rests.trans

/-- The calls whose consequences do not matter here. -/
abbrev Neither : Caller → Prop := fun _ => False

theorem rests_of (ht : Keeps (Told Neither) (fun _ => True) m)
    (h : ∀ g a g', g.Resting → m.run g = (.ok a, g') →
      ∃ es, g'.log = g.log ++ es ∧ g'.lockRegCases = lockedBy es g.lockRegCases) :
    Yields Rests m := by
  intro g a g' hr w
  obtain ⟨es, hlog, hregs⟩ := h g a g' w hr
  have hl := ((ht g).1 w.toLabelled).labelled
  rw [hr] at hl
  exact .of_regs w hl hlog hregs

structure SameRegs (g g' : Gen) : Prop where
  regs : g'.lockRegCases = g.lockRegCases
  log : g'.log = g.log

theorem rests_of_same (ht : Keeps (Told Neither) (fun _ => True) m)
    (h : Keeps SameRegs (fun _ => True) m) : Yields Rests m := by
  refine rests_of ht fun g a g' _ hr => ⟨[], ?_⟩
  have hs := (h g).1
  rw [hr] at hs
  exact ⟨hs.log.trans (List.append_nil _).symm,
    hs.regs.trans (lockedBy_of_none (List.forall_mem_nil _) _).symm⟩

theorem same_insert (e : Entry) (pos : Position) :
    Keeps SameRegs (fun _ => True) (statInsertInsn e pos) := by
  intro g
  simp only [statInsertInsn, run_bind, run_get]
  split <;> exact ⟨⟨rfl, rfl⟩, fun _ _ => trivial⟩

theorem same_bind {β : Type} {f : α → M β} (h : Keeps SameRegs (fun _ => True) m)
    (hf : ∀ a, Keeps SameRegs (fun _ => True) (f a)) : Keeps SameRegs (fun _ => True) (m >>= f) :=
  h.bind (fun _ _ _ h h' => ⟨h'.regs.trans h.regs, h'.log.trans h.log⟩) hf

theorem same_genLabel (pos : Position) : Keeps SameRegs (fun _ => True) (genLabel pos) := by
  refine same_bind (fun g => ⟨⟨rfl, rfl⟩, nofun⟩) fun g => ?_
  split
  · exact fun g => ⟨⟨rfl, rfl⟩, nofun⟩
  · refine same_bind (same_insert _ _) fun _ => same_bind ?_ fun _ => ?_
    all_goals exact fun g => ⟨⟨rfl, rfl⟩, nofun⟩

-- ---------------------------------------------------------------------------
-- Instructions and blocks
-- ---------------------------------------------------------------------------

theorem rests_rand : Yields Rests rand :=
  rests_of_same (fun _ => ⟨told_quiet rfl rfl rfl rfl rfl, nofun⟩) fun _ => ⟨⟨rfl, rfl⟩, nofun⟩

theorem rests_modify {f : Gen → Gen} (h : ∀ g, Quiet g (f g)) : Yields Rests (modify f : M PUnit) := by
  refine rests_of_same (fun g => ⟨?_, nofun⟩) fun g => ⟨⟨(h g).lockRegCases, (h g).log⟩, nofun⟩
  exact told_quiet (h g).instlist (h g).insertpos (h g).labeli (h g).labelspos (h g).log

theorem rests_log {e : Event} (he : e.locksEcx = false) (w : g.Resting) : Rested g (g.tell e) :=
  .of_regs w (w.toLabelled.tell e) rfl (lockedBy_of_none (by simpa using he) _).symm

theorem rests_record {e : Event} (he : e.locksEcx = false) : Yields Rests (record e) := by
  intro g a g' hr w
  cases hr
  exact rests_log he w

theorem rests_modrm (flags : OpFlags) : Yields Rests (createRandomModrm flags) := by
  refine rests_of (told_modrm flags) fun g m g' w hr => ?_
  have h := createRandomModrm_ok w.regs hr
  refine ⟨_, h.log, h.lockRegCases.trans (lockedBy_of_none ?_ _).symm⟩
  simp [Event.locksEcx]

theorem Transferred.lockRegCases {label : Int} {op : Opcode} {times : BitVec 32}
    (t : Transferred g times op label g') :
    g'.lockRegCases =
      fun r => if r = .cx ∧ (!g.lockCtrl && op.isLoop) = true then .loop else g.lockRegCases r := by
  have hjump : ∀ {op : Opcode}, op.isJump → op.isLoop = false := fun h => by
    simpa using Opcode.not_isLoop_of_isJump h
  cases t with
  | locked h => simp [h]
  | other hu hj hl hc => simp [hl]
  | first hu h0 hl hb => simp [hjump hl.isJump, Gen.put, Gen.pushLabel]
  | jump hu hq hl hd hb => simp [hjump hl.isJump, Gen.put, Gen.pushLabel]
  | loop hu hop => simp [hu, hop]
  | call hu => simp [Opcode.isLoop, Gen.put, Gen.pushLabel]

theorem rested_transfer (caller : Caller) (op : Opcode) (times : BitVec 32) {r : Int × Bool}
    (w : g.Resting) (hr : (callControlTransfer caller op times).run g = (.ok r, g')) :
    Rested g g' := by
  obtain ⟨label, g₁, e, ht, hlog, rfl, hex, hr'⟩ :=
    callControlTransfer_run w.toWellLabelled caller op times
  rw [hr] at hr'
  cases hr'
  have hlog' : (g₁.tell (.transfer caller op g.toX86PGState label g₁.toX86PGState)).log =
    g.log ++ [.transfer caller op g.toX86PGState label g₁.toX86PGState] := by rw [Gen.tell, hlog]
  refine .of_regs w ((ht.labelled w.toLabelled).tell _) hlog' ?_
  refine ht.lockRegCases.trans (funext fun t => ?_)
  simp [lockedBy, Event.locksEcx]

theorem rests_insert {e : Entry} (h : e.isCtrl = false) :
    Yields Rests (statInsertInsn e .after) :=
  rests_of_same (told_insert h) (same_insert e .after)

theorem rests_searchCurrBlk (check : Bool) (name : String) :
    Yields Rests (searchCurrBlk check name) := by
  intro g a g' hr w
  cases hr
  exact rests_log (e := .resolve _ _ _ _ _) rfl w

theorem rests_prim {ev : Event → Prop} {nested : (α : Type) → M α → Prop}
    (hev : ∀ e, ev e → e.locksEcx = false)
    (hn : ∀ {β : Type} (m : M β), nested β m → Yields Rests m)
    (h : Uses (Prim ev nested) NoOverflow m) : Yields Rests m := by
  refine h.of_closed closed_rests fun m hm => ?_
  cases hm with
  | rand => exact rests_rand
  | modify hf => exact rests_modify fun g => (hf g).toQuiet
  | setOpcode op => exact rests_modify fun g => by constructor <;> rfl
  | setVar blk i _ => exact rests_modify fun g => by constructor <;> rfl
  | modrm flags => exact rests_modrm flags
  | seed o => exact seed_of_closed closed_rests (rests_searchCurrBlk false) o
  | record he => exact rests_record (hev _ he)
  | insert he => exact rests_insert he
  | label => exact rests_of_same told_genLabel (same_genLabel .after)
  | transfer op => exact fun g r g' hr w => rested_transfer .insn op (-1) w hr
  | nested hm => exact hn _ hm

theorem rests_oneInsnGenWith {constInsn : PseudoInsn → M Bool}
    (hc : ∀ p, Yields Rests (constInsn p)) (src : Source) :
    Yields Rests (oneInsnGenWith constInsn src) := by
  have huses : Uses (Prim (fun e => e.locksEcx = false) (IsInsn constInsn)) NoOverflow
      (oneInsnGenWith constInsn src) := by
    refine prim_oneInsnGenWith (fun e he => ?_) src fun _ _ _ => rfl
    cases e <;> first | rfl | cases he
  refine rests_prim (fun _ h => h) (fun m hm => ?_) huses
  cases hm with
  | const p =>
    exact nested_of_closed (closed_rests (E := NoOverflow))
      (fun n => rests_modify fun g => by constructor <;> rfl) hc p
  | operand insn =>
    intro g a g' hr w
    cases hr
    exact rests_log (e := .operand _ _ _ _ _ _ _) rfl w

theorem rests_oneInsnGen (src : Source) : Yields Rests (oneInsnGen src) := by
  have hconst : ∀ depth p, Yields Rests (oneInsnGenConst depth p) := by
    intro depth
    induction depth with
    | zero => exact fun p g a g' hr => by cases hr
    | succ depth ih => exact fun p => rests_oneInsnGenWith ih (.pseudo p)
  exact rests_oneInsnGenWith (hconst 1) src

theorem rests_elem (h : ElemPrim α m) : Yields Rests m := by
  cases h with
  | rand => exact rests_rand
  | insn src => exact rests_oneInsnGen src
  | modify hf => exact rests_modify fun g => (hf g).toQuiet
  | check cType => exact rests_insert rfl
  | checked name => exact checked_of_closed closed_rests (rests_searchCurrBlk true) name
  | select insn =>
    intro g a g' hr w
    cases hr
    exact rests_log (e := .select _ _) rfl w

theorem rests_setPlace (blk : BlkId) : Yields Rests (setPlace blk) :=
  rests_modify fun _ => by constructor <;> rfl

def leaveBlk (label : Int) : M Unit := do
  callUpdateInsertPos label
  statUnlockCtrl

theorem leaveBlk_run (label : Int) (g : Gen) :
    (∃ (n : Nat) (x : Option Addr), label = n ∧ g.labelspos[n]? = some x ∧
      (leaveBlk label).run g = (.ok (), { g.tell (.leave label g.labelspos.length) with
        insertpos := x, lockCtrl := false })) ∨
    (leaveBlk label).run g = (.error .outOfBounds, g.tell (.leave label g.labelspos.length)) := by
  by_cases hl : ∃ (n : Nat) (x : Option Addr), label = n ∧ g.labelspos[n]? = some x
  · obtain ⟨n, x, rfl, hx⟩ := hl
    have hr : (callUpdateInsertPos n).run g =
        (.ok (), { g.tell (.leave n g.labelspos.length) with insertpos := x }) :=
      updateInsertPosToLabel_run (g := g.tell _) hx
    exact .inl ⟨n, x, rfl, hx, run_bind_ok hr⟩
  · have hr : (callUpdateInsertPos label).run g =
        (.error .outOfBounds, g.tell (.leave label g.labelspos.length)) := by
      refine updateInsertPosToLabel_error (g := g.tell _) fun n hn => ?_
      exact Option.eq_none_iff_forall_ne_some.2 fun x hx => hl ⟨n, x, hn, hx⟩
    exact .inr (run_bind_error hr)

theorem leaveBlk_ok {label : Int} (h : (leaveBlk label).run g = (.ok (), g')) :
    ∃ n : Nat, label = n ∧ ∃ x, g.labelspos[n]? = some x ∧
      g' = { g.tell (.leave label g.labelspos.length) with insertpos := x, lockCtrl := false } := by
  rcases leaveBlk_run label g with ⟨n, x, hn, hx, hr⟩ | hr <;> rw [hr] at h <;> cases h
  exact ⟨n, hn, x, hx, rfl⟩

theorem leaveBlk_log (label : Int) (g : Gen) :
    ((leaveBlk label).run g).2.log = g.log ++ [.leave label g.labelspos.length] := by
  rcases leaveBlk_run label g with ⟨n, x, -, -, hr⟩ | hr <;> rw [hr] <;> rfl

theorem rests_leaveBlk (label : Int) : Yields Rests (leaveBlk label) := by
  refine rests_of (fun g => ⟨fun w => (told_leave label w).imp fun _ h => h.elim, fun _ _ => trivial⟩)
    fun g a g' _ hr => ?_
  obtain ⟨n, -, x, -, rfl⟩ := leaveBlk_ok hr
  exact ⟨[.leave label g.labelspos.length], rfl, (lockedBy_of_none (by simp [Event.locksEcx]) _).symm⟩

theorem rests_walkTttBlk {body : M Unit} (hb : Yields Rests body) (blk : BlkId) (op : Opcode)
    (times : BitVec 32) : Yields Rests (walkTttBlk blk body op times) := by
  have trans : ∀ g₁ g₂ g₃, Rests g₁ g₂ → Rests g₂ g₃ → Rests g₁ g₃ := fun _ _ _ => Rests.trans
  have henter : ∀ f : Gen → Gen, (∀ g, Quiet g (f g)) → Yields Rests (modify f : M PUnit) :=
    fun f hf => rests_modify hf
  refine (henter _ fun g => by grind [Quiet]).bind trans fun _ => ?_
  refine (henter _ fun g => by grind [Quiet]).bind trans fun _ => ?_
  have hcall : Yields Rests (callControlTransfer .block op times) :=
    fun g r g' hr w => rested_transfer .block op times w hr
  refine hcall.bind trans fun r => hb.bind trans fun _ => rests_leaveBlk r.1

theorem rests_walk : PartsClosed True fun _ m => Yields Rests m where
  closed := closed_rests
  prim m hm := by
    cases hm with
    | invalidate blk => exact rests_modify fun g => by constructor <;> rfl
    | traverse ht hf =>
      refine rests_of_same (fun g => ⟨?_, nofun⟩) fun g =>
        ⟨⟨(hf g).lockRegCases, (hf g).log⟩, nofun⟩
      exact told_quiet (hf g).instlist (hf g).insertpos (hf g).labeli (hf g).labelspos (hf g).log
    | reached vals walked ht => exact rests_record rfl
    | nested h => exact h.elim
  selected := (elem_of_closed closed_rests rests_setPlace fun _ => rests_elem).1
  elem := (elem_of_closed closed_rests rests_setPlace fun _ => rests_elem).2
  enter blk := rests_modify fun g => by constructor <;> rfl
  ttt blk body op times hb := rests_walkTttBlk hb blk op times

end

-- ---------------------------------------------------------------------------
-- Under the lock of control transfer
-- ---------------------------------------------------------------------------

/-- A call of `gen_control_transfer_insn` found the lock and did nothing. -/
def Event.IsBarred : Event → Prop
  | .transfer _ _ before label after => before.lockCtrl = true ∧ label = -1 ∧ after = before
  | _ => True

def Event.asksTransfer : Event → Bool
  | .transfer _ op _ _ _ => op.isTransfer
  | _ => false

def Event.emitsTransfer : Event → Bool
  | .emit insn _ _ => insn.opcode.isTransfer
  | _ => false

/-- Between the states no label and no transfer was inserted; with `ok`, no instruction
with the opcode of a transfer either, where none was asked for. -/
structure Barred (ok : Prop) (g g' : Gen) : Prop where
  labelled : g'.Labelled
  lockCtrl : g'.lockCtrl = true
  labeli : g'.labeli = g.labeli
  labelspos : g'.labelspos = g.labelspos
  entries : ∀ x e, g'.instlist.entry? x = some e → e.isCtrl = true → g.instlist.entry? x = some e
  log : ∃ es, g'.log = g.log ++ es ∧ (∀ e ∈ es, e.IsBarred) ∧
    (ok → (∀ e ∈ es, e.asksTransfer = false) → ∀ e ∈ es, e.emitsTransfer = false)

def Bars (ok : Prop) (g g' : Gen) : Prop := g.Labelled → g.lockCtrl = true → Barred ok g g'

section
variable {ok : Prop} {g g' g₁ g₂ : Gen} {α : Type} {m : M α}

theorem Barred.trans (h₁ : Barred ok g g₁) (h₂ : Barred ok g₁ g₂) : Barred ok g g₂ := by
  obtain ⟨es₁, hlog₁, hb₁, he₁⟩ := h₁.log
  obtain ⟨es₂, hlog₂, hb₂, he₂⟩ := h₂.log
  refine ⟨h₂.labelled, h₂.lockCtrl, h₂.labeli.trans h₁.labeli, h₂.labelspos.trans h₁.labelspos,
    fun x e hx hc => h₁.entries x e (h₂.entries x e hx hc) hc, es₁ ++ es₂, ?_, ?_, ?_⟩
  · rw [hlog₂, hlog₁, List.append_assoc]
  · exact List.forall_mem_append.2 ⟨hb₁, hb₂⟩
  · intro hok hask
    obtain ⟨hask₁, hask₂⟩ := List.forall_mem_append.1 hask
    exact List.forall_mem_append.2 ⟨he₁ hok hask₁, he₂ hok hask₂⟩

theorem Bars.trans (h₁ : Bars ok g g₁) (h₂ : Bars ok g₁ g₂) : Bars ok g g₂ := fun w hl =>
  (h₁ w hl).trans (h₂ (h₁ w hl).labelled (h₁ w hl).lockCtrl)

theorem Barred.imp {ok' : Prop} (h : Barred ok g g') (hok : ok' → ok) : Barred ok' g g' :=
  let ⟨es, hlog, hb, he⟩ := h.log
  { h with log := ⟨es, hlog, hb, fun h => he (hok h)⟩ }

/-- The list and its labels are untouched. -/
theorem bars_of_same (hl : g'.instlist = g.instlist) (hp : g'.insertpos = g.insertpos)
    (hi : g'.labeli = g.labeli) (hs : g'.labelspos = g.labelspos) (hc : g'.lockCtrl = g.lockCtrl)
    (hlog : g'.log = g.log) : Bars ok g g' := by
  intro w hlock
  have ht : Told Neither g g' := told_quiet hl hp hi hs hlog
  refine ⟨(ht w).labelled, hc.trans hlock, hi, hs,
    fun x e hx _ => hl ▸ hx, [], hlog.trans (List.append_nil _).symm, List.forall_mem_nil _,
    fun _ _ => List.forall_mem_nil _⟩

theorem Bars.refl (g : Gen) : Bars ok g g := bars_of_same rfl rfl rfl rfl rfl rfl

theorem closed_bars {E : Fault → Prop} : Closed E fun _ m => Keeps (Bars ok) (fun _ => True) m :=
  closed_keeps Bars.refl (fun _ _ _ => Bars.trans) fun _ _ => trivial

theorem bars_tell {e : Event} (hb : e.IsBarred) (he : ok → e.emitsTransfer = false) (g : Gen) :
    Bars ok g (g.tell e) := fun w hl =>
  ⟨w.tell e, hl, rfl, rfl, fun _ _ hx _ => hx, [e], rfl, by simpa using hb, fun hok _ => by
    simpa using he hok⟩

theorem bars_insert {e : Entry} (h : e.isCtrl = false) :
    Keeps (Bars ok) (fun _ => True) (statInsertInsn e .after) := by
  refine fun g => ⟨fun w hl => ?_, fun _ _ => trivial⟩
  have hk : Keeps (Told Neither) (fun _ => True) (statInsertInsn e .after) := told_insert h
  have ht := ((hk g).1 w).labelled
  obtain ⟨l, hi, hr⟩ := insertAfter_run w.placed e
  have hr' : (statInsertInsn e .after).run g = _ := hr
  rw [hr'] at ht ⊢
  refine ⟨ht, hl, rfl, rfl, fun x e' hx hc => ?_, [], (List.append_nil _).symm,
    List.forall_mem_nil _, fun _ _ => List.forall_mem_nil _⟩
  by_cases hx' : x = g.instlist.brk
  · subst hx'
    rw [show (g.put l g.instlist.brk).instlist.entry? _ = some e from hi.entry_new] at hx
    cases hx
    rw [h] at hc
    cases hc
  · exact (hi.entry_old x hx').symm.trans hx

theorem bars_genLabel : Keeps (Bars ok) (fun _ => True) (genLabel .after) := by
  refine fun g => ⟨fun w hl => ?_, fun _ _ => trivial⟩
  rw [genLabel_locked hl]
  exact Bars.refl g w hl

/-- A call under the lock. -/
theorem callControlTransfer_locked (w : g.Labelled) (hl : g.lockCtrl = true) (caller : Caller)
    (op : Opcode) (times : BitVec 32) :
    ∃ t, (callControlTransfer caller op times).run g =
      (.ok (-1, t), g.tell (.transfer caller op g.toX86PGState (-1) g.toX86PGState)) := by
  obtain ⟨label, g', e, ht, -, rfl, -, hr⟩ := callControlTransfer_run w.toWellLabelled caller op times
  cases ht with
  | locked => exact ⟨_, hr⟩
  | other hu | first hu | jump hu | loop hu | call hu =>
    rw [hl] at hu
    cases hu

theorem bars_transfer (caller : Caller) (op : Opcode) (times : BitVec 32) :
    Keeps (Bars ok) (fun _ => True) (callControlTransfer caller op times) := by
  refine fun g => ⟨fun w hl => ?_, fun _ _ => trivial⟩
  obtain ⟨t, hr⟩ := callControlTransfer_locked w hl caller op times
  rw [hr]
  exact bars_tell (e := .transfer caller op _ _ _) ⟨hl, rfl, rfl⟩ (fun _ => rfl) g w hl

theorem bars_modrm (flags : OpFlags) :
    Keeps (Bars ok) (fun _ => True) (createRandomModrm flags) := by
  refine (modrm_createRandomModrm flags).of_closed closed_bars fun m hm => ?_
  cases hm with
  | rand => exact fun g => ⟨bars_of_same rfl rfl rfl rfl rfl rfl, nofun⟩
  | modify hf =>
    exact fun g => ⟨bars_of_same (hf g).instlist (hf g).insertpos (hf g).labeli (hf g).labelspos
      (hf g).lockCtrl (hf g).log, nofun⟩
  | record b => exact fun g => ⟨bars_tell (e := .modrm b) trivial (fun _ => rfl) g, nofun⟩

theorem bars_searchCurrBlk (check : Bool) (name : String) :
    Keeps (Bars ok) (fun _ => True) (searchCurrBlk check name) :=
  fun g => ⟨bars_tell (e := .resolve _ _ _ _ _) trivial (fun _ => rfl) g, nofun⟩

theorem bars_prim {ev : Event → Prop} {nested : (α : Type) → M α → Prop}
    (hev : ∀ e, ev e → e.IsBarred ∧ (ok → e.emitsTransfer = false))
    (hn : ∀ {β : Type} (m : M β), nested β m → Keeps (Bars ok) (fun _ => True) m)
    (h : Uses (Prim ev nested) NoOverflow m) : Keeps (Bars ok) (fun _ => True) m := by
  refine h.of_closed closed_bars fun m hm => ?_
  cases hm with
  | rand | setOpcode | setVar => exact fun g => ⟨bars_of_same rfl rfl rfl rfl rfl rfl, nofun⟩
  | modify hf =>
    exact fun g => ⟨bars_of_same (hf g).instlist (hf g).insertpos (hf g).labeli (hf g).labelspos
      (hf g).lockCtrl (hf g).log, nofun⟩
  | modrm flags => exact bars_modrm flags
  | seed o => exact seed_of_closed closed_bars (bars_searchCurrBlk false) o
  | record he => exact fun g => ⟨bars_tell (hev _ he).1 (hev _ he).2 g, nofun⟩
  | insert he => exact bars_insert he
  | label => exact bars_genLabel
  | transfer op => exact bars_transfer .insn op (-1)
  | nested hm => exact hn _ hm

/-- The instruction has the opcode that its call asked for. -/
theorem bars_oneInsnGenWith {constInsn : PseudoInsn → M Bool}
    (hc : ∀ p, Keeps (Bars True) (fun _ => True) (constInsn p)) (src : Source) :
    Keeps (Bars True) (fun _ => True) (oneInsnGenWith constInsn src) := by
  have hconst : ∀ (ok : Prop) p, Keeps (Bars ok) (fun _ => True) (constInsn p) :=
    fun ok p g => ⟨fun w hl => ((hc p g).1 w hl).imp fun _ => trivial, fun _ _ => trivial⟩
  -- what the operands and the emission record
  have hops : ∀ t, Keeps (Bars (src.opcode.isTransfer = false)) (fun _ => True)
      (insnOperands constInsn src t) := by
    intro t
    have huses : Uses (Prim (fun e => e.IsBarred ∧ (src.opcode.isTransfer = false →
        e.emitsTransfer = false)) (IsInsn constInsn)) NoOverflow (insnOperands constInsn src t) := by
      refine prim_insnOperands (fun e he => ?_) src fun _ _ _ => ⟨trivial, fun h => h⟩
      cases e <;> first | exact ⟨trivial, fun _ => rfl⟩ | cases he
    refine bars_prim (fun _ h => h) (fun m hm => ?_) huses
    cases hm with
    | const p =>
      exact nested_of_closed (closed_bars (E := NoOverflow))
        (fun n g => ⟨bars_of_same rfl rfl rfl rfl rfl rfl, nofun⟩) (hconst _) p
    | operand insn =>
      exact fun g => ⟨bars_tell (e := .operand _ _ _ _ _ _ _) trivial (fun _ => rfl) g, nofun⟩
  have hquiet : ∀ {α : Type} {m : M α},
      Uses (Prim (fun e => e.IsBarred ∧ e.emitsTransfer = false) fun _ _ => False) NoOverflow m →
      Keeps (Bars True) (fun _ => True) m :=
    fun h => bars_prim (fun e he => ⟨he.1, fun _ => he.2⟩) (fun _ h => h.elim) h
  have trans : ∀ g₁ g₂ g₃, Bars True g₁ g₂ → Bars True g₂ g₃ → Bars True g₁ g₃ :=
    fun _ _ _ => Bars.trans
  refine (hquiet .get).bind trans fun g => ?_
  refine (hquiet (prim_record (e := .begin _) ⟨trivial, rfl⟩)).bind trans fun _ => ?_
  refine (hquiet (by grind [likelyGenLabel])).bind trans fun _ => ?_
  refine (hquiet (prim_setOpcode src.opcode)).bind trans fun _ => ?_
  refine fun g => ⟨fun w hl => ?_, fun _ _ => trivial⟩
  obtain ⟨t, hr⟩ := callControlTransfer_locked w hl .insn src.opcode (-1)
  rw [run_bind_ok hr]
  have hk : Keeps (Bars True) (fun _ => True) (callControlTransfer .insn src.opcode (-1)) :=
    bars_transfer _ _ _
  have hcall := hk.of_run hr w hl
  have hins := (hops t _).1 hcall.labelled hcall.lockCtrl
  obtain ⟨es, hlog, hb, he⟩ := hins.log
  refine ⟨hins.labelled, hins.lockCtrl, hins.labeli, hins.labelspos, hins.entries, _ :: es,
    hlog.trans (List.append_assoc ..), List.forall_mem_cons.2 ⟨⟨hl, rfl, rfl⟩, hb⟩, fun _ hask => ?_⟩
  obtain ⟨hop, hask⟩ := List.forall_mem_cons.1 hask
  exact List.forall_mem_cons.2 ⟨rfl, he hop hask⟩

theorem bars_oneInsnGen (src : Source) : Keeps (Bars True) (fun _ => True) (oneInsnGen src) := by
  have hconst : ∀ depth p, Keeps (Bars True) (fun _ => True) (oneInsnGenConst depth p) := by
    intro depth
    induction depth with
    | zero => exact fun p g => ⟨Bars.refl g, fun _ _ => trivial⟩
    | succ depth ih => exact fun p => bars_oneInsnGenWith ih (.pseudo p)
  exact bars_oneInsnGenWith (hconst 1) src

theorem bars_elem (h : ElemPrim α m) : Keeps (Bars True) (fun _ => True) m := by
  cases h with
  | rand => exact fun g => ⟨bars_of_same rfl rfl rfl rfl rfl rfl, nofun⟩
  | insn src => exact bars_oneInsnGen src
  | modify hf =>
    exact fun g => ⟨bars_of_same (hf g).instlist (hf g).insertpos (hf g).labeli (hf g).labelspos
      (hf g).lockCtrl (hf g).log, nofun⟩
  | check cType => exact bars_insert rfl
  | checked name => exact checked_of_closed closed_bars (bars_searchCurrBlk true) name
  | select insn =>
    exact fun g => ⟨bars_tell (e := .select _ _) trivial (fun _ => rfl) g, nofun⟩

theorem bars_setPlace (blk : BlkId) : Keeps (Bars True) (fun _ => True) (setPlace blk) :=
  fun _ => ⟨bars_of_same rfl rfl rfl rfl rfl rfl, nofun⟩

/-- A transfer block under the lock gets no label, and ends where it would use it. -/
theorem bars_walkTttBlk {body : M Unit} (hb : Keeps (Bars True) (fun _ => True) body) (blk : BlkId)
    (op : Opcode) (times : BitVec 32) :
    Keeps (Bars True) (fun _ => True) (walkTttBlk blk body op times) := by
  have trans : ∀ g₁ g₂ g₃, Bars True g₁ g₂ → Bars True g₂ g₃ → Bars True g₁ g₃ :=
    fun _ _ _ => Bars.trans
  have henter : ∀ f : Gen → Gen, (∀ g, Quiet g (f g)) →
      Keeps (Bars True) (fun _ => True) (modify f : M PUnit) := fun f hf g =>
    ⟨bars_of_same (hf g).instlist (hf g).insertpos (hf g).labeli (hf g).labelspos
      (hf g).lockCtrl (hf g).log, nofun⟩
  refine (henter _ fun g => by grind [Quiet]).bind trans fun _ => ?_
  refine (henter _ fun g => by grind [Quiet]).bind trans fun _ => ?_
  refine fun g => ⟨fun w hl => ?_, fun _ _ => trivial⟩
  obtain ⟨t, hr⟩ := callControlTransfer_locked w hl .block op times
  rw [run_bind_ok hr]
  have hk : Keeps (Bars True) (fun _ => True) (callControlTransfer .block op times) :=
    bars_transfer _ _ _
  have hcall := hk.of_run hr w hl
  refine hcall.trans ?_
  have hbody := (hb _).1 hcall.labelled hcall.lockCtrl
  rcases hrun : body.run (g.tell _) with ⟨e | u, g₂⟩ <;> rw [hrun] at hbody
  · exact (run_bind_error hrun).symm ▸ hbody
  · refine (run_bind_ok hrun).symm ▸ hbody.trans ?_
    exact bars_tell (e := .leave (-1) _) trivial (fun _ => rfl) g₂ hbody.labelled hbody.lockCtrl

theorem bars_walk : PartsClosed True fun _ m => Keeps (Bars True) (fun _ => True) m where
  closed := closed_bars
  prim m hm := by
    cases hm with
    | invalidate => exact fun g => ⟨bars_of_same rfl rfl rfl rfl rfl rfl, nofun⟩
    | traverse ht hf =>
      exact fun g => ⟨bars_of_same (hf g).instlist (hf g).insertpos (hf g).labeli (hf g).labelspos
        (hf g).lockCtrl (hf g).log, nofun⟩
    | reached vals walked ht =>
      exact fun g => ⟨bars_tell (e := .reached _ _) trivial (fun _ => rfl) g, nofun⟩
    | nested h => exact h.elim
  selected := (elem_of_closed closed_bars bars_setPlace fun _ => bars_elem).1
  elem := (elem_of_closed closed_bars bars_setPlace fun _ => bars_elem).2
  enter blk := fun g => ⟨bars_of_same rfl rfl rfl rfl rfl rfl, nofun⟩
  ttt blk body op times hb := bars_walkTttBlk hb blk op times

end

-- ---------------------------------------------------------------------------
-- Transfer blocks
-- ---------------------------------------------------------------------------

def eventsSince (g g' : Gen) : List Event := g'.log.drop g.log.length

/-- `walkTttBlk` up to its body. -/
def enterTtt (blk : BlkId) (op : Opcode) (times : BitVec 32) : M (Int × Bool) := do
  setCurrBlk blk
  blkInvalidVarAll blk
  callControlTransfer .block op times

/-- Control transfer stayed locked, and no label and no control transfer was inserted. -/
structure Sealed (g g' : Gen) : Prop where
  lockCtrl : g'.lockCtrl = true
  labeli : g'.labeli = g.labeli
  entries : ∀ x e, g'.instlist.entry? x = some e → e.isCtrl = true → g.instlist.entry? x = some e
  calls : ∀ e ∈ eventsSince g g', e.IsBarred
  insns : ∀ e ∈ eventsSince g g', e.emitsTransfer = false

/-- The walk of a transfer block leaves by a label of the table and with the locks that it
found, and what it walks inside a loop or a call is sealed at every moment. -/
structure LocksBalanced (blk : BlkId) (op : Opcode) (times : BitVec 32) (blks : List Blk)
    (g : Gen) : Prop where
  leaves : ∀ (label : Int) (len : Nat),
    .leave label len ∈ eventsSince g ((walkBlk blk (.ttt op times blks)).run g).2 →
      0 ≤ label ∧ label < len
  ctrl : ∀ g', (walkBlk blk (.ttt op times blks)).run g = (.ok (), g') → g'.lockCtrl = g.lockCtrl
  regs : ∀ g', (walkBlk blk (.ttt op times blks)).run g = (.ok (), g') →
    g'.lockRegCases = g.lockRegCases
  inside : op.isLoop = true ∨ op = .call → ∀ r g₁, (enterTtt blk op times).run g = (.ok r, g₁) →
    ∀ k, Sealed g₁ ((walkBlks blk 0 (blks.take k)).run g₁).2

/-- A step in order: a block asks for a transfer that it gets, and no transfer is asked for
under the lock. -/
def Event.keepsLocks : Event → Bool
  | .transfer caller op before _ _ =>
    (caller != .block || !before.lockCtrl &&
      (op.isJump && before.labeli != 0 || op.isLoop || op == .call)) &&
      (!before.lockCtrl || !op.isTransfer)
  | _ => true

/-- No loop is generated, unless `ecx` is locked already. -/
def LoopsLocked (g : Gen) (es : List Event) : Prop :=
  g.lockRegCases .cx = .loop ∨ ∀ e ∈ es, e.locksEcx = false

section
variable {g g' : Gen} {blk : BlkId} {op : Opcode} {times : BitVec 32} {blks : List Blk}

theorem walkBlk_ttt : walkBlk blk (.ttt op times blks) = (do
    let r ← enterTtt blk op times
    walkBlks blk 0 blks
    leaveBlk r.1) := by
  unfold walkBlk
  rfl

theorem enterTtt_ok {r : Int × Bool} {g₁ : Gen} (w : g.Labelled)
    (h : (enterTtt blk op times).run g = (.ok r, g₁)) :
    g₁.Labelled ∧ (op.isLoop = true ∨ op = .call → g₁.lockCtrl = true) ∧
      (g.lockCtrl = true → r.1 = -1) ∧ ∃ e, g₁.log = g.log ++ [e] := by
  obtain ⟨_, _, henter, h⟩ := bind_ok.1 h
  cases henter
  obtain ⟨_, g₀, hinv, h⟩ := bind_ok.1 h
  have hlog : g₀.log = g.log := by
    cases hinv
    rfl
  have hlock : g₀.lockCtrl = g.lockCtrl := by
    cases hinv
    rfl
  have w₀ : g₀.Labelled := by
    cases hinv
    exact ⟨⟨w.placed, w.len, w.pos, w.uniq⟩, w.targets⟩
  obtain ⟨label, g', e, ht, hlog', rfl, -, hr⟩ :=
    callControlTransfer_run w₀.toWellLabelled .block op times
  rw [h] at hr
  cases hr
  refine ⟨(ht.labelled w₀).tell _, fun hop => ?_, fun hl => ?_,
    .transfer .block op g₀.toX86PGState label g'.toX86PGState, ?_⟩
  · cases ht with
    | locked hl => exact hl
    | other _ _ hl hc => exact (hop.elim hl hc).elim
    | first _ _ hl =>
      rcases hop with hop | rfl
      · exact absurd hop (Opcode.not_isLoop_of_isJump hl.isJump)
      · exact absurd hl.isJump (by decide)
    | jump _ _ hl =>
      rcases hop with hop | rfl
      · exact absurd hop (Opcode.not_isLoop_of_isJump hl.isJump)
      · exact absurd hl.isJump (by decide)
    | loop | call => rfl
  · cases ht with
    | locked | other | first => rfl
    | jump hu | loop hu | call hu =>
      rw [hlock, hl] at hu
      contradiction
  · rw [Gen.tell, hlog', hlog]

theorem walkBlks_append (parent : BlkId) (k : Nat) (xs ys : List Blk) :
    walkBlks parent k (xs ++ ys) = (do
      walkBlks parent k xs
      walkBlks parent (k + xs.length) ys) := by
  induction xs generalizing k with
  | nil => simp [walkBlks]
  | cons x xs ih =>
    simp only [List.cons_append, walkBlks, ih, bind_assoc, List.length_cons]
    rw [Nat.add_right_comm, Nat.add_assoc]

/-- What the first blocks of a body record is recorded by the body. -/
theorem log_walkBlks_take {g₁ : Gen} (w : g₁.Labelled) (hl : g₁.lockCtrl = true) (blk : BlkId)
    (blks : List Blk) (k : Nat) :
    ∃ es, ((walkBlks blk 0 blks).run g₁).2.log =
      ((walkBlks blk 0 (blks.take k)).run g₁).2.log ++ es := by
  have hsplit := walkBlks_append blk 0 (blks.take k) (blks.drop k)
  rw [List.take_append_drop] at hsplit
  rw [hsplit]
  have hfirst := ((bars_walk.walkBlks blk 0 (blks.take k) fun _ => trivial) g₁).1 w hl
  rcases hrun : (walkBlks blk 0 (blks.take k)).run g₁ with ⟨e | u, g₂⟩
  · rw [run_bind_error hrun]
    exact ⟨[], (List.append_nil _).symm⟩
  · rw [hrun] at hfirst
    rw [run_bind_ok hrun]
    obtain ⟨es, hlog, -, -⟩ := (((bars_walk.walkBlks blk (0 + (blks.take k).length) (blks.drop k)
      fun _ => trivial) g₂).1 hfirst.labelled hfirst.lockCtrl).log
    exact ⟨es, hlog⟩

theorem lockedBy_eq_iff {es : List Event} :
    lockedBy es g.lockRegCases = g.lockRegCases ↔ LoopsLocked g es := by
  constructor
  · intro h
    by_cases hany : es.any Event.locksEcx = true
    · left
      have hcx := congrFun h .cx
      simpa [lockedBy, hany] using hcx.symm
    · right
      simpa using hany
  · rintro (h | h)
    · funext t
      unfold lockedBy
      split
      · rename_i ht
        rw [ht.1, h]
      · rfl
    · exact lockedBy_of_none h _

theorem eventsSince_eq {es : List Event} (h : g'.log = g.log ++ es) : eventsSince g g' = es := by
  rw [eventsSince, h, List.drop_left]

/-- What the body records is recorded by the block. -/
theorem log_walkTttBlk (blks : List Blk) {r : Int × Bool} {g₁ : Gen}
    (h : (enterTtt blk op times).run g = (.ok r, g₁)) :
    ∃ es, ((walkBlk blk (.ttt op times blks)).run g).2.log =
      ((walkBlks blk 0 blks).run g₁).2.log ++ es := by
  rw [walkBlk_ttt, run_bind_ok h]
  rcases hrun : (walkBlks blk 0 blks).run g₁ with ⟨e | u, g₂⟩
  · rw [run_bind_error hrun]
    exact ⟨[], (List.append_nil _).symm⟩
  · rw [run_bind_ok hrun]
    exact ⟨_, leaveBlk_log r.1 g₂⟩

/-- A transfer block that is left was entered unlocked, and is left so. -/
theorem lockCtrl_of_ok (w : g.Labelled)
    (h : (walkBlk blk (.ttt op times blks)).run g = (.ok (), g')) :
    g.lockCtrl = false ∧ g'.lockCtrl = false := by
  rw [walkBlk_ttt] at h
  obtain ⟨r, g₁, henter, h⟩ := bind_ok.1 h
  obtain ⟨_, g₂, hbody, h⟩ := bind_ok.1 h
  obtain ⟨n, hn, x, -, rfl⟩ := leaveBlk_ok h
  refine ⟨Bool.eq_false_iff.2 fun hl => ?_, rfl⟩
  have hneg := (enterTtt_ok w henter).2.2.1 hl
  rw [hneg] at hn
  omega

/-- The locks of a transfer block that is left. -/
theorem locks_of_ok (w : g.Resting)
    (h : (walkBlk blk (.ttt op times blks)).run g = (.ok (), g')) :
    g'.lockCtrl = g.lockCtrl ∧
      (g'.lockRegCases = g.lockRegCases ↔ LoopsLocked g (eventsSince g g')) := by
  obtain ⟨h₁, h₂⟩ := lockCtrl_of_ok w.toLabelled h
  obtain ⟨-, es, hlog, hregs⟩ :=
    rests_walk.walkBlk blk (.ttt op times blks) (fun _ => trivial) g () g' h w
  rw [eventsSince_eq hlog, hregs]
  exact ⟨h₂.trans h₁.symm, lockedBy_eq_iff⟩

theorem regular_of_keepsLocks {e : Event} (h : e.keepsLocks = true) : e.Regular .block := by
  cases e with
  | transfer caller op before label after =>
    cases caller with
    | insn => trivial
    | block =>
      have hb := (Bool.and_eq_true _ _ ▸ h).1
      simpa [Event.Regular, or_assoc] using hb
  | _ => trivial

theorem asksTransfer_of_keepsLocks {e : Event} (h : e.keepsLocks = true) (hb : e.IsBarred) :
    e.asksTransfer = false := by
  cases e with
  | transfer caller op before label after =>
    simp_all [Event.keepsLocks, Event.asksTransfer, Event.IsBarred]
  | _ => rfl

/-- The walk of a transfer block in which each step is in order and no loop is generated
is balanced; and where the block is left, the register locks are as it found them only
if no loop was generated. -/
theorem locks_balanced (w : g.Resting) :
    ((∀ e ∈ eventsSince g ((walkBlk blk (.ttt op times blks)).run g).2, e.keepsLocks = true) →
      LoopsLocked g (eventsSince g ((walkBlk blk (.ttt op times blks)).run g).2) →
      LocksBalanced blk op times blks g) ∧
    (LocksBalanced blk op times blks g →
      ∀ g', (walkBlk blk (.ttt op times blks)).run g = (.ok (), g') →
      LoopsLocked g (eventsSince g g')) := by
  obtain ⟨-, -, evs, hlog, -, hs⟩ :=
    (told_walk.walkBlk blk (.ttt op times blks) (fun _ => trivial) g).1 w.toLabelled
  have hsince := eventsSince_eq hlog
  constructor
  · intro hk hloops
    rw [hsince] at hk hloops
    refine ⟨fun label len hl => ?_, fun g' hr => (locks_of_ok w hr).1, fun g' hr => ?_, ?_⟩
    · exact hs .block trivial (fun e he => regular_of_keepsLocks (hk e he)) _ (hsince ▸ hl)
    · rw [hr] at hsince
      exact (locks_of_ok w hr).2.2 (hsince.symm ▸ hloops)
    · intro hop r g₁ henter k
      obtain ⟨w₁, hlock, -, e, hlog₁⟩ := enterTtt_ok w.toLabelled henter
      have hb := ((bars_walk.walkBlks blk 0 (blks.take k) fun _ => trivial) g₁).1 w₁ (hlock hop)
      obtain ⟨es, hes, hbarred, hemit⟩ := hb.log
      obtain ⟨es', hbody⟩ := log_walkBlks_take w₁ (hlock hop) blk blks k
      obtain ⟨es'', hall⟩ := log_walkTttBlk blks henter
      have hsub : ∀ e ∈ es, e ∈ evs := by
        have heq : evs = e :: es ++ es' ++ es'' := by
          rw [hlog, hbody, hes, hlog₁] at hall
          simpa using hall
        intro e he
        simp [heq, he]
      have hask : ∀ e ∈ es, e.asksTransfer = false := fun e he =>
        asksTransfer_of_keepsLocks (hk e (hsub e he)) (hbarred e he)
      exact ⟨hb.lockCtrl, hb.labeli, hb.entries, eventsSince_eq hes ▸ hbarred,
        eventsSince_eq hes ▸ hemit trivial hask⟩
  · intro h g' hr
    exact (locks_of_ok w hr).2.1 (h.regs g' hr)

end

theorem plain_resting : (Gen.plain 200).Resting := by
  refine ⟨start_labelled rfl, fun t => ?_⟩
  rintro ⟨⟩

def plainBody : List Blk := [.elem (.i 0 ⟨.mov, [.reg .eax, .imm 1]⟩ none)]

theorem locks_balanced_call : LocksBalanced [] .call 1 plainBody (Gen.plain 200) := by
  have hlog : (((walkBlk [] (.ttt .call 1 plainBody)).run (Gen.plain 200)).2.log.all
      fun e => e.keepsLocks && !e.locksEcx) = true := by decide +kernel
  have h : ∀ e ∈ eventsSince (Gen.plain 200)
      ((walkBlk [] (.ttt .call 1 plainBody)).run (Gen.plain 200)).2,
      e.keepsLocks = true ∧ e.locksEcx = false := by
    intro e he
    simpa using List.all_eq_true.1 hlog e he
  exact (locks_balanced plain_resting).1 (fun e he => (h e he).1) (.inr fun e he => (h e he).2)

/-- `stat_unlock_reg` is never called with `LOCK_REG_CASE_LOOP`: `ecx` stays locked. -/
theorem loop_block_keeps_ecx_locked : ¬ LocksBalanced [] .loop 3 [] (Gen.plain 200) := by
  intro h
  have hok : ((walkBlk [] (.ttt .loop 3 [])).run (Gen.plain 200)).1 = .ok () := by decide +kernel
  have hcx : ((walkBlk [] (.ttt .loop 3 [])).run (Gen.plain 200)).2.lockRegCases .cx = .loop := by
    decide +kernel
  have heq : (.loop : LockRegCase) = .null := hcx ▸ congrFun (h.regs _ (Prog.run_eq hok)) .cx
  exact nomatch heq

end Btrtg
