import Btrtg.TransferLaws
import Btrtg.BlkFrame

/-!
# Labels over whole walks

`Labelled` is what every walk keeps: the label table is right and no entry
names a label that is still to come. What the calls of the control functions
report is read off the record of the run.
-/

namespace Btrtg

open Insnlist Prog

-- ---------------------------------------------------------------------------
-- Targets
-- ---------------------------------------------------------------------------

/-- Every label that an entry names as its target is below `n`. -/
def Insnlist.TargetsBelow (l : Insnlist) (n : Nat) : Prop :=
  ∀ x e k, l.entry? x = some e → e.target? = some k → k < n

section
variable {g g' : Gen} {l l' : Insnlist} {b : Addr} {e : Entry} {m n : Nat} {op : Opcode} {r : Int}

theorem Insnlist.TargetsBelow.adds (h : l.TargetsBelow n) (ha : l.Adds l' b e)
    (he : ∀ k, e.target? = some k → k < n) : l'.TargetsBelow n := by
  intro x e' k hx hk
  by_cases hxb : x = b
  · subst hxb
    rw [ha.entry_new] at hx
    cases hx
    exact he k hk
  · exact h x e' k (ha.entry_old x hxb ▸ hx) hk

theorem Insnlist.TargetsBelow.mono (h : l.TargetsBelow n) (hn : n ≤ m) : l.TargetsBelow m :=
  fun x e k hx hk => Nat.lt_of_lt_of_le (h x e k hx hk) hn

theorem target?_jmp {k : Nat} (h : n < m) (hk : (Entry.jmp n).target? = some k) : k < m := by
  cases hk
  exact h

theorem Leaving.targets (hl : Leaving l l' pos n b op) (h : l.TargetsBelow m) (hn : n < m) :
    l'.TargetsBelow m := by
  cases hl with
  | jmp hi => exact h.adds hi.toAdds fun k hk => target?_jmp hn hk
  | jcc _ hi₀ hi =>
    exact (h.adds hi₀.toAdds fun k hk => by cases hk; exact hn).adds hi.toAdds
      fun k hk => target?_jmp hn hk

/-- The label table is right and nothing is left to be defined. -/
structure X86PGState.Labelled (g : X86PGState) : Prop extends g.WellLabelled where
  targets : g.instlist.TargetsBelow g.labeli

theorem Transferred.wellLabelled (w : g.WellLabelled) (t : Transferred g times op r g') :
    g'.WellLabelled := by
  cases t with
  | locked | other => exact w
  | first hu h0 hl hb =>
    have t : Transferred g times op _ _ := .first hu h0 hl hb
    exact t.wellLabelled_jump w hl.isJump
  | jump hu hq hl hd hb =>
    have t : Transferred g times op _ _ := .jump hu hq hl hd hb
    exact t.wellLabelled_jump w hl.isJump
  | loop _ _ hi₁ hi₂ hi₃ hi₄ =>
    have w₁ := pushLabel_wellLabelled w hi₁.toAdds
    have w₂ := put_wellLabelled w₁ hi₂.toAdds nofun
    have w₃ := put_wellLabelled w₂ hi₃.toAdds nofun
    have w₄ := pushLabel_wellLabelled w₃ hi₄.toAdds
    exact ⟨w₄.placed, w₄.len, w₄.pos, w₄.uniq⟩
  | call _ hi₁ hi₂ hi₃ hi₄ hi₅ hi₆ =>
    have w₁ := put_wellLabelled w hi₁.toAdds nofun
    have w₂ := pushLabel_wellLabelled w₁ hi₂.toAdds
    have w₃ := put_wellLabelled w₂ hi₃.toAdds nofun
    have w₄ := pushLabel_wellLabelled w₃ hi₄.toAdds
    have w₅ := put_wellLabelled w₄ hi₅.toAdds nofun
    have w₆ := pushLabel_wellLabelled w₅ hi₆.toAdds
    have he := hi₆.entry_mono (hi₅.entry_mono (hi₄.entry_mono (hi₃.entry_mono hi₂.entry_new)))
    exact ⟨placed_iff_entry.2 ⟨_, he⟩, w₆.len, w₆.pos, w₆.uniq⟩

theorem Transferred.labelled (w : g.Labelled) (t : Transferred g times op r g') : g'.Labelled := by
  refine ⟨t.wellLabelled w.toWellLabelled, ?_⟩
  cases t with
  | locked | other => exact w.targets
  | first _ h0 hl hb =>
    have hn : 0 < g.labeli + 1 := Nat.succ_pos _
    exact (hl.targets (w.targets.mono (Nat.le_succ _)) hn).adds hb.toAdds nofun
  | jump _ hq hl hd hb =>
    have hn : _ < g.labeli := w.len ▸ (List.getElem?_eq_some_iff.1 hq).1
    have h₁ := hl.targets (w.targets.mono (Nat.le_succ _)) (Nat.lt_succ_self _)
    have h₂ := h₁.adds hd.toAdds fun k hk => target?_jmp (Nat.lt_succ_of_lt hn) hk
    exact h₂.adds hb.toAdds nofun
  | loop _ _ hi₁ hi₂ hi₃ hi₄ =>
    have h₀ : g.instlist.TargetsBelow (g.labeli + 2) := w.targets.mono (Nat.le_add_right _ _)
    have h₂ := (h₀.adds hi₁.toAdds nofun).adds hi₂.toAdds fun k hk => by
      cases hk
      exact Nat.lt_succ_self _
    exact (h₂.adds hi₃.toAdds nofun).adds hi₄.toAdds nofun
  | call _ hi₁ hi₂ hi₃ hi₄ hi₅ hi₆ =>
    have h₀ : g.instlist.TargetsBelow (g.labeli + 3) := w.targets.mono (Nat.le_add_right _ _)
    have h₁ := h₀.adds hi₁.toAdds fun k hk => target?_jmp (by omega) hk
    have h₄ := ((h₁.adds hi₂.toAdds nofun).adds hi₃.toAdds nofun).adds hi₄.toAdds nofun
    have h₅ := h₄.adds hi₅.toAdds fun k hk => by
      cases hk
      omega
    exact h₅.adds hi₆.toAdds nofun

theorem Transferred.labeli_le (t : Transferred g times op r g') : g.labeli ≤ g'.labeli := by
  cases t <;> simp [Gen.put, Gen.pushLabel] <;> omega

end

-- ---------------------------------------------------------------------------
-- What a call reports
-- ---------------------------------------------------------------------------

def InsertsTransfer (before after : X86PGState) : Prop :=
  ∃ x e, before.instlist.entry? x = none ∧ after.instlist.entry? x = some e ∧ e.target?.isSome

/-- The returned label tells whether a control transfer was inserted. -/
def Reports (before : X86PGState) (label : Int) (after : X86PGState) : Prop :=
  (0 ≤ label ∧ label < after.labeli ↔ InsertsTransfer before after) ∧
    (label = -1 ↔ after.instlist = before.instlist)

def FirstJump (op : Opcode) (g : X86PGState) : Prop :=
  g.lockCtrl = false ∧ g.labeli = 0 ∧ op.isJump

section
variable {g g' : Gen} {op : Opcode} {label : Int} {times : BitVec 32}

theorem not_insertsTransfer_self (g : X86PGState) : ¬ InsertsTransfer g g := by
  rintro ⟨x, e, hn, hs, -⟩
  rw [hn] at hs
  cases hs

theorem InsertsTransfer.ne (h : InsertsTransfer g.toX86PGState g'.toX86PGState) :
    g'.instlist ≠ g.instlist := by
  obtain ⟨x, e, hn, hs, -⟩ := h
  rintro heq
  rw [heq, hn] at hs
  cases hs

/-- Nothing is inserted, or something is and only the first jump does not tell. -/
theorem Transferred.outcome (w : g.WellLabelled) (t : Transferred g times op label g') :
    label = -1 ∧ g' = g ∧ (g.lockCtrl = true ∨ ¬ op.isJump ∧ ¬ op.isLoop ∧ op ≠ .call) ∨
      label = -1 ∧ InsertsTransfer g.toX86PGState g'.toX86PGState ∧ FirstJump op g.toX86PGState ∨
      0 ≤ label ∧ label < g'.labeli ∧ InsertsTransfer g.toX86PGState g'.toX86PGState ∧
        ¬ FirstJump op g.toX86PGState := by
  cases t with
  | locked h => exact .inl ⟨rfl, rfl, .inl h⟩
  | other _ hj hl hc => exact .inl ⟨rfl, rfl, .inr ⟨hj, hl, hc⟩⟩
  | first hu h0 hl hb =>
    exact .inr (.inl ⟨rfl, ⟨_, _, hl.fresh, hb.entry_mono hl.entry_new, rfl⟩, hu, h0, hl.isJump⟩)
  | jump _ hq hl hd hb =>
    obtain ⟨hn, -⟩ := List.getElem?_eq_some_iff.1 hq
    rw [w.len] at hn
    exact .inr (.inr ⟨Int.natCast_nonneg _, Int.ofNat_lt.2 (Nat.lt_succ_of_lt hn),
      ⟨_, _, hl.fresh, hb.entry_mono (hd.entry_mono hl.entry_new), rfl⟩,
      fun hf => Nat.not_lt_zero _ (hf.2.1 ▸ hn)⟩)
  | loop _ hop hi₁ hi₂ hi₃ hi₄ =>
    have hlt : (g.labeli : Int) < (g.labeli + 1 + 1 : Nat) := by omega
    exact .inr (.inr ⟨Int.natCast_nonneg _, hlt,
      ⟨_, _, hi₁.fresh_old hi₂.fresh, hi₄.entry_mono (hi₃.entry_mono hi₂.entry_new), rfl⟩,
      fun hf => Opcode.not_isLoop_of_isJump hf.2.2 hop⟩)
  | call _ hi₁ hi₂ hi₃ hi₄ hi₅ hi₆ =>
    have hlt : ((g.labeli : Int) + 2) < (g.labeli + 1 + 1 + 1 : Nat) := by omega
    exact .inr (.inr ⟨by omega, hlt,
      ⟨_, _, hi₁.fresh, hi₆.entry_mono (hi₅.entry_mono (hi₄.entry_mono (hi₃.entry_mono
        (hi₂.entry_mono hi₁.entry_new)))), rfl⟩,
      fun hf => by simp [FirstJump, Opcode.isJump, Opcode.isJcc] at hf⟩)

theorem Transferred.reports_iff (w : g.WellLabelled) (t : Transferred g times op label g') :
    Reports g.toX86PGState label g'.toX86PGState ↔ ¬ FirstJump op g.toX86PGState := by
  rcases t.outcome w with ⟨rfl, rfl, hno⟩ | ⟨rfl, hi, hf⟩ | ⟨h0, hlt, hi, hf⟩
  · have hf : ¬ FirstJump op g'.toX86PGState := by
      rintro ⟨hu, -, hj⟩
      rcases hno with hl | hno
      · exact absurd hl (Bool.eq_false_iff.1 hu)
      · exact hno.1 hj
    exact iff_of_true ⟨iff_of_false (by omega) (not_insertsTransfer_self _), iff_of_true rfl rfl⟩ hf
  · exact iff_of_false (fun h => hi.ne (h.2.1 rfl)) (not_not_intro hf)
  · exact iff_of_true ⟨iff_of_true ⟨h0, hlt⟩ hi, iff_of_false (by omega) hi.ne⟩ hf

end

-- ---------------------------------------------------------------------------
-- The record of a run
-- ---------------------------------------------------------------------------

/-- A call of `gen_control_transfer_insn` by this caller is in order: that of an instruction
is not the first jump, and a block asks for a transfer that it gets. -/
def Event.Regular : Caller → Event → Prop
  | .insn, .transfer .insn op before _ _ => ¬ FirstJump op before
  | .block, .transfer .block op before _ _ => before.lockCtrl = false ∧
    (op.isJump ∧ before.labeli ≠ 0 ∨ op.isLoop ∨ op = .call)
  | _, _ => True

/-- What the caller does with the label is sound: an instruction is inserted only where no
control transfer was, and the index of a block is inside `labelspos`. -/
def Event.Sound : Caller → Event → Prop
  | .insn, .emit _ _ transferred => transferred = false
  | .block, .leave label len => 0 ≤ label ∧ label < len
  | _, _ => True

/-- A call was one of `gen_control_transfer_insn` on a state with a right label table, and
the end is not part of the walk. -/
def Event.Explained : Event → Prop
  | .finish _ => False
  | .transfer _ op before label after => ∃ (g g' : Gen) (times : BitVec 32),
    g.toX86PGState = before ∧ g'.toX86PGState = after ∧ g.WellLabelled ∧
      Transferred g times op label g'
  | _ => True

/-- What a walk leaves and records; for the callers in `ok`, calls that are in order have
no bad consequences. -/
structure Tells (ok : Caller → Prop) (g g' : Gen) : Prop where
  labelled : g'.Labelled
  labeli_le : g.labeli ≤ g'.labeli
  log : ∃ evs, g'.log = g.log ++ evs ∧ (∀ e ∈ evs, e.Explained) ∧
    ∀ c, ok c → (∀ e ∈ evs, e.Regular c) → ∀ e ∈ evs, e.Sound c

def Told (ok : Caller → Prop) (g g' : Gen) : Prop := g.Labelled → Tells ok g g'

abbrev Both : Caller → Prop := fun _ => True

section
variable {ok : Caller → Prop} {g g' g₁ g₂ : Gen} {α : Type} {m : M α} {op : Opcode}

theorem Told.refl (g : Gen) : Told ok g g := fun w =>
  ⟨w, Nat.le_refl _, [], by simp, List.forall_mem_nil _, fun _ _ _ => List.forall_mem_nil _⟩

theorem Tells.trans (h₁ : Tells ok g g₁) (h₂ : Tells ok g₁ g₂) : Tells ok g g₂ := by
  obtain ⟨-, hle₁, es₁, hlog₁, hex₁, hs₁⟩ := h₁
  obtain ⟨w₂, hle₂, es₂, hlog₂, hex₂, hs₂⟩ := h₂
  refine ⟨w₂, Nat.le_trans hle₁ hle₂, es₁ ++ es₂, by rw [hlog₂, hlog₁, List.append_assoc], ?_, ?_⟩
  · intro e he
    exact (List.mem_append.1 he).elim (hex₁ e) (hex₂ e)
  · intro c hok hreg e he
    rcases List.mem_append.1 he with he | he
    · exact hs₁ c hok (fun e he => hreg e (List.mem_append_left _ he)) e he
    · exact hs₂ c hok (fun e he => hreg e (List.mem_append_right _ he)) e he

theorem Told.trans (h₁ : Told ok g g₁) (h₂ : Told ok g₁ g₂) : Told ok g g₂ := fun w =>
  (h₁ w).trans (h₂ (h₁ w).labelled)

theorem closed_told {E : Fault → Prop} : Closed E fun _ m => Keeps (Told ok) (fun _ => True) m :=
  closed_keeps Told.refl (fun _ _ _ => Told.trans) fun _ _ => trivial

theorem Tells.self (w : g.Labelled) : Tells Both g g := Told.refl g w

theorem Tells.imp {ok' : Caller → Prop} (h : Tells ok g g') (hok : ∀ c, ok' c → ok c) :
    Tells ok' g g' :=
  let ⟨w, hle, es, hlog, hex, hs⟩ := h
  ⟨w, hle, es, hlog, hex, fun c h => hs c (hok c h)⟩

/-- The list and its labels are untouched and nothing is recorded. -/
theorem told_quiet (hl : g'.instlist = g.instlist) (hp : g'.insertpos = g.insertpos)
    (hi : g'.labeli = g.labeli) (hs : g'.labelspos = g.labelspos) (hlog : g'.log = g.log) :
    Told ok g g' := by
  intro w
  refine ⟨⟨⟨?_, ?_, ?_, ?_⟩, ?_⟩, Nat.le_of_eq hi.symm, [], by simp [hlog], List.forall_mem_nil _,
    fun _ _ _ => List.forall_mem_nil _⟩
  · rw [hl, hp]; exact w.placed
  · rw [hi, hs]; exact w.len
  · rw [hl, hs]; exact w.pos
  · rw [hl, hs]; exact w.uniq
  · rw [hl, hi]; exact w.targets

theorem told_record {e : Event} (hex : e.Explained) (hs : ∀ c, ok c → e.Sound c) :
    Keeps (Told ok) (fun _ => True) (record e) := by
  intro g
  refine ⟨fun w => ⟨⟨⟨w.placed, w.len, w.pos, w.uniq⟩, w.targets⟩, Nat.le_refl _, [e], rfl, ?_, ?_⟩,
    nofun⟩
  · simpa using hex
  · intro c hok _
    simpa using hs c hok

theorem told_insert {e : Entry} (h : e.isCtrl = false) :
    Keeps (Told ok) (fun _ => True) (statInsertInsn e .after) := by
  refine fun g => ⟨fun w => ?_, fun _ _ => trivial⟩
  obtain ⟨l, hi, hr⟩ := insertAfter_run w.placed e
  rw [show (statInsertInsn e .after).run g = _ from hr]
  have hl : ∀ n, e ≠ .label n := by
    rintro n rfl
    cases h
  have ht : ∀ k, e.target? = some k → k < g.labeli := by
    intro k hk
    cases e <;> simp_all [Entry.isCtrl, Entry.target?]
  exact ⟨⟨put_wellLabelled w.toWellLabelled hi.toAdds hl, w.targets.adds hi.toAdds ht⟩,
    Nat.le_refl _, [], by simp [Gen.put], List.forall_mem_nil _,
    fun _ _ _ => List.forall_mem_nil _⟩

theorem told_genLabel : Keeps (Told ok) (fun _ => True) (genLabel .after) := by
  refine fun g => ⟨fun w => ?_, fun _ _ => trivial⟩
  cases hu : g.lockCtrl with
  | true =>
    rw [genLabel_locked hu]
    exact Told.refl g w
  | false =>
    obtain ⟨l, hi, hr⟩ := insertAfter_run w.placed (.label g.labeli)
    rw [genLabel_run hu hr]
    exact ⟨⟨pushLabel_wellLabelled w.toWellLabelled hi.toAdds,
      (w.targets.mono (Nat.le_succ _)).adds hi.toAdds nofun⟩, Nat.le_succ _, [],
      by simp [Gen.put, Gen.pushLabel], List.forall_mem_nil _,
    fun _ _ _ => List.forall_mem_nil _⟩

def Gen.tell (g : Gen) (e : Event) : Gen := { g with log := g.log ++ [e] }

theorem X86PGState.Labelled.tell (w : g.Labelled) (e : Event) : (g.tell e).Labelled :=
  ⟨⟨w.placed, w.len, w.pos, w.uniq⟩, w.targets⟩

theorem callControlTransfer_run (w : g.WellLabelled) (caller : Caller) (op : Opcode)
    (times : BitVec 32) :
    ∃ label g' e, Transferred g times op label g' ∧ g'.log = g.log ∧
      e = Event.transfer caller op g.toX86PGState label g'.toX86PGState ∧ e.Explained ∧
      (callControlTransfer caller op times).run g =
        (.ok (label, g'.instlist.brk != g.instlist.brk), g'.tell e) := by
  obtain ⟨label, g', hr, ht⟩ := genControlTransferInsn_run w op times
  refine ⟨label, g', _, ht, ?_, rfl, ⟨g, g', times, rfl, rfl, w, ht⟩, ?_⟩
  · cases ht <;> rfl
  · refine (Prog.run_bind_ok (Prog.run_get g)).trans ((Prog.run_bind_ok hr).trans ?_)
    rfl

/-- One recorded call and what follows it. -/
theorem Tells.after {e : Event} (h : Tells ok (g'.tell e) g₂) (hle : g.labeli ≤ g'.labeli) (hlog : g'.log = g.log)
    (hex : e.Explained) (hs : ∀ c, e.Sound c)
    (hok : ∀ c, e.Regular c → ok c) :
    Tells Both g g₂ := by
  obtain ⟨w, hle₂, es, hlog₂, hex₂, hs₂⟩ := h
  refine ⟨w, Nat.le_trans hle hle₂, e :: es, ?_, List.forall_mem_cons.2 ⟨hex, hex₂⟩, ?_⟩
  · rw [hlog₂, Gen.tell, hlog, List.append_assoc]
    rfl
  · intro c _ hreg
    obtain ⟨hreg₁, hreg₂⟩ := List.forall_mem_cons.1 hreg
    exact List.forall_mem_cons.2 ⟨hs c, hs₂ c (hok c hreg₁) hreg₂⟩

theorem told_transfer (op : Opcode) :
    Keeps (Told ok) (fun _ => True) (callControlTransfer .insn op (-1)) := by
  refine fun g => ⟨fun w => ?_, fun _ _ => trivial⟩
  obtain ⟨label, g', e, ht, hlog, rfl, hex, hr⟩ :=
    callControlTransfer_run w.toWellLabelled .insn op (-1)
  rw [hr]
  have h := (Tells.self ((ht.labelled w).tell
    (.transfer .insn op g.toX86PGState label g'.toX86PGState))).after ht.labeli_le hlog hex
    (fun c => by cases c <;> trivial) fun _ _ => trivial
  exact h.imp fun _ _ => trivial

/-- An event about the state that says nothing about a transfer. -/
theorem told_log {e : Event} (h : e.Explained ∧ ∀ c, e.Sound c) (g : Gen) :
    Told ok g (g.tell e) :=
  (told_record h.1 (fun c _ => h.2 c) g).1

theorem told_modrm (flags : OpFlags) :
    Keeps (Told ok) (fun _ => True) (createRandomModrm flags) := by
  refine (modrm_createRandomModrm flags).of_closed closed_told fun m hm => ?_
  cases hm with
  | rand => exact fun g => ⟨told_quiet rfl rfl rfl rfl rfl, nofun⟩
  | modify hf =>
    exact fun g => ⟨told_quiet (hf g).instlist (hf g).insertpos (hf g).labeli (hf g).labelspos
      (hf g).log, nofun⟩
  | record b =>
    exact fun g => ⟨told_log (e := .modrm b) ⟨trivial, fun c => by cases c <;> trivial⟩ g, nofun⟩

theorem told_searchCurrBlk (check : Bool) (name : String) :
    Keeps (Told ok) (fun _ => True) (searchCurrBlk check name) := by
  refine fun g => ⟨told_log (e := .resolve _ _ _ _ _) ⟨trivial, fun c => ?_⟩ g, nofun⟩
  cases c <;> trivial

theorem told_prim {ev : Event → Prop} {nested : (α : Type) → M α → Prop}
    (hev : ∀ e, ev e → e.Explained ∧ ∀ c, ok c → e.Sound c)
    (hn : ∀ {β : Type} (m : M β), nested β m → Keeps (Told ok) (fun _ => True) m)
    (h : Uses (Prim ev nested) NoOverflow m) : Keeps (Told ok) (fun _ => True) m := by
  refine h.of_closed closed_told fun m hm => ?_
  cases hm with
  | rand | setOpcode | setVar => exact fun g => ⟨told_quiet rfl rfl rfl rfl rfl, nofun⟩
  | modify hf =>
    exact fun g => ⟨told_quiet (hf g).instlist (hf g).insertpos (hf g).labeli (hf g).labelspos
      (hf g).log, nofun⟩
  | modrm flags => exact told_modrm flags
  | seed o => exact seed_of_closed closed_told (told_searchCurrBlk false) o
  | record he => exact told_record (hev _ he).1 (hev _ he).2
  | insert he => exact told_insert he
  | label => exact told_genLabel
  | transfer op => exact told_transfer op
  | nested hm => exact hn _ hm

-- ---------------------------------------------------------------------------
-- Instructions and transfer blocks
-- ---------------------------------------------------------------------------

/-- What one instruction records, but for its control transfer. -/
def Event.isInsn (transferred : Bool) : Event → Prop
  | .emit _ _ t => t = transferred
  | e => e.isOperand

/-- The instruction is sound where no transfer was inserted. -/
abbrev Untransferred (transferred : Bool) (c : Caller) : Prop := c = .insn → transferred = false

theorem Event.isInsn_explained {e : Event} {transferred : Bool} (h : e.isInsn transferred) :
    e.Explained ∧ ∀ c, Untransferred transferred c → e.Sound c := by
  cases e with
  | emit insn setup t =>
    refine ⟨trivial, fun c hc => ?_⟩
    cases c with
    | insn => exact h.trans (hc rfl)
    | block => trivial
  | _ => simp_all [isInsn, isOperand, Explained, Sound]

theorem told_operand (insn : Opcode) : Keeps (Told ok) (fun _ => True) (logOperand insn) := by
  refine fun g => ⟨told_log (e := .operand _ _ _ _ _ _ _) ⟨trivial, fun c => ?_⟩ g, nofun⟩
  cases c <;> trivial

theorem told_nestedInsn {constInsn : PseudoInsn → M Bool}
    (hc : ∀ p, Keeps (Told ok) (fun _ => True) (constInsn p)) (p : PseudoInsn) :
    Keeps (Told ok) (fun _ => True) (nestedInsn constInsn p) := by
  have hset : ∀ n, Keeps (Told ok) (fun _ => True) (setNested n) := fun n g =>
    ⟨told_quiet rfl rfl rfl rfl rfl, nofun⟩
  exact nested_of_closed (closed_told (E := NoOverflow)) hset hc p

theorem told_oneInsnGenWith {constInsn : PseudoInsn → M Bool}
    (hc : ∀ p, Keeps (Told Both) (fun _ => True) (constInsn p)) (src : Source) :
    Keeps (Told Both) (fun _ => True) (oneInsnGenWith constInsn src) := by
  have hconst : ∀ t : Bool, ∀ p, Keeps (Told (Untransferred t)) (fun _ => True) (constInsn p) :=
    fun t p g => ⟨fun w => ((hc p g).1 w).imp fun _ _ => trivial, fun _ _ => trivial⟩
  have hops : ∀ t, Keeps (Told (Untransferred t)) (fun _ => True) (insnOperands constInsn src t) := by
    intro t
    have hev : ∀ e : Event, e.isOperand → e.isInsn t := by
      intro e he
      cases e <;> simp_all [Event.isInsn, Event.isOperand]
    have huses : Uses (Prim (Event.isInsn t) (IsInsn constInsn)) NoOverflow
        (insnOperands constInsn src t) :=
      prim_insnOperands hev src fun _ _ _ => rfl
    refine told_prim (fun e => Event.isInsn_explained) (fun m hm => ?_) huses
    cases hm with
    | const p => exact told_nestedInsn (hconst t) p
    | operand insn => exact told_operand insn
  have hquiet : ∀ {α : Type} {m : M α}, Uses (Prim (Event.isInsn false) fun _ _ => False)
      NoOverflow m → Keeps (Told Both) (fun _ => True) m := fun h =>
    told_prim (fun e he => ⟨(Event.isInsn_explained he).1, fun c _ =>
      (Event.isInsn_explained he).2 c fun _ => rfl⟩) (fun _ h => h.elim) h
  have htrans : ∀ g₁ g₂ g₃, Told Both g₁ g₂ → Told Both g₂ g₃ → Told Both g₁ g₃ :=
    fun _ _ _ => Told.trans
  refine (hquiet .get).bind htrans fun g => ?_
  refine (hquiet (prim_record (by trivial))).bind htrans fun _ => ?_
  refine (hquiet (by grind [likelyGenLabel])).bind htrans fun _ => ?_
  refine (hquiet (prim_setOpcode src.opcode)).bind htrans fun _ => ?_
  -- the call decides whether an instruction follows
  refine fun g => ⟨fun w => ?_, fun _ _ => trivial⟩
  obtain ⟨label, g', e, ht, hlog, rfl, hex, hr⟩ :=
    callControlTransfer_run w.toWellLabelled .insn src.opcode (-1)
  rw [Prog.run_bind_ok hr]
  have w' := (ht.labelled w).tell
    (.transfer .insn src.opcode g.toX86PGState label g'.toX86PGState)
  have hs : ∀ c, (Event.transfer .insn src.opcode g.toX86PGState label g'.toX86PGState).Sound c :=
    fun c => by cases c <;> trivial
  dsimp only
  split
  · exact (Tells.self w').after ht.labeli_le hlog hex hs fun _ _ => trivial
  · rename_i hneg
    refine ((hops _ _).1 w').after ht.labeli_le hlog hex hs fun c hreg hc => ?_
    subst hc
    rcases ht.outcome w.toWellLabelled with ⟨-, rfl, -⟩ | ⟨-, -, hf⟩ | ⟨h0, -⟩
    · simp
    · exact absurd hf hreg
    · exact absurd h0 hneg

theorem told_oneInsnGen (src : Source) : Keeps (Told Both) (fun _ => True) (oneInsnGen src) := by
  have hconst : ∀ depth p, Keeps (Told Both) (fun _ => True) (oneInsnGenConst depth p) := by
    intro depth
    induction depth with
    | zero => exact fun p g => ⟨Told.refl g, fun _ _ => trivial⟩
    | succ depth ih => exact fun p => told_oneInsnGenWith ih (.pseudo p)
  exact told_oneInsnGenWith (hconst 1) src

/-- A call of `update_insert_pos_to_label` with a label that is there is sound. -/
theorem told_leave (label : Int) (w : g.Labelled) :
    Tells (fun c => c = .block → 0 ≤ label ∧ label < g.labeli) g
      ((do callUpdateInsertPos label; statUnlockCtrl : M Unit).run g).2 := by
  have hs : ∀ c, (c = .block → 0 ≤ label ∧ label < g.labeli) →
      (Event.leave label g.labelspos.length).Sound c := by
    intro c hc
    cases c with
    | insn => trivial
    | block => exact ⟨(hc rfl).1, w.len ▸ (hc rfl).2⟩
  have hrec := (told_record (e := .leave label g.labelspos.length) trivial hs g).1 w
  by_cases h : ∃ n : Nat, label = n ∧ n < g.labeli
  · obtain ⟨n, rfl, hn⟩ := h
    obtain ⟨x, hx, he⟩ := labelspos_lt w.toWellLabelled hn
    have hup : (callUpdateInsertPos n).run g =
        (.ok (), { g.tell (.leave n g.labelspos.length) with insertpos := some x }) := by
      exact updateInsertPosToLabel_run (g := g.tell _) hx
    rw [Prog.run_bind_ok hup]
    exact ⟨⟨⟨placed_iff_entry.2 ⟨_, he⟩, w.len, w.pos, w.uniq⟩, w.targets⟩, hrec.labeli_le, hrec.log⟩
  · have hup : (callUpdateInsertPos label).run g =
        (.error .outOfBounds, g.tell (.leave label g.labelspos.length)) := by
      refine updateInsertPosToLabel_error (g := g.tell _) fun n hn => ?_
      refine List.getElem?_eq_none (Nat.le_of_not_lt fun hlt => h ⟨n, hn, ?_⟩)
      exact w.len ▸ hlt
    rw [Prog.run_bind_error hup]
    exact hrec

/-- A transfer block that is in order gets a label. -/
theorem Transferred.label_of_regular {label : Int} {times : BitVec 32} (w : g.Labelled)
    (t : Transferred g times op label g')
    (h : (Event.transfer .block op g.toX86PGState label g'.toX86PGState).Regular .block) :
    0 ≤ label ∧ label < g'.labeli := by
  rcases t.outcome w.toWellLabelled with ⟨-, rfl, hno⟩ | ⟨-, -, hf⟩ | ⟨h0, hlt, -⟩
  · obtain ⟨hu, hop⟩ := h
    rcases hno with hl | ⟨hj, hl, hc⟩
    · exact absurd hl (Bool.eq_false_iff.1 hu)
    · exact (hop.elim (fun h => hj h.1) (Or.rec hl hc)).elim
  · obtain ⟨-, ⟨-, hn⟩ | hl | rfl⟩ := h
    · exact absurd hf.2.1 hn
    · exact absurd hl (Opcode.not_isLoop_of_isJump hf.2.2)
    · simp [FirstJump, Opcode.isJump, Opcode.isJcc] at hf
  · exact ⟨h0, hlt⟩

theorem told_walkTttBlk {body : M Unit} (hb : Keeps (Told Both) (fun _ => True) body)
    (blk : BlkId) (op : Opcode) (times : BitVec 32) :
    Keeps (Told Both) (fun _ => True) (walkTttBlk blk body op times) := by
  have htrans : ∀ g₁ g₂ g₃, Told Both g₁ g₂ → Told Both g₂ g₃ → Told Both g₁ g₃ :=
    fun _ _ _ => Told.trans
  have hquiet : ∀ f : Gen → Gen, (∀ g, Quiet g (f g)) →
      Keeps (Told Both) (fun _ => True) (modify f : M PUnit) := fun f hf g =>
    ⟨told_quiet (hf g).instlist (hf g).insertpos (hf g).labeli (hf g).labelspos (hf g).log, nofun⟩
  refine (hquiet _ fun g => by grind [Quiet]).bind htrans fun _ => ?_
  refine (hquiet _ fun g => by grind [Quiet]).bind htrans fun _ => ?_
  refine fun g => ⟨fun w => ?_, fun _ _ => trivial⟩
  obtain ⟨label, g', e, ht, hlog, rfl, hex, hr⟩ :=
    callControlTransfer_run w.toWellLabelled .block op times
  rw [Prog.run_bind_ok hr]
  have w' := (ht.labelled w).tell
    (.transfer .block op g.toX86PGState label g'.toX86PGState)
  have hbody := (hb _).1 w'
  suffices h : Tells (fun c => c = .block → 0 ≤ label ∧ label < g'.labeli) (g'.tell _) _ by
    refine h.after ht.labeli_le hlog hex (fun c => by cases c <;> trivial) ?_
    rintro c hreg rfl
    exact ht.label_of_regular w hreg
  dsimp only
  rw [run_bind]
  rcases hrun : body.run (g'.tell _) with ⟨e | u, g₂⟩ <;> rw [hrun] at hbody <;>
    dsimp only at hbody
  · exact hbody.imp fun _ _ => trivial
  · refine (hbody.imp fun _ _ => trivial).trans ((told_leave label hbody.labelled).imp ?_)
    have hle : g'.labeli ≤ g₂.labeli := hbody.labeli_le
    intro c h hc
    obtain ⟨h0, hlt⟩ := h hc
    exact ⟨h0, by omega⟩

theorem told_elem (h : ElemPrim α m) : Keeps (Told Both) (fun _ => True) m := by
  cases h with
  | rand => exact fun g => ⟨told_quiet rfl rfl rfl rfl rfl, nofun⟩
  | insn src => exact told_oneInsnGen src
  | modify hf =>
    exact fun g => ⟨told_quiet (hf g).instlist (hf g).insertpos (hf g).labeli (hf g).labelspos
      (hf g).log, nofun⟩
  | check cType => exact told_insert rfl
  | checked name => exact checked_of_closed closed_told (told_searchCurrBlk true) name
  | select insn =>
    exact fun g => ⟨told_log (e := .select _ _) ⟨trivial, fun c => by cases c <;> trivial⟩ g, nofun⟩

theorem told_setPlace (blk : BlkId) : Keeps (Told Both) (fun _ => True) (setPlace blk) :=
  fun _ => ⟨told_quiet rfl rfl rfl rfl rfl, nofun⟩

theorem told_walk : PartsClosed True fun _ m => Keeps (Told Both) (fun _ => True) m where
  closed := closed_told
  prim m hm := by
    cases hm with
    | invalidate => exact fun g => ⟨told_quiet rfl rfl rfl rfl rfl, nofun⟩
    | traverse _ hf =>
      exact fun g => ⟨told_quiet (hf g).instlist (hf g).insertpos (hf g).labeli (hf g).labelspos
        (hf g).log, nofun⟩
    | reached vals walked => exact told_record trivial fun c _ => by cases c <;> trivial
    | nested hm => exact hm.elim
  selected := (elem_of_closed closed_told told_setPlace fun _ => told_elem).1
  elem := (elem_of_closed closed_told told_setPlace fun _ => told_elem).2
  enter blk := fun g => ⟨told_quiet rfl rfl rfl rfl rfl, nofun⟩
  ttt blk body op times hb := told_walkTttBlk hb blk op times

theorem told_walkTmplt (blks : List Blk) :
    Keeps (Told Both) (fun _ => True) (walkTmplt blks) :=
  told_walk.walkBlk [] (.seq blks) fun _ => trivial

end

-- ---------------------------------------------------------------------------
-- The finished list
-- ---------------------------------------------------------------------------

/-- The labels of the list are those of the table, each once, and every label that is
named is defined. -/
structure LabelsRight (g : X86PGState) : Prop where
  distinct : ∀ x y n, g.instlist.entry? x = some (.label n) →
    g.instlist.entry? y = some (.label n) → x = y
  range : ∀ n, (∃ x, g.instlist.entry? x = some (.label n)) ↔ n < g.labeli
  pos : ∀ n x, g.labelspos[n]? = some (some x) ↔ g.instlist.entry? x = some (.label n)
  targets : ∀ x e n, g.instlist.entry? x = some e → e.target? = some n →
    ∃ y, g.instlist.entry? y = some (.label n)

section
variable {g g' : Gen}

theorem X86PGState.WellLabelled.range (w : g.WellLabelled) (n : Nat) :
    (∃ x, g.instlist.entry? x = some (.label n)) ↔ n < g.labeli := by
  constructor
  · rintro ⟨x, hx⟩
    exact w.len ▸ (List.getElem?_eq_some_iff.1 (w.uniq x n hx)).1
  · intro hn
    obtain ⟨x, -, he⟩ := labelspos_lt w hn
    exact ⟨x, he⟩

theorem X86PGState.Labelled.right (w : g.Labelled) : LabelsRight g.toX86PGState where
  distinct x y n hx hy := by
    have h := w.uniq x n hx
    rw [w.uniq y n hy] at h
    cases h
    rfl
  range := w.range
  pos n x := by
    refine ⟨fun h => ?_, w.uniq x n⟩
    obtain ⟨y, hy, he⟩ := w.pos n _ h
    cases hy
    exact he
  targets x e n he ht := (w.range n).2 (w.targets x e n he ht)

/-- The end of a run: the labels are right when control transfer is unlocked, and the jump
to the tail has no target otherwise. -/
theorem endInsnGen_run (w : g.Labelled) :
    ∃ g', endInsnGen.run g = (.ok (), g') ∧ g'.log = g.log ++ [.finish g.lockCtrl] ∧
      (LabelsRight g'.toX86PGState ↔ g.lockCtrl = false) := by
  let g₀ := g.tell (.finish g.lockCtrl)
  have w₀ : g₀.Labelled := w.tell _
  cases hu : g.lockCtrl with
  | false =>
    obtain ⟨l₁, l₂, a, b, hi, hb, hr⟩ := finish_run (g := g₀) w₀.toWellLabelled hu
    refine ⟨_, hr, by rw [← hu]; rfl, iff_of_true (X86PGState.Labelled.right ⟨?_, ?_⟩) rfl⟩
    · have w₁ := put_wellLabelled w₀.toWellLabelled hi.toAdds nofun
      have w₂ := pushLabel_wellLabelled w₁ hb.toAdds
      exact ⟨w₂.placed, w₂.len, w₂.pos, w₂.uniq⟩
    · have h₁ := (w₀.targets.mono (Nat.le_succ _)).adds hi.toAdds
        fun k hk => target?_jmp (Nat.lt_succ_self _) hk
      exact h₁.adds hb.toAdds nofun
  | true =>
    obtain ⟨l₁, hi, hr⟩ := insertAfter_run (g := g₀) w₀.placed (.jmp g₀.labeli)
    have w₁ := put_wellLabelled w₀.toWellLabelled hi.toAdds nofun
    have hlab : (genLabel .tail).run (g₀.put l₁ g₀.instlist.brk) = _ := genLabel_locked hu
    refine ⟨_, (Prog.run_bind_ok hr).trans (Prog.run_bind_ok hlab), by rw [← hu]; rfl,
      iff_of_false (fun h => ?_) nofun⟩
    -- the label of the last jump is the one that `gen_label` did not write
    obtain ⟨y, hy⟩ := h.targets _ _ _ hi.entry_new rfl
    exact Nat.lt_irrefl _ ((w₁.range _).1 ⟨y, hy⟩)

theorem start_labelled (h : g.toX86PGState = initX86PGState) : g.Labelled := by
  rw [h]
  refine ⟨initX86PGState_wellLabelled, fun x e k hx _ => ?_⟩
  cases hx

/-- What a whole run records and leaves: the walk, and the end when it gets there. -/
theorem generate_tells (h : g.toX86PGState = initX86PGState) (hlog : g.log = [])
    (blks : List Blk) :
    ∃ evs, (∀ e ∈ evs, e.Explained) ∧
      (∀ c, (∀ e ∈ evs, e.Regular c) → ∀ e ∈ evs, e.Sound c) ∧
      ((∃ f, ((generate blks).run g).1 = .error f ∧ ((generate blks).run g).2.log = evs) ∨
        ∃ lock g', (generate blks).run g = (.ok (), g') ∧ g'.log = evs ++ [.finish lock] ∧
          (LabelsRight g'.toX86PGState ↔ lock = false)) := by
  have ht := (told_walkTmplt blks g).1 (start_labelled h)
  rcases hrun : (walkTmplt blks).run g with ⟨f | u, g₁⟩ <;> rw [hrun] at ht <;> dsimp only at ht
  · obtain ⟨-, -, evs, hevs, hex, hs⟩ := ht
    rw [hlog] at hevs
    refine ⟨evs, hex, fun c => hs c trivial, .inl ⟨f, ?_⟩⟩
    rw [generate, Prog.run_bind_error hrun]
    exact ⟨rfl, hevs⟩
  · obtain ⟨w, -, evs, hevs, hex, hs⟩ := ht
    rw [hlog] at hevs
    obtain ⟨g', hr, hlog', hright⟩ := endInsnGen_run w
    exact ⟨evs, hex, fun c => hs c trivial, .inr ⟨_, g', (Prog.run_bind_ok hrun).trans hr,
      by rw [hlog', hevs]; rfl, hright⟩⟩

end

/-- A step that leaves the labels in order: a block asks for a transfer that it gets, and
the end begins unlocked. -/
def Event.KeepsLabels : Event → Prop
  | .finish lock => lock = false
  | e => e.Regular .block

section
variable (rand : Nat → Fin (2 ^ 31)) (patience : Nat) (tks : String → Option TkModel)
  (instructions : Opcode → List (List OpFlags)) (vars : BlkId → List BlkVar) (blks : List Blk)

/-- Whatever the template and the draws: when every step keeps the labels in order,
`labelspos` is only used inside its bounds and the labels of the list that is output are
right; and where a list is output, they are right only if the end began unlocked. -/
theorem labels_right_iff_unlocked :
    let run := (generate blks).run (.start rand patience tks instructions vars)
    ((∀ e ∈ run.2.log, e.KeepsLabels) →
      (∀ label len, Event.leave label len ∈ run.2.log → 0 ≤ label ∧ label < len) ∧
        (run.1 = .ok () → LabelsRight run.2.toX86PGState)) ∧
    (run.1 = .ok () → (LabelsRight run.2.toX86PGState ↔ Event.finish false ∈ run.2.log)) := by
  intro run
  obtain ⟨evs, hex, hs, hend⟩ :=
    generate_tells (g := .start rand patience tks instructions vars) rfl rfl blks
  -- the indices are those of the walk
  have hleave : evs ⊆ run.2.log → (∀ e ∈ run.2.log, e.KeepsLabels) →
      ∀ label len, Event.leave label len ∈ evs → 0 ≤ label ∧ label < len := by
    intro hsub hk label len hl
    refine hs .block (fun e he => ?_) _ hl
    have h := hk e (hsub he)
    cases e with
    | finish => exact (hex _ he).elim
    | _ => exact h
  rcases hend with ⟨f, hf, hlog⟩ | ⟨lock, g', hr, hlog, hright⟩
  · have hne : run.1 ≠ .ok () := fun h => by rw [show run.1 = _ from hf] at h; cases h
    have hlog' : run.2.log = evs := hlog
    exact ⟨fun hk => ⟨fun label len hl => hleave (by simp [hlog']) hk label len (hlog' ▸ hl),
      fun h => absurd h hne⟩, fun h => absurd h hne⟩
  · have hrun : run = (.ok (), g') := hr
    have hlog' : run.2.log = evs ++ [.finish lock] := by rw [hrun, hlog]
    have hmem : ∀ b, Event.finish b ∈ run.2.log ↔ lock = b := by
      intro b
      rw [hlog', List.mem_append, List.mem_singleton]
      constructor
      · rintro (h | h)
        · exact (hex _ h).elim
        · cases h
          rfl
      · rintro rfl
        exact .inr rfl
    have hiff : LabelsRight run.2.toX86PGState ↔ Event.finish false ∈ run.2.log := by
      rw [hmem, ← hright, hrun]
    refine ⟨fun hk => ⟨fun label len hl => ?_, fun _ => ?_⟩, fun _ => hiff⟩
    · refine hleave (by simp [hlog']) hk label len ?_
      rw [hlog', List.mem_append, List.mem_singleton] at hl
      exact hl.resolve_right nofun
    · have hlock : lock = false := hk _ ((hmem lock).2 rfl)
      exact hiff.2 ((hmem false).2 hlock)

end

/-- An element `call` outside a transfer block: the jump to the tail names a label that
nothing defines. -/
theorem call_element_labels_wrong :
    ¬ LabelsRight
      ((generate [.elem (.i 0 ⟨.call, []⟩ none)]).run (Gen.plain 200)).2.toX86PGState := by
  intro h
  obtain ⟨y, hy⟩ := h.targets 6 (.jmp 3) 3 (by decide +kernel) rfl
  obtain ⟨z, hz⟩ := labelAddr_of_entry hy
  have hnone : ((generate [.elem (.i 0 ⟨.call, []⟩ none)]).run
    (Gen.plain 200)).2.instlist.labelAddr? 3 = none := by decide +kernel
  rw [hnone] at hz
  cases hz

section
variable (rand : Nat → Fin (2 ^ 31)) (patience : Nat) (tks : String → Option TkModel)
  (instructions : Opcode → List (List OpFlags)) (vars : BlkId → List BlkVar) (blks : List Blk)

/-- What is recorded when the template is walked from the state. -/
def eventsOf (blks : List Blk) (g : Gen) : List Event := ((generate blks).run g).2.log

/-- Whatever the template and the draws: a call of `gen_control_transfer_insn` tells what it
did unless it is the first jump; and where every call is in order, `labelspos` is only
used inside its bounds and no instruction is inserted next to its own transfer. -/
theorem transfers_report :
    (∀ caller op before label after,
      Event.transfer caller op before label after ∈
        eventsOf blks (.start rand patience tks instructions vars) →
      (Reports before label after ↔ ¬ FirstJump op before)) ∧
    ((∀ e ∈ eventsOf blks (.start rand patience tks instructions vars), e.Regular .block) →
      ∀ label len,
        Event.leave label len ∈ eventsOf blks (.start rand patience tks instructions vars) →
        0 ≤ label ∧ label < len) ∧
    ((∀ e ∈ eventsOf blks (.start rand patience tks instructions vars), e.Regular .insn) →
      ∀ insn setup transferred,
        Event.emit insn setup transferred ∈
          eventsOf blks (.start rand patience tks instructions vars) →
        transferred = false) := by
  let log := eventsOf blks (.start rand patience tks instructions vars)
  obtain ⟨evs, hex, hs, hend⟩ :=
    generate_tells (g := .start rand patience tks instructions vars) rfl rfl blks
  have hlog : ∃ fin, log = evs ++ fin ∧ ∀ e ∈ fin, ∃ lock, e = .finish lock := by
    rcases hend with ⟨f, -, hlog⟩ | ⟨lock, g', hr, hlog, -⟩
    · exact ⟨[], hlog.trans (List.append_nil evs).symm, List.forall_mem_nil _⟩
    · refine ⟨[.finish lock], ?_, by simp⟩
      rw [← hlog]
      exact congrArg (fun r => r.2.log) hr
  obtain ⟨fin, hlog, hfin⟩ := hlog
  have hmem : ∀ e ∈ log, (∀ lock, e ≠ .finish lock) → e ∈ evs := by
    intro e he hne
    rw [hlog, List.mem_append] at he
    refine he.resolve_right fun he => ?_
    obtain ⟨lock, rfl⟩ := hfin e he
    exact hne lock rfl
  have hsub : ∀ e ∈ evs, e ∈ log := fun e he => hlog ▸ List.mem_append_left _ he
  refine ⟨?_, ?_, ?_⟩
  · intro caller op before label after he
    obtain ⟨g, g', times, rfl, rfl, w, ht⟩ := hex _ (hmem _ he nofun)
    exact ht.reports_iff w
  · intro hreg label len he
    exact hs .block (fun e he => hreg e (hsub e he)) _ (hmem _ he nofun)
  · intro hreg insn setup transferred he
    exact hs .insn (fun e he => hreg e (hsub e he)) _ (hmem _ he nofun)

end

/-- The first jump: -1 is returned although a jump was inserted, and the instruction is
inserted once more without its label. -/
theorem first_jump_not_reported :
    (∃ label g', (genControlTransferInsn .jmp (-1)).run (Gen.plain 200) = (.ok label, g') ∧
      ¬ Reports (Gen.plain 200).toX86PGState label g'.toX86PGState) ∧
    (((generate [.elem (.i 0 ⟨.jmp, []⟩ none)]).run (Gen.plain 200)).2.log.any fun e =>
      match e with
      | .emit insn _ transferred => insn.opcode = .jmp && insn.opnds = [] && transferred
      | _ => false) = true := by
  have w : (Gen.plain 200).WellLabelled := initX86PGState_wellLabelled
  refine ⟨?_, by decide +kernel⟩
  obtain ⟨label, g', hr, ht⟩ := genControlTransferInsn_run w .jmp (-1)
  exact ⟨label, g', hr, fun h => (ht.reports_iff w).1 h ⟨rfl, rfl, rfl⟩⟩

end Btrtg
