import Btrtg.TransferLaws

/-!
# Programs of ordinary instructions, labels and jumps

Whatever labels the jumps choose, the program that is built runs the
instructions in the order in which they were appended and ends at its tail.
-/

namespace Btrtg

/-- A step of the generator while control transfer is unlocked. -/
inductive Cmd
  | insn (e : Entry) (h : e.isOrdinary)
  | label
  | transfer (op : Opcode) (h : op.isJump)

def Cmd.run : Cmd → M Unit
  | .insn e _ => statInsertInsn e .after
  | .label => do
    let _ ← genLabel .after
  | .transfer op _ => do
    let _ ← genControlTransferInsn op (-1)

def Cmd.appended : Cmd → List Entry
  | .insn e _ => [e]
  | _ => []

def runCmds : List Cmd → M Unit
  | [] => pure ()
  | c :: cs => do
    c.run
    runCmds cs

/-- Between two steps: control comes to the insert position with exactly `done`
executed. -/
structure JumpInv (sem : Sem) (g : Gen) (done : List Entry) : Prop where
  labelled : g.WellLabelled
  unlocked : g.lockCtrl = false
  reaches : Reaches sem g.instlist g.insertpos done

variable {sem : Sem} {g : Gen} {done : List Entry}

theorem jumpInv_init (h : g.toX86PGState = initX86PGState) : JumpInv sem g [] where
  labelled := h ▸ initX86PGState_wellLabelled
  unlocked := h ▸ rfl
  reaches := by
    intro ecx
    have hpos : g.insertpos = none := h ▸ rfl
    rw [hpos]
    exact .here rfl ⟨[], rfl, rfl⟩

/-- An entry after the insert position that control falls through. -/
theorem JumpInv.put (hi : JumpInv sem g done) (ha : g.instlist.IsAfter l g.insertpos b e)
    (he : e.isOrdinary) : JumpInv sem (g.put l b) (done ++ [e]) where
  labelled := put_wellLabelled hi.labelled ha.toAdds (by rintro n rfl; simp [Entry.isOrdinary] at he)
  unlocked := hi.unlocked
  reaches := by
    refine hi.reaches.append hi.labelled.placed ha (Entry.output?_some.2 (.inl ⟨he, rfl⟩)) ?_
    rintro n rfl
    simp [Entry.isOrdinary] at he

theorem Cmd.run_inv (hi : JumpInv sem g done) (c : Cmd) :
    ∃ g', c.run.run g = (.ok (), g') ∧ JumpInv sem g' (done ++ c.appended) := by
  cases c with
  | insn e he =>
    obtain ⟨l, ha, hr⟩ := insertAfter_run hi.labelled.placed e
    exact ⟨_, hr, hi.put ha he⟩
  | label =>
    obtain ⟨l, ha, hr⟩ := insertAfter_run hi.labelled.placed (.label g.labeli)
    refine ⟨_, Prog.run_bind_ok (genLabel_run hi.unlocked hr), ?_⟩
    refine ⟨pushLabel_wellLabelled hi.labelled ha.toAdds, hi.unlocked, ?_⟩
    refine hi.reaches.append hi.labelled.placed ha (Entry.output?_some.2 (.inr ⟨_, rfl, rfl⟩)) ?_
    rintro n ⟨⟩
    exact labelAddr_fresh hi.labelled (Nat.le_refl _)
  | transfer op hop =>
    obtain ⟨r, g', hr, ht⟩ := genControlTransferInsn_run hi.labelled op (-1)
    refine ⟨g', Prog.run_bind_ok hr, ht.wellLabelled_jump hi.labelled hop,
      ht.unlocked_jump hop hi.unlocked, ?_⟩
    simpa [Cmd.appended] using ht.reaches_jump hi.labelled hop hi.reaches

theorem runCmds_inv (hi : JumpInv sem g done) (cs : List Cmd) :
    ∃ g', (runCmds cs).run g = (.ok (), g') ∧ JumpInv sem g' (done ++ cs.flatMap Cmd.appended) := by
  induction cs generalizing g done with
  | nil => exact ⟨g, rfl, by simpa using hi⟩
  | cons c cs ih =>
    obtain ⟨g₁, hr₁, hi₁⟩ := c.run_inv hi
    obtain ⟨g₂, hr₂, hi₂⟩ := ih hi₁
    refine ⟨g₂, (Prog.run_bind_ok hr₁).trans hr₂, ?_⟩
    simpa only [List.flatMap_cons, List.append_assoc] using hi₂

/-- From the empty state: the finished program executes the appended entries,
each once and in order, on its way to the tail label at the end of the list. -/
theorem jump_program_executes (g : Gen) (h : g.toX86PGState = initX86PGState) (sem : Sem)
    (cs : List Cmd) :
    ∃ g' tail, (do runCmds cs; genControlTransferFinish).run g = (.ok (), g') ∧
      g'.instlist.entry? tail = some (.label (g'.labeli - 1)) ∧
      g'.instlist.succ? (some tail) = none ∧
      ∀ ecx, Inevitably (Step sem g'.instlist) (At (some tail))
        (fun c => c.trace = cs.flatMap Cmd.appended) (.run none [] ⟨ecx, []⟩) := by
  have h0 : JumpInv sem g [] := jumpInv_init h
  obtain ⟨g₁, hr, hi⟩ := runCmds_inv h0 cs
  obtain ⟨l₁, l₂, a, b, ha, hb, hfin⟩ := finish_run hi.labelled hi.unlocked
  refine ⟨_, b, (Prog.run_bind_ok hr).trans hfin, hb.entry_new, hb.succ_new, fun ecx => ?_⟩
  refine (hi.reaches.finish hi.labelled ha hb ecx).mono ?_
  rintro c - ⟨out, hout, hdone⟩
  have hnil : out = [] :=
    (Option.some.inj ((Insnlist.output?_label hb.entry_new).symm.trans hout)).symm
  simpa [hnil] using hdone

/-- Nothing but the control entries touches `ecx` and the stack. -/
def Sem.idle : Sem where
  run _ ecx ecx' pops pushes := ecx' = ecx ∧ pops = 0 ∧ pushes = 0
  total _ ecx := ⟨ecx, 0, 0, rfl, rfl, rfl⟩

theorem plain_init (draw : Fin (2 ^ 31)) : (Gen.plain draw).toX86PGState = initX86PGState := rfl

/-- A label, an instruction, two jumps and one more instruction. -/
theorem jump_program_executes_plain :
    let cs := [.label, .insn (.check "x") rfl, .transfer .je rfl, .transfer .jmp rfl,
      .insn (.check "y") rfl]
    ∃ g' tail, (do runCmds cs; genControlTransferFinish).run (Gen.plain 200) = (.ok (), g') ∧
      g'.instlist.entry? tail = some (.label (g'.labeli - 1)) ∧
      g'.instlist.succ? (some tail) = none ∧
      ∀ ecx, Inevitably (Step .idle g'.instlist) (At (some tail))
        (fun c => c.trace = [.check "x", .check "y"]) (.run none [] ⟨ecx, []⟩) :=
  jump_program_executes (Gen.plain 200) (plain_init 200) .idle _

end Btrtg
