import Mathlib.Tactic.FinCases
import Btrtg.CheckLib

/-!
# What the check points report

What `outputlib` prints for a check point is read back as the element that
`checklib` compares with. A check point counts a difference exactly when one of
the values its function compares differs; where those are the values of the
registers it is there to check, the count at the end is that of the points at
which these registers differ.
-/

namespace Btrtg

open CInit

-- ---------------------------------------------------------------------------
-- Printed and read back
-- ---------------------------------------------------------------------------

def Output.recorded (a : CheckArgs) : Output where
  X86 := { a.x86regs with
    gsPadding := 0, fsPadding := 0, esPadding := 0, dsPadding := 0, ssPadding := 0,
    csPadding := 0 }
  X87 :=
    { fcw := a.x87fpustate.getFcw, fsw := a.x87fpustate.getFsw, ftw := a.x87fpustate.getFtw,
      ffdp := a.x87fpustate.getFfdp, ffip := a.x87fpustate.getFfip,
      ffop := a.x87fpustate.getFfop, fpregs := .ofFn fun j => a.x87fpustate.getSt j }
  SSE := ⟨a.ssestate.getMxcsr, 0, .ofFn fun j => a.ssestate.getXmm j⟩

def x86Init (r : X86StandardRegisters) : Init :=
  .braces [.const r.gs.toNat, .const 0, .const r.fs.toNat, .const 0, .const r.es.toNat, .const 0,
    .const r.ds.toNat, .const 0, .const r.ss.toNat, .const 0, .const r.cs.toNat, .const 0,
    .const r.eflags.toNat, .const r.pc.toNat, .const r.edi.toNat, .const r.esi.toNat,
    .const r.ebp.toNat, .const r.esp.toNat, .const r.ebx.toNat, .const r.edx.toNat,
    .const r.ecx.toNat, .const r.eax.toNat]

def stInit (x : Floatx80) : Init := .braces [.const x.low.toNat, .const x.high.toNat]

def x87Init (a : X87LegacyFPUSaveArea) : Init :=
  .braces [.const a.getFcw.toNat, .const a.getFsw.toNat, .const a.getFtw.toNat,
    .const a.getFfdp.toNat, .const a.getFfip.toNat, .const a.getFfop.toNat,
    .braces [stInit (a.getSt 0), stInit (a.getSt 1), stInit (a.getSt 2), stInit (a.getSt 3),
      stInit (a.getSt 4), stInit (a.getSt 5), stInit (a.getSt 6), stInit (a.getSt 7)]]

def xmmInit (x : Xmmreg) : Init := .braces [.const x.low.toNat, .const x.high.toNat]

def sseInit (s : SSEStateSaveArea) : Init :=
  .braces [.const s.getMxcsr.toNat, .const 0,
    .braces [xmmInit (s.getXmm 0), xmmInit (s.getXmm 1), xmmInit (s.getXmm 2),
      xmmInit (s.getXmm 3), xmmInit (s.getXmm 4), xmmInit (s.getXmm 5), xmmInit (s.getXmm 6),
      xmmInit (s.getXmm 7)]]

def pointInit (a : CheckArgs) : Init :=
  .braces [x86Init a.x86regs, x87Init a.x87fpustate, sseInit a.ssestate]

section Text

variable (is os : List Init) (outer : List (List Init))

/-- The first constant of a list. -/
theorem read_open (w n : Nat) (ps : List Piece) (ns : List Nat) :
    Reader.read ⟨is, outer, .item⟩ (printf (.lit "\x7b0x" :: .hex w :: ps) (n :: ns)) =
      Reader.read ⟨[.const n], is :: outer, .digits⟩ (printf ps ns) :=
  Reader.read_const rfl ..

theorem read_next (w n : Nat) (ps : List Piece) (ns : List Nat) :
    Reader.read ⟨is, outer, .digits⟩ (printf (.lit ",0x" :: .hex w :: ps) (n :: ns)) =
      Reader.read ⟨.const n :: is, outer, .digits⟩ (printf ps ns) :=
  Reader.read_const rfl ..

/-- A constant after the padding of a segment register. -/
theorem read_padded (w n : Nat) (ps : List Piece) (ns : List Nat) :
    Reader.read ⟨is, outer, .digits⟩ (printf (.lit ",0,0x" :: .hex w :: ps) (n :: ns)) =
      Reader.read ⟨.const n :: .const 0 :: is, outer, .digits⟩ (printf ps ns) :=
  Reader.read_const rfl ..

/-- The first constant of the first element of an array. -/
theorem read_array (w n : Nat) (ps : List Piece) (ns : List Nat) :
    Reader.read ⟨is, outer, .digits⟩ (printf (.lit ",\x7b\x7b0x" :: .hex w :: ps) (n :: ns)) =
      Reader.read ⟨[.const n], [] :: is :: outer, .digits⟩ (printf ps ns) :=
  Reader.read_const rfl ..

/-- The first constant of a further element. -/
theorem read_element (w n : Nat) (ps : List Piece) (ns : List Nat) :
    Reader.read ⟨is, os :: outer, .digits⟩
        (printf (.lit "\x7d,\x7b0x" :: .hex w :: ps) (n :: ns)) =
      Reader.read ⟨[.const n], (.braces is.reverse :: os) :: outer, .digits⟩ (printf ps ns) :=
  Reader.read_const rfl ..

theorem read_x86 (r : X86StandardRegisters) :
    Reader.read ⟨is, outer, .item⟩ (printf x86RegsOutputFormat (x86RegsArgs r)) =
      some ⟨x86Init r :: is, outer, .item⟩ := by
  simp only [x86RegsOutputFormat, x86RegsArgs, read_open, read_padded, read_next,
    Reader.read_last]
  rfl

theorem read_x87 (a : X87LegacyFPUSaveArea) :
    Reader.read ⟨is, outer, .item⟩ (printf x87RegsOutputFormat (x87RegsArgs a)) =
      some ⟨x87Init a :: is, outer, .item⟩ := by
  simp only [x87RegsOutputFormat, x87RegsArgs, read_open, read_next, read_array, read_element,
    Reader.read_last]
  rfl

theorem read_sse (s : SSEStateSaveArea) :
    Reader.read ⟨is, outer, .item⟩ (printf sseRegsOutputFormat (sseRegsArgs s)) =
      some ⟨sseInit s :: is, outer, .done⟩ := by
  simp only [sseRegsOutputFormat, sseRegsArgs, read_open, read_next, read_array, read_element,
    Reader.read_last]
  rfl

/-- Read where an item is expected, the text of a check point is its initialiser,
and the next item is expected. -/
theorem read_recordPoint (a : CheckArgs) :
    Reader.read ⟨is, outer, .item⟩ (recordPoint a) =
      some ⟨pointInit a :: is, outer, .item⟩ := by
  have hopen : Reader.read ⟨is, outer, .item⟩ "\x7b".toList =
      some ⟨[], is :: outer, .item⟩ := rfl
  rw [recordPoint, Reader.read_append, Reader.read_append, Reader.read_append,
    Reader.read_append, hopen, Option.bind_some, read_x86, Option.bind_some, read_x87,
    Option.bind_some, read_sse, Option.bind_some]
  rfl

theorem read_outputlib (points : List (CheckKind × CheckArgs)) :
    Reader.read ⟨is, outer, .item⟩ (outputlib points) =
      some ⟨(points.map fun p => pointInit p.2).reverse ++ is, outer, .item⟩ := by
  induction points generalizing is with
  | nil => rfl
  | cons p points ih =>
    rw [outputlib, List.flatMap_cons, Reader.read_append, read_recordPoint, Option.bind_some]
    exact (ih _).trans (by simp)

end Text

theorem ofInit_x86Init (r : X86StandardRegisters) :
    X86StandardRegisters.ofInit (x86Init r) =
      { r with gsPadding := 0, fsPadding := 0, esPadding := 0, dsPadding := 0, ssPadding := 0,
               csPadding := 0 } := by
  simp [X86StandardRegisters.ofInit, x86Init, member, Init.item]

theorem ofInit_stInit (x : Floatx80) : Floatx80.ofInit (stInit x) = x := by
  simp [Floatx80.ofInit, stInit, member, Init.item]

theorem ofInit_xmmInit (x : Xmmreg) : Xmmreg.ofInit (xmmInit x) = x := by
  simp [Xmmreg.ofInit, xmmInit, member, Init.item]

theorem ofInit_x87Init (a : X87LegacyFPUSaveArea) :
    X87Regs.ofInit (x87Init a) =
      { fcw := a.getFcw, fsw := a.getFsw, ftw := a.getFtw, ffdp := a.getFfdp,
        ffip := a.getFfip, ffop := a.getFfop, fpregs := .ofFn fun j => a.getSt j } := by
  have hst : ∀ j : Fin 8, ((x87Init a).item 6).item j = stInit (a.getSt j) := fun j => by
    fin_cases j <;> rfl
  simp only [X87Regs.ofInit, hst, ofInit_stInit]
  simp [x87Init, member, Init.item]

theorem ofInit_sseInit (s : SSEStateSaveArea) :
    SSERegs.ofInit (sseInit s) = ⟨s.getMxcsr, 0, .ofFn fun j => s.getXmm j⟩ := by
  have hxmm : ∀ j : Fin 8, ((sseInit s).item 2).item j = xmmInit (s.getXmm j) := fun j => by
    fin_cases j <;> rfl
  simp only [SSERegs.ofInit, hxmm, ofInit_xmmInit]
  simp [sseInit, member, Init.item]

theorem ofInit_pointInit (a : CheckArgs) : Output.ofInit (pointInit a) = .recorded a := by
  have h0 : (pointInit a).item 0 = x86Init a.x86regs := rfl
  have h1 : (pointInit a).item 1 = x87Init a.x87fpustate := rfl
  have h2 : (pointInit a).item 2 = sseInit a.ssestate := rfl
  rw [Output.ofInit, h0, h1, h2, ofInit_x86Init, ofInit_x87Init, ofInit_sseInit]
  rfl

/-- Reading the printed initialisers back gives the recorded elements, and a cleared one. -/
theorem readOutput_outputlib (points : List (CheckKind × CheckArgs)) :
    readOutput (outputlib points) =
      some (points.map (fun p => .recorded p.2) ++ [.ofInit (.braces [])]) := by
  have hopen : Reader.read ⟨[], [], .item⟩ "\x7b\n".toList = some ⟨[], [[]], .item⟩ := rfl
  have hclose (is : List Init) :
      Reader.read ⟨is, [[]], .item⟩ "    \x7b\x7d\n\x7d".toList =
        some ⟨[.braces (.braces [] :: is).reverse], [], .done⟩ := rfl
  have hread : readInit ("\x7b\n".toList ++ outputlib points ++ "    \x7b\x7d\n\x7d".toList) =
      some (.braces (points.map (fun p => pointInit p.2) ++ [.braces []])) := by
    rw [readInit, Reader.read_append, Reader.read_append, hopen, Option.bind_some,
      read_outputlib, Option.bind_some, hclose]
    simp
  rw [readOutput, hread]
  simp [Function.comp_def, ofInit_pointInit]

-- ---------------------------------------------------------------------------
-- What a kind is there to check
-- ---------------------------------------------------------------------------

/-- The slot of `st80` that holds the physical register `i`, which `mm i` names; the
slots start at the top of the stack, bits 11 to 13 of the status word. -/
def X87LegacyFPUSaveArea.slot (a : X87LegacyFPUSaveArea) (i : Fin 8) : Nat :=
  (i + 8 - a.fsw.toNat / 2 ^ 11 % 8) % 8

def Floatx80.toNat (x : Floatx80) : Nat := x.low.toNat + 2 ^ 64 * x.high.toNat
def Xmmreg.toNat (x : Xmmreg) : Nat := x.low.toNat + 2 ^ 64 * x.high.toNat

/-- What a register holds in the state a check function is called with. -/
def CheckReg.value (a : CheckArgs) : CheckReg → Nat
  | ah => a.x86regs.ah.toNat | bh => a.x86regs.bh.toNat
  | ch => a.x86regs.ch.toNat | dh => a.x86regs.dh.toNat
  | al => a.x86regs.al.toNat | bl => a.x86regs.bl.toNat
  | cl => a.x86regs.cl.toNat | dl => a.x86regs.dl.toNat
  | ax => a.x86regs.ax.toNat | bx => a.x86regs.bx.toNat
  | cx => a.x86regs.cx.toNat | dx => a.x86regs.dx.toNat
  | si => a.x86regs.si.toNat | di => a.x86regs.di.toNat
  | sp => a.x86regs.sp.toNat | bp => a.x86regs.bp.toNat
  | eax => a.x86regs.eax.toNat | ebx => a.x86regs.ebx.toNat
  | ecx => a.x86regs.ecx.toNat | edx => a.x86regs.edx.toNat
  | esi => a.x86regs.esi.toNat | edi => a.x86regs.edi.toNat
  | esp => a.x86regs.esp.toNat | ebp => a.x86regs.ebp.toNat
  | cs => a.x86regs.cs.toNat | ds => a.x86regs.ds.toNat | ss => a.x86regs.ss.toNat
  | es => a.x86regs.es.toNat | fs => a.x86regs.fs.toNat | gs => a.x86regs.gs.toNat
  | eflags => a.x86regs.eflags.toNat
  | st i => (a.x87fpustate.getSt i).toNat
  | mm i => (a.x87fpustate.getSt (a.x87fpustate.slot i)).low.toNat
  | fcw => a.x87fpustate.getFcw.toNat
  | fsw => a.x87fpustate.getFsw.toNat
  | ftw => a.x87fpustate.getFtw.toNat
  | ffop => a.x87fpustate.getFfop.toNat
  | ffdp => a.x87fpustate.getFfdp.toNat
  | ffip => a.x87fpustate.getFfip.toNat
  | xmm i => (a.ssestate.getXmm i).toNat
  | mxcsr => a.ssestate.getMxcsr.toNat

/-- The registers a kind stands for: `x86_state` for `gpr`, `eflags` and `sreg`. -/
def CheckKind.components : CheckKind → List CheckReg
  | .reg r => [r]
  | .x86State =>
    [.eax, .ebx, .ecx, .edx, .esi, .edi, .esp, .ebp, .eflags, .cs, .ds, .ss, .es, .fs, .gs]
  | .x87Env => [.fcw, .fsw, .ftw, .ffop, .ffdp, .ffip]

def differs (k : CheckKind) (s t : CheckArgs) : Bool :=
  k.components.any fun r => r.value s != r.value t

/-- The check function of the kind is mistaken about two states: `x86_state` when they
differ in `esp`, `ebp` or `gs` only, `mm i` when slot `i` of `st80` is another
register and the two registers do not differ alike. -/
def Mistaken : CheckKind → CheckArgs → CheckArgs → Prop
  | .x86State, s, t =>
    (∀ r ∈ [CheckReg.eax, .ebx, .ecx, .edx, .esi, .edi, .eflags, .cs, .ds, .ss, .es, .fs],
      r.value s = r.value t) ∧
    ∃ r ∈ [CheckReg.esp, .ebp, .gs], r.value s ≠ r.value t
  | .reg (.mm i), s, t =>
    ¬((s.x87fpustate.getSt i).low = (t.x87fpustate.getSt i).low ↔
      (CheckReg.mm i).value s = (CheckReg.mm i).value t)
  | _, _, _ => False

-- ---------------------------------------------------------------------------
-- One check point
-- ---------------------------------------------------------------------------

/-- A check point that counts a difference exactly when `p`. -/
structure Counts (c c' : CheckLib) (p : Prop) : Prop where
  output : c'.output = c.output
  point : c'.point = c.point + 1
  diffs : c'.diffs = c.diffs ∧ ¬p ∨ c'.diffs = c.diffs + 1 ∧ p

theorem counts_close (c : CheckLib) (name : String) (pc : BitVec 32) {lines : List CheckLine}
    {p : Prop} (h : lines = [] ↔ ¬p) : Counts c (c.close name pc lines) p := by
  refine ⟨rfl, rfl, ?_⟩
  cases lines with
  | nil => exact .inl ⟨rfl, h.1 rfl⟩
  | cons l ls => exact .inr ⟨rfl, by simpa using h⟩

@[simp] theorem diffLine_eq_nil {w : Nat} {name : String} {check std : BitVec w} :
    diffLine name check std = [] ↔ std = check := by
  simp [diffLine]

theorem ite_singleton_eq_nil {p : Prop} [Decidable p] {l : CheckLine} :
    (if p then [l] else []) = [] ↔ ¬p := by
  split <;> simp [*]

theorem Floatx80.toNat_inj {x y : Floatx80} :
    x.toNat = y.toNat ↔ x.low = y.low ∧ x.high = y.high := by
  have hx := x.low.isLt
  have hy := y.low.isLt
  rw [← BitVec.toNat_inj, ← BitVec.toNat_inj, Floatx80.toNat, Floatx80.toNat]
  omega

theorem Xmmreg.toNat_inj {x y : Xmmreg} :
    x.toNat = y.toNat ↔ x.low = y.low ∧ x.high = y.high := by
  have hx := x.low.isLt
  have hy := y.low.isLt
  rw [← BitVec.toNat_inj, ← BitVec.toNat_inj, Xmmreg.toNat, Xmmreg.toNat]
  omega

/-- What the check function of a kind finds to differ. -/
def Found : CheckKind → CheckArgs → CheckArgs → Prop
  | .reg (.mm i), s, t => (s.x87fpustate.getSt i).low ≠ (t.x87fpustate.getSt i).low
  | .x86State, s, t =>
    ∃ r ∈ [CheckReg.eax, .ebx, .ecx, .edx, .esi, .edi, .eflags, .cs, .ds, .ss, .es, .fs],
      r.value s ≠ r.value t
  | k, s, t => ∃ r ∈ k.components, r.value s ≠ r.value t

theorem found_reg {r : CheckReg} (hr : ∀ i, r ≠ .mm i) (s t : CheckArgs) :
    Found (.reg r) s t = (r.value s ≠ r.value t) := by
  cases r
  case mm i => exact absurd rfl (hr i)
  all_goals simp [Found, CheckKind.components]

theorem recorded_fpregs (s : CheckArgs) (i : Fin 8) :
    (Output.recorded s).X87.fpregs.get i = s.x87fpustate.getSt i :=
  Vector.getElem_ofFn i.isLt

section Point

variable {c : CheckLib} {s t : CheckArgs} (h : c.expected = .recorded s)

include h

theorem counts_reg {w : Nat} (name : String) (reg : X86StandardRegisters → BitVec w)
    (hreg : reg (Output.recorded s).X86 = reg s.x86regs) :
    Counts c (checkPointReg name reg t c) ((reg s.x86regs).toNat ≠ (reg t.x86regs).toNat) := by
  refine counts_close _ _ _ ?_
  rw [h, diffLine_eq_nil, hreg, not_not, BitVec.toNat_inj]

theorem counts_x87status {w : Nat} (name : String) (get : X87LegacyFPUSaveArea → BitVec w)
    (std : X87Regs → BitVec w) (hstd : std (Output.recorded s).X87 = get s.x87fpustate) :
    Counts c (checkPointX87status name get std t c)
      ((get s.x87fpustate).toNat ≠ (get t.x87fpustate).toNat) := by
  refine counts_close _ _ _ ?_
  rw [h, diffLine_eq_nil, hstd, not_not, BitVec.toNat_inj]

theorem counts_fpureg (name : String) (i : Fin 8) :
    Counts c (checkPointFpureg name i t c)
      ((s.x87fpustate.getSt i).toNat ≠ (t.x87fpustate.getSt i).toNat) := by
  refine counts_close _ _ _ ?_
  rw [h, recorded_fpregs, ite_singleton_eq_nil, not_ne_iff, Floatx80.toNat_inj, not_or,
    not_ne_iff, not_ne_iff]

theorem counts_mmxreg (name : String) (i : Fin 8) :
    Counts c (checkPointMmxreg name i t c)
      ((s.x87fpustate.getSt i).low ≠ (t.x87fpustate.getSt i).low) := by
  refine counts_close _ _ _ ?_
  rw [h, diffLine_eq_nil, recorded_fpregs, not_not]

theorem counts_xmmreg (name : String) (i : Fin 8) :
    Counts c (checkPointXmmreg name i t c)
      ((s.ssestate.getXmm i).toNat ≠ (t.ssestate.getXmm i).toNat) := by
  have hstd : (Output.recorded s).SSE.xmmregs.get i = s.ssestate.getXmm i :=
    Vector.getElem_ofFn i.isLt
  refine counts_close _ _ _ ?_
  rw [h, hstd, ite_singleton_eq_nil, not_ne_iff, Xmmreg.toNat_inj, not_or, not_ne_iff,
    not_ne_iff]

theorem counts_mxcsr :
    Counts c (checkPointMxcsr t c) (s.ssestate.getMxcsr.toNat ≠ t.ssestate.getMxcsr.toNat) := by
  refine counts_close _ _ _ ?_
  rw [h, diffLine_eq_nil, not_not, BitVec.toNat_inj]
  rfl

theorem counts_checkPointOfReg (r : CheckReg) :
    Counts c (checkPointOfReg r t c) (Found (.reg r) s t) := by
  by_cases hr : ∃ i, r = .mm i
  · obtain ⟨i, rfl⟩ := hr
    exact counts_mmxreg h _ i
  · rw [found_reg fun i hi => hr ⟨i, hi⟩]
    cases r
    case mm i => exact absurd ⟨i, rfl⟩ hr
    case st i => exact counts_fpureg h _ i
    case xmm i => exact counts_xmmreg h _ i
    case mxcsr => exact counts_mxcsr h
    case fcw | fsw | ftw | ffop | ffdp | ffip => exact counts_x87status h _ _ _ rfl
    all_goals exact counts_reg h _ _ rfl

theorem counts_checkPoint (k : CheckKind) : Counts c (checkPoint k t c) (Found k s t) := by
  cases k with
  | reg r => exact counts_checkPointOfReg h r
  | x86State =>
    refine counts_close _ _ _ ?_
    rw [h]
    simp only [Found, Output.recorded, List.append_eq_nil_iff, diffLine_eq_nil, List.mem_cons,
      List.not_mem_nil, or_false, exists_eq_or_imp, exists_eq_left, CheckReg.value, ne_eq,
      BitVec.toNat_inj]
    grind
  | x87Env =>
    refine counts_close _ _ _ ?_
    rw [h]
    simp only [Found, CheckKind.components, Output.recorded, List.append_eq_nil_iff,
      diffLine_eq_nil, List.mem_cons, List.not_mem_nil, or_false, exists_eq_or_imp,
      exists_eq_left, CheckReg.value, ne_eq, BitVec.toNat_inj]
    grind

end Point

/-- A check function that is not mistaken finds the states to differ when they do. -/
theorem not_mistaken_iff (k : CheckKind) (s t : CheckArgs) :
    ¬Mistaken k s t ↔ (Found k s t ↔ differs k s t = true) := by
  cases k with
  | reg r =>
    by_cases hr : ∃ i, r = .mm i
    · obtain ⟨i, rfl⟩ := hr
      simp [Mistaken, Found, differs, CheckKind.components, not_iff_not]
    · have hr' : ∀ i, r ≠ .mm i := fun i hi => hr ⟨i, hi⟩
      have hm : ¬Mistaken (.reg r) s t := by
        cases r
        case mm i => exact absurd rfl (hr' i)
        all_goals exact id
      simp [hm, found_reg hr', differs, CheckKind.components]
  | x86State =>
    simp only [Mistaken, Found, differs, CheckKind.components, List.any_cons, List.any_nil,
      List.mem_cons, List.not_mem_nil, or_false, forall_eq_or_imp, forall_eq, exists_eq_or_imp,
      exists_eq_left, Bool.or_eq_true, bne_iff_ne, Bool.or_false]
    grind
  | x87Env => simp [Mistaken, Found, differs]

-- ---------------------------------------------------------------------------
-- A run
-- ---------------------------------------------------------------------------

/-- A check point of a test: its kind, and the states in which it is reached when the
test is linked with `outputlib` and with `checklib`. -/
structure Point where
  kind : CheckKind
  std : CheckArgs
  check : CheckArgs

/-- The count in the last line, which `check_point_end` prints. -/
def CheckLib.reported (c : CheckLib) : Option Nat :=
  match c.lines.getLast? with
  | some (.pointsFail diffs _) => some diffs
  | some (.pointsPass _) => some 0
  | _ => none

/-- The count that the second run reports when `output` is what the first one printed. -/
def reportedDiffs (verbose : Bool) (points : List Point) : Option Nat :=
  (readOutput (outputlib (points.map fun p => (p.kind, p.std)))).bind fun output =>
    (checklib output verbose (points.map fun p => (p.kind, p.check))).checkPointEnd.reported

theorem reported_checkPointEnd (c : CheckLib) : c.checkPointEnd.reported = some c.diffs := by
  by_cases h : c.diffs = 0 <;> simp [CheckLib.checkPointEnd, CheckLib.reported, h]

open Classical in
/-- Each check point compares with the element that its own first run left. -/
theorem diffs_foldl (points : List Point) (c : CheckLib)
    (h : ∀ j (hj : j < points.length),
      c.output.getD (c.point + j) (.ofInit (.braces [])) = .recorded points[j].std) :
    (points.foldl (fun c p => checkPoint p.kind p.check c) c).diffs =
      c.diffs + points.countP fun p => Found p.kind p.std p.check := by
  induction points generalizing c with
  | nil => rfl
  | cons p points ih =>
    have hp : Counts c (checkPoint p.kind p.check c) (Found p.kind p.std p.check) :=
      counts_checkPoint (h 0 (Nat.zero_lt_succ _)) _
    rw [List.foldl_cons, ih, List.countP_cons]
    · rcases hp.diffs with ⟨hd, hn⟩ | ⟨hd, hf⟩
      · simp [hd, hn]
      · simp [hd, hf]
        omega
    · intro j hj
      have hnext := h (j + 1) (Nat.succ_lt_succ hj)
      rwa [hp.output, hp.point, Nat.add_right_comm]

open Classical in
theorem reportedDiffs_eq (verbose : Bool) (points : List Point) :
    reportedDiffs verbose points =
      some (points.countP fun p => Found p.kind p.std p.check) := by
  rw [reportedDiffs, readOutput_outputlib, Option.bind_some, reported_checkPointEnd, checklib,
    List.foldl_map, diffs_foldl]
  · simp
  · intro j hj
    simp [List.getD_eq_getElem?_getD, List.getElem?_append, hj]

/-- Two predicates count the same in every prefix when they agree on every element. -/
theorem countP_take_eq_iff {α : Type} (p q : α → Bool) (l : List α) :
    (∀ m, (l.take m).countP p = (l.take m).countP q) ↔ ∀ a ∈ l, p a = q a := by
  induction l with
  | nil => simp
  | cons a l ih =>
    constructor
    · intro h
      have ha : p a = q a := by
        have h1 := h 1
        cases hp : p a <;> cases hq : q a <;> simp_all
      refine List.forall_mem_cons.2 ⟨ha, ih.1 fun m => ?_⟩
      have hm := h (m + 1)
      rw [List.take_succ_cons, List.countP_cons, List.countP_cons, ha] at hm
      exact Nat.add_right_cancel hm
    · intro h m
      exact List.countP_congr fun b hb => by rw [h b (List.mem_of_mem_take hb)]

/-- The count reported after any number of check points is the number of those at which
the states differ in a component of the kind, exactly when no function was mistaken. -/
theorem diffs_reported_iff (verbose : Bool) (points : List Point) :
    (∀ m, reportedDiffs verbose (points.take m) =
        some ((points.take m).countP fun p => differs p.kind p.std p.check)) ↔
      ∀ p ∈ points, ¬Mistaken p.kind p.std p.check := by
  classical
  simp only [reportedDiffs_eq, Option.some.injEq, countP_take_eq_iff, not_mistaken_iff]
  refine forall₂_congr fun p _ => ?_
  rw [Bool.eq_iff_iff, decide_eq_true_iff]

def clearedArgs : CheckArgs where
  ssestate := ⟨.replicate 8 ⟨0, 0⟩, 0⟩
  x87fpustate := ⟨0, 0, 0, 0, 0, 0, 0, 0, 0, 0, 0, 0, 0, 0, 0, 0, .replicate 80 0⟩
  x86regs := ⟨0, 0, 0, 0, 0, 0, 0, 0, 0, 0, 0, 0, 0, 0, 0, 0, 0, 0, 0, 0, 0, 0⟩

def espPoint : Point where
  kind := .x86State
  std := clearedArgs
  check := { clearedArgs with x86regs := { clearedArgs.x86regs with esp := 4 } }

theorem x86_state_misses_esp :
    reportedDiffs false [espPoint] = some 0 ∧
      [espPoint].countP (fun p => differs p.kind p.std p.check) = 1 := by
  classical
  have hfound : ¬Found espPoint.kind espPoint.std espPoint.check := by
    simp [espPoint, clearedArgs, Found, CheckReg.value]
  refine ⟨?_, by decide⟩
  rw [reportedDiffs_eq]
  simp [hfound]

end Btrtg
