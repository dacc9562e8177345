import Btrtg.InsnlistLaws
import Btrtg.Wdtree
import Btrtg.Lib.Prog

/-!
# The generator state

`X86PGState` with the functions that read and write it, and around it what
else a run of the generator reads or changes: the random stream, the tables
that were parsed, the variables of the blocks and the arrays that a traverse
block shares with its elements.
-/

namespace Btrtg

/-- Where the program stops. `fatal` is `nasm_fatal`; the others are what the C
language leaves undefined where signed arithmetic wraps, and `diverges` is a redraw that
never ends. -/
inductive Fault
  | fatal (msg : String)
  | outOfBounds
  | nullDeref
  | dangling
  | uninitialised
  | divByZero
  | intOverflow
  | diverges
  deriving DecidableEq, Repr

/-- A block by its place in the template: the indices from the inside out, so
that the parent of a block is the tail. -/
abbrev BlkId := List Nat

/-- The array `trv_nodes` of a traverse state, and an array `val_nodes`. -/
abbrev TrvRef := Nat
abbrev ValRef := Nat

/-- `struct blk_var`; `var_val` as the operand it is the text of. -/
structure BlkVar where
  name : String
  varType : OpFlags
  valid : Bool := false
  opndflags : OpFlags := 0
  varVal : Option Opnd := none
  isMemOpnd : Bool := false
  hasLabel : Bool := false
  initMemAddr : Option (List Line) := none

structure X86PGState where
  datasizes : List Nat
  instlist : Insnlist
  insertpos : Option Addr
  labeli : Nat
  labelspos : List (Option Addr)
  lockCtrl : Bool
  lockRegCases : LockRegType → LockRegCase
  currBlk : Option BlkId
  opcode : Opcode
  needInit : Bool
  opi : Nat
  hasMemOpnd : Bool
  initMemAddr : List Line
  trvNodes : Option TrvRef

def sectionDataNum : Nat := 5

/-- `init_x86pgstate`, over the zeroed global. -/
def initX86PGState : X86PGState where
  datasizes := List.replicate sectionDataNum 8192
  instlist := Insnlist.create
  insertpos := none
  labeli := 0
  labelspos := []
  lockCtrl := false
  lockRegCases := fun _ => .null
  currBlk := none
  opcode := .none
  needInit := false
  opi := 0
  hasMemOpnd := false
  initMemAddr := []
  trvNodes := none

/-- The operand a constant is requested for. -/
inductive Who
  | explicit (i : Nat)
  | implied (j : Nat)
  deriving DecidableEq, Repr

/-- The two callers of `gen_control_transfer_insn`: `one_insn_gen` and `walkTttBlk`. -/
inductive Caller
  | insn | block
  deriving DecidableEq, Repr

/-- What a run of the generator did, for statements about whole runs; nothing
of it is read back. -/
inductive Event
  /-- An index is passed to one of the four request functions. -/
  | request (who : Who) (trv packed : Bool) (opi : Nat)
  /-- A constant is given to an operand. -/
  | selected (who : Who) (value : ConstNode)
  /-- `one_insn_gen` begins, with this `has_mem_opnd`. -/
  | begin (hasMemOpnd : Bool)
  /-- `create_random_modrm` is called. -/
  | modrm (hasMemOpnd : Bool)
  /-- A valid variable is used again. -/
  | reuse (var : BlkVar) (hasMemOpnd : Bool) (initMemAddr : List Line)
  /-- `one_insn_gen` inserts the instruction, after this set-up entry; `transferred` when
  it has inserted a control transfer too. -/
  | emit (insn : Insn) (setup : Option (List Line)) (transferred : Bool)
  /-- `gen_control_transfer_insn` is called and returns a label. -/
  | transfer (caller : Caller) (opcode : Opcode) (before : X86PGState) (label : Int)
    (after : X86PGState)
  /-- `walkTttBlk` moves the insert position, with `labelspos` of this length. -/
  | leave (label : Int) (len : Nat)
  /-- `end_insn_gen` begins. -/
  | finish (lockCtrl : Bool)
  /-- A traverse has a complete combination; whether the body is walked for it. -/
  | reached (vals : List (Option (List ConstNode))) (walked : Bool)
  /-- `blk_search_var` is called for the element at `place`, a `C` element with `check`. -/
  | resolve (check : Bool) (place : BlkId) (name : String) (currBlk : Option BlkId)
    (found : Option (BlkId × Nat))
  /-- An operand of an instruction of this opcode is generated or initialised, `nested`
  instructions deep, with this state; `own` is what the element brings for `trv_nodes`. -/
  | operand (nested : Nat) (insn : Opcode) (who : Who) (opcode : Opcode) (hasMemOpnd : Bool)
    (trvNodes own : Option TrvRef)
  /-- A tree has selected the instruction that `one_insn_gen` is called for. -/
  | select (insn : Opcode) (before : X86PGState)

/-- What `rand` draws from. -/
instance randRange : NeZero (2 ^ 31) := ⟨by decide⟩

structure Gen extends X86PGState where
  /-- What the calls of `rand` return. -/
  rand : Nat → Fin (2 ^ 31)
  randi : Nat
  /-- How often a draw may be repeated before it counts as never ending. -/
  patience : Nat
  /-- `hash_tks`, as a lookup. -/
  tks : String → Option TkModel
  /-- `nasm_instructions`: the operand flags of each template of an opcode. -/
  instructions : Opcode → List (List OpFlags)
  vars : BlkId → List BlkVar
  trvArrays : TrvRef → List ValRef
  valArrays : ValRef → Option (List ConstNode)
  nextVal : ValRef
  /-- The two static variables of tmplt.c. -/
  trvStep : Int
  trvIndex : Int
  who : Who
  /-- The element that is walked, what it brings for `trv_nodes`, and how deep the
  instruction is nested in the initialisation of another. -/
  place : BlkId
  own : Option TrvRef
  nested : Nat
  log : List Event

def Gen.start (rand : Nat → Fin (2 ^ 31)) (patience : Nat) (tks : String → Option TkModel)
    (instructions : Opcode → List (List OpFlags)) (vars : BlkId → List BlkVar) : Gen where
  toX86PGState := initX86PGState
  rand := rand
  randi := 0
  patience := patience
  tks := tks
  instructions := instructions
  vars := vars
  trvArrays := fun _ => []
  valArrays := fun _ => none
  nextVal := 0
  trvStep := 0
  trvIndex := 0
  who := .explicit 0
  place := []
  own := none
  nested := 0
  log := []

/-- A start with no tables whose draws all return the same. -/
def Gen.plain (draw : Fin (2 ^ 31)) : Gen :=
  Gen.start (fun _ => draw) 1 (fun _ => none) (fun _ => []) (fun _ => [])

abbrev M := Prog Fault Gen

def record (e : Event) : M Unit := modify fun g => { g with log := g.log ++ [e] }

-- ---------------------------------------------------------------------------
-- Random draws
-- ---------------------------------------------------------------------------

def rand : M Nat := do
  let g ← get
  modify fun g => { g with randi := g.randi + 1 }
  pure (g.rand g.randi)

def nasmRandom32 (bound : Nat) : M Nat := do
  if bound = 0 then
    throw .divByZero
  let r ← rand
  pure (r % bound)

def nasmRandom64 (bound : Nat) : M Nat := do
  let rand0 ← rand
  let rand1 ← rand
  let rand2 ← rand
  if bound = 0 then
    throw .divByZero
  pure ((((rand0 % 2) <<< 62) ||| (rand1 <<< 31) ||| rand2) % bound)

/-- `likely_happen_p`, the probability in ten-thousandths. -/
def likelyHappenP (pivot : Nat) : M Bool :=
  if pivot = 0 then pure false
  else if 10000 ≤ pivot then pure true
  else do
    let r ← nasmRandom32 10000
    pure (r < pivot)

-- ---------------------------------------------------------------------------
-- Locks
-- ---------------------------------------------------------------------------

def statLockCtrl : M Unit := modify fun g => { g with lockCtrl := true }

def statUnlockCtrl : M Unit := modify fun g => { g with lockCtrl := false }

def statLockReg (reg : Reg) (lrCase : LockRegCase) : M Unit :=
  modify fun g => { g with
    lockRegCases := fun t => if t = getLockRegType reg then lrCase else g.lockRegCases t }

def statUnlockReg (lrCase : LockRegCase) : M Unit :=
  modify fun g => { g with
    lockRegCases := fun t => if g.lockRegCases t = lrCase then .null else g.lockRegCases t }

def X86PGState.regLocked (g : X86PGState) (reg : Reg) : Bool :=
  g.lockRegCases (getLockRegType reg) != .null

/-- A register of the first `n`, drawn again while it is locked. -/
def drawUnlocked (regs : List Reg) (n : Nat) : Nat → M Reg
  | 0 => throw .diverges
  | patience + 1 => do
    let i ← nasmRandom32 n
    match regs[i]? with
    | none => throw .outOfBounds
    | some reg =>
      let g ← get
      if g.regLocked reg then drawUnlocked regs n patience else pure reg

-- ---------------------------------------------------------------------------
-- Insertion
-- ---------------------------------------------------------------------------

inductive Position
  | after | before | tail
  deriving DecidableEq, Repr

def statInsertInsn (e : Entry) (pos : Position) : M Unit := do
  let g ← get
  let r := match pos with
    | .after => g.instlist.insertAfter g.insertpos e
    | .before => g.instlist.insertBefore g.insertpos e
    | .tail => g.instlist.insertTail e
  match r with
  | .refused => set { g with insertpos := none }
  | .done l a => set { g with instlist := l, insertpos := some a }
  | .dangling => throw .dangling

/-- `one_insn_gen_ctrl`: the text is the entry. -/
def oneInsnGenCtrl (e : Entry) (pos : Position) : M Unit := statInsertInsn e pos

def Gen.put (g : Gen) (l : Insnlist) (a : Addr) : Gen :=
  { g with instlist := l, insertpos := some a }

section
variable {g : Gen}

theorem insertAfter_run (h : g.instlist.Placed g.insertpos) (e : Entry) :
    ∃ l, g.instlist.IsAfter l g.insertpos g.instlist.brk e ∧
      (oneInsnGenCtrl e .after).run g = (.ok (), g.put l g.instlist.brk) := by
  obtain ⟨l, hl, hi⟩ := Insnlist.isAfter_insertAfter h e
  refine ⟨l, hi, ?_⟩
  simp only [oneInsnGenCtrl, statInsertInsn, Prog.run_bind, Prog.run_get, hl]
  rfl

theorem insertBefore_run (hp : g.insertpos = some a) (h : g.instlist.Placed (some a)) (e : Entry) :
    ∃ l, g.instlist.IsBefore l a g.instlist.brk e ∧
      (oneInsnGenCtrl e .before).run g = (.ok (), g.put l g.instlist.brk) := by
  obtain ⟨l, hl, hi⟩ := Insnlist.isBefore_insertBefore h e
  refine ⟨l, hi, ?_⟩
  simp only [oneInsnGenCtrl, statInsertInsn, Prog.run_bind, Prog.run_get, hp, hl]
  rfl

theorem insertTail_run (g : Gen) (e : Entry) :
    ∃ l, g.instlist.IsLast l g.instlist.brk e ∧
      (oneInsnGenCtrl e .tail).run g = (.ok (), g.put l g.instlist.brk) := by
  obtain ⟨l, hl, hi⟩ := Insnlist.isLast_insertTail g.instlist e
  refine ⟨l, hi, ?_⟩
  simp only [oneInsnGenCtrl, statInsertInsn, Prog.run_bind, Prog.run_get, hl]
  rfl

end

end Btrtg
