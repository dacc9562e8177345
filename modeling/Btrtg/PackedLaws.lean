import Btrtg.Packed
import Btrtg.ParseTKsLaws

/-!
# What the packed initialisers put in place

The set-up texts run on a machine of bytes, and the lanes of the operand that
they leave. A constant is compared by the member that its element writes; an
initialiser reads the member that the first constant's type names, and when an
element has not written it, it holds what `val_node` was left with.
-/

namespace Btrtg

open Bytes

-- ---------------------------------------------------------------------------
-- Constants
-- ---------------------------------------------------------------------------

/-- The member that an element of `parseCGs` writes. -/
inductive Payload
  | word32 | word64 | word96 | floats | float32 | float64 | x87env
  deriving DecidableEq

def payloadOf : String → Payload
  | "Immf" => .floats
  | "Imm64" | "Mmx" | "Float64i" => .word64
  | "Bcd" => .word96
  | "Float32f" => .float32
  | "Float64f" => .float64
  | "X87env" => .x87env
  | _ => .word32

/-- A constant with the element that it is parsed from and `val_node` before it. -/
structure PackedConst (lib : Strto) where
  before : ConstNode
  name : String
  content : Text
  node : ConstNode
  parsed : parseConst lib before name content = some node

/-- The members that the packed initialisers read. -/
inductive Member
  | union | float32 | float64
  deriving DecidableEq

def Member.read (c : ConstNode) (w : Nat) : Member → BitVec w
  | union => c.imm64.setWidth w
  | float32 => c.float32.setWidth w
  | float64 => c.float64.setWidth w

namespace PackedConst

variable {lib : Strto}

def payload (c : PackedConst lib) : Payload := payloadOf c.name

/-- The constant at the width of a lane. -/
def atWidth (c : PackedConst lib) (w : Nat) : BitVec w :=
  match c.payload with
  | .word32 => c.node.imm32.setWidth w
  | .word64 => c.node.imm64.setWidth w
  | .word96 => c.node.union.setWidth w
  | .floats => if w = 64 then c.node.float64.setWidth w else c.node.float32.setWidth w
  | .float32 => c.node.float32.setWidth w
  | .float64 => c.node.float64.setWidth w
  | .x87env => c.node.x87env.setWidth w

/-- The width of the constant as a lane of its own. -/
def width (c : PackedConst lib) : Nat :=
  match c.payload with
  | .word64 | .float64 => 64
  | _ => 32

/-- A member holds the constant: its element has written it in full, or what was
there before agrees. -/
def Carries (c : PackedConst lib) (w : Nat) : Member → Prop
  | .union =>
    match c.payload with
    | .word32 => w ≤ 32 ∨ c.before.imm64 >>> 32 = 0
    | .word64 | .word96 => True
    | .floats | .float32 | .float64 | .x87env => Member.union.read c.before w = c.atWidth w
  | .float32 =>
    match c.payload with
    | .floats => w ≠ 64 ∨ c.node.float32.setWidth w = c.node.float64.setWidth w
    | .float32 => True
    | _ => Member.float32.read c.before w = c.atWidth w
  | .float64 =>
    match c.payload with
    | .floats => w = 64 ∨ c.node.float64.setWidth w = c.node.float32.setWidth w
    | .float64 => True
    | _ => Member.float64.read c.before w = c.atWidth w

end PackedConst

/-- The members that an element leaves as they were. -/
def LeftBy (v c : ConstNode) : Payload → Prop
  | .word32 => c.imm64 >>> 32 = v.imm64 >>> 32 ∧ c.float32 = v.float32 ∧ c.float64 = v.float64
  | .word64 | .word96 => c.float32 = v.float32 ∧ c.float64 = v.float64
  | .floats => c.union = v.union
  | .float32 => c.union = v.union ∧ c.float64 = v.float64
  | .float64 => c.union = v.union ∧ c.float32 = v.float32
  | .x87env => c.union = v.union ∧ c.float32 = v.float32 ∧ c.float64 = v.float64

theorem imm64_write_low (v : ConstNode) (x : BitVec 32) :
    (v.write x).imm64 >>> 32 = v.imm64 >>> 32 := by
  refine BitVec.eq_of_getLsbD_eq fun i hi => ?_
  simp only [ConstNode.imm64, ConstNode.write, BitVec.getLsbD_ushiftRight, BitVec.getLsbD_setWidth,
    BitVec.getLsbD_or, BitVec.getLsbD_shiftLeft]
  by_cases hlow : 32 + i < 64
  · simp [hlow, show 32 + i < 96 by omega]
  · simp [hlow]

theorem parseConst_leftBy {lib : Strto} {v c : ConstNode} {name : String} {content : Text}
    (h : parseConst lib v name content = some c) : LeftBy v c (payloadOf name) := by
  unfold parseConst at h
  split at h
  case h_4 | h_9 =>
    obtain ⟨_, _, rfl⟩ := Option.map_eq_some_iff.1 h
    simp [payloadOf, LeftBy, ConstNode.write]
  case h_10 =>
    have hpayload : payloadOf name = .word32 := by
      unfold payloadOf
      split <;> simp_all
    cases h
    rw [hpayload]
    exact ⟨imm64_write_low _ _, rfl, rfl⟩
  case h_5 =>
    cases h
    exact ⟨imm64_write_low _ _, rfl, rfl⟩
  all_goals
    cases h
    simp [payloadOf, LeftBy, ConstNode.write]

/-- An element whose constant has the type of a case of the cascades. -/
theorem payloadOf_of_tagType {name : String} {t : ConstType} (h : tagType name = some t) :
    (t = .float32f → payloadOf name = .float32) ∧ (t = .float64f → payloadOf name = .float64) ∧
      (t = .imm64 → payloadOf name = .word64) ∧ (t = .imm32 → payloadOf name = .word32) := by
  unfold tagType at h
  split at h
  case h_10 =>
    have hpayload : payloadOf name = .word32 := by
      unfold payloadOf
      split <;> simp_all
    cases h
    simp [hpayload]
  all_goals
    cases h
    try simp [payloadOf]

/-- An element that writes no type is an `Mmx`. -/
theorem payloadOf_of_tagType_none {name : String} (h : tagType name = none) :
    payloadOf name = .word64 := by
  unfold tagType at h
  split at h
  case h_3 => rfl
  all_goals cases h

namespace PackedConst

variable {lib : Strto} {w : Nat}

theorem setWidth_imm64_eq_iff (c : PackedConst lib) (hw : w ≤ 32 ∨ w = 64) :
    c.node.imm64.setWidth w = c.node.imm32.setWidth w ↔ w ≤ 32 ∨ c.node.imm64 >>> 32 = 0 := by
  have hlow : c.node.imm32 = c.node.imm64.setWidth 32 := by
    refine BitVec.eq_of_getLsbD_eq fun i hi => ?_
    simp [ConstNode.imm32, ConstNode.imm64, hi]
  rw [hlow]
  rcases hw with hw | rfl
  · simp only [hw, true_or, iff_true]
    refine BitVec.eq_of_getLsbD_eq fun i hi => ?_
    simp [hi, show i < 32 by omega]
  · simp only [show ¬ 64 ≤ 32 by decide, false_or]
    constructor
    · intro h
      refine BitVec.eq_of_getLsbD_eq fun i hi => ?_
      have hbit := congrArg (fun x => x.getLsbD (32 + i)) h
      simp at hbit
      simpa using hbit
    · intro h
      refine BitVec.eq_of_getLsbD_eq fun i hi => ?_
      by_cases hi' : i < 32
      · simp [hi', hi]
      · have hbit := congrArg (fun x => x.getLsbD (i - 32)) h
        simp [show 32 + (i - 32) = i by omega] at hbit
        simp [hi', hbit]

/-- What a member holds is the constant exactly when it carries it. -/
theorem read_eq_iff (c : PackedConst lib) (hw : w ≤ 32 ∨ w = 64) (m : Member) :
    m.read c.node w = c.atWidth w ↔ c.Carries w m := by
  have hleft : LeftBy c.before c.node c.payload := parseConst_leftBy c.parsed
  have hunion : c.node.union = c.before.union → c.node.imm64 = c.before.imm64 := fun h => by
    rw [ConstNode.imm64, h, ConstNode.imm64]
  cases hp : c.payload <;> rw [hp] at hleft <;> simp only [Carries, atWidth, hp]
  case word32 =>
    obtain ⟨hhigh, hf32, hf64⟩ := hleft
    cases m
    case union => simp only [Member.read, setWidth_imm64_eq_iff c hw, hhigh]
    case float32 => simp only [Member.read, hf32]
    case float64 => simp only [Member.read, hf64]
  case word64 =>
    obtain ⟨hf32, hf64⟩ := hleft
    cases m
    case union => simp only [Member.read]
    case float32 => simp only [Member.read, hf32]
    case float64 => simp only [Member.read, hf64]
  case word96 =>
    obtain ⟨hf32, hf64⟩ := hleft
    cases m
    case union =>
      have hwide : w ≤ 64 := by omega
      simp only [Member.read, ConstNode.imm64, BitVec.setWidth_setWidth_of_le _ hwide]
    case float32 => simp only [Member.read, hf32]
    case float64 => simp only [Member.read, hf64]
  case floats =>
    cases m
    case union => simp only [Member.read, hunion hleft]
    case float32 =>
      by_cases h : w = 64 <;> simp [Member.read, h]
    case float64 =>
      by_cases h : w = 64 <;> simp [Member.read, h]
  case float32 =>
    obtain ⟨hu, hf64⟩ := hleft
    cases m
    case union => simp only [Member.read, hunion hu]
    case float32 => simp only [Member.read]
    case float64 => simp only [Member.read, hf64]
  case float64 =>
    obtain ⟨hu, hf32⟩ := hleft
    cases m
    case union => simp only [Member.read, hunion hu]
    case float32 => simp only [Member.read, hf32]
    case float64 => simp only [Member.read]
  case x87env =>
    obtain ⟨hu, hf32, hf64⟩ := hleft
    cases m
    case union => simp only [Member.read, hunion hu]
    case float32 => simp only [Member.read, hf32]
    case float64 => simp only [Member.read, hf64]

/-- The element of a constant whose type a case of the cascades is for. -/
theorem payload_of_type (c : PackedConst lib) :
    (c.node.type = .float32f → c.payload = .float32 ∨ c.payload = .word64) ∧
      (c.node.type = .float64f → c.payload = .float64 ∨ c.payload = .word64) ∧
      (c.node.type = .imm64 → c.payload = .word64) ∧
      (c.node.type = .imm32 → c.payload = .word32 ∨ c.payload = .word64) := by
  have htype := parseConst_type c.parsed
  cases htag : tagType c.name with
  | none =>
    have hpayload : c.payload = .word64 := payloadOf_of_tagType_none htag
    simp [hpayload]
  | some t =>
    rw [htag, Option.getD_some] at htype
    obtain ⟨hf32, hf64, h64, h32⟩ := payloadOf_of_tagType htag
    rw [htype]
    exact ⟨fun h => .inl (hf32 h), fun h => .inl (hf64 h), h64, fun h => .inl (h32 h)⟩

end PackedConst

-- ---------------------------------------------------------------------------
-- Texts on a machine
-- ---------------------------------------------------------------------------

structure PackedMachine where
  mem : Memory 32
  regs : Reg → List Byte

def SizeWord.bytes : SizeWord → Nat
  | .byte => 1 | .word => 2 | .dword => 4 | .qword => 8 | .tword => 10 | .blank => 0

namespace PackedMachine

def loadReg (s : PackedMachine) (r : Reg) (a : BitVec 32) (n : Nat) : PackedMachine :=
  { s with regs := fun r' => if r' = r then load s.mem a n else s.regs r' }

/-- One line of a packed initialiser; the others are in none of them. -/
def step (addr : Place → BitVec 32) (s : PackedMachine) : Line → Option PackedMachine
  | .store size p off value =>
    some { s with mem := store s.mem (addr p + .ofNat 32 off) (leBytes size.bytes value.toNat) }
  | .movq r p => some (s.loadReg r (addr p) 8)
  | .movups r p | .movupd r p => some (s.loadReg r (addr p) 16)
  | _ => none

def run (addr : Place → BitVec 32) (s : PackedMachine) (ls : List Line) : Option PackedMachine :=
  ls.foldlM (step addr) s

end PackedMachine

/-- Stores of equal size, each behind the one before. -/
def rowStores (size : SizeWord) (p : Place) : Nat → List (BitVec 32) → List Line
  | _, [] => []
  | off, x :: xs => .store size p off x :: rowStores size p (off + size.bytes) xs

namespace PackedMachine

variable {addr : Place → BitVec 32} {s s' : PackedMachine} {size : SizeWord} {p : Place}

theorem run_append (ls ls' : List Line) :
    s.run addr (ls ++ ls') = (s.run addr ls).bind fun s' => s'.run addr ls' :=
  List.foldlM_append

/-- They leave the bytes of the values, one after the other. -/
theorem run_rowStores {off : Nat} {xs : List (BitVec 32)}
    (h : size.bytes * xs.length < 2 ^ 32) :
    s.run addr (rowStores size p off xs) =
      some { s with mem := store s.mem (addr p + .ofNat 32 off) (rowBytes size.bytes xs) } := by
  induction xs generalizing s off with
  | nil => rfl
  | cons x xs ih =>
    rw [List.length_cons, Nat.mul_succ] at h
    have hlen : (leBytes size.bytes x.toNat).length = size.bytes := leBytes_length ..
    have hnext : addr p + BitVec.ofNat 32 (off + size.bytes) =
        addr p + .ofNat 32 off + .ofNat 32 (leBytes size.bytes x.toNat).length := by
      rw [hlen, BitVec.ofNat_add, BitVec.add_assoc]
    have hstore : store (store s.mem (addr p + .ofNat 32 off) (leBytes size.bytes x.toNat))
          (addr p + .ofNat 32 (off + size.bytes)) (rowBytes size.bytes xs) =
        store s.mem (addr p + .ofNat 32 off) (rowBytes size.bytes (x :: xs)) := by
      rw [hnext, rowBytes_cons]
      refine store_append ?_ ?_
      · rw [hlen]
        omega
      · rw [hlen, rowBytes_length]
        omega
    rw [← hstore]
    exact ih (by omega)

end PackedMachine

-- ---------------------------------------------------------------------------
-- The initialisers
-- ---------------------------------------------------------------------------

inductive PackedClass
  | mmx | xmm
  deriving DecidableEq

namespace PackedClass

def lengths : PackedClass → List Nat
  | mmx => [1, 2, 4, 8]
  | xmm => [1, 2, 4]

def bytes : PackedClass → Nat
  | mmx => 8
  | xmm => 16

def registerText (r : Reg) (vals : List ConstNode) : PackedClass → Option (List Line)
  | mmx => initMmxRegisterOpnd r vals
  | xmm => initXmmRegisterOpnd r vals

def memoryText (m : ModRM) (vals : List ConstNode) : PackedClass → Option (List Line)
  | mmx => initMemoryOpndMmx m vals
  | xmm => initMemoryOpndXmm m vals

variable {lib : Strto}

/-- The width of the lanes: an equal share of the operand, and where an XMM
operand is not filled the width of the first constant. -/
def laneWidth (cs : List (PackedConst lib)) : PackedClass → Nat
  | mmx => 64 / cs.length
  | xmm => if cs.length = 4 then 32 else (cs.head?.map PackedConst.width).getD 32

/-- Every lane of the operand is its constant. -/
def Lanes (cls : PackedClass) (cs : List (PackedConst lib)) (bs : List Byte) : Prop :=
  ∀ (j : Nat) (h : j < cs.length),
    lane (cls.laneWidth cs) (cls.laneWidth cs / 8) bs j = cs[j].atWidth (cls.laneWidth cs)

/-- There are a text for the register and one for the memory operand, and they
put the same lanes in place, which are the constants. -/
def SetUp (cls : PackedClass) (r : Reg) (m : ModRM) (cs : List (PackedConst lib)) : Prop :=
  ∃ regLines memLines,
    cls.registerText r (cs.map PackedConst.node) = some regLines ∧
    cls.memoryText m (cs.map PackedConst.node) = some memLines ∧
    ∀ (addr : Place → BitVec 32) (s : PackedMachine), ∃ s₁ s₂,
      s.run addr regLines = some s₁ ∧ s.run addr memLines = some s₂ ∧
      cls.Lanes cs (s₁.regs r) ∧ cls.Lanes cs (load s₂.mem (addr (.opnd m)) cls.bytes) ∧
      ∀ j < cs.length,
        lane (cls.laneWidth cs) (cls.laneWidth cs / 8) (s₁.regs r) j =
          lane (cls.laneWidth cs) (cls.laneWidth cs / 8)
            (load s₂.mem (addr (.opnd m)) cls.bytes) j

/-- The lists that the cascades are right for, by their length and the type of
the first constant. -/
def Suits (cs : List (PackedConst lib)) : PackedClass → Prop
  | mmx => ∀ c ∈ cs, c.Carries (64 / cs.length) .union
  | xmm =>
    match cs with
    | [c₀, _, _, _] =>
      match c₀.node.type with
      | .float32f => ∀ c ∈ cs, c.Carries 32 .float32
      | .imm32 => ∀ c ∈ cs, c.Carries 32 .union
      | _ => False
    | [c₀, c₁] =>
      match c₀.node.type with
      | .float64f => ∀ c ∈ cs, c.Carries 64 .float64
      | .imm64 => ∀ c ∈ cs, c.Carries 64 .union
      | .float32f | .imm32 => c₀.width = 32 ∧ c₁.atWidth 32 = c₀.atWidth 32
      | _ => False
    | [c] =>
      match c.node.type with
      | .float32f => c.Carries c.width .float32
      | .float64f => c.Carries 64 .float64
      | .imm64 => c.Carries 64 .union
      | _ => False
    | _ => False

-- ---------------------------------------------------------------------------
-- Rows
-- ---------------------------------------------------------------------------

variable {cls : PackedClass} {r : Reg} {m : ModRM} {cs : List (PackedConst lib)}

/-- A text whose stores are a row sets the operand up when the row is right,
whatever stands behind it. -/
theorem setUp_row {xs : List (BitVec 32)} {k : Nat} (size : SizeWord) (final : Line)
    (hreg : cls.registerText r (cs.map PackedConst.node) =
      some (rowStores size .floatData 0 xs ++ [final]))
    (hfinal : ∀ addr s, PackedMachine.step addr s final =
      some (s.loadReg r (addr .floatData) cls.bytes))
    (hmem : cls.memoryText m (cs.map PackedConst.node) = some (rowStores size (.opnd m) 0 xs))
    (hlen : size.bytes * xs.length + k = cls.bytes) :
    cls.SetUp r m cs ↔
      ∀ rest : List Byte, rest.length = k → cls.Lanes cs (rowBytes size.bytes xs ++ rest) := by
  have hbytes : cls.bytes ≤ 16 := by cases cls <;> decide
  have hrow : (rowBytes size.bytes xs).length + k = cls.bytes := by rw [rowBytes_length, hlen]
  have hload (mem : Memory 32) (a : BitVec 32) :
      load (store mem (a + 0#32) (rowBytes size.bytes xs)) a cls.bytes =
        rowBytes size.bytes xs ++ load mem (a + .ofNat 32 (rowBytes size.bytes xs).length) k := by
    rw [BitVec.add_zero, ← hrow]
    exact load_store_below (by omega)
  have hstores (addr s p) : PackedMachine.run addr s (rowStores size p 0 xs) =
      some { s with mem := store s.mem (addr p + 0#32) (rowBytes size.bytes xs) } :=
    PackedMachine.run_rowStores (by omega)
  have hregRun (addr s) :
      PackedMachine.run addr s (rowStores size .floatData 0 xs ++ [final]) =
        some (PackedMachine.loadReg
          { s with mem := store s.mem (addr .floatData + 0#32) (rowBytes size.bytes xs) } r
          (addr .floatData) cls.bytes) := by
    rw [PackedMachine.run_append, hstores, Option.bind_some]
    simp only [PackedMachine.run, List.foldlM_cons, List.foldlM_nil, hfinal]
    rfl
  constructor
  · rintro ⟨regLines, memLines, hreg', hmem', hrun⟩ rest hrest
    cases hreg.symm.trans hreg'
    cases hmem.symm.trans hmem'
    let mem : Memory 32 :=
      store (fun _ => 0) (0 + .ofNat 32 (rowBytes size.bytes xs).length) rest
    obtain ⟨s₁, s₂, hs₁, -, hlanes, -⟩ := hrun (fun _ => 0) ⟨mem, fun _ => []⟩
    cases (hregRun _ _).symm.trans hs₁
    have hrest' : load mem (0 + .ofNat 32 (rowBytes size.bytes xs).length) k = rest := by
      rw [← hrest]
      exact load_store (by omega)
    simp only [PackedMachine.loadReg, if_true] at hlanes
    rwa [hload, hrest'] at hlanes
  · intro h
    refine ⟨_, _, hreg, hmem, fun addr s => ⟨_, _, hregRun addr s, hstores addr s _, ?_⟩⟩
    have hregLanes : cls.Lanes cs (PackedMachine.regs (PackedMachine.loadReg
        { s with mem := store s.mem (addr .floatData + 0#32) (rowBytes size.bytes xs) } r
          (addr .floatData) cls.bytes) r) := by
      simp only [PackedMachine.loadReg, if_true, hload]
      exact h _ (load_length ..)
    have hmemLanes : cls.Lanes cs (load (store s.mem (addr (.opnd m) + 0#32)
        (rowBytes size.bytes xs)) (addr (.opnd m)) cls.bytes) := by
      rw [hload]
      exact h _ (load_length ..)
    exact ⟨hregLanes, hmemLanes, fun j hj => (hregLanes j hj).trans (hmemLanes j hj).symm⟩

theorem lanes_row {u n : Nat} {xs : List (BitVec u)} {rest : List Byte}
    (hlen : xs.length = cs.length) (hw : cls.laneWidth cs = 8 * n) :
    cls.Lanes cs (rowBytes n xs ++ rest) ↔ ∀ (j : Nat) (h : j < cs.length) (h' : j < xs.length),
      xs[j].setWidth (cls.laneWidth cs) = cs[j].atWidth (cls.laneWidth cs) := by
  refine forall₂_congr fun j hj => ?_
  have hj' : j < xs.length := hlen ▸ hj
  rw [hw, Nat.mul_div_cancel_left n (by decide), lane_rowBytes (Nat.le_refl _) xs rest hj']
  exact ⟨fun h _ => h, fun h => h hj'⟩

theorem lanes_map {u n : Nat} {f : PackedConst lib → BitVec u} {rest : List Byte}
    (hw : cls.laneWidth cs = 8 * n) :
    cls.Lanes cs (rowBytes n (cs.map f) ++ rest) ↔
      ∀ c ∈ cs, (f c).setWidth (cls.laneWidth cs) = c.atWidth (cls.laneWidth cs) := by
  rw [lanes_row (List.length_map ..) hw, List.forall_mem_iff_forall_getElem]
  refine forall₂_congr fun j hj => ?_
  simp [hj]

/-- A row of one member of the constants is right when they carry it. -/
theorem lanes_member {bs : List Byte} {k n u w : Nat} (mb : Member)
    (f : PackedConst lib → BitVec u) (tail : List Byte)
    (hbytes : bs = rowBytes n (cs.map f) ++ tail) (hlane : cls.laneWidth cs = w) (hw : w = 8 * n)
    (hwidth : w ≤ 32 ∨ w = 64) (hread : ∀ c, (f c).setWidth w = mb.read c.node w) :
    (∀ rest : List Byte, rest.length = k → cls.Lanes cs (bs ++ rest)) ↔
      ∀ c ∈ cs, c.Carries w mb := by
  have hlanes (rest : List Byte) : cls.Lanes cs (bs ++ rest) ↔ ∀ c ∈ cs, c.Carries w mb := by
    rw [hbytes, List.append_assoc, lanes_map (hlane.trans hw), hlane]
    refine forall₂_congr fun c _ => ?_
    rw [hread, c.read_eq_iff hwidth]
  simp only [hlanes]
  exact ⟨fun h => h (List.replicate k 0) List.length_replicate, fun h _ _ => h⟩

-- ---------------------------------------------------------------------------
-- The cascades
-- ---------------------------------------------------------------------------

/-- A double word behind another is a quad word. -/
theorem leBytes_dwords (lo hi : BitVec 32) :
    leBytes 8 (hi ++ lo).toNat = leBytes 4 lo.toNat ++ leBytes 4 hi.toNat := by
  have hlo := lo.isLt
  have hsum : (hi ++ lo).toNat = hi.toNat * 256 ^ 4 + lo.toNat := by
    rw [BitVec.toNat_append, ← Nat.shiftLeft_add_eq_or_of_lt hlo, Nat.shiftLeft_eq]
    rfl
  have hmod : (hi ++ lo).toNat % 256 ^ 4 = lo.toNat := by omega
  have hdiv : (hi ++ lo).toNat / 256 ^ 4 = hi.toNat := by omega
  rw [leBytes_add 4 4, hdiv, ← leBytes_mod 4 (hi ++ lo).toNat, hmod]

theorem dword_append (x : BitVec 64) : dword x 1 ++ dword x 0 = x := by
  refine BitVec.eq_of_getLsbD_eq fun i hi => ?_
  rw [BitVec.getLsbD_append]
  split
  · case isTrue h => simp [dword, h]
  · case isFalse h => simp [dword, show i - 32 < 32 by omega, show 32 + (i - 32) = i by omega]

theorem leBytes_qword (x : BitVec 64) :
    leBytes 8 x.toNat = leBytes 4 (dword x 0).toNat ++ leBytes 4 (dword x 1).toNat := by
  rw [← leBytes_dwords, dword_append]

theorem rowBytes_qwords (xs : List (BitVec 64)) :
    rowBytes 4 (xs.flatMap fun x => [dword x 0, dword x 1]) = rowBytes 8 xs := by
  induction xs with
  | nil => rfl
  | cons x xs ih =>
    rw [List.flatMap_cons, List.cons_append, List.cons_append, List.nil_append, rowBytes_cons,
      rowBytes_cons, rowBytes_cons, ih, leBytes_qword, List.append_assoc]

theorem dword_setWidth (x : BitVec 64) {w : Nat} (hw : w ≤ 32) :
    (dword x 0).setWidth w = x.setWidth w := by
  refine BitVec.eq_of_getLsbD_eq fun i hi => ?_
  simp [dword, hi, show i < 32 by omega]

theorem setUp_mmx_stores (size : SizeWord) (xs : List (BitVec 32))
    (hstores : ∀ p, mmxStores p (cs.map PackedConst.node) = some (rowStores size p 0 xs))
    (hlen : size.bytes * xs.length = 8) :
    mmx.SetUp r m cs ↔
      ∀ rest : List Byte, rest.length = 0 → mmx.Lanes cs (rowBytes size.bytes xs ++ rest) := by
  refine setUp_row size (.movq r .floatData) ?_ (fun _ _ => rfl) (hstores (.opnd m)) hlen
  simp only [registerText, initMmxRegisterOpnd, hstores, Option.map_some]

/-- The cases of an MMX operand with a store for each constant. -/
theorem setUp_mmx_row (size : SizeWord) (hlen : size.bytes * cs.length = 8)
    (hsize : size.bytes ≤ 4)
    (hstores : ∀ p, mmxStores p (cs.map PackedConst.node) =
      some (rowStores size p 0 (cs.map fun c => c.node.int 0))) :
    mmx.SetUp r m cs ↔ mmx.Suits cs := by
  have hpos : 0 < cs.length := by
    refine Nat.pos_of_ne_zero fun h => ?_
    rw [h, Nat.mul_zero] at hlen
    exact absurd hlen (by decide)
  have hwidth : 64 / cs.length = 8 * size.bytes := by
    refine Nat.div_eq_of_eq_mul_left hpos ?_
    rw [Nat.mul_assoc, hlen]
  refine (setUp_mmx_stores size _ hstores ?_).trans ?_
  · rw [List.length_map, hlen]
  · exact lanes_member .union (fun c => c.node.int 0) [] (List.append_nil _).symm rfl hwidth
      (.inl (by omega)) fun c => dword_setWidth _ (by omega)

theorem setUp_mmx_iff (h : cs.length ∈ mmx.lengths) : mmx.SetUp r m cs ↔ mmx.Suits cs := by
  have hlength : cs.length = 1 ∨ cs.length = 2 ∨ cs.length = 4 ∨ cs.length = 8 := by
    simpa [lengths] using h
  rcases cs with _ | ⟨c₀, _ | ⟨c₁, _ | ⟨c₂, _ | ⟨c₃, _ | ⟨c₄, _ | ⟨c₅, _ | ⟨c₆, _ | ⟨c₇, cs⟩⟩⟩⟩⟩⟩⟩⟩
  case cons.nil =>
    have hone : 64 / [c₀].length = 64 := Nat.div_one 64
    show mmx.SetUp r m [c₀] ↔ ∀ c ∈ [c₀], c.Carries (64 / [c₀].length) .union
    rw [hone]
    refine (setUp_mmx_stores .dword [c₀.node.int 0, c₀.node.int 1] (fun _ => rfl) rfl).trans
      (lanes_member .union (fun c => c.node.imm64) [] (n := 8) ?_ hone rfl (.inr rfl)
        fun _ => rfl)
    exact (rowBytes_qwords [c₀.node.imm64]).trans (List.append_nil _).symm
  case cons.cons.nil => exact setUp_mmx_row .dword rfl (by decide) fun _ => rfl
  case cons.cons.cons.cons.nil => exact setUp_mmx_row .word rfl (by decide) fun _ => rfl
  case cons.cons.cons.cons.cons.cons.cons.cons =>
    cases cs with
    | nil => exact setUp_mmx_row .byte rfl (by decide) fun _ => rfl
    | cons => simp at hlength
  all_goals simp at hlength

theorem not_setUp_xmm (h : ∀ p, xmmStores p (cs.map PackedConst.node) = none) :
    ¬ xmm.SetUp r m cs := by
  rintro ⟨regLines, -, hreg, -⟩
  simp [registerText, initXmmRegisterOpnd, h] at hreg

theorem setUp_xmm_stores {k : Nat} (xs : List (BitVec 32)) (final : XmmLoad)
    (hstores : ∀ p, xmmStores p (cs.map PackedConst.node) = some (rowStores .dword p 0 xs, final))
    (hlen : 4 * xs.length + k = 16) :
    xmm.SetUp r m cs ↔
      ∀ rest : List Byte, rest.length = k → xmm.Lanes cs (rowBytes 4 xs ++ rest) := by
  refine setUp_row .dword (final.line r) ?_ (fun _ _ => ?_) ?_ hlen
  · simp only [registerText, initXmmRegisterOpnd, hstores, Option.map_some]
  · cases final <;> rfl
  · simp only [memoryText, initMemoryOpndXmm, hstores, Option.map_some]

/-- The cases of an XMM operand that store a member of each constant. -/
theorem setUp_xmm_member {k n u w : Nat} {xs : List (BitVec 32)} {final : XmmLoad} (mb : Member)
    (f : PackedConst lib → BitVec u) (tail : List Byte)
    (hstores : ∀ p, xmmStores p (cs.map PackedConst.node) = some (rowStores .dword p 0 xs, final))
    (hlen : 4 * xs.length + k = 16) (hbytes : rowBytes 4 xs = rowBytes n (cs.map f) ++ tail)
    (hlane : xmm.laneWidth cs = w) (hw : w = 8 * n) (hwidth : w ≤ 32 ∨ w = 64)
    (hread : ∀ c, (f c).setWidth w = mb.read c.node w)
    (hsuits : xmm.Suits cs ↔ ∀ c ∈ cs, c.Carries w mb) : xmm.SetUp r m cs ↔ xmm.Suits cs := by
  rw [setUp_xmm_stores xs final hstores hlen, hsuits]
  exact lanes_member mb f tail hbytes hlane hw hwidth hread

theorem setUp_xmm_one (c : PackedConst lib) : xmm.SetUp r m [c] ↔ xmm.Suits [c] := by
  have hlane : xmm.laneWidth [c] = c.width := rfl
  obtain ⟨hf32, hf64, h64, -⟩ := c.payload_of_type
  cases htype : c.node.type
  case float32f =>
    have hstores (p) : xmmStores p ([c].map PackedConst.node) =
        some (rowStores .dword p 0 [c.node.float32, 0, 0, 0], .ups) := by
      simp only [List.map_cons, List.map_nil, xmmStores, htype]
      rfl
    have hsuits : xmm.Suits [c] ↔ ∀ c' ∈ [c], c'.Carries c.width .float32 := by
      simp only [Suits, htype, List.forall_mem_singleton]
    rcases hf32 htype with hp | hp
    · have hwidth : c.width = 32 := by simp only [PackedConst.width, hp]
      rw [hwidth] at hlane hsuits
      exact setUp_xmm_member .float32 (fun c => c.node.float32) (rowBytes 4 [0#32, 0#32, 0#32])
        (k := 0) (n := 4) hstores rfl rfl hlane rfl (.inl (by decide)) (fun _ => rfl) hsuits
    · -- an `Mmx` after a `Float32f`
      have hwidth : c.width = 64 := by simp only [PackedConst.width, hp]
      have hbytes : rowBytes 4 [c.node.float32, 0, 0, 0] =
          rowBytes 8 [0#32 ++ c.node.float32] ++ leBytes 8 (0#64).toNat := by
        simp only [rowBytes_cons, rowBytes_nil, leBytes_dwords]
        rfl
      rw [hwidth] at hlane hsuits
      refine setUp_xmm_member .float32 (fun c => 0#32 ++ c.node.float32) _ (k := 0) hstores rfl
        hbytes hlane rfl (.inr rfl) (fun c => ?_) hsuits
      refine BitVec.eq_of_getLsbD_eq fun i hi => ?_
      simp only [Member.read, BitVec.getLsbD_setWidth, BitVec.getLsbD_append]
      by_cases h : i < 32
      · simp [h]
      · simp [h, c.node.float32.getLsbD_of_ge i (Nat.not_lt.1 h)]
  case float64f =>
    have hstores (p) : xmmStores p ([c].map PackedConst.node) =
        some (rowStores .dword p 0 [dword c.node.float64 0, dword c.node.float64 1], .upd) := by
      simp only [List.map_cons, List.map_nil, xmmStores, htype]
      rfl
    have hwidth : c.width = 64 := by
      rcases hf64 htype with hp | hp <;> simp only [PackedConst.width, hp]
    refine setUp_xmm_member .float64 (fun c => c.node.float64) [] (k := 8) (n := 8) hstores rfl ?_
      (hlane.trans hwidth) rfl (.inr rfl) (fun _ => rfl) ?_
    · exact (rowBytes_qwords [c.node.float64]).trans (List.append_nil _).symm
    · simp only [Suits, htype, List.forall_mem_singleton]
  case imm64 =>
    have hstores (p) : xmmStores p ([c].map PackedConst.node) =
        some (rowStores .dword p 0 [dword c.node.imm64 0, dword c.node.imm64 1], .upd) := by
      simp only [List.map_cons, List.map_nil, xmmStores, htype]
      rfl
    have hwidth : c.width = 64 := by simp only [PackedConst.width, h64 htype]
    refine setUp_xmm_member .union (fun c => c.node.imm64) [] (k := 8) (n := 8) hstores rfl ?_
      (hlane.trans hwidth) rfl (.inr rfl) (fun _ => rfl) ?_
    · exact (rowBytes_qwords [c.node.imm64]).trans (List.append_nil _).symm
    · simp only [Suits, htype, List.forall_mem_singleton]
  all_goals
    have hnone : ¬ xmm.SetUp r m [c] := not_setUp_xmm fun p => by
      simp only [List.map_cons, List.map_nil, xmmStores, htype]
    simp only [hnone, Suits, htype]

/-- Two double words leave the second quad word as it was. -/
theorem not_lanes_dwords {c₀ c₁ : PackedConst lib} {x y : BitVec 32} (hwidth : c₀.width = 64) :
    ¬ ∀ rest : List Byte, rest.length = 8 → xmm.Lanes [c₀, c₁] (rowBytes 4 [x, y] ++ rest) := by
  intro h
  let other : BitVec 64 := ~~~ c₁.atWidth 64
  have hlanes := h (leBytes 8 other.toNat) (leBytes_length ..) 1 Nat.one_lt_two
  have hbytes : rowBytes 4 [x, y] ++ leBytes 8 other.toNat = rowBytes 8 [y ++ x, other] ++ [] := by
    rw [rowBytes_cons, rowBytes_cons, rowBytes_cons, rowBytes_cons, leBytes_dwords]
    simp
  have hlane : xmm.laneWidth [c₀, c₁] = 64 := hwidth
  rw [hlane, hbytes, lane_rowBytes (by decide) _ _ (by decide : 1 < 2)] at hlanes
  have hother : other = c₁.atWidth 64 := by
    rw [← BitVec.setWidth_eq other]
    exact hlanes
  exact BitVec.not_self_ne (by decide) hother

/-- The cases that store the first of two constants twice. -/
theorem setUp_xmm_twice {c₀ c₁ : PackedConst lib} {x : BitVec 32}
    (hstores : ∀ p, xmmStores p ([c₀, c₁].map PackedConst.node) =
      some (rowStores .dword p 0 [x, x], .ups))
    (hx : c₀.width = 32 ∧ x = c₀.atWidth 32 ∨ c₀.width = 64) :
    xmm.SetUp r m [c₀, c₁] ↔ c₀.width = 32 ∧ c₁.atWidth 32 = c₀.atWidth 32 := by
  rw [setUp_xmm_stores (k := 8) [x, x] .ups hstores rfl]
  rcases hx with ⟨hwidth, hx⟩ | hwidth
  · have hlane : xmm.laneWidth [c₀, c₁] = 32 := hwidth
    have hlanes (rest : List Byte) :
        xmm.Lanes [c₀, c₁] (rowBytes 4 [x, x] ++ rest) ↔ c₁.atWidth 32 = c₀.atWidth 32 := by
      rw [lanes_row rfl hlane, hlane]
      constructor
      · intro h
        have hsecond : x.setWidth 32 = c₁.atWidth 32 := h 1 Nat.one_lt_two Nat.one_lt_two
        rw [← hsecond, BitVec.setWidth_eq, hx]
      · intro h j hj hj'
        match j with
        | 0 => exact (BitVec.setWidth_eq x).trans hx
        | 1 => exact (BitVec.setWidth_eq x).trans (hx.trans h.symm)
    simp only [hlanes, hwidth, true_and]
    exact ⟨fun h => h (List.replicate 8 0) List.length_replicate, fun h _ _ => h⟩
  · have hne : ¬ c₀.width = 32 := by
      rw [hwidth]
      decide
    exact iff_of_false (not_lanes_dwords hwidth) fun h => hne h.1

theorem setUp_xmm_two (c₀ c₁ : PackedConst lib) :
    xmm.SetUp r m [c₀, c₁] ↔ xmm.Suits [c₀, c₁] := by
  have hlane : xmm.laneWidth [c₀, c₁] = c₀.width := rfl
  obtain ⟨hf32, hf64, h64, h32⟩ := c₀.payload_of_type
  cases htype : c₀.node.type
  case float32f =>
    have hstores (p) : xmmStores p ([c₀, c₁].map PackedConst.node) =
        some (rowStores .dword p 0 [c₀.node.float32, c₀.node.float32], .ups) := by
      simp only [List.map_cons, List.map_nil, xmmStores, htype]
      rfl
    simp only [Suits, htype]
    refine setUp_xmm_twice hstores ?_
    rcases hf32 htype with hp | hp
    · exact .inl (by simp [PackedConst.width, PackedConst.atWidth, hp])
    · exact .inr (by simp [PackedConst.width, hp])
  case imm32 =>
    have hstores (p) : xmmStores p ([c₀, c₁].map PackedConst.node) =
        some (rowStores .dword p 0 [c₀.node.imm32, c₀.node.imm32], .ups) := by
      simp only [List.map_cons, List.map_nil, xmmStores, htype]
      rfl
    simp only [Suits, htype]
    refine setUp_xmm_twice hstores ?_
    rcases h32 htype with hp | hp
    · exact .inl (by simp [PackedConst.width, PackedConst.atWidth, hp])
    · exact .inr (by simp [PackedConst.width, hp])
  case float64f =>
    have hstores (p) : xmmStores p ([c₀, c₁].map PackedConst.node) =
        some (rowStores .dword p 0 [dword c₀.node.float64 0, dword c₀.node.float64 1,
          dword c₁.node.float64 0, dword c₁.node.float64 1], .upd) := by
      simp only [List.map_cons, List.map_nil, xmmStores, htype]
      rfl
    have hwidth : c₀.width = 64 := by
      rcases hf64 htype with hp | hp <;> simp only [PackedConst.width, hp]
    refine setUp_xmm_member .float64 (fun c => c.node.float64) [] (k := 0) (n := 8) hstores rfl ?_
      (hlane.trans hwidth) rfl (.inr rfl) (fun _ => rfl) ?_
    · exact (rowBytes_qwords [c₀.node.float64, c₁.node.float64]).trans (List.append_nil _).symm
    · simp only [Suits, htype]
  case imm64 =>
    have hstores (p) : xmmStores p ([c₀, c₁].map PackedConst.node) =
        some (rowStores .dword p 0 [dword c₀.node.imm64 0, dword c₀.node.imm64 1,
          dword c₁.node.imm64 0, dword c₁.node.imm64 1], .upd) := by
      simp only [List.map_cons, List.map_nil, xmmStores, htype]
      rfl
    have hwidth : c₀.width = 64 := by simp only [PackedConst.width, h64 htype]
    refine setUp_xmm_member .union (fun c => c.node.imm64) [] (k := 0) (n := 8) hstores rfl ?_
      (hlane.trans hwidth) rfl (.inr rfl) (fun _ => rfl) ?_
    · exact (rowBytes_qwords [c₀.node.imm64, c₁.node.imm64]).trans (List.append_nil _).symm
    · simp only [Suits, htype]
  all_goals
    have hnone : ¬ xmm.SetUp r m [c₀, c₁] := not_setUp_xmm fun p => by
      simp only [List.map_cons, List.map_nil, xmmStores, htype]
    simp only [hnone, Suits, htype]

theorem setUp_xmm_four (c₀ c₁ c₂ c₃ : PackedConst lib) :
    xmm.SetUp r m [c₀, c₁, c₂, c₃] ↔ xmm.Suits [c₀, c₁, c₂, c₃] := by
  cases htype : c₀.node.type
  case float32f =>
    have hstores (p) : xmmStores p ([c₀, c₁, c₂, c₃].map PackedConst.node) =
        some (rowStores .dword p 0 ([c₀, c₁, c₂, c₃].map fun c => c.node.float32), .ups) := by
      simp only [List.map_cons, List.map_nil, xmmStores, htype]
      rfl
    refine setUp_xmm_member .float32 (fun c => c.node.float32) [] (k := 0) (n := 4) (w := 32) hstores
      rfl (List.append_nil _).symm rfl rfl (.inl (by decide)) (fun _ => rfl) ?_
    simp only [Suits, htype]
  case imm32 =>
    have hstores (p) : xmmStores p ([c₀, c₁, c₂, c₃].map PackedConst.node) =
        some (rowStores .dword p 0 ([c₀, c₁, c₂, c₃].map fun c => c.node.imm32), .ups) := by
      simp only [List.map_cons, List.map_nil, xmmStores, htype]
      rfl
    refine setUp_xmm_member .union (fun c => c.node.imm32) [] (k := 0) (n := 4) (w := 32) hstores
      rfl (List.append_nil _).symm rfl rfl (.inl (by decide)) (fun c => ?_) ?_
    · refine BitVec.eq_of_getLsbD_eq fun i hi => ?_
      simp [Member.read, ConstNode.imm32, ConstNode.imm64, hi]
    · simp only [Suits, htype]
  all_goals
    have hnone : ¬ xmm.SetUp r m [c₀, c₁, c₂, c₃] := not_setUp_xmm fun p => by
      simp only [List.map_cons, List.map_nil, xmmStores, htype]
    simp only [hnone, Suits, htype]

theorem setUp_xmm_iff (h : cs.length ∈ xmm.lengths) : xmm.SetUp r m cs ↔ xmm.Suits cs := by
  have hlength : cs.length = 1 ∨ cs.length = 2 ∨ cs.length = 4 := by simpa [lengths] using h
  rcases cs with _ | ⟨c₀, _ | ⟨c₁, _ | ⟨c₂, _ | ⟨c₃, _ | ⟨c₄, cs⟩⟩⟩⟩⟩
  case cons.nil => exact setUp_xmm_one c₀
  case cons.cons.nil => exact setUp_xmm_two c₀ c₁
  case cons.cons.cons.cons.nil => exact setUp_xmm_four c₀ c₁ c₂ c₃
  all_goals simp at hlength

/-- The four initialisers set their operand up exactly for the lists that their
cascades are right for. -/
theorem setUp_iff (cls : PackedClass) (r : Reg) (m : ModRM) (cs : List (PackedConst lib))
    (h : cs.length ∈ cls.lengths) : cls.SetUp r m cs ↔ cls.Suits cs := by
  cases cls with
  | mmx => exact setUp_mmx_iff h
  | xmm => exact setUp_xmm_iff h

/-- Hexadecimal constants do not ask for a floating number. -/
def zeroStrto : Strto := ⟨fun _ => 0, fun _ => 0, fun _ => 0⟩

/-- Constants that stand alone in a file. -/
def immConst (lib : Strto) (text : Text) : PackedConst lib where
  before := ⟨.imm8, 0, .none, 0, 0, 0, 0⟩
  name := "Imm32"
  content := text
  node := _
  parsed := rfl

def imm64Const (lib : Strto) (text : Text) : PackedConst lib where
  before := ⟨.imm8, 0, .none, 0, 0, 0, 0⟩
  name := "Imm64"
  content := text
  node := _
  parsed := rfl

theorem setUp_imm64 : xmm.SetUp (.xmm 0) (.d 0)
    [imm64Const zeroStrto ['0', 'x', '1'], imm64Const zeroStrto ['0', 'x', '2']] := by
  refine (setUp_iff xmm _ _ _ (.tail _ (.head _))).2 ?_
  intro c hc
  rcases List.mem_pair.1 hc with rfl | rfl <;> trivial

/-- Two double words: the first one is stored twice. -/
theorem setUp_imm32 : ¬ ∀ (lib : Strto) (cls : PackedClass) (r : Reg) (m : ModRM)
    (cs : List (PackedConst lib)), cs.length ∈ cls.lengths → cls.SetUp r m cs := by
  intro h
  have hsetUp := h zeroStrto xmm (.xmm 0) (.d 0)
    [immConst zeroStrto ['0', 'x', '1'], immConst zeroStrto ['0', 'x', '2']] (.tail _ (.head _))
  have hsame := ((setUp_xmm_two _ _).1 hsetUp : _ ∧ _).2
  exact absurd hsame (by decide)

end PackedClass

end Btrtg
