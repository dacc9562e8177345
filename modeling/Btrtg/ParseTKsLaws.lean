import Btrtg.GenData
import Btrtg.ParseTKs

/-!
# What a constant depends on

The type and the payload of a stored constant, by its element and by what the
elements before it left in `val_node`. Most elements write only a part of what
is read of the constant later; an `Mmx` does not even write the type.
-/

namespace Btrtg

-- ---------------------------------------------------------------------------
-- Payload
-- ---------------------------------------------------------------------------

/-- The members of a constant that are read. -/
inductive Contents
  | floats (float32 : BitVec 32) (float64 : BitVec 64) (float80 : BitVec 80)
  | env (x87env : BitVec 224)
  | single (union : BitVec 96) (float32 : BitVec 32)
  | double (union : BitVec 96) (float64 : BitVec 64)
  | bytes (union : BitVec 96)
  deriving DecidableEq

/-- What `init_memory_opnd` reads of a constant of its type, with one operand or another. -/
def payload (c : ConstNode) : Contents :=
  match c.type with
  | .float => .floats c.float32 c.float64 c.float80
  | .x87env => .env c.x87env
  | .float32f => .single c.union c.float32
  | .float64f => .double c.union c.float64
  | _ => .bytes c.union

section
variable {c c' : ConstNode}

/-- The operands of `init_memory_opnd` are initialised alike by constants alike in type and
payload. -/
theorem initMemoryOpnd_payload (ht : c.type = c'.type) (h : payload c = payload c') (m : ModRM)
    (flags : OpFlags) :
    (c.type = .float → initMemoryOpndFloat m flags c = initMemoryOpndFloat m flags c') ∧
    (c.type = .x87env → initMemoryOpndX87env m c = initMemoryOpndX87env m c') ∧
    (c.type ≠ .float → c.type ≠ .x87env →
      initMemoryOpndMmx m [c] = initMemoryOpndMmx m [c'] ∧
      initMemoryOpndImm64 m c = initMemoryOpndImm64 m c' ∧
      initMemoryOpndBcd80 m c = initMemoryOpndBcd80 m c' ∧
      initMemoryOpndXmm m [c] = initMemoryOpndXmm m [c'] ∧
      initMemoryOpndInt m flags (some c) = initMemoryOpndInt m flags (some c')) := by
  have hunion (hf : c.type ≠ .float) (hx : c.type ≠ .x87env) : c.union = c'.union := by
    unfold payload at h
    rw [← ht] at h
    split at h <;> simp_all
  have hsingle (hs : c.type = .float32f) : c.float32 = c'.float32 := by
    simp only [payload, ← ht, hs, Contents.single.injEq] at h
    exact h.2
  have hdouble (hd : c.type = .float64f) : c.float64 = c'.float64 := by
    simp only [payload, ← ht, hd, Contents.double.injEq] at h
    exact h.2
  refine ⟨fun hf => ?_, fun hx => ?_, fun hf hx => ?_⟩
  · simp only [payload, ← ht, hf, Contents.floats.injEq] at h
    simp only [initMemoryOpndFloat, h]
  · simp only [payload, ← ht, hx, Contents.env.injEq] at h
    simp only [initMemoryOpndX87env, h]
  · have hu := hunion hf hx
    have h32 : c.imm32 = c'.imm32 := by rw [ConstNode.imm32, hu, ConstNode.imm32]
    have h64 : c.imm64 = c'.imm64 := by rw [ConstNode.imm64, hu, ConstNode.imm64]
    have hint (i : Nat) : c.int i = c'.int i := by rw [ConstNode.int, h64, ConstNode.int]
    refine ⟨?_, ?_, ?_, ?_, ?_⟩
    · simp only [initMemoryOpndMmx, mmxStores, hint]
    · simp only [initMemoryOpndImm64, hint]
    · simp only [initMemoryOpndBcd80, hu]
    · simp only [initMemoryOpndXmm, xmmStores, ← ht]
      split
      · simp only [hsingle ‹_›]
      · simp only [hdouble ‹_›]
      · simp only [h64]
      · rfl
    · simp only [initMemoryOpndInt, h32]

end

-- ---------------------------------------------------------------------------
-- One element
-- ---------------------------------------------------------------------------

def tagType : String → Option ConstType
  | "Immf" => some .float
  | "Imm64" => some .imm64
  | "Mmx" => none
  | "Bcd" => some .bcd
  | "Float32i" => some .float32i
  | "Float32f" => some .float32f
  | "Float64i" => some .float64i
  | "Float64f" => some .float64f
  | "X87env" => some .x87env
  | _ => some .imm32

/-- What an `Mmx` leaves of `val_node`, as far as it is read of a constant of the type that
was left behind. -/
def MmxAlike (v v' : ConstNode) : Prop :=
  match v.type with
  | .float => v.float32 = v'.float32 ∧ v.float64 = v'.float64 ∧ v.float80 = v'.float80
  | .x87env => v.x87env = v'.x87env
  | .float32f => v.union >>> 64 = v'.union >>> 64 ∧ v.float32 = v'.float32
  | .float64f => v.union >>> 64 = v'.union >>> 64 ∧ v.float64 = v'.float64
  | _ => v.union >>> 64 = v'.union >>> 64

/-- What an element does not write and is read later is alike in two `val_node`. -/
def LeftAlike (name : String) (v v' : ConstNode) : Prop :=
  match name with
  | "Immf" | "Bcd" | "X87env" => True
  | "Imm64" | "Float64i" => v.union >>> 64 = v'.union >>> 64
  | "Float32f" | "Float64f" => v.union = v'.union
  | "Mmx" => v.type = v'.type ∧ MmxAlike v v'
  | _ => v.union >>> 32 = v'.union >>> 32

theorem parseConst_type {lib : Strto} {v c : ConstNode} {name : String} {content : Text}
    (h : parseConst lib v name content = some c) : c.type = (tagType name).getD v.type := by
  unfold parseConst at h
  split at h
  case h_4 | h_9 =>
    obtain ⟨_, _, rfl⟩ := Option.map_eq_some_iff.1 h
    rfl
  case h_10 =>
    have htype : tagType name = some .imm32 := by
      unfold tagType
      split <;> simp_all
    cases h
    rw [htype]
    rfl
  all_goals
    cases h
    rfl

@[simp] theorem float32_write {w : Nat} (v : ConstNode) (x : BitVec w) :
    (v.write x).float32 = v.float32 := rfl

@[simp] theorem float64_write {w : Nat} (v : ConstNode) (x : BitVec w) :
    (v.write x).float64 = v.float64 := rfl

@[simp] theorem float80_write {w : Nat} (v : ConstNode) (x : BitVec w) :
    (v.write x).float80 = v.float80 := rfl

@[simp] theorem x87env_write {w : Nat} (v : ConstNode) (x : BitVec w) :
    (v.write x).x87env = v.x87env := rfl

/-- The bytes behind a member that is written stay. -/
theorem write_union_eq_iff {w : Nat} (v v' : ConstNode) (x : BitVec w) :
    (v.write x).union = (v'.write x).union ↔ v.union >>> w = v'.union >>> w := by
  constructor
  · intro h
    refine BitVec.eq_of_getLsbD_eq fun i hi => ?_
    have hbit := congrArg (fun u => u.getLsbD (w + i)) h
    by_cases hlt : w + i < 96
    · simpa [ConstNode.write, hlt, BitVec.getLsbD_of_ge x (w + i) (by omega)] using hbit
    · simp [BitVec.getLsbD_of_ge _ (w + i) (Nat.le_of_not_lt hlt)]
  · intro h
    simp only [ConstNode.write, h]

theorem parseConst_payload_iff {lib : Strto} {v v' c c' : ConstNode} {name : String}
    {content : Text} (h : parseConst lib v name content = some c)
    (h' : parseConst lib v' name content = some c') :
    (c.type = c'.type ∧ payload c = payload c') ↔ LeftAlike name v v' := by
  unfold parseConst at h h'
  split at h
  case h_4 | h_9 =>
    obtain ⟨_, hx, rfl⟩ := Option.map_eq_some_iff.1 h
    obtain ⟨_, hx', rfl⟩ := Option.map_eq_some_iff.1 h'
    cases hx.symm.trans hx'
    simp [payload, LeftAlike]
  case h_10 =>
    have halike : LeftAlike name v v' ↔ v.union >>> 32 = v'.union >>> 32 := by
      unfold LeftAlike
      split <;> simp_all
    have hc' : c' = { v' with type := .imm32 }.write (hex2dec content) := by
      split at h' <;> simp_all
    cases h
    rw [hc', halike]
    simp [payload, write_union_eq_iff]
  case h_3 =>
    cases h
    cases h'
    simp only [ConstNode.type_write, LeftAlike]
    refine and_congr_right fun ht => ?_
    unfold payload MmxAlike
    simp only [ConstNode.type_write, ← ht]
    cases v.type <;> simp [write_union_eq_iff]
  all_goals
    cases h
    cases h'
    simp [payload, LeftAlike, write_union_eq_iff]

-- ---------------------------------------------------------------------------
-- Places of a document
-- ---------------------------------------------------------------------------

def groupAt (doc : List XmlNode) (i : Nat) : List XmlElement :=
  ((XmlNode.elements doc)[i]?.map fun g => XmlNode.elements g.children).getD []

/-- The element of a document at the index of its group and its own in it. -/
def elementAt (doc : List XmlNode) (i j : Nat) : Option XmlElement := (groupAt doc i)[j]?

def elementsBefore (doc : List XmlNode) (i j : Nat) : List XmlElement :=
  (((XmlNode.elements doc).take i).flatMap fun g => XmlNode.elements g.children) ++
    (groupAt doc i).take j

def leftBy (lib : Strto) (v : ConstNode) (es : List XmlElement) : Option ConstNode :=
  es.foldlM (fun v e => (XmlNode.content? e.children).bind (parseConst lib v e.name)) v

def storedAt (adds : List (Text × WdNode)) (i j : Nat) : Option ConstNode :=
  adds[i]?.bind fun (_, node) =>
    match node with
    | .leaf cs => cs[j]?
    | .inner .. => none

theorem leftBy_append (lib : Strto) (v : ConstNode) (es es' : List XmlElement) :
    leftBy lib v (es ++ es') = (leftBy lib v es).bind fun v => leftBy lib v es' :=
  List.foldlM_append ..

/-- `c` is parsed from the element `e`, in the `val_node` that the elements `es` leave. -/
def ParsedAfter (lib : Strto) (v : ConstNode) (es : List XmlElement) (e : XmlElement)
    (c : ConstNode) : Prop :=
  ∃ u content, leftBy lib v es = some u ∧ XmlNode.content? e.children = some content ∧
    parseConst lib u e.name content = some c

theorem ParsedAfter.cons {lib : Strto} {v last c : ConstNode} {es es' : List XmlElement}
    {e : XmlElement} (hes : leftBy lib v es = some last) (h : ParsedAfter lib last es' e c) :
    ParsedAfter lib v (es ++ es') e c := by
  obtain ⟨u, content, hu, h⟩ := h
  refine ⟨u, content, ?_, h⟩
  rw [leftBy_append, hes, Option.bind_some, hu]

theorem parseCG_spec {lib : Strto} {v last : ConstNode} {es : List XmlElement}
    {cs : List ConstNode} (h : parseCG lib v es = some (last, cs)) :
    leftBy lib v es = some last ∧ ∀ {j : Nat} {e : XmlElement}, es[j]? = some e →
      ∃ c, cs[j]? = some c ∧ ParsedAfter lib v (es.take j) e c := by
  induction es generalizing v cs with
  | nil =>
    cases h
    exact ⟨rfl, by simp⟩
  | cons e es ih =>
    obtain ⟨content, hcontent, h⟩ := Option.bind_eq_some_iff.1 h
    obtain ⟨c, hc, h⟩ := Option.bind_eq_some_iff.1 h
    obtain ⟨⟨last', cs'⟩, hes, h⟩ := Option.bind_eq_some_iff.1 h
    cases h
    obtain ⟨hlast, hat⟩ := ih hes
    have hone : leftBy lib v [e] = some c := by
      simp [leftBy, hcontent, hc]
    refine ⟨?_, fun {j e'} hj => ?_⟩
    · rw [← List.singleton_append, leftBy_append, hone, Option.bind_some, hlast]
    cases j with
    | zero =>
      cases hj
      exact ⟨c, rfl, v, content, rfl, hcontent, hc⟩
    | succ j =>
      obtain ⟨c', hc', hparsed⟩ := hat hj
      exact ⟨c', hc', ParsedAfter.cons hone hparsed⟩

theorem parseCGsFrom_spec {lib : Strto} {v : ConstNode} {gs : List XmlElement}
    {adds : List (Text × WdNode)} (h : parseCGsFrom lib v gs = some adds) {i j : Nat}
    {g e : XmlElement} (hg : gs[i]? = some g) (he : (XmlNode.elements g.children)[j]? = some e) :
    ∃ c, storedAt adds i j = some c ∧
      ParsedAfter lib v (((gs.take i).flatMap fun g => XmlNode.elements g.children) ++
        (XmlNode.elements g.children).take j) e c := by
  induction gs generalizing v adds i with
  | nil => simp at hg
  | cons g' gs ih =>
    obtain ⟨⟨last, cs⟩, hcs, h⟩ := Option.bind_eq_some_iff.1 h
    obtain ⟨key, -, h⟩ := Option.bind_eq_some_iff.1 h
    obtain ⟨adds', hadds, h⟩ := Option.bind_eq_some_iff.1 h
    cases h
    obtain ⟨hlast, hat⟩ := parseCG_spec hcs
    cases i with
    | zero =>
      cases hg
      exact hat he
    | succ i =>
      obtain ⟨c, hc, hparsed⟩ := ih hadds hg
      refine ⟨c, hc, ?_⟩
      rw [List.take_succ_cons, List.flatMap_cons, List.append_assoc]
      exact ParsedAfter.cons hlast hparsed

theorem parseCGs_spec {lib : Strto} {v : ConstNode} {doc : List XmlNode}
    {adds : List (Text × WdNode)} (h : parseCGs lib v doc = some adds) {i j : Nat}
    {e : XmlElement} (he : elementAt doc i j = some e) :
    ∃ c, storedAt adds i j = some c ∧ ParsedAfter lib v (elementsBefore doc i j) e c := by
  cases hg : (XmlNode.elements doc)[i]? with
  | none => simp [elementAt, groupAt, hg] at he
  | some g =>
    have hgroup : groupAt doc i = XmlNode.elements g.children := by simp [groupAt, hg]
    rw [elementAt, hgroup] at he
    rw [elementsBefore, hgroup]
    exact parseCGsFrom_spec h hg he

def groupOf (tag : String) (text : Text) (tag' : String) (text' : Text) : List XmlNode :=
  [.element "ConstGroup" [("name", ['g'])]
    [.other ['\n'], .element tag [] [.other text], .element tag' [] [.other text']]]

def zeroLib : Strto := ⟨fun _ => 0, fun _ => 0, fun _ => 0⟩

def zeroNode : ConstNode := ⟨.imm8, 0, .none, 0, 0, 0, 0⟩

end Btrtg
