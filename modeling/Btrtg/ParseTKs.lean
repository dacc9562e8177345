import Btrtg.Wdtree
import Btrtg.Transform
import Mathlib.Data.Nat.Digits.Lemmas

/-!
# Parsing the constants

`parseCGs` over the nodes of a document. `val_node` is one local that every
element writes a part of; what it holds at first is not defined. The library's
float readers are parameters.
-/

namespace Btrtg

open Bytes

/-- An `xmlNode`, as far as the parsers read it. -/
inductive XmlNode
  | element (name : String) (props : List (String × Text)) (children : List XmlNode)
  | other (content : Text)

/-- A node with `type == XML_ELEMENT_NODE`. -/
structure XmlElement where
  name : String
  props : List (String × Text)
  children : List XmlNode

/-- `xmlGetProp`. -/
def XmlElement.prop? (e : XmlElement) (name : String) : Option Text := e.props.lookup name

namespace XmlNode

/-- `children->content`: only nodes that are no elements have one. -/
def content? : List XmlNode → Option Text
  | other content :: _ => some content
  | _ => none

def elements : List XmlNode → List XmlElement
  | [] => []
  | element name props children :: ns => ⟨name, props, children⟩ :: elements ns
  | other _ :: ns => elements ns

end XmlNode

/-- `strtof`, `strtod` and `strtold`. -/
structure Strto where
  strtof : Text → BitVec 32
  strtod : Text → BitVec 64
  strtold : Text → BitVec 80

-- ---------------------------------------------------------------------------
-- Constants
-- ---------------------------------------------------------------------------

/-- A write to a member of the union, which all begin where it does. -/
def ConstNode.write {w : Nat} (c : ConstNode) (x : BitVec w) : ConstNode :=
  { c with union := c.union >>> w <<< w ||| x.setWidth 96 }

namespace ConstNode

variable (c : ConstNode)

@[simp] theorem type_write {w : Nat} (x : BitVec w) : (c.write x).type = c.type := rfl

@[simp] theorem imm64_write (x : BitVec 64) : (c.write x).imm64 = x := by
  refine BitVec.eq_of_getLsbD_eq fun i hi => ?_
  simp [imm64, write, hi]

@[simp] theorem imm32_write (x : BitVec 32) : (c.write x).imm32 = x := by
  refine BitVec.eq_of_getLsbD_eq fun i hi => ?_
  simp [imm32, write, hi]

@[simp] theorem union_write (x : BitVec 96) : (c.write x).union = x := by
  refine BitVec.eq_of_getLsbD_eq fun i hi => ?_
  simp [write, hi]

end ConstNode

/-- `val_node.bcd`. A text that reaches behind the array is a failure. -/
def bcdMember (content : Text) : Option (BitVec 96) := do
  let (_, digits) ← bcdText content
  if 24 ≤ digits.length then none
  else
    let m ← str2bcd content (fun _ => 0 : Memory 32) 0
    some (word 96 (load m 0 12))

/-- `val_node.fcw` and the words behind it. -/
def x87envWords (x87env : List (BitVec 32)) : BitVec 224 :=
  .ofNat 224 (Nat.ofDigits (2 ^ 32) (x87env.map BitVec.toNat))

/-- What an element of `parseCGs` makes of `val_node`. -/
def parseConst (lib : Strto) (v : ConstNode) (cNodeName : String) (cNodeContent : Text) :
    Option ConstNode :=
  match cNodeName with
  | "Immf" => some { v with
      type := .float, float32 := lib.strtof cNodeContent, float64 := lib.strtod cNodeContent,
      float80 := lib.strtold cNodeContent }
  | "Imm64" => some ({ v with type := .imm64 }.write (hex2declong cNodeContent))
  | "Mmx" => some (v.write (hex2declong cNodeContent))
  | "Bcd" => (bcdMember cNodeContent).map fun bcd => { v with type := .bcd }.write bcd
  | "Float32i" => some ({ v with type := .float32i }.write (hex2dec cNodeContent))
  | "Float32f" => some { v with type := .float32f, float32 := lib.strtof cNodeContent }
  | "Float64i" =>
    some ({ v with type := .float64i }.write ((hex2dec cNodeContent).setWidth 64))
  | "Float64f" => some { v with type := .float64f, float64 := lib.strtod cNodeContent }
  | "X87env" =>
    (str2x87env cNodeContent).map fun env =>
      { v with type := .x87env, x87env := x87envWords env }
  | _ => some ({ v with type := .imm32 }.write (hex2dec cNodeContent))

-- ---------------------------------------------------------------------------
-- Groups
-- ---------------------------------------------------------------------------

/-- The elements of a group, with `val_node` as it is left. -/
def parseCG (lib : Strto) : ConstNode → List XmlElement → Option (ConstNode × List ConstNode)
  | v, [] => some (v, [])
  | v, e :: es => do
    let content ← XmlNode.content? e.children
    let v ← parseConst lib v e.name content
    let (last, cs) ← parseCG lib v es
    some (last, v :: cs)

/-- The loop of `parseCGs`: what is added to `hash_wdtrees`. -/
def parseCGsFrom (lib : Strto) : ConstNode → List XmlElement → Option (List (Text × WdNode))
  | _, [] => some []
  | v, g :: gs => do
    let (last, cs) ← parseCG lib v (XmlNode.elements g.children)
    let key ← g.prop? "name"
    let adds ← parseCGsFrom lib last gs
    some ((key, .leaf cs) :: adds)

/-- `parseCGs`, with what `val_node` holds at first. -/
def parseCGs (lib : Strto) (v : ConstNode) (children : List XmlNode) :
    Option (List (Text × WdNode)) :=
  parseCGsFrom lib v (XmlNode.elements children)

-- ---------------------------------------------------------------------------
-- Weights
-- ---------------------------------------------------------------------------

/-- The loop of `parseOpndTK` and `parseSelBlk`, with the attribute that names
the group. An attribute or a group that is missing is a null pointer. -/
def parseWeighted (hashWdtrees : Text → Option WdNode) (key : String) :
    List XmlElement → Option (List Int × List WdNode)
  | [] => some ([], [])
  | e :: es => do
    let weight ← e.prop? "weight"
    let sub ← (e.prop? key).bind hashWdtrees
    let (weights, subs) ← parseWeighted hashWdtrees key es
    some (atoi weight :: weights, sub :: subs)

def parseOpndTK (hashWdtrees : Text → Option WdNode) (children : List XmlNode) : Option WdNode :=
  (parseWeighted hashWdtrees "name" (XmlNode.elements children)).map fun (weights, subs) =>
    .inner weights subs

end Btrtg
