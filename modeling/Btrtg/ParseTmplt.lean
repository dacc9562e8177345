import Btrtg.ParseTKs

/-!
# Parsing the groups of instructions

`parseGroups` and the trees of the template elements. An instruction name is
the opcode that it names.
-/

namespace Btrtg

/-- `nasm_trim`: the end of the text is a NUL or the first line end, and blanks
are cut off where they stand right before it. -/
def nasmTrim (p : Text) : Text :=
  let p := p.dropWhile nasmIsspace
  let line := p.takeWhile (· ≠ '\n')
  let cut := (line.reverse.dropWhile nasmIsspace).reverse
  if cut.length < line.length then cut else p

/-- The elements of an instruction group. -/
def parseGroup (op : Text → Opcode) : List XmlElement → Option (List ConstNode)
  | [] => some []
  | e :: es => do
    let content ← XmlNode.content? e.children
    let cs ← parseGroup op es
    some ({ type := .asmOp, union := 0, asmOp := op (nasmTrim content) } :: cs)

/-- The loop of `parseGroups`: what is added to `hash_wdtrees`. -/
def parseGroupsFrom (op : Text → Opcode) : List XmlElement → Option (List (Text × WdNode))
  | [] => some []
  | g :: gs => do
    let cs ← parseGroup op (XmlNode.elements g.children)
    let key ← g.prop? "name"
    let adds ← parseGroupsFrom op gs
    some ((key, .leaf cs) :: adds)

def parseGroups (op : Text → Opcode) (children : List XmlNode) :
    Option (List (Text × WdNode)) :=
  parseGroupsFrom op (XmlNode.elements children)

def parseSelBlk (hashWdtrees : Text → Option WdNode) (children : List XmlNode) : Option WdRoot :=
  (parseWeighted hashWdtrees "type" (XmlNode.elements children)).map fun (weights, subs) =>
    ⟨1, .inner weights subs⟩

def parseG (hashWdtrees : Text → Option WdNode) (g : XmlElement) : Option WdRoot :=
  ((g.prop? "type").bind fun gType => hashWdtrees (nasmTrim gType)).map fun node => ⟨1, node⟩

end Btrtg
