import Btrtg.Lib.OpenAddr
import Btrtg.ParseTmplt

/-!
# The hash table and what the parsers put into it

`hash_find` and `hash_add` over the slots of a table, and the loops of the
parsers that register an element each time round. A `struct hash_insert` is a
local of the parser: it holds nothing at first and keeps what `hash_find` left
in it. `crc64b` is a parameter.
-/

namespace Btrtg

-- ---------------------------------------------------------------------------
-- The table
-- ---------------------------------------------------------------------------

/-- `struct hash_node` of a slot that has a key. -/
structure HashNode (α : Type) where
  hash : BitVec 64
  key : Text
  keylen : Nat
  data : α

/-- `struct hash_table`, with the number of the allocation that `table` points to. -/
structure HashTable (α : Type) where
  table : Option (List (Option (HashNode α)))
  block : Nat
  load : Nat
  size : Nat
  maxLoad : Nat

/-- `struct hash_insert`; `slot` is `where`, with the allocation it points into. -/
structure HashInsert where
  slot : Option (Nat × Nat)
  hash : BitVec 64
  key : Text
  keylen : Nat

def hashInitSize : Nat := 16
def hashMaxLoad (size : Nat) : Nat := size * (2 - 1) / 2
def hashExpand (size : Nat) : Nat := size <<< 1
def hashMask (size : Nat) : Nat := size - 1
def hashPos (hash : BitVec 64) (mask : Nat) : Nat := hash.toNat &&& mask
def hashInc (hash : BitVec 64) (mask : Nat) : Nat := hash.toNat >>> 32 &&& mask ||| 1
def hashPosNext (inc mask pos : Nat) : Nat := (pos + inc) &&& mask

variable {α : Type}

namespace HashTable

/-- A global table before it is used. -/
def zero : HashTable α := ⟨none, 0, 0, 0, 0⟩

def hashInit (head : HashTable α) : HashTable α where
  table := some (List.replicate hashInitSize none)
  block := head.block + 1
  load := 0
  size := hashInitSize
  maxLoad := hashMaxLoad hashInitSize

/-- `hash_find`: the data that is found, and the insert object as it is left. A
search that does not end is a failure. -/
def hashFind (crc64b : Text → BitVec 64) (head : HashTable α) (key : Text)
    (insert : Option HashInsert) : Option (Option α × Option HashInsert) :=
  let hash := crc64b key
  let keylen := key.length + 1
  let mask := hashMask head.size
  match head.table with
  | none => some (none, some ⟨none, hash, key, keylen⟩)
  | some tbl =>
    let same (np : HashNode α) : Bool := hash = np.hash && keylen = np.keylen && key = np.key
    let next := hashPosNext (hashInc hash mask) mask
    match OpenAddr.scan tbl same next head.size (hashPos hash mask) with
    | none => none
    | some (_, some np) => some (some np.data, insert)
    | some (pos, none) => some (none, some ⟨some (head.block, pos), hash, key, keylen⟩)

/-- The loop of `hash_add` that moves the entries into a table of another size. -/
def rebalance (newsize : Nat) : List (Option (HashNode α)) → List (Option (HashNode α)) →
    Option (List (Option (HashNode α)))
  | newtbl, [] => some newtbl
  | newtbl, none :: ops => rebalance newsize newtbl ops
  | newtbl, some op :: ops => do
    let mask := hashMask newsize
    let next := hashPosNext (hashInc op.hash mask) mask
    let (pos, _) ← OpenAddr.scan newtbl (fun _ => false) next newsize (hashPos op.hash mask)
    rebalance newsize (newtbl.set pos (some op)) ops

/-- The node is written, and the table grows when its load is over the maximum. -/
def addAt (head : HashTable α) (tbl : List (Option (HashNode α))) (pos : Nat)
    (node : HashNode α) : Option (HashTable α) := do
  let tbl := tbl.set pos (some node)
  let load := head.load + 1
  if load > head.maxLoad then
    let newsize := hashExpand head.size
    let newtbl ← rebalance newsize (List.replicate newsize none) tbl
    some ⟨some newtbl, head.block + 1, load, newsize, hashMaxLoad newsize⟩
  else some { head with table := some tbl, load := load }

/-- `hash_add`. A slot of a table that has been freed is a failure. -/
def hashAdd (insert : HashInsert) (key : Text) (data : α) (head : HashTable α) :
    Option (HashTable α) :=
  let node : HashNode α := ⟨insert.hash, key, insert.keylen, data⟩
  match insert.slot with
  | none =>
    let head := head.hashInit
    head.table.bind fun tbl => head.addAt tbl (hashPos insert.hash (hashMask head.size)) node
  | some (block, pos) =>
    if block = head.block then head.table.bind fun tbl => head.addAt tbl pos node else none

/-- `get_tkm_from_hashtbl`, and the look-ups of the groups. -/
def get (crc64b : Text → BitVec 64) (head : HashTable α) (name : Text) : Option (Option α) :=
  (head.hashFind crc64b name none).map Prod.fst

end HashTable

-- ---------------------------------------------------------------------------
-- Registering
-- ---------------------------------------------------------------------------

/-- A table and the insert object of the parser that fills it. -/
structure Filling (α : Type) where
  head : HashTable α
  hi : Option HashInsert

/-- What a parser does with a table: it starts with an insert object of its own,
and registers elements one by one. -/
inductive FillStep (α : Type)
  | enter
  | add (name : Text) (data : α)

namespace Filling

def empty : Filling α := ⟨.zero, none⟩

/-- An insert object that nothing was written to is a failure. -/
def step (crc64b : Text → BitVec 64) (s : Filling α) : FillStep α → Option (Filling α)
  | .enter => some { s with hi := none }
  | .add name data => do
    let (_, hi) ← s.head.hashFind crc64b name s.hi
    let insert ← hi
    let head ← s.head.hashAdd insert name data
    some ⟨head, hi⟩

def run (crc64b : Text → BitVec 64) (steps : List (FillStep α)) : Option (Filling α) :=
  steps.foldlM (step crc64b) empty

end Filling

-- ---------------------------------------------------------------------------
-- Testing knowledge
-- ---------------------------------------------------------------------------

/-- The loop of `parseInstTK`. An operand without a name stands for the trees of
the whole element. -/
def parseInstTK (hashWdtrees : Text → Option WdNode) (tkChildren : List XmlNode) :
    List XmlElement → Option (List WdRoot)
  | [] => some []
  | opnd :: opnds => do
    let packedn := ((opnd.prop? "packedn").elim 1 atoi).toNat
    match opnd.prop? "opnd" with
    | none =>
      let wdNode ← parseOpndTK hashWdtrees tkChildren
      some [⟨packedn, wdNode⟩]
    | some _ =>
      let wdNode ← parseOpndTK hashWdtrees opnd.children
      let trees ← parseInstTK hashWdtrees tkChildren opnds
      some (⟨packedn, wdNode⟩ :: trees)

/-- The loop of `parseTKs`: what is added to `hash_tks`. -/
def parseTKsFrom (hashWdtrees : Text → Option WdNode) :
    List XmlElement → Option (List (Text × TkModel))
  | [] => some []
  | tk :: tks => do
    let tkTrees ← parseInstTK hashWdtrees tk.children (XmlNode.elements tk.children)
    let key ← tk.prop? "inst"
    let adds ← parseTKsFrom hashWdtrees tks
    some ((key, ⟨tkTrees⟩) :: adds)

def parseTKs (hashWdtrees : Text → Option WdNode) (children : List XmlNode) :
    Option (List (Text × TkModel)) :=
  parseTKsFrom hashWdtrees (XmlNode.elements children)

/-- A file of testing knowledge and what `parseTKs` adds for it. -/
structure TkFile where
  hashWdtrees : Text → Option WdNode
  children : List XmlNode
  adds : List (Text × TkModel)
  parsed : parseTKs hashWdtrees children = some adds

/-- A file of constant groups and what `parseCGs` adds for it. -/
structure CgFile where
  lib : Strto
  valNode : ConstNode
  children : List XmlNode
  adds : List (Text × WdNode)
  parsed : parseCGs lib valNode children = some adds

/-- A file of instruction groups and what `parseGroups` adds for it. -/
structure GroupFile where
  op : Text → Opcode
  children : List XmlNode
  adds : List (Text × WdNode)
  parsed : parseGroups op children = some adds

/-- What `init_tks` does with `hash_tks`: one insert object for each file. -/
def tkSteps (files : List TkFile) : List (FillStep TkModel) :=
  files.flatMap fun f => .enter :: f.adds.map fun (name, tkm) => .add name tkm

/-- What the parsers do with `hash_wdtrees`: `parseCGs` has one insert object for
each file, `parseGroups` one for each element. -/
def wdSteps (cgFiles : List CgFile) (groupFiles : List GroupFile) : List (FillStep WdNode) :=
  (cgFiles.flatMap fun f => .enter :: f.adds.map fun (name, node) => .add name node) ++
    groupFiles.flatMap fun f => f.adds.flatMap fun (name, node) => [.enter, .add name node]

end Btrtg
