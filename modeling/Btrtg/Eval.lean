import Btrtg.Buf2Token

/-!
# Effective addresses

The evaluator over the tokens of a memory operand, and `parse_mref`. An
expression is a vector of terms in the order of their numbers. No location is
known, so that a label is an unknown term. The words of the table that are
functions or segments have no value here, and the scanner makes no token of two
marks: the levels of the grammar with only such operators are left out.
-/

namespace Btrtg

/-- The generated tables: `nasm_token_hash` and the register numbers. -/
structure RegTables where
  hash : TokenHash
  num : Reg → Nat
  regEnd : Nat
  hash_name : ∀ r ∈ nasmRdReg32, hash r.name.toList = (.reg r, false)
  num_ne : ∀ r ∈ nasmRdReg32, ∀ r' ∈ nasmRdReg32, num r = num r' → r = r'
  num_le : ∀ r, num r ≤ regEnd

-- ---------------------------------------------------------------------------
-- Vectors
-- ---------------------------------------------------------------------------

/-- The types of terms: a register, or one of the `EXPR_` numbers. -/
inductive TermType
  | reg (r : Reg)
  | unknown
  | simple
  | wrt
  | rdsae
  | segbase (seg : Nat)
  deriving DecidableEq

def TermType.number (tables : RegTables) : TermType → Nat
  | reg r => tables.num r
  | unknown => tables.regEnd + 1
  | simple => tables.regEnd + 2
  | wrt => tables.regEnd + 3
  | rdsae => tables.regEnd + 4
  | segbase seg => tables.regEnd + 5 + seg

def segAbs : Nat := 0x40000000

/-- `struct expr`. -/
structure Term where
  type : TermType
  value : BitVec 64
  deriving DecidableEq

/-- Not below `EXPR_SEGBASE + SEG_ABS`. -/
def Term.far (t : Term) : Bool :=
  match t.type with
  | .segbase seg => segAbs ≤ seg
  | _ => false

abbrev Vect := List Term

def Vect.nonzero (v : Vect) : Vect := v.filter (·.value ≠ 0)

def isSimple (v : Vect) : Bool :=
  match v.nonzero with
  | [] => true
  | [t] => t.type = .simple
  | t :: u :: _ => t.type = .simple && u.far

def isReallySimple (v : Vect) : Bool :=
  match v.nonzero with
  | [] => true
  | [t] => t.type = .simple
  | _ => false

def TermType.isReg : TermType → Bool
  | reg _ => true
  | _ => false

def isUnknown (v : Vect) : Bool :=
  (v.dropWhile (·.type.isReg)).head?.any (·.type = .unknown)

def isJustUnknown (v : Vect) : Bool := v.nonzero.head?.any (·.type = .unknown)

def relocValue (v : Vect) : BitVec 64 :=
  match v.nonzero with
  | ⟨.simple, x⟩ :: _ => x
  | _ => 0

/-- The loops behind the merge of `add_vectors`. -/
def addRest (preserve : Bool) (v : Vect) : Vect := v.takeWhile fun t => preserve || !t.far

/-- The merge of `add_vectors`; an unknown term ends it. -/
def addMerge (tables : RegTables) (preserve : Bool) : Vect → Vect → Vect
  | p :: ps, q :: qs =>
    if p.far || q.far then addRest preserve (p :: ps) ++ addRest preserve (q :: qs)
    else if q.type.number tables < p.type.number tables then
      q :: if q.type = .unknown then [] else addMerge tables preserve (p :: ps) qs
    else if p.type.number tables < q.type.number tables then
      p :: if p.type = .unknown then [] else addMerge tables preserve ps (q :: qs)
    else
      (if p.value + q.value = 0 then [] else [⟨p.type, p.value + q.value⟩]) ++
        if p.type = .unknown then [] else addMerge tables preserve ps qs
  | ps, qs => addRest preserve ps ++ addRest preserve qs
termination_by ps qs => ps.length + qs.length

def addVectors (tables : RegTables) (p q : Vect) : Vect :=
  addMerge tables (isReallySimple p || isReallySimple q) p q

def scalarMult (vect : Vect) (scalar : BitVec 64) : Vect :=
  (vect.takeWhile (!·.far)).map fun t => { t with value := scalar * t.value }

def scalarvect (scalar : BitVec 64) : Vect := [⟨.simple, scalar⟩]

def unknownExpr : Vect := [⟨.unknown, 1⟩]

-- ---------------------------------------------------------------------------
-- Expressions
-- ---------------------------------------------------------------------------

/-- The current token, and the read pointer behind it. -/
structure Scan where
  tt : Token
  bufptr : Text

def scan (tables : RegTables) (bufptr : Text) : Scan :=
  let (tt, bufptr) := getToken tables.hash bufptr
  ⟨tt, bufptr⟩

def Token.op? {α : Type} (f : Char → Option α) : Token → Option α
  | .char c => f c
  | _ => none

/-- What an operator on numbers makes of a vector. -/
def onSimple (f : BitVec 64 → BitVec 64) (e : Vect) : Option Vect :=
  if isJustUnknown e then some unknownExpr
  else if isSimple e then some (scalarvect (f (relocValue e)))
  else none

/-- What a sign of `expr6` makes of the operand behind it. -/
def sign (c : Char) : Option (Vect → Option Vect) :=
  if c = '-' then some fun e => some (scalarMult e (-1))
  else if c = '+' then some some
  else if c = '~' then some (onSimple (~~~·))
  else if c = '!' then some (onSimple fun x => if x = 0 then 1 else 0)
  else none

def atom : Token → Option Vect
  | .num x => some (scalarvect x)
  | .keyword (.reg r) => some [⟨.reg r, 1⟩]
  | .keyword .id | .keyword (.insn _) => some unknownExpr
  | _ => none

section
variable (tables : RegTables)

def expr6 : Nat → Scan → Option (Vect × Scan)
  | 0, _ => none
  | n + 1, s =>
    match s.tt.op? sign with
    | some f => do
      let (e, s) ← expr6 n (scan tables s.bufptr)
      let e ← f e
      some (e, s)
    | none => do
      let e ← atom s.tt
      some (e, scan tables s.bufptr)

end

def multiply (e f : Vect) : Option Vect :=
  if isSimple e then some (scalarMult f (relocValue e))
  else if isSimple f then some (scalarMult e (relocValue f))
  else if isJustUnknown e && isJustUnknown f then some unknownExpr
  else none

def divide (op : BitVec 64 → BitVec 64 → BitVec 64) (e f : Vect) : Option Vect :=
  if !((isSimple e || isJustUnknown e) && (isSimple f || isJustUnknown f)) then none
  else if !isJustUnknown f && relocValue f = 0 then none
  else if isJustUnknown e || isJustUnknown f then some unknownExpr
  else some (scalarvect (op (relocValue e) (relocValue f)))

/-- The operators of `expr5`. -/
def product (c : Char) : Option (Vect → Vect → Option Vect) :=
  if c = '*' then some multiply
  else if c = '/' then some (divide (· / ·))
  else if c = '%' then some (divide (· % ·))
  else none

section
variable (tables : RegTables)

def expr5Loop : Nat → Vect → Scan → Option (Vect × Scan)
  | 0, _, _ => none
  | n + 1, e, s =>
    match s.tt.op? product with
    | some f => do
      let (e', s) ← expr6 tables n (scan tables s.bufptr)
      let e ← f e e'
      expr5Loop n e s
    | none => some (e, s)

def expr5 (n : Nat) (s : Scan) : Option (Vect × Scan) := do
  let (e, s) ← expr6 tables n s
  expr5Loop tables n e s

/-- The operators of `expr4`. -/
def sum (c : Char) : Option (Vect → Vect → Vect) :=
  if c = '+' then some (addVectors tables)
  else if c = '-' then some fun e f => addVectors tables e (scalarMult f (-1))
  else none

def expr4Loop : Nat → Vect → Scan → Option (Vect × Scan)
  | 0, _, _ => none
  | n + 1, e, s =>
    match s.tt.op? (sum tables) with
    | some f => do
      let (e', s) ← expr5 tables n (scan tables s.bufptr)
      expr4Loop n (f e e') s
    | none => some (e, s)

def expr4 (n : Nat) (s : Scan) : Option (Vect × Scan) := do
  let (e, s) ← expr5 tables n s
  expr4Loop tables n e s

section
variable (next : Nat → Scan → Option (Vect × Scan)) (op : Char → Option (Vect → Vect → Vect))

/-- The loop of a level of the grammar above `next`. -/
def levelLoop : Nat → Vect → Scan → Option (Vect × Scan)
  | 0, _, _ => none
  | n + 1, e, s =>
    match s.tt.op? op with
    | some f => do
      let (e', s) ← next n (scan tables s.bufptr)
      levelLoop n (f e e') s
    | none => some (e, s)

def level (n : Nat) (s : Scan) : Option (Vect × Scan) := do
  let (e, s) ← next n s
  levelLoop tables next op n e s

end

/-- An operator on the bits; what is no number is zero, behind the error. -/
def bitwise (f : BitVec 64 → BitVec 64 → BitVec 64) (mark c : Char) :
    Option (Vect → Vect → Vect) :=
  if c = mark then some fun e e' =>
    if isJustUnknown e || isJustUnknown e' then unknownExpr
    else scalarvect (f (relocValue e) (relocValue e'))
  else none

/-- A comparison of `rexp3`, by the difference. -/
def compareBy (holds : BitVec 64 → Bool) (e e' : Vect) : Vect :=
  let e := addVectors tables e (scalarMult e' (-1))
  if isUnknown e then unknownExpr
  else scalarvect (if isReallySimple e && holds (relocValue e) then 1 else 0)

/-- The operators of `rexp3`. -/
def relation (c : Char) : Option (Vect → Vect → Vect) :=
  if c = '=' then some (compareBy tables (· = 0))
  else if c = '<' then some (compareBy tables (·.slt 0))
  else if c = '>' then some (compareBy tables (BitVec.slt 0))
  else none

def expr2 : Nat → Scan → Option (Vect × Scan) := level tables (expr4 tables) (bitwise (· &&& ·) '&')
def expr1 : Nat → Scan → Option (Vect × Scan) := level tables (expr2 tables) (bitwise (· ^^^ ·) '^')
def expr0 : Nat → Scan → Option (Vect × Scan) := level tables (expr1 tables) (bitwise (· ||| ·) '|')
def rexp3 : Nat → Scan → Option (Vect × Scan) := level tables (expr0 tables) (relation tables)

def Token.isQmark : Token → Bool
  | .keyword (.other type _) => type = '?'.toNat
  | _ => false

def cexpr : Nat → Scan → Option (Vect × Scan)
  | 0, _ => none
  | n + 1, s => do
    let (e, s) ← rexp3 tables (n + 1) s
    if s.tt.isQmark then
      let (f, s) ← cexpr n (scan tables s.bufptr)
      if s.tt = .char ':' then
        let (g, s) ← cexpr n (scan tables s.bufptr)
        let e :=
          if isSimple e then if relocValue e ≠ 0 then f else g
          else if isJustUnknown e then unknownExpr
          else e
        some (e, s)
      else none
    else some (e, s)

/-- A bound on the tokens of a text: each has a character that is no blank. -/
def Scan.fuel (s : Scan) : Nat := (s.bufptr.filter (!nasmIsspace ·)).length + 2

def evaluate (s : Scan) : Option (Vect × Scan) := do
  let (e, s) ← cexpr tables s.fuel s
  some (scalarMult e 1, s)

end

-- ---------------------------------------------------------------------------
-- Memory references
-- ---------------------------------------------------------------------------

/-- What `parse_mref` sets of `struct operand`; -1 and `NO_SEG` are `none`. -/
structure MemRef where
  basereg : Option Reg := none
  indexreg : Option Reg := none
  scale : BitVec 32 := 0
  offset : BitVec 64 := 0
  segment : Option Nat := none
  wrt : Option (BitVec 64) := none
  unknown : Bool := false
  relative : Bool := false
  deriving DecidableEq

/-- A step of `parse_mref`, with the segment of `location`. -/
def parseMrefTerm (location : Option Nat) (op : MemRef) (e : Term) : Option MemRef :=
  match e.type with
  | .reg r =>
    if OpFlags.isClass OpFlags.regGpr r.flags && e.value = 1 && op.basereg.isNone then
      some { op with basereg := some r }
    else if op.indexreg.isNone then
      some { op with indexreg := some r, scale := e.value.setWidth 32 }
    else none
  | .unknown => some { op with unknown := true }
  | .simple => some { op with offset := op.offset + e.value }
  | .wrt => some { op with wrt := some e.value }
  | .segbase seg =>
    if e.value = 1 then
      if op.segment.isSome then none else some { op with segment := some seg }
    else if e.value = -1 && location = some seg && !op.relative then
      some { op with relative := true }
    else none
  | .rdsae => none

def parseMref (location : Option Nat) (op : MemRef) (e : Vect) : Option MemRef :=
  e.foldlM (parseMrefTerm location) op

/-- A memory operand in `one_insn_gen`, with the read pointer behind the bracket;
the segment of `location` is `NO_SEG`. -/
def parseMemoryOpnd (tables : RegTables) (bufptr : Text) : Option (MemRef × Text) := do
  let s := scan tables bufptr
  if s.tt = .char '[' then
    let (value, s) ← evaluate tables (scan tables s.bufptr)
    if s.tt = .char ']' then
      let op ← parseMref none {} value
      some (op, s.bufptr)
    else none
  else none

end Btrtg
