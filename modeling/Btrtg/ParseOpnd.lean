import Btrtg.Eval

/-!
# Parsed operands

An operand of `one_insn_gen`, from its first token to the one behind it.
-/

namespace Btrtg

open OpFlags

/-- `is_reloc`, with no segment at the location. -/
def isReloc (v : Vect) : Bool := go false v
where
  go (hasSeg : Bool) : Vect → Bool
    | [] => true
    | t :: v =>
      if t.value = 0 then go hasSeg v
      else match t.type with
        | .reg _ | .unknown | .rdsae => false
        | .simple | .wrt => go hasSeg v
        | .segbase _ =>
          if t.value = 1 then if hasSeg then false else go true v
          else if t.value = -1 then false
          else go hasSeg v

def relocSeg (v : Vect) : Option Nat :=
  v.findSome? fun t =>
    match t.type with
    | .segbase seg => if t.value = 1 then some seg else none
    | _ => none

def relocWrt (v : Vect) : Option (BitVec 64) :=
  v.findSome? fun t => if t.type = .wrt then some t.value else none

structure Operand where
  type : OpFlags
  mref : MemRef
  deriving DecidableEq

/-- The size specifiers: a word of a size counts when it is the first. -/
def sizeSpecifier (type : OpFlags) (setsize : Bool) : Special → OpFlags × Bool
  | .byte => size bits8
  | .word => size bits16
  | .dword | .long => size bits32
  | .qword => size bits64
  | .tword => size bits80
  | .oword => size bits128
  | .yword => size bits256
  | .zword => size bits512
  | .to => (type ||| modTo, setsize)
  | .strict => (type ||| strict, setsize)
  | .far => (type ||| far, setsize)
  | .near => (type ||| near, setsize)
  | .short => (type ||| short, setsize)
  | .abs | .nosplit | .rel => (type, setsize)
where
  size (bits : OpFlags) : OpFlags × Bool := (if setsize then type else type ||| bits, true)

def sizeSpecifiers (tables : RegTables) :
    Nat → OpFlags → Bool → Scan → Option (OpFlags × Scan)
  | 0, _, _, _ => none
  | n + 1, type, setsize, s =>
    match s.tt with
    | .keyword (.special w) =>
      let (type, setsize) := sizeSpecifier type setsize w
      sizeSpecifiers tables n type setsize (scan tables s.bufptr)
    | _ => some (type, s)

/-- `mref_set_optype`, in 32 bits. -/
def mrefSetOptype (type : OpFlags) (m : MemRef) : OpFlags :=
  let type := type ||| memoryAny
  let type := if m.basereg.isNone && (m.indexreg.isNone || m.scale = 0) then type ||| memOffs
    else type
  match m.indexreg with
  | none => type
  | some r =>
    if isClass xmmreg r.flags then type ||| xmem
    else if isClass ymmreg r.flags then type ||| ymem
    else if isClass zmmreg r.flags then type ||| zmem
    else type

def parseMemory (tables : RegTables) (bracket : Bool) (type : OpFlags) (s : Scan) :
    Option (Operand × Scan) := do
  let (value, s) ← evaluate tables s
  let s := if bracket && s.tt = .char ']' then scan tables s.bufptr else s
  let m ← parseMref none {} value
  some (⟨mrefSetOptype type m, m⟩, s)

def parseValue (tables : RegTables) (type : OpFlags) (s : Scan) : Option (Operand × Scan) := do
  let (value, s) ← evaluate tables s
  if isReloc value then
    let m : MemRef := {
      offset := relocValue value
      segment := relocSeg value
      wrt := relocWrt value }
    some (⟨type ||| immediate, m⟩, s)
  else
    match value with
    | ⟨.reg r, x⟩ :: _ =>
      if x = 1 then some (⟨(type &&& modTo) ||| register ||| r.flags, { basereg := some r }⟩, s)
      else none
    | _ => none

def parseSized (tables : RegTables) (type : OpFlags) (s : Scan) : Option (Operand × Scan) :=
  if s.tt = .char '[' then parseMemory tables true type (scan tables s.bufptr)
  else if s.tt = .char '&' then parseMemory tables false type (scan tables s.bufptr)
  else parseValue tables type s

/-- The body of the operand loop behind `gen_operand`; no operand where the program
ends. -/
def parseOpnd (tables : RegTables) (s : Scan) : Option (Operand × Scan) := do
  let (type, s) ← sizeSpecifiers tables s.fuel 0 false s
  parseSized tables type s

/-- The size words of `preappend_mem_size`. -/
def sizeWords : List (String × Special) :=
  [("byte", .byte), ("word", .word), ("dword", .dword), ("qword", .qword), ("tword", .tword)]

structure InsnTables extends RegTables where
  hash_size : ∀ p ∈ sizeWords, hash p.1.toList = (.special p.2, false)

end Btrtg
