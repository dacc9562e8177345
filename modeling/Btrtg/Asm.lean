import Btrtg.Opcode

/-!
# The generated text

What the generator writes, as data with its text beside it: the operands of
an assembled instruction, the lines of the set-up texts, and the entries of
the instruction list.
-/

namespace Btrtg

/-- `%x` of `printf`. -/
def hex (n : Nat) : String := String.ofList (Nat.toDigits 16 n)

-- ---------------------------------------------------------------------------
-- Memory operands
-- ---------------------------------------------------------------------------

/-- A memory operand as `create_random_modrm` writes it, one constructor for
each `SIB_MODE`. The fields are what was drawn for it: the registers, the data
block, and the value the index register is to hold. -/
inductive ModRM
  | d (data : Nat)
  | b (base : Reg) (data : Nat)
  | bd (base : Reg) (data disp : Nat)
  | isd (index : Reg) (scale data value : Nat)
  | bid (base index : Reg) (data value disp : Nat)
  | bisd (base index : Reg) (scale data value disp : Nat)
  deriving DecidableEq, Repr

namespace ModRM

/-- The text between the brackets. -/
def inner : ModRM → String
  | d data => s!"data{data}"
  | b base _ => base.name
  | bd base _ disp => s!"{base.name} + 0x{hex disp}"
  | isd index scale data _ => s!"{index.name}*{scale} + data{data}"
  | bid base index _ _ disp => s!"{base.name} + {index.name} + 0x{hex disp}"
  | bisd base index scale _ _ disp =>
    s!"{base.name} + {index.name}*{scale} + 0x{hex disp}"

def text (m : ModRM) : String := s!"[{m.inner}]"

def base? : ModRM → Option Reg
  | d _ | isd .. => none
  | b base _ | bd base .. | bid base .. | bisd base .. => some base

def index? : ModRM → Option Reg
  | d _ | b .. | bd .. => none
  | isd index .. | bid _ index .. | bisd _ index .. => some index

def usesReg (m : ModRM) : Bool := m.base?.isSome || m.index?.isSome

/-- `opnd_seed->has_label`: the text names a data label. -/
def hasLabel : ModRM → Bool
  | d _ | isd .. => true
  | _ => false

end ModRM

-- ---------------------------------------------------------------------------
-- Set-up texts
-- ---------------------------------------------------------------------------

/-- The size words of `preappend_mem_size`. -/
inductive SizeWord
  | byte | word | dword | qword | tword | blank
  deriving DecidableEq, Repr

def SizeWord.text : SizeWord → String
  | .byte => "byte " | .word => "word " | .dword => "dword "
  | .qword => "qword" | .tword => "tword" | .blank => " "

/-- Where a set-up text stores: the scratch buffer `float_data`, or the memory
operand itself. -/
inductive Place
  | floatData
  | opnd (m : ModRM)
  deriving DecidableEq, Repr

def Place.inner : Place → String
  | .floatData => "float_data"
  | .opnd m => m.inner

inductive Line
  | lea (r : Reg) (data : Nat)
  | movIndex (r : Reg) (value : Nat)
  | leaSpecific (r : Reg) (data : Nat)
  | store (size : SizeWord) (p : Place) (off : Nat) (value : BitVec 32)
  | ffree (r : Reg)
  | fst (r : Reg)
  | fstpSt0
  | fld (size : String) (p : Place)
  | fxch (r : Reg)
  | movq (r : Reg) (p : Place)
  | movups (r : Reg) (p : Place)
  | movupd (r : Reg) (p : Place)
  | push (value : BitVec 32)
  deriving DecidableEq, Repr

namespace Line

/-- The text, with one blank before a register, whatever its operand is written with. -/
def text : Line → String
  | lea r data => s!"  lea {r.name}, data{data}"
  | movIndex r value => s!"  mov {r.name}, 0x{hex value}"
  | leaSpecific r data => s!"  lea {r.name},data{data}"
  | store size p off value =>
    let at_ := if off = 0 then p.inner else s!"{p.inner} + 0x{hex off}"
    s!"  mov {size.text}[{at_}], 0x{hex value.toNat}"
  | ffree r => s!"  ffree {r.name}"
  | fst r => s!"  fst {r.name}"
  | fstpSt0 => "  fstp st0"
  | fld size p => s!"  fld {size} [{p.inner}]"
  | fxch r => s!"  fxch {r.name}"
  | movq r p => s!"  movq qword {r.name}, [{p.inner}]"
  | movups r p => s!"  movups {r.name}, [{p.inner}]"
  | movupd r p => s!"  movupd {r.name}, [{p.inner}]"
  | push value => s!"  push 0x{hex value.toNat}"

end Line

/-- `init_mem_addr` as `create_random_modrm` leaves it for this operand. -/
def ModRM.setup : ModRM → List Line
  | d _ => []
  | b base data => [.lea base data]
  | bd base data _ => [.lea base data]
  | isd index _ _ value => [.movIndex index value]
  | bid base index data value _ => [.lea base data, .movIndex index value]
  | bisd base index _ data value _ => [.lea base data, .movIndex index value]

-- ---------------------------------------------------------------------------
-- Instructions
-- ---------------------------------------------------------------------------

/-- An operand as it is parsed back from the token buffer. -/
inductive Opnd
  | reg (r : Reg)
  | imm (value : BitVec 32)
  | mem (m : ModRM)
  deriving DecidableEq, Repr

def Opnd.text : Opnd → String
  | .reg r => r.name
  | .imm v => s!"0x{hex v.toNat}"
  | .mem m => m.text

/-- An instruction; each operand with the size word before it. With `ctrl` the
text stands for it, since an operand names a label. -/
structure Insn where
  opcode : Opcode
  opnds : List (Option SizeWord × Opnd)
  ctrl : Bool
  deriving DecidableEq, Repr

/-- The text, but for the blanks of the template and the one before a register of a
numbered file (`Opnd.asmOpnd`). -/
def Insn.text (i : Insn) : String :=
  s!"  {i.opcode.name} " ++
    ",".intercalate (i.opnds.map fun (size, o) => (size.elim "" SizeWord.text) ++ o.text)

-- ---------------------------------------------------------------------------
-- Entries
-- ---------------------------------------------------------------------------

/-- An entry of the instruction list. All but `insn` are control texts. -/
inductive Entry
  | insn (i : Insn)
  | lines (ls : List Line)
  | check (cType : String)
  | label (n : Nat)
  | jmp (n : Nat)
  | jcc (op : Opcode) (n : Nat)
  | loop (op : Opcode) (n : Nat)
  | movEcx (times : BitVec 32)
  | call (n : Nat)
  | ret
  deriving DecidableEq, Repr

namespace Entry

def text : Entry → String
  | insn i => i.text
  | lines ls => "\n".intercalate (ls.map Line.text)
  | check cType => s!"  check {cType}"
  | label n => s!"label{n}:"
  | jmp n => s!"  jmp label{n}"
  | jcc op n => s!"  {op.name} label{n}"
  | loop op n => s!"  {op.name} label{n}"
  | movEcx times => s!"  mov ecx,0x{hex times.toNat}"
  | call n => s!"  call label{n}"
  | ret => "  ret"

/-- The entry is one of those that only the control-transfer code inserts. -/
def isCtrl : Entry → Bool
  | insn _ | lines _ | check _ => false
  | _ => true

def target? : Entry → Option Nat
  | jmp n | jcc _ n | loop _ n | call n => some n
  | _ => none

end Entry

end Btrtg
