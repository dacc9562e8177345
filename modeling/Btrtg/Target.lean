import Btrtg.BcdLaws
import Btrtg.MemRange

/-!
# The target

What a generated test runs on, as far as the initialisation of an instruction
uses it: the general registers, the x87 stack, the packed registers and the
memory. An entry that cannot be assembled, such as a `mov` of an immediate to a
segment register, fails.
-/

namespace Btrtg

open Bytes

-- ---------------------------------------------------------------------------
-- General registers
-- ---------------------------------------------------------------------------

/-- The bits of a 32-bit register that a register is a name of. -/
structure Part where
  file : Fin 8
  off : Nat
  width : Nat

def Reg.part? : Reg → Option Part
  | .al => some ⟨0, 0, 8⟩ | .cl => some ⟨1, 0, 8⟩ | .dl => some ⟨2, 0, 8⟩ | .bl => some ⟨3, 0, 8⟩
  | .ah => some ⟨0, 8, 8⟩ | .ch => some ⟨1, 8, 8⟩ | .dh => some ⟨2, 8, 8⟩ | .bh => some ⟨3, 8, 8⟩
  | .ax => some ⟨0, 0, 16⟩ | .cx => some ⟨1, 0, 16⟩ | .dx => some ⟨2, 0, 16⟩
  | .bx => some ⟨3, 0, 16⟩ | .sp => some ⟨4, 0, 16⟩ | .bp => some ⟨5, 0, 16⟩
  | .si => some ⟨6, 0, 16⟩ | .di => some ⟨7, 0, 16⟩
  | .eax => some ⟨0, 0, 32⟩ | .ecx => some ⟨1, 0, 32⟩ | .edx => some ⟨2, 0, 32⟩
  | .ebx => some ⟨3, 0, 32⟩ | .esp => some ⟨4, 0, 32⟩ | .ebp => some ⟨5, 0, 32⟩
  | .esi => some ⟨6, 0, 32⟩ | .edi => some ⟨7, 0, 32⟩
  | _ => none

namespace Part

def Apart (p q : Part) : Prop :=
  p.file ≠ q.file ∨ p.off + p.width ≤ q.off ∨ q.off + q.width ≤ p.off

instance (p q : Part) : Decidable (p.Apart q) := inferInstanceAs (Decidable (_ ∨ _ ∨ _))

def get (p : Part) (x : BitVec 32) : BitVec 32 := (x.extractLsb' p.off p.width).setWidth 32

/-- `x` with the low bits of `v` for the part. -/
def set (p : Part) (x v : BitVec 32) : BitVec 32 :=
  let mask := (BitVec.allOnes p.width).setWidth 32 <<< p.off
  (x &&& ~~~mask) ||| (v <<< p.off &&& mask)

end Part

-- ---------------------------------------------------------------------------
-- The x87 stack
-- ---------------------------------------------------------------------------

/-- An empty register holds nothing. -/
structure Fpu where
  top : Fin 8
  phys : Fin 8 → Option (BitVec 80)

namespace Fpu

/-- What a masked stack fault leaves in a register. -/
def indefinite : BitVec 80 := 0xffffc000000000000000

def st (f : Fpu) (i : Fin 8) : Option (BitVec 80) := f.phys (f.top + i)

def put (f : Fpu) (i : Fin 8) (x : Option (BitVec 80)) : Fpu :=
  { f with phys := Function.update f.phys (f.top + i) x }

def read (f : Fpu) (i : Fin 8) : BitVec 80 := (f.st i).getD indefinite

/-- `ffree`. -/
def free (f : Fpu) (i : Fin 8) : Fpu := f.put i none

/-- `fst`. -/
def store (f : Fpu) (i : Fin 8) : Fpu := f.put i (some (f.read 0))

/-- `fstp st0`. -/
def pop (f : Fpu) : Fpu := { f.free 0 with top := f.top + 1 }

/-- `fld`; a register that is not empty is a stack fault. -/
def push (f : Fpu) (x : BitVec 80) : Fpu :=
  let g : Fpu := { f with top := f.top - 1 }
  g.put 0 (some (if (g.st 0).isSome then indefinite else x))

/-- `fxch`. -/
def exchange (f : Fpu) (i : Fin 8) : Fpu := (f.put 0 (some (f.read i))).put i (some (f.read 0))

end Fpu

-- ---------------------------------------------------------------------------
-- The machine
-- ---------------------------------------------------------------------------

/-- The addresses that the linker gives, and what `fld` makes of a number. -/
structure Layout where
  data : Nat → BitVec 32
  floatData : BitVec 32
  single : BitVec 32 → BitVec 80
  double : BitVec 64 → BitVec 80

structure Target where
  gpr : Fin 8 → BitVec 32
  fpu : Fpu
  packed : Reg → List Byte
  mem : Memory 32

namespace Target

def reg (t : Target) (r : Reg) : BitVec 32 :=
  match r.part? with
  | some p => p.get (t.gpr p.file)
  | none => 0

def setReg (t : Target) (r : Reg) (v : BitVec 32) : Option Target :=
  match r.part? with
  | some p => some { t with gpr := Function.update t.gpr p.file (p.set (t.gpr p.file) v) }
  | none => none

def address (L : Layout) (t : Target) : Place → BitVec 32
  | .floatData => L.floatData
  | .opnd m => m.address t.reg L.data

def loadPacked (L : Layout) (t : Target) (r : Reg) (p : Place) (n : Nat) : Target :=
  { t with packed := Function.update t.packed r (load t.mem (t.address L p) n) }

/-- One line of a text. -/
def step (L : Layout) (t : Target) : Line → Option Target
  | .lea r data => t.setReg r (L.data data)
  | .movIndex r value => t.setReg r (.ofNat 32 value)
  | .leaSpecific r data => t.setReg r (L.data data)
  | .store size p off value =>
    match size.bytes? with
    | some n =>
      some { t with mem := store t.mem (t.address L p + .ofNat 32 off) (leBytes n value.toNat) }
    | none => none
  | .ffree (.st i) => some { t with fpu := t.fpu.free i }
  | .fst (.st i) => some { t with fpu := t.fpu.store i }
  | .fstpSt0 => some { t with fpu := t.fpu.pop }
  | .fld size p =>
    if size = "dword" then
      some { t with fpu := t.fpu.push (L.single (word 32 (load t.mem (t.address L p) 4))) }
    else if size = "qword" then
      some { t with fpu := t.fpu.push (L.double (word 64 (load t.mem (t.address L p) 8))) }
    else none
  | .fxch (.st i) => some { t with fpu := t.fpu.exchange i }
  | .movq r p => some (t.loadPacked L r p 8)
  | .movups r p | .movupd r p => some (t.loadPacked L r p 16)
  | .push value =>
    let esp := t.gpr 4 - 4
    some { t with gpr := Function.update t.gpr 4 esp, mem := store t.mem esp (leBytes 4 value.toNat) }
  | .ffree _ | .fst _ | .fxch _ => none

/-- One entry of an initialisation; `mov` is the only instruction in it. -/
def exec (L : Layout) (t : Target) : Entry → Option Target
  | .lines ls => ls.foldlM (step L) t
  | .insn ⟨.mov, [(_, .reg r), (_, .imm v)], _⟩ => t.setReg r v
  | .label _ => some t
  | _ => none

def execAll (L : Layout) (t : Target) (es : List Entry) : Option Target := es.foldlM (exec L) t

end Target

end Btrtg
