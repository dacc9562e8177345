import Btrtg.Eval

/-!
# Operand texts

The readers of asmlib.c: an operand is cut out of a text up to the next comma,
and named by a type, a register or neither.
-/

namespace Btrtg

open OpFlags

def opndIds : List (Text × OpFlags) :=
  [("reg".toList, regGpr), ("mem".toList, memory), ("memory_offs".toList, memOffs),
    ("imm".toList, immediate), ("rm".toList, rmGpr), ("unity".toList, unity),
    ("sbyteword".toList, sbyteword), ("sbytedword".toList, sbytedword),
    ("reg_sreg".toList, regSreg), ("reg_creg".toList, regCreg), ("reg_dreg".toList, regDreg),
    ("fpureg".toList, fpureg), ("fpu".toList, fpu0), ("mmxreg".toList, mmxreg),
    ("mmxmem".toList, memory ||| regClassRmMmx), ("mmxrm".toList, rmMmx),
    ("xmmreg".toList, xmmreg), ("xmmmem".toList, memory ||| regClassRmXmm)]

def opndSizeFlags (n : BitVec 64) : OpFlags :=
  if n = 8 then bits8
  else if n = 16 then bits16
  else if n = 32 then bits32
  else if n = 64 then bits64
  else if n = 80 then bits80
  else if n = 128 then bits128
  else if n = 256 then bits256
  else if n = 512 then bits512
  else 0

def opndSize (digits : Text) : BitVec 64 :=
  digits.foldl (fun n c => n * 10 + .ofNat 64 (c.toNat - '0'.toNat)) 0

def parseAsmOpndTypeOpflags (asmOpnd : Text) : OpFlags :=
  let opndId := asmOpnd.takeWhile (!·.isDigit)
  match opndIds.find? (·.1 = opndId) with
  | none => 0
  | some (_, opflags) =>
    opflags ||| opndSizeFlags (opndSize ((asmOpnd.dropWhile (!·.isDigit)).takeWhile (·.isDigit)))

def parseAsmOpndOpflags (tables : RegTables) (asmOpnd : Text) : OpFlags :=
  match (tables.hash asmOpnd).1 with
  | .reg r => r.flags
  | _ => 0

def asmIsBlank (asmOpnd : Text) : Bool :=
  match nasmSkipSpaces asmOpnd with
  | [] => true
  | c :: _ => c = '\n'

def asmIsImmediate (asmOpnd : Text) : Bool :=
  let asmOpnd := nasmSkipSpaces asmOpnd
  asmOpnd.head?.any nasmIsnumstart || isClass immediate (parseAsmOpndTypeOpflags asmOpnd)

def endsOpnd (c : Char) : Bool := c = '\n' || c = ','

def copyAsmOpnd (src : Text) : Text := src.takeWhile (!endsOpnd ·)

/-- The operand that a text begins with. -/
def firstOpnd (text : Text) : Text := copyAsmOpnd (nasmSkipSpaces text)

def nasmSkipAComma (p : Text) : Text := (p.dropWhile (· ≠ ',')).drop 1

end Btrtg
