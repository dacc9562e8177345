import Btrtg.Buf2Token
import Btrtg.GenData
import Btrtg.Lib.CMemory

/-!
# The strings of nasmlib

The functions of string.c that write: `nasm_strrplc`, which substitutes a text
for a part of another in place, and `nasm_trim`. The buffer of the generator is
changed through the first, and every name that a template gives is read through
the second.
-/

namespace Btrtg.CMem

-- ---------------------------------------------------------------------------
-- Substitution
-- ---------------------------------------------------------------------------

/-- `strlcpyn`, which does not write a NUL. -/
def strlcpyn (mem : CMem) (dst src siz : Nat) : Option CMem :=
  if src < dst ∧ src + siz > dst then copyBackward mem dst src siz
  else copyForward mem dst src siz

/-- `nasm_strrplc`. The replacement is as long as its string is, `srcSize` is only where
the rest is put. -/
def nasmStrrplc (mem : CMem) (dest : Nat) (destSize : Int) (src : Nat) (srcSize : Int) :
    Option (CMem × Option Nat) :=
  if destSize < 0 ∨ srcSize < 0 then some (mem, none)
  else do
    let rest := dest + destSize.toNat
    let len := (← strlen mem rest) + (← strlen mem src)
    let mem ←
      if srcSize ≤ destSize then do
        let mem ← strlcpyn mem dest src (← strlen mem src)
        strlcpyn mem (dest + srcSize.toNat) rest (← strlen mem rest)
      else do
        let mem ← strlcpyn mem (dest + srcSize.toNat) rest (← strlen mem rest)
        strlcpyn mem dest src (← strlen mem src)
    let mem ← put mem (dest + len) nul
    return (mem, some dest)

/-- `preappend_mem_size`; `memsize` is where the texts of its table stand. -/
def preappendMemSize (memsize : SizeWord → Nat) (mem : CMem) (asmMem : Nat)
    (opndsize : OpFlags) : Option (CMem × Option Nat) := do
  let i := memsize (Btrtg.preappendMemSize opndsize)
  nasmStrrplc mem asmMem 0 i (← strlen mem i)

-- ---------------------------------------------------------------------------
-- Blanks
-- ---------------------------------------------------------------------------

/-- The loop of `nasm_zap_spaces_fwd`; the fuel is what is left of the memory. -/
def zapFwdFrom (mem : CMem) : Nat → Nat → Option (CMem × Nat)
  | 0, _ => none
  | fuel + 1, p =>
    match mem[p]? with
    | none => none
    | some c =>
      if c ≠ nul && nasmIsspace c then zapFwdFrom (mem.set p nul) fuel (p + 1)
      else some (mem, p)

def nasmZapSpacesFwd (mem : CMem) (p : Nat) : Option (CMem × Nat) :=
  zapFwdFrom mem (mem.length + 1 - p) p

/-- `nasm_skip_string`: the next line end or NUL. -/
def nasmSkipString (mem : CMem) (p : Nat) : Option Nat :=
  let n := ((mem.drop p).takeWhile fun c => c ≠ nul && c ≠ '\n').length
  if p + n < mem.length then some (p + n) else none

/-- `nasm_zap_spaces_rev`. The argument and the result are the characters up to the pointer,
its own among them: a pointer below the memory has none, and its access is a fault. -/
def nasmZapSpacesRev (mem : CMem) : Nat → Option (CMem × Nat)
  | 0 => none
  | p + 1 =>
    match mem[p]? with
    | none => none
    | some c =>
      if c ≠ nul && nasmIsspace c then nasmZapSpacesRev (mem.set p nul) p
      else some (mem, p + 1)

def nasmTrim (mem : CMem) (p : Nat) : Option (CMem × Nat) := do
  let (mem, p) ← nasmZapSpacesFwd mem p
  let (mem, _) ← nasmZapSpacesRev mem (← nasmSkipString mem p)
  return (mem, p)

end Btrtg.CMem
