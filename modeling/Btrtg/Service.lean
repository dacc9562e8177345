import Btrtg.Lib.CMemory
import Btrtg.Lib.Loop
import Btrtg.Transform

/-!
# The bare-metal `printf`

service.c: a text is built in a buffer on the stack, through a pointer that moves
behind what was written, and sent up to the first NUL. What the buffer holds before
is whatever the stack held.
-/

namespace Btrtg.Service

open CMem

def maxPrintfStrSize : Nat := 10

/-- `str_cpy`: the string, its NUL, and the length. -/
def strCpy (mem : CMem) (dst : Nat) : Text → Option (CMem × Nat)
  | [] => do
    let mem ← put mem dst nul
    return (mem, 0)
  | c :: src => do
    let mem ← put mem dst c
    let (mem, len) ← strCpy mem (dst + 1) src
    return (mem, len + 1)

-- ---------------------------------------------------------------------------
-- `int2str`
-- ---------------------------------------------------------------------------

def countStep : Int × Int → Option ((Int × Int) ⊕ Int)
  | (tmp, i) =>
    let tmp := tmp.tdiv 10
    some (if tmp ≠ 0 then .inl (tmp, i + 1) else .inr i)

/-- `(val % 10) + '0'`, where a remainder has the sign of its dividend. -/
def digit (val : Int) : Char := Char.ofNat (val.tmod 10 + 48).toNat

/-- A round of the loop that writes, from the memory, `i` and `val`. -/
def digitStep (dst : Nat) : CMem × Int × Int → Option ((CMem × Int × Int) ⊕ CMem)
  | (mem, i, val) => do
    let a := (dst : Int) + i
    let mem ← if a < 0 then none else put mem a.toNat (digit val)
    let val := val.tdiv 10
    return if val ≠ 0 then .inl (mem, i - 1, val) else .inr mem

def int2str (mem : CMem) (dst : Nat) (val : Int) : Option (CMem × Int) := do
  let i ← loop countStep (val.natAbs + 1) (val, 0)
  let cnt := i + 1
  let mem ← loop (digitStep dst) (val.natAbs + 1) (mem, i, val)
  return (mem, cnt)

-- ---------------------------------------------------------------------------
-- `printf`
-- ---------------------------------------------------------------------------

inductive Arg
  | int (v : Int)
  | char (c : Char)
  | str (s : Text)
  deriving DecidableEq, Repr

/-- The loop of `printf`, from the pointer `c`. A `%` at the end of the format makes the
NUL a conversion, and the loop reads on behind it. -/
def printfFrom (mem : CMem) (c : Nat) : Text → List Arg → Option CMem
  | [], _ => some mem
  | k :: p, args =>
    if k ≠ '%' then do
      let mem ← put mem c k
      printfFrom mem (c + 1) p args
    else
      match p, args with
      | 'd' :: p, .int v :: args => do
        let (mem, cnt) ← int2str mem c v
        printfFrom mem (c + cnt.toNat) p args
      | 'c' :: p, .char ch :: args => do
        let mem ← put mem c ch
        printfFrom mem (c + 1) p args
      | 's' :: p, .str s :: args => do
        let (mem, len) ← strCpy mem c s
        printfFrom mem (c + len) p args
      | k :: p, args =>
        if k = 'd' || k = 'c' || k = 's' then none
        else do
          let mem ← put mem c k
          printfFrom mem (c + 1) p args
      | [], _ => none

def printk : CMem → Option Text
  | [] => none
  | c :: mem => if c ≠ nul then (printk mem).map (c :: ·) else some []

def printf (strBuf : CMem) (fmt : Text) (args : List Arg) : Option Text := do
  let strBuf ← printfFrom strBuf 0 fmt args
  printk strBuf

end Btrtg.Service
