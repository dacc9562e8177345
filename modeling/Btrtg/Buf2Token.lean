import Btrtg.Opcode
import Btrtg.Transform

/-!
# The scanner

`get_token` over the text from the read pointer on, with the character classes
and the number reader it uses. The table of `nasm_token_hash` is generated when
the program is built, and is a parameter.
-/

namespace Btrtg

-- ---------------------------------------------------------------------------
-- Character classes
-- ---------------------------------------------------------------------------

def isalpha (c : Char) : Bool := c.isUpper || c.isLower

/-- `nasm_isidstart`: a letter, one of four marks, or a character beyond ASCII. -/
def nasmIsidstart (c : Char) : Bool :=
  isalpha c || c = '_' || c = '.' || c = '@' || c = '?' || 128 ≤ c.toNat

def nasmIsidchar (c : Char) : Bool :=
  nasmIsidstart c || c.isDigit || c = '$' || c = '#' || c = '~'

def nasmIsnumstart (c : Char) : Bool := c.isDigit || c = '$'

def nasmIsnumchar (c : Char) : Bool := c.isDigit || isalpha c || c = '_'

def nasmSkipSpaces (p : Text) : Text := p.dropWhile nasmIsspace

-- ---------------------------------------------------------------------------
-- Numbers
-- ---------------------------------------------------------------------------

def libIsnumchar (c : Char) : Bool := c.isDigit || isalpha c || c = '$' || c = '_'

def radixLetter (c : Char) : Nat :=
  if c ∈ ['b', 'B', 'y', 'Y'] then 2
  else if c ∈ ['o', 'O', 'q', 'Q'] then 8
  else if c ∈ ['h', 'H', 'x', 'X'] then 16
  else if c ∈ ['d', 'D', 't', 'T'] then 10
  else 0

def numvalue (c : Char) : Nat :=
  let c := c.toNat ||| 0x20
  if 'a'.toNat ≤ c then c - 'a'.toNat + 10 else c - '0'.toNat

def readDigits (radix : Nat) (result : BitVec 64) : Text → Option (BitVec 64)
  | [] => some result
  | c :: cs =>
    if c = '_' then readDigits radix result cs
    else if c < '0' || ('9' < c && c < 'A') || radix ≤ numvalue c then none
    else readDigits radix (.ofNat 64 radix * result + .ofNat 64 (numvalue c)) cs

/-- The radix and the length of a prefix: `0` with a letter, or `$`. -/
def prefixRadix (num : Text) : Nat × Nat :=
  match num with
  | '0' :: c :: _ :: _ => if radixLetter c ≠ 0 then (radixLetter c, 2) else (0, 0)
  | '$' :: _ :: _ => (16, 1)
  | _ => (0, 0)

def readnum (str : Text) : Option (BitVec 64) :=
  let r := nasmSkipSpaces str
  let (neg, r) := match r with
    | '-' :: cs => (true, cs)
    | cs => (false, cs)
  let num := r.takeWhile libIsnumchar
  if num = [] then none
  else
    let (pradix, plen) := prefixRadix num
    let sradix := if 1 < num.length then (num.getLast?.map radixLetter).getD 0 else 0
    let result :=
      if sradix < pradix then readDigits pradix 0 (num.drop plen)
      else if pradix < sradix then readDigits sradix 0 num.dropLast
      else readDigits 10 0 num
    result.map fun n => if neg then -n else n

-- ---------------------------------------------------------------------------
-- Tokens
-- ---------------------------------------------------------------------------

/-- The words of `TOKEN_SIZE` and `TOKEN_SPECIAL`. -/
inductive Special
  | byte | word | dword | qword | tword | oword | yword | zword
  | abs | far | long | near | nosplit | rel | short | strict | to
  deriving DecidableEq

/-- The types in the table of `nasm_token_hash`; `id` is the type of what it does
not hold. A prefix has its slot. -/
inductive Keyword
  | id
  | reg (r : Reg)
  | insn (op : Opcode)
  | special (s : Special)
  | slot (n : Nat)
  | other (type : Nat) (integer : Int)
  deriving DecidableEq

/-- What `get_token` returns, with the value it leaves. -/
inductive Token
  | eos
  | keyword (k : Keyword)
  | num (integer : BitVec 64)
  | errnum
  | char (c : Char)
  deriving DecidableEq

/-- `nasm_token_hash`, with the flag `TFLAG_BRC` of the entry. -/
abbrev TokenHash := Text → Keyword × Bool

def idlenMax : Nat := 4096

def getToken (hash : TokenHash) (bufptr : Text) : Token × Text :=
  match nasmSkipSpaces bufptr with
  | [] => (.eos, [])
  | c :: cs =>
    if nasmIsidstart c then
      let (k, brc) := hash ((c :: cs.takeWhile nasmIsidchar).take (idlenMax - 1))
      (.keyword (if brc then .id else k), cs.dropWhile nasmIsidchar)
    else if nasmIsnumstart c then
      match readnum ((c :: cs).takeWhile nasmIsnumchar) with
      | some n => (.num n, (c :: cs).dropWhile nasmIsnumchar)
      | none => (.errnum, (c :: cs).dropWhile nasmIsnumchar)
    else if c = ';' || c = '\n' then (.eos, c :: cs)
    else (.char c, cs)

end Btrtg
