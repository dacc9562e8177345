import Btrtg.Asmlib
import Btrtg.Generator
import Btrtg.ParseOpnd

/-!
# The token buffer

`one_insn_gen` over the text in `token_buf`, which every instruction is written
into, scanned and parsed in, and which an instruction of an initialisation
shares with the one it is for.
-/

namespace Btrtg

/-- The generator with the three static variables of buf2token.c and generator.c; the
read pointer is an index. -/
structure TGen extends Gen where
  tokenBuf : Text
  bufptr : Nat
  tokval : Token

abbrev T := Prog Fault TGen

namespace TokenBuf

open Prog OpFlags

/-- What does not touch the buffer. -/
def onGen {α : Type} (m : M α) : T α := fun t =>
  let (r, g) := m.run t.toGen
  (r, { t with toGen := g })

-- ---------------------------------------------------------------------------
-- The buffer
-- ---------------------------------------------------------------------------

/-- The size of `token_buf`, and of the buffers beside it. -/
def tokenBufSize : Nat := 128

def fits (text : Text) : T Unit :=
  if text.length < tokenBufSize then pure () else throw .outOfBounds

def setTokenBuf (text : Text) : T Unit := do
  fits text
  modify fun t => { t with tokenBuf := text }

def setTokenBufptr (p : Nat) : T Unit := modify fun t => { t with bufptr := p }

def getTokenCbufptr : T Unit := do
  setTokenBuf [' ', ' ']
  setTokenBufptr 2

/-- `nasm_strrplc` at a place in the buffer. -/
def nasmStrrplc (dest destSize : Nat) (src : Text) : T Unit := do
  let t ← get
  setTokenBuf (t.tokenBuf.take dest ++ src ++ t.tokenBuf.drop (dest + destSize))

def putChar (c : Char) : T Unit := do
  let t ← get
  setTokenBuf (t.tokenBuf.take t.bufptr ++ c :: t.tokenBuf.drop (t.bufptr + 1))
  setTokenBufptr (t.bufptr + 1)

/-- The text behind a place from which a reader has left `rest`. -/
def moveTo (rest : Text) : T Unit :=
  modify fun t => { t with bufptr := t.tokenBuf.length - rest.length }

section
variable (tables : RegTables)

def getToken : T Token := do
  let t ← get
  let (tok, rest) := Btrtg.getToken tables.hash (t.tokenBuf.drop t.bufptr)
  moveTo rest
  modify fun t => { t with tokval := tok }
  pure tok

-- ---------------------------------------------------------------------------
-- Initialisation
-- ---------------------------------------------------------------------------

section
variable (constInsn : Text → T Unit)

def registerValue : M (BitVec 32) := do
  match ← requestNode with
  | none => do
    let n ← nasmRandom64 0x100000000
    pure (BitVec.ofNat 32 n)
  | some v => pure v.imm32

def initRegisterOpnd (asmOpnd : Text) : T Unit := do
  let val ← onGen registerValue
  constInsn ("mov ".toList ++ asmOpnd ++ s!", 0x{hex val.toNat}".toList)

def initOpndCases (asmOpnd : Text) (opndflags : OpFlags)
    (varAddr : Option (Option (List Line))) : Option Opnd → T Unit
  | some (.reg r) =>
    if isClass register opndflags then
      if isClass regClassFpureg opndflags then onGen (initFpuRegisterOpnd r)
      else if isClass regClassRmMmx opndflags then onGen do
        let vals ← requestPackedNodes
        genText (initMmxRegisterOpnd r vals)
      else if isClass regClassRmXmm opndflags then onGen do
        let vals ← requestPackedNodes
        genText (initXmmRegisterOpnd r vals)
      else initRegisterOpnd constInsn asmOpnd
    else pure ()
  | some (.mem m) => onGen do
    match varAddr with
    | some none => throw .uninitialised
    | some (some ls) => oneInsnGenCtrl (.lines ls) .after
    | none => do
      let g ← get
      oneInsnGenCtrl (.lines g.initMemAddr) .after
    initMemoryOpnd m opndflags
  | _ => pure ()

def initOpnd (asmOpnd : Text) (o : Option Opnd) (opndflags : OpFlags)
    (varAddr : Option (Option (List Line))) : T Unit := do
  let t ← get
  if t.needInit then
    modify fun t => { t with needInit := false }
    modify fun t => { t with hasMemOpnd := false }
    initOpndCases constInsn asmOpnd opndflags varAddr o
    modify fun t' => { t' with hasMemOpnd := t.hasMemOpnd }
    modify fun t => { t with needInit := true }
  else pure ()

-- ---------------------------------------------------------------------------
-- Operands
-- ---------------------------------------------------------------------------

/-- What a call of `gen_operand` leaves in the seed, and what it wrote: no operand
where the text had one or has ended. -/
structure WrittenOpnd where
  seed : OperandSeed := {}
  size : Option SizeWord := none
  opnd : Option Opnd := none

def WrittenOpnd.text? (w : WrittenOpnd) : Option Text :=
  w.opnd.map fun o => ((w.size.elim "" SizeWord.text) ++ o.asmOpnd w.seed.opndflags).toList

/-- `create_opnd_seed`, with the variable where the operand names one. -/
def createOpndSeed (asmOpnd : Text) : T (OperandSeed × Option (BlkId × Nat × BlkVar)) :=
  if asmOpnd.head? = some '@' then
    onGen (Btrtg.createOpndSeed (.var (String.ofList asmOpnd.tail)))
  else
    let opndflags := parseAsmOpndTypeOpflags asmOpnd
    if opndflags ≠ 0 then pure ({ isOpndType := true, opndflags }, none)
    else pure ({ opndflags := parseAsmOpndOpflags tables asmOpnd }, none)

/-- The operand of a variable, its flags and `has_label`: made and stored, or read. -/
def varOpnd (blk : BlkId) (i : Nat) (v : BlkVar) (opndflags : OpFlags) :
    M (Option (Opnd × OpFlags × Bool)) := do
  if !v.valid then
    let (o, flags) ← genOperandInternal opndflags
    match o with
    | none => return none
    | some o =>
      let g ← get
      setVar blk i fun v => { v with
        valid := true
        opndflags := flags
        varVal := some o
        initMemAddr :=
          if isClass memory flags && flags ≠ memOffs then some g.initMemAddr else v.initMemAddr
        isMemOpnd := g.hasMemOpnd
        hasLabel := o.hasLabel }
      return some (o, flags, o.hasLabel)
  else
    match v.varVal with
    | none => throw .nullDeref
    | some o =>
      let g ← get
      record (.reuse v g.hasMemOpnd g.initMemAddr)
      modify fun g => { g with hasMemOpnd := v.isMemOpnd }
      return some (o, v.opndflags, v.hasLabel)

/-- The size keyword before an operand at a place. -/
def writeSize (bufptr : Nat) (wants : Bool) (opndflags : OpFlags) : T (Option SizeWord) :=
  if wants then do
    let size := preappendMemSize (opndflags &&& sizeMask)
    nasmStrrplc bufptr 0 size.text.toList
    pure (some size)
  else pure none

/-- A made operand takes the place of its name in a pseudo instruction. -/
def writePseudo (opi bufptr len : Nat) (o : Opnd) (opndflags : OpFlags) : T (Option SizeWord) := do
  nasmStrrplc bufptr len (o.asmOpnd opndflags).toList
  let t ← get
  let next := nasmSkipAComma (t.tokenBuf.drop bufptr)
  writeSize bufptr (wantsSize t.opcode opi opndflags (asmIsBlank next || asmIsImmediate next))
    opndflags

/-- The set-up text that `init_opnd` finds in a variable. -/
def varInitMemAddr (blk : BlkId) (i : Nat) : T (Option (List Line)) := do
  let t ← get
  pure ((t.vars blk)[i]?.bind (·.initMemAddr))

def genOperandPseudoCode : T (Option WrittenOpnd) := do
  let t ← get
  let opi := t.opi
  let rest := nasmSkipSpaces (t.tokenBuf.drop t.bufptr)
  let bufptr := t.tokenBuf.length - rest.length
  let asmOpnd := copyAsmOpnd rest
  let (seed, place) ← createOpndSeed tables asmOpnd
  match place with
  | some (blk, i, v) =>
    match ← onGen (varOpnd blk i v seed.opndflags) with
    | none => return none
    | some (o, opndflags, hasLabel) =>
      let size ← writePseudo opi bufptr asmOpnd.length o opndflags
      let varAddr ← varInitMemAddr blk i
      initOpnd constInsn (o.asmOpnd opndflags).toList (some o) opndflags (some varAddr)
      return some ⟨{ seed with opndflags, hasLabel }, size, some o⟩
  | none =>
    if seed.isOpndType then
      let (o, opndflags) ← onGen (genOperandInternal seed.opndflags)
      match o with
      | none => return none
      | some o =>
        let size ← writePseudo opi bufptr asmOpnd.length o opndflags
        initOpnd constInsn (o.asmOpnd opndflags).toList (some o) opndflags none
        return some ⟨{ seed with opndflags, hasLabel := o.hasLabel }, size, some o⟩
    else
      let o := match (tables.hash asmOpnd).1 with
        | .reg r => some (.reg r)
        | _ => none
      initOpnd constInsn asmOpnd o seed.opndflags none
      return some { seed }

def genOperandInsnSeed (s : InsnSeed) : T (Option WrittenOpnd) := do
  let t ← get
  let opi := t.opi
  if s.opd.getD opi 0 = 0 then
    return some {}
  putChar (if opi = 0 then ' ' else ',')
  let bufptr := t.bufptr + 1
  let (o, opndflags) ← onGen
    (genOperandInternal (s.opd.getD opi 0 ||| calOperandSize s.opcode s.opd opi))
  match o with
  | none => return none
  | some o =>
    nasmStrrplc bufptr 0 (o.asmOpnd opndflags).toList
    let next := s.opd.getD 1 0
    let t ← get
    let size ← writeSize bufptr
      (wantsSize t.opcode opi opndflags (next = 0 || isClass immediate next)) opndflags
    initOpnd constInsn (o.asmOpnd opndflags).toList (some o) opndflags none
    return some ⟨{ opndflags, hasLabel := o.hasLabel }, size, some o⟩

/-- `gen_operand`; a null seed is `none`. -/
def genOperand : Option InsnSeed → T (Option WrittenOpnd)
  | none => genOperandPseudoCode tables constInsn
  | some s => genOperandInsnSeed constInsn s

end

end

end TokenBuf

end Btrtg
