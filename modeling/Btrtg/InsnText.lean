import Btrtg.TokenBufLaws

/-!
# One instruction over the token buffer

`one_insn_gen` up to the end of its operand loop, and `one_insn_gen_const`, which
keeps the buffer for the instruction that it is called from. What follows the loop
is a parameter: the implied operands and the insertion of the instruction.
-/

namespace Btrtg

namespace TokenBuf

open Prog

/-- `struct insn` as the operand loop leaves it, with what `gen_operand` wrote for each
operand; `init_operand` was called for `inits` elements of `oprs`, from the first one on. -/
structure InsnText where
  slot : Option Nat
  opcode : Opcode
  inits : Nat
  oprs : List Operand
  written : List WrittenOpnd

def genOpcode : Option InsnSeed → T Unit
  | none => pure ()
  | some s => do
    getTokenCbufptr
    nasmStrrplc 2 0 (s.opcode.name ++ " ").toList

section
variable (tables : RegTables)

def getOpcode : T (Option Nat × Opcode) := do
  match ← getToken tables with
  | .keyword (.slot n) =>
    match ← getToken tables with
    | .keyword (.insn op) => pure (some n, op)
    | _ => throw (.fatal "no opcode")
  | .keyword (.insn op) => pure (none, op)
  | _ => throw (.fatal "no opcode")

def getOpnd (tok : Token) : T Operand := do
  let t ← get
  match parseOpnd tables ⟨tok, t.tokenBuf.drop t.bufptr⟩ with
  | none => throw (.fatal "fail to generate instruction")
  | some (op, s) => do
    moveTo s.bufptr
    modify fun t => { t with tokval := s.tt }
    pure op

section
variable (constInsn : Text → T Unit)

/-- The operand loop: the calls of `init_operand` and the operands with what was written
for them, or none when an operand could not be made. -/
def operandLoop (src : Option InsnSeed) :
    Nat → Nat → List Operand → List WrittenOpnd →
      T (Option (Nat × List Operand × List WrittenOpnd))
  | 0, _, _, _ => throw .outOfBounds
  | room + 1, inits, oprs, written => do
    -- `init_operand` comes before it is known that there is an operand
    let inits := inits + 1
    modify fun t => { t with opi := oprs.length, who := .explicit oprs.length }
    match ← genOperand tables constInsn src with
    | none => pure none
    | some w => do
      let tok ← getToken tables
      if tok = .eos then pure (some (inits, oprs, written))
      else do
        let op ← getOpnd tables tok
        operandLoop src room inits (oprs ++ [op]) (written ++ [w])

/-- `one_insn_gen` up to the end of the operand loop; no instruction when an operand
could not be made, or when a control transfer stands for it. The turn behind the last
element of `oprs` goes on as the others do; the one after it is not followed. -/
def insnText (src : Option InsnSeed) : T (Option InsnText) := do
  onGen likelyGenLabel
  genOpcode src
  let (slot, op) ← getOpcode tables
  modify fun t => { t with opcode := if t.opcode = .none then op else t.opcode }
  let (label, _) ← onGen (callControlTransfer .insn op (-1))
  if label ≥ 0 then pure none
  else do
    match ← operandLoop tables constInsn src (maxOperands + 1) 0 [] [] with
    | none => pure none
    | some (inits, oprs, written) => pure (some ⟨slot, op, inits, oprs, written⟩)

end

def oneInsnGenConst (finish : InsnText → T Unit) : Nat → Text → T Unit
  | 0, _ => throw .diverges
  | depth + 1, asmBuffer => do
    let t ← get
    fits t.tokenBuf
    getTokenCbufptr
    nasmStrrplc 2 0 asmBuffer
    let insn ← insnText tables (oneInsnGenConst finish depth) none
    insn.elim (pure ()) finish
    getTokenCbufptr
    setTokenBuf t.tokenBuf
    setTokenBufptr t.bufptr

end

/-- An instruction that is generated within another gives the buffer back. -/
theorem yields_oneInsnGenConst (tables : RegTables) (finish : InsnText → T Unit) (depth : Nat)
    (asmBuffer : Text) : Yields SameBuf (oneInsnGenConst tables finish depth asmBuffer) := by
  intro t _ t' h
  cases depth with
  | zero => cases h
  | succ depth =>
    obtain ⟨_, _, hget, h⟩ := bind_ok.1 h
    cases hget
    obtain ⟨_, t₁, _, h⟩ := bind_ok.1 h
    obtain ⟨_, t₂, _, h⟩ := bind_ok.1 h
    obtain ⟨_, t₃, _, h⟩ := bind_ok.1 h
    obtain ⟨_, t₄, _, h⟩ := bind_ok.1 h
    obtain ⟨_, t₅, _, h⟩ := bind_ok.1 h
    obtain ⟨_, t₆, _, h⟩ := bind_ok.1 h
    obtain ⟨_, t₇, hset, h⟩ := bind_ok.1 h
    obtain ⟨-, rfl⟩ := setTokenBuf_ok hset
    cases h
    exact ⟨rfl, rfl⟩

end TokenBuf

end Btrtg
