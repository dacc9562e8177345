import Btrtg.Insnlist
import Btrtg.Lib.Inevitable

/-!
# Executing the list

The control flow of the emitted program. An ordinary entry is recorded and
falls through; what it does to `ecx` and to the stack is a parameter, since the
control entries read nothing else. A conditional jump goes either way. A jump to
a label that nothing defines, and control past the last entry, are faults.
-/

namespace Btrtg

/-- The opcodes after which control does not simply fall through. -/
def Opcode.isTransfer (op : Opcode) : Bool :=
  op == .jmp || op.isJcc || op.isLoop || op == .call || op == .ret || op == .retf

namespace Entry

def isOrdinary : Entry → Bool
  | insn i => !i.opcode.isTransfer
  | lines _ | check _ => true
  | _ => false

/-- What an entry that falls through adds to the record of the ordinary
entries that ran. -/
def output? (e : Entry) : Option (List Entry) :=
  if e.isOrdinary then some [e] else
    match e with
    | label _ => some []
    | _ => none

theorem output?_some {e : Entry} :
    e.output? = some out ↔ e.isOrdinary ∧ out = [e] ∨ ∃ n, e = .label n ∧ out = [] := by
  cases e with
  | insn i => by_cases h : i.opcode.isTransfer <;> simp [output?, isOrdinary, h, eq_comm]
  | _ => simp [output?, isOrdinary, eq_comm]

end Entry

/-- What the control entries read: `ecx`, and the words on the stack, those that
are return addresses and others. -/
structure Cpu where
  ecx : BitVec 32
  stack : List (Option Addr)

/-- What an ordinary entry may do: `run e ecx ecx' pops pushes`. -/
structure Sem where
  run : Entry → BitVec 32 → BitVec 32 → Nat → Nat → Prop
  total : ∀ e ecx, ∃ ecx' pops pushes, run e ecx ecx' pops pushes

def Sem.Spares (sem : Sem) (e : Entry) : Prop :=
  ∀ ecx ecx' pops pushes, sem.run e ecx ecx' pops pushes → ecx' = ecx ∧ pops = 0 ∧ pushes = 0

/-- Where control goes after an entry. -/
inductive Move
  | next
  | goto (n : Nat)
  | call (n : Nat)
  | ret

/-- `e.Does sem cpu out cpu' mv`: one way in which `e` can execute. -/
inductive Entry.Does (sem : Sem) : Entry → Cpu → List Entry → Cpu → Move → Prop
  | ordinary : e.isOrdinary → sem.run e cpu.ecx ecx' pops pushes →
      Does sem e cpu [e] ⟨ecx', List.replicate pushes none ++ cpu.stack.drop pops⟩ .next
  | label : Does sem (.label n) cpu [] cpu .next
  | jmp : Does sem (.jmp n) cpu [] cpu (.goto n)
  | jccTaken : Does sem (.jcc op n) cpu [] cpu (.goto n)
  | jccNot : Does sem (.jcc op n) cpu [] cpu .next
  | loopTaken : cpu.ecx - 1 ≠ 0 → Does sem (.loop op n) cpu [] ⟨cpu.ecx - 1, cpu.stack⟩ (.goto n)
  | loopDone : cpu.ecx - 1 = 0 → Does sem (.loop op n) cpu [] ⟨cpu.ecx - 1, cpu.stack⟩ .next
  | loopLeft : op ≠ .loop → Does sem (.loop op n) cpu [] ⟨cpu.ecx - 1, cpu.stack⟩ .next
  | movEcx : Does sem (.movEcx times) cpu [] ⟨times, cpu.stack⟩ .next
  | call : Does sem (.call n) cpu [] cpu (.call n)
  | ret : Does sem .ret cpu [] cpu .ret

/-- The entry control goes to, and what that does to the stack. -/
def Insnlist.dest? (l : Insnlist) (a : Addr) (cpu : Cpu) : Move → Option (Addr × Cpu)
  | .next => do
    let b ← l.succ? (some a)
    some (b, cpu)
  | .goto n => do
    let b ← l.labelAddr? n
    some (b, cpu)
  | .call n => do
    let b ← l.labelAddr? n
    let r ← l.succ? (some a)
    some (b, ⟨cpu.ecx, some r :: cpu.stack⟩)
  | .ret =>
    match cpu.stack with
    | some b :: stack => some (b, ⟨cpu.ecx, stack⟩)
    | _ => none

/-- Control before the entry `pc`, or before the first one; `trace` are the
ordinary entries that ran. -/
inductive Config
  | run (pc : Option Addr) (trace : List Entry) (cpu : Cpu)
  | fault

inductive Step (sem : Sem) (l : Insnlist) : Config → Config → Prop
  | start : l.succ? none = some a → Step sem l (.run none trace cpu) (.run (some a) trace cpu)
  | entry : l.entry? a = some e → e.Does sem cpu out cpu' mv → l.dest? a cpu' mv = some (b, cpu'') →
      Step sem l (.run (some a) trace cpu) (.run (some b) (trace ++ out) cpu'')
  | fault : l.entry? a = some e → e.Does sem cpu out cpu' mv → l.dest? a cpu' mv = none →
      Step sem l (.run (some a) trace cpu) .fault

def AtAny (S : Option Addr → Prop) : Config → Prop
  | .run pc _ _ => S pc
  | .fault => False

abbrev At (pos : Option Addr) : Config → Prop := AtAny (· = pos)

def Config.trace : Config → List Entry
  | .run _ trace _ => trace
  | .fault => []

/-- The record that falling through the position adds. -/
def Insnlist.output? (l : Insnlist) : Option Addr → Option (List Entry)
  | none => some []
  | some a => (l.entry? a).bind Entry.output?

theorem Insnlist.output?_label {l : Insnlist} (h : l.entry? a = some (.label n)) :
    l.output? (some a) = some [] := by
  simp [Insnlist.output?, h, Entry.output?, Entry.isOrdinary]

theorem Insnlist.output?_ordinary {l : Insnlist} (h : l.entry? a = some e) (he : e.isOrdinary) :
    l.output? (some a) = some [e] := by
  simp [Insnlist.output?, h, Entry.output?, he]

/-- Control at the position is about to fall through it, `done` having run by then. -/
def Done (l : Insnlist) (pos : Option Addr) (done : List Entry) (c : Config) : Prop :=
  ∃ out, l.output? pos = some out ∧ c.trace ++ out = done

/-- Every execution from the head comes to the insert position, and when it
first does it falls through it with exactly `done` executed. -/
def Reaches (sem : Sem) (l : Insnlist) (pos : Option Addr) (done : List Entry) : Prop :=
  ∀ ecx, Inevitably (Step sem l) (At pos) (Done l pos done) (.run none [] ⟨ecx, []⟩)

end Btrtg
