import Btrtg.Asm
import Mathlib.Data.List.Nodup

/-!
# The instruction list

A list of allocated entries, in the order of the forward links. An address is
given out once, so an address that was handed to a caller keeps naming the
entry it was allocated for, wherever later insertions put it.
-/

namespace Btrtg

abbrev Addr := Nat

/-- `struct insnlist`: the entries under their addresses, and the allocator's
next address. -/
structure Insnlist where
  cells : List (Addr × Entry)
  brk : Addr
  nodup : (cells.map Prod.fst).Nodup
  fresh : ∀ a ∈ cells.map Prod.fst, a < brk

namespace Insnlist

-- ---------------------------------------------------------------------------
-- Links
-- ---------------------------------------------------------------------------

/-- `TLIST_INSERT_BEFORE`. -/
def linkBefore (a : Addr) (c : Addr × Entry) : List (Addr × Entry) → List (Addr × Entry)
  | [] => []
  | d :: ds => if d.1 = a then c :: d :: ds else d :: linkBefore a c ds

/-- `TLIST_INSERT_AFTER`. -/
def linkAfter (a : Addr) (c : Addr × Entry) : List (Addr × Entry) → List (Addr × Entry)
  | [] => []
  | d :: ds => if d.1 = a then d :: c :: ds else d :: linkAfter a c ds

def succIn (a : Addr) : List (Addr × Entry) → Option Addr
  | [] => none
  | c :: cs => if c.1 = a then (cs.head?).map Prod.fst else succIn a cs

def entryIn (a : Addr) : List (Addr × Entry) → Option Entry
  | [] => none
  | c :: cs => if c.1 = a then some c.2 else entryIn a cs

def labelIn (n : Nat) : List (Addr × Entry) → Option Addr
  | [] => none
  | c :: cs => if c.2 = .label n then some c.1 else labelIn n cs

theorem addr_linkAfter (ha : a ∈ cs.map Prod.fst) :
    ((linkAfter a c cs).map Prod.fst).Perm (c.1 :: cs.map Prod.fst) := by
  induction cs with
  | nil => simp at ha
  | cons d ds ih =>
    unfold linkAfter
    split
    · exact .swap ..
    · rename_i hd
      have ha' : a ∈ ds.map Prod.fst := by
        simp only [List.map_cons, List.mem_cons] at ha
        exact ha.resolve_left (Ne.symm hd)
      simp only [List.map_cons]
      exact ((ih ha').cons d.1).trans (.swap ..)

theorem addr_linkBefore (ha : a ∈ cs.map Prod.fst) :
    ((linkBefore a c cs).map Prod.fst).Perm (c.1 :: cs.map Prod.fst) := by
  induction cs with
  | nil => simp at ha
  | cons d ds ih =>
    unfold linkBefore
    split
    · exact .refl _
    · rename_i hd
      have ha' : a ∈ ds.map Prod.fst := by
        simp only [List.map_cons, List.mem_cons] at ha
        exact ha.resolve_left (Ne.symm hd)
      simp only [List.map_cons]
      exact ((ih ha').cons d.1).trans (.swap ..)

-- ---------------------------------------------------------------------------
-- Operations
-- ---------------------------------------------------------------------------

def create : Insnlist := ⟨[], 0, .nil, by simp⟩

/-- A freshly allocated entry in any place among the entries of `l`. -/
def withFresh (l : Insnlist) (e : Entry) (cells : List (Addr × Entry))
    (h : (cells.map Prod.fst).Perm ((l.brk, e).1 :: l.cells.map Prod.fst)) : Insnlist where
  cells := cells
  brk := l.brk + 1
  nodup := h.nodup_iff.2 (List.nodup_cons.2 ⟨fun hm => Nat.lt_irrefl _ (l.fresh _ hm), l.nodup⟩)
  fresh a ha := by
    rcases List.mem_cons.1 (h.mem_iff.1 ha) with rfl | ha
    · exact Nat.lt_succ_self _
    · exact Nat.lt_succ_of_lt (l.fresh a ha)

/-- What an insertion gives back: nothing inserted and a null pointer, or the
list with the new entry and its address, or a pointer that is not in the list
followed. -/
inductive Inserted
  | refused
  | done (l : Insnlist) (a : Addr)
  | dangling

def insertTail (l : Insnlist) (e : Entry) : Inserted :=
  .done (l.withFresh e (l.cells ++ [(l.brk, e)]) (by
    simp [List.perm_append_singleton])) l.brk

def insertAfter (l : Insnlist) (pos : Option Addr) (e : Entry) : Inserted :=
  match pos with
  | none => if l.cells = [] then l.insertTail e else .refused
  | some a =>
    if h : a ∈ l.cells.map Prod.fst then
      .done (l.withFresh e (linkAfter a (l.brk, e) l.cells) (addr_linkAfter h)) l.brk
    else .dangling

def insertBefore (l : Insnlist) (pos : Option Addr) (e : Entry) : Inserted :=
  match pos with
  | none => if l.cells = [] then l.insertTail e else .refused
  | some a =>
    if h : a ∈ l.cells.map Prod.fst then
      .done (l.withFresh e (linkBefore a (l.brk, e) l.cells) (addr_linkBefore h)) l.brk
    else .dangling

-- ---------------------------------------------------------------------------
-- Observations
-- ---------------------------------------------------------------------------

/-- The link that leads on from a position: from the null position it is the
head of the list. -/
def succ? (l : Insnlist) : Option Addr → Option Addr
  | none => l.cells.head?.map Prod.fst
  | some a => succIn a l.cells

def entry? (l : Insnlist) (a : Addr) : Option Entry := entryIn a l.cells
/-- Where the assembler puts `labelN`. -/
def labelAddr? (l : Insnlist) (n : Nat) : Option Addr := labelIn n l.cells
def entries (l : Insnlist) : List Entry := l.cells.map Prod.snd

end Insnlist

end Btrtg
