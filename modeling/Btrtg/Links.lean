import Btrtg.Lib.BackLinked
import Btrtg.X86PG
import Mathlib.Tactic.Common

/-!
# The instruction list and its pointers

The operations of the list on its head, its entries with their back links, its
tail and its count. They do to the pointers what an insertion at a place does
to a plain list. An allocated address is an argument: it may be any that is
not in use.
-/

namespace Btrtg

open BackLinked

/-- `struct insnlist`. -/
structure LinkedList where
  heap : Heap Entry
  insnCount : BitVec 32
  tail : Option Addr

namespace LinkedList

def create : LinkedList := ⟨.empty, 0, none⟩

def insertHead (l : LinkedList) (e : Entry) (entry : Addr) : Option (Option Addr × LinkedList) := do
  let heap ← (l.heap.alloc entry e).insertHead entry
  some (some entry, ⟨heap, l.insnCount + 1, heap.first⟩)

def insertBefore (l : LinkedList) (pos : Option Addr) (e : Entry) (entry : Addr) :
    Option (Option Addr × LinkedList) :=
  match pos with
  | none => if l.tail ≠ none then some (none, l) else l.insertHead e entry
  | some p => do
    let heap ← (l.heap.alloc entry e).insertBefore p entry
    some (some entry, ⟨heap, l.insnCount + 1, l.tail⟩)

def insertAfter (l : LinkedList) (pos : Option Addr) (e : Entry) (entry : Addr) :
    Option (Option Addr × LinkedList) :=
  match pos with
  | none => if l.tail ≠ none then some (none, l) else l.insertHead e entry
  | some p => do
    let heap ← (l.heap.alloc entry e).insertAfter p entry
    some (some entry, ⟨heap, l.insnCount + 1, if l.tail = some p then some entry else l.tail⟩)

def insertTail (l : LinkedList) (e : Entry) (entry : Addr) : Option (Option Addr × LinkedList) :=
  match l.tail with
  | none => l.insertHead e entry
  | some t => do
    let heap ← (l.heap.alloc entry e).insertAfter t entry
    some (some entry, ⟨heap, l.insnCount + 1, some entry⟩)

def clear (l : LinkedList) : Option LinkedList := do
  let heap ← l.heap.clear
  some ⟨heap, 0, none⟩

/-- The pointers are those of the plain list: the forward links and the back links, the
tail and, as far as it can count, the count. -/
structure Represents (l : LinkedList) (cs : List (Addr × Entry)) : Prop where
  holds : ∃ last, l.heap.Holds cs last
  tail : l.tail = cs.getLast?.map Prod.fst
  count : l.insnCount = BitVec.ofNat 32 cs.length

-- ---------------------------------------------------------------------------
-- One operation
-- ---------------------------------------------------------------------------

section
variable {l : LinkedList} {cs xs ys : List (Addr × Entry)} {p q : Addr} {d : Entry}

theorem create_represents : create.Represents [] := ⟨⟨_, Heap.holds_empty⟩, rfl, rfl⟩

theorem Represents.tail_none (h : l.Represents cs) : l.tail = none ↔ cs = [] := by
  rw [h.tail, Option.map_eq_none_iff, List.getLast?_eq_none_iff]

/-- A null position in a list that is not empty. -/
theorem Represents.refused (h : l.Represents cs) (hne : cs ≠ []) (e : Entry) (q : Addr) :
    l.insertBefore none e q = some (none, l) ∧ l.insertAfter none e q = some (none, l) := by
  have ht : l.tail ≠ none := mt h.tail_none.1 hne
  exact ⟨if_pos ht, if_pos ht⟩

theorem Represents.insertHead (h : l.Represents []) (e : Entry) (q : Addr) :
    ∃ l', l.insertHead e q = some (some q, l') ∧ l'.Represents [(q, e)] := by
  obtain ⟨_, hh⟩ := h.holds
  obtain ⟨k, last, hr, hk⟩ := hh.insertHead q e
  refine ⟨_, by simp [LinkedList.insertHead, hr]; rfl, ⟨last, hk⟩, hk.first_eq, ?_⟩
  simp [h.count]

theorem count_succ {n m : Nat} (h : m = n + 1) : BitVec.ofNat 32 n + 1 = BitVec.ofNat 32 m := by
  rw [h, BitVec.ofNat_add]
  rfl

theorem Represents.insertAfter (h : l.Represents (xs ++ (p, d) :: ys))
    (hq : q ∉ (xs ++ (p, d) :: ys).map Prod.fst) (e : Entry) :
    ∃ l', l.insertAfter (some p) e q = some (some q, l') ∧
      l'.Represents (xs ++ (p, d) :: (q, e) :: ys) := by
  obtain ⟨_, hh⟩ := h.holds
  obtain ⟨k, last, hr, hk⟩ := hh.insertAfter hq e
  refine ⟨_, by simp [LinkedList.insertAfter, hr]; rfl, ⟨last, hk⟩, ?_, ?_⟩
  · have hn := hh.nodup
    rcases List.eq_nil_or_concat ys with rfl | ⟨zs, z, rfl⟩
    · simp [h.tail]
    · have hz : z.1 ≠ p := by
        rintro rfl
        simp [List.nodup_append] at hn
      simp [h.tail, List.getLast?_append, List.getLast?_cons, hz]
  · exact h.count ▸ count_succ (by simp; omega)

theorem Represents.insertBefore (h : l.Represents (xs ++ (p, d) :: ys))
    (hq : q ∉ (xs ++ (p, d) :: ys).map Prod.fst) (e : Entry) :
    ∃ l', l.insertBefore (some p) e q = some (some q, l') ∧
      l'.Represents (xs ++ (q, e) :: (p, d) :: ys) := by
  obtain ⟨_, hh⟩ := h.holds
  obtain ⟨k, last, hr, hk⟩ := hh.insertBefore hq e
  refine ⟨_, by simp [LinkedList.insertBefore, hr]; rfl, ⟨last, hk⟩, ?_, ?_⟩
  · simp [h.tail, List.getLast?_append, List.getLast?_cons]
  · exact h.count ▸ count_succ (by simp; omega)

theorem Represents.insertTail (h : l.Represents cs) (hq : q ∉ cs.map Prod.fst) (e : Entry) :
    ∃ l', l.insertTail e q = some (some q, l') ∧ l'.Represents (cs ++ [(q, e)]) := by
  rcases List.eq_nil_or_concat cs with rfl | ⟨xs, c, rfl⟩
  · obtain ⟨l', hr, hl'⟩ := h.insertHead e q
    exact ⟨l', by simp [LinkedList.insertTail, h.tail, hr], hl'⟩
  · have ht : l.tail = some c.1 := by simp [h.tail]
    rw [List.concat_eq_append] at h hq ⊢
    obtain ⟨l', hr, hl'⟩ := h.insertAfter hq e
    simp only [LinkedList.insertAfter, ht, ↓reduceIte] at hr
    exact ⟨l', by simp only [LinkedList.insertTail, ht, hr], by simpa using hl'⟩

theorem Represents.clear (h : l.Represents cs) : ∃ l', l.clear = some l' ∧ l'.Represents [] := by
  obtain ⟨_, hh⟩ := h.holds
  obtain ⟨k, last, hr, hk⟩ := hh.clear
  exact ⟨_, by simp [LinkedList.clear, hr]; rfl, ⟨last, hk⟩, rfl, rfl⟩

end

-- ---------------------------------------------------------------------------
-- Sequences of calls
-- ---------------------------------------------------------------------------

open Insnlist (linkBefore linkAfter)

inductive Call
  | before (pos : Option Addr) (e : Entry) (entry : Addr)
  | after (pos : Option Addr) (e : Entry) (entry : Addr)
  | tail (e : Entry) (entry : Addr)
  | clear

/-- The call on the pointers; `insnlist_clear` returns nothing. -/
def Call.run : Call → LinkedList → Option (Option Addr × LinkedList)
  | before pos e entry, l => l.insertBefore pos e entry
  | after pos e entry, l => l.insertAfter pos e entry
  | tail e entry, l => l.insertTail e entry
  | clear, l => l.clear.map fun l => (none, l)

/-- The call on a plain list. -/
def Call.apply : Call → List (Addr × Entry) → Option Addr × List (Addr × Entry)
  | before none e entry, cs | after none e entry, cs =>
    if cs = [] then (some entry, [(entry, e)]) else (none, cs)
  | before (some p) e entry, cs => (some entry, linkBefore p (entry, e) cs)
  | after (some p) e entry, cs => (some entry, linkAfter p (entry, e) cs)
  | tail e entry, cs => (some entry, cs ++ [(entry, e)])
  | clear, _ => (none, [])

/-- The position is null or in the list, and the allocated address is not in use. -/
def Call.Allowed : Call → List (Addr × Entry) → Prop
  | before pos _ entry, cs | after pos _ entry, cs =>
    (∀ p, pos = some p → p ∈ cs.map Prod.fst) ∧ entry ∉ cs.map Prod.fst
  | tail _ entry, cs => entry ∉ cs.map Prod.fst
  | clear, _ => True

def runCalls : List Call → LinkedList → Option (List (Option Addr) × LinkedList)
  | [], l => some ([], l)
  | c :: calls, l => do
    let (r, l) ← c.run l
    let (rs, l) ← runCalls calls l
    some (r :: rs, l)

def applyCalls : List Call → List (Addr × Entry) → List (Option Addr) × List (Addr × Entry)
  | [], cs => ([], cs)
  | c :: calls, cs =>
    let (r, cs) := c.apply cs
    let (rs, cs) := applyCalls calls cs
    (r :: rs, cs)

def AllAllowed : List Call → List (Addr × Entry) → Prop
  | [], _ => True
  | c :: calls, cs => c.Allowed cs ∧ AllAllowed calls (c.apply cs).2

section
variable {l : LinkedList} {cs xs ys : List (Addr × Entry)} {p : Addr} {c : Addr × Entry}

theorem exists_split (hp : p ∈ cs.map Prod.fst) :
    ∃ xs d ys, cs = xs ++ (p, d) :: ys ∧ p ∉ xs.map Prod.fst := by
  induction cs with
  | nil => cases hp
  | cons c cs ih =>
    by_cases hc : c.1 = p
    · exact ⟨[], c.2, cs, by simp [← hc], by simp⟩
    · obtain ⟨xs, d, ys, rfl, hxs⟩ := ih (by simpa [Ne.symm hc] using hp)
      exact ⟨c :: xs, d, ys, rfl, by simpa [Ne.symm hc] using hxs⟩

theorem linkAfter_split (hp : p ∉ xs.map Prod.fst) :
    linkAfter p c (xs ++ (p, d) :: ys) = xs ++ (p, d) :: c :: ys := by
  induction xs with
  | nil => simp [linkAfter]
  | cons x xs ih =>
    simp only [List.map_cons, List.mem_cons, not_or] at hp
    simp [linkAfter, Ne.symm hp.1, ih hp.2]

theorem linkBefore_split (hp : p ∉ xs.map Prod.fst) :
    linkBefore p c (xs ++ (p, d) :: ys) = xs ++ c :: (p, d) :: ys := by
  induction xs with
  | nil => simp [linkBefore]
  | cons x xs ih =>
    simp only [List.map_cons, List.mem_cons, not_or] at hp
    simp [linkBefore, Ne.symm hp.1, ih hp.2]

/-- An insertion with a null position. -/
theorem Represents.insertNull (h : l.Represents cs) (e : Entry) (q : Addr) :
    ∃ l', (if l.tail ≠ none then some (none, l) else l.insertHead e q) =
        some ((if cs = [] then (some q, [(q, e)]) else (none, cs)).1, l') ∧
      l'.Represents (if cs = [] then (some q, [(q, e)]) else (none, cs)).2 := by
  by_cases hcs : cs = []
  · subst hcs
    obtain ⟨l', hr, hl'⟩ := h.insertHead e q
    exact ⟨l', by simp [h.tail, hr], hl'⟩
  · have ht : l.tail ≠ none := mt h.tail_none.1 hcs
    exact ⟨l, by simp [ht, hcs], by simpa [hcs] using h⟩

theorem Call.run_represents (h : l.Represents cs) (call : Call) (ha : call.Allowed cs) :
    ∃ l', call.run l = some ((call.apply cs).1, l') ∧ l'.Represents (call.apply cs).2 := by
  cases call with
  | before pos e q =>
    cases pos with
    | none => exact h.insertNull e q
    | some p =>
      obtain ⟨xs, d, ys, rfl, hxs⟩ := exists_split (ha.1 p rfl)
      simpa only [Call.run, Call.apply, linkBefore_split hxs] using h.insertBefore ha.2 e
  | after pos e q =>
    cases pos with
    | none => exact h.insertNull e q
    | some p =>
      obtain ⟨xs, d, ys, rfl, hxs⟩ := exists_split (ha.1 p rfl)
      simpa only [Call.run, Call.apply, linkAfter_split hxs] using h.insertAfter ha.2 e
  | tail e q => exact h.insertTail ha e
  | clear =>
    obtain ⟨l', hr, hl'⟩ := h.clear
    exact ⟨l', by simp [Call.run, Call.apply, hr], hl'⟩

theorem runCalls_represents (h : l.Represents cs) (calls : List Call) (ha : AllAllowed calls cs) :
    ∃ l', runCalls calls l = some ((applyCalls calls cs).1, l') ∧
      l'.Represents (applyCalls calls cs).2 := by
  induction calls generalizing l cs with
  | nil => exact ⟨l, rfl, h⟩
  | cons call calls ih =>
    obtain ⟨l₁, hr, h₁⟩ := call.run_represents h ha.1
    obtain ⟨l', hr', h'⟩ := ih h₁ ha.2
    exact ⟨l', by simp [runCalls, applyCalls, hr, hr'], h'⟩

end

-- ---------------------------------------------------------------------------
-- The generator's insertions
-- ---------------------------------------------------------------------------

/-- `instlist` and `insertpos` of the generator state. -/
structure Stat where
  instlist : LinkedList
  insertpos : Option Addr

def Stat.init : Stat := ⟨create, none⟩

def Stat.insertInsn (s : Stat) (e : Entry) (pos : Position) (entry : Addr) : Option Stat := do
  let (insertpos, instlist) ← match pos with
    | .after => s.instlist.insertAfter s.insertpos e entry
    | .before => s.instlist.insertBefore s.insertpos e entry
    | .tail => s.instlist.insertTail e entry
  some ⟨instlist, insertpos⟩

/-- The states that insertions reach when `insertpos` is moved only to entries of the list. -/
inductive Stat.Reached : Stat → Prop
  | init : Reached .init
  | insert : Reached s → s.instlist.heap.data entry = none →
      s.insertInsn e pos entry = some s' → Reached s'
  | move : Reached s → s.instlist.heap.data p ≠ none → Reached ⟨s.instlist, some p⟩

/-- The insert position is an entry, and null only in the empty list. -/
structure Stat.Placed (s : Stat) (cs : List (Addr × Entry)) : Prop where
  list : s.instlist.Represents cs
  null : s.insertpos = none → cs = []
  mem : ∀ p, s.insertpos = some p → p ∈ cs.map Prod.fst

variable {s s' : Stat} {cs : List (Addr × Entry)} {q : Addr}

theorem Represents.free_iff {l : LinkedList} (h : l.Represents cs) :
    l.heap.data q = none ↔ q ∉ cs.map Prod.fst := by
  obtain ⟨_, hh⟩ := h.holds
  exact hh.free_iff

def Stat.call (s : Stat) (e : Entry) (pos : Position) (entry : Addr) : Call :=
  match pos with
  | .after => .after s.insertpos e entry
  | .before => .before s.insertpos e entry
  | .tail => .tail e entry

theorem Stat.insertInsn_eq (s : Stat) (e : Entry) (pos : Position) (q : Addr) :
    s.insertInsn e pos q = ((s.call e pos q).run s.instlist).map fun r => ⟨r.2, r.1⟩ := by
  cases pos <;> exact (Option.map_eq_bind ..).symm

theorem Stat.Placed.allowed (h : s.Placed cs) (hq : q ∉ cs.map Prod.fst) (e : Entry)
    (pos : Position) : (s.call e pos q).Allowed cs := by
  cases pos with
  | tail => exact hq
  | after | before => exact ⟨h.mem, hq⟩

/-- On the plain list the new entry is put in somewhere. -/
theorem Stat.Placed.apply (h : s.Placed cs) (e : Entry) (pos : Position) (q : Addr) :
    ∃ xs ys, cs = xs ++ ys ∧ (s.call e pos q).apply cs = (some q, xs ++ (q, e) :: ys) := by
  cases pos with
  | tail => exact ⟨cs, [], by simp, rfl⟩
  | after =>
    cases hp : s.insertpos with
    | none => exact ⟨[], [], h.null hp, by simp [call, Call.apply, hp, h.null hp]⟩
    | some p =>
      obtain ⟨xs, d, ys, rfl, hxs⟩ := exists_split (h.mem p hp)
      refine ⟨xs ++ [(p, d)], ys, by simp, ?_⟩
      simp [call, Call.apply, hp, linkAfter_split hxs]
  | before =>
    cases hp : s.insertpos with
    | none => exact ⟨[], [], h.null hp, by simp [call, Call.apply, hp, h.null hp]⟩
    | some p =>
      obtain ⟨xs, d, ys, rfl, hxs⟩ := exists_split (h.mem p hp)
      refine ⟨xs, (p, d) :: ys, rfl, ?_⟩
      simp [call, Call.apply, hp, linkBefore_split hxs]

/-- An insertion does to the pointers what its call does to the plain list. -/
theorem Stat.Placed.insert (h : s.Placed cs) (hq : q ∉ cs.map Prod.fst) (e : Entry)
    (pos : Position) :
    ∃ s', s.insertInsn e pos q = some s' ∧ s'.insertpos = some q ∧
      s'.Placed ((s.call e pos q).apply cs).2 := by
  obtain ⟨xs, ys, -, happ⟩ := h.apply e pos q
  obtain ⟨l', hr, hl'⟩ := (s.call e pos q).run_represents h.list (h.allowed hq e pos)
  rw [happ] at hr hl' ⊢
  refine ⟨⟨l', some q⟩, by rw [insertInsn_eq, hr]; rfl, rfl, hl', nofun, ?_⟩
  rintro _ ⟨⟩
  simp

theorem Stat.Reached.placed (h : s.Reached) : ∃ cs, s.Placed cs := by
  induction h with
  | init => exact ⟨[], create_represents, fun _ => rfl, nofun⟩
  | @insert s entry e pos s' _ hfree hr ih =>
    obtain ⟨cs, hcs⟩ := ih
    obtain ⟨s₁, hr₁, -, hs₁⟩ := hcs.insert (hcs.list.free_iff.1 hfree) e pos
    cases hr.symm.trans hr₁
    exact ⟨_, hs₁⟩
  | @move s p _ hp ih =>
    obtain ⟨cs, hcs⟩ := ih
    refine ⟨cs, hcs.list, nofun, ?_⟩
    rintro _ ⟨⟩
    by_contra hm
    exact hp (hcs.list.free_iff.2 hm)

section
variable {k : Insnlist} {pos : Option Addr}
  (hm : ∀ p, pos = some p → p ∈ k.cells.map Prod.fst) (hn : pos = none → k.cells = [])
include hm hn

theorem insertAfter_cells (e : Entry) :
    ∃ k', k.insertAfter pos e = .done k' k.brk ∧
      k'.cells = ((Call.after pos e k.brk).apply k.cells).2 := by
  cases pos with
  | none => exact ⟨_, if_pos (hn rfl), by simp [Call.apply, Insnlist.withFresh, hn]⟩
  | some p => exact ⟨_, dif_pos (hm p rfl), rfl⟩

theorem insertBefore_cells (e : Entry) :
    ∃ k', k.insertBefore pos e = .done k' k.brk ∧
      k'.cells = ((Call.before pos e k.brk).apply k.cells).2 := by
  cases pos with
  | none => exact ⟨_, if_pos (hn rfl), by simp [Call.apply, Insnlist.withFresh, hn]⟩
  | some p => exact ⟨_, dif_pos (hm p rfl), rfl⟩

end

/-- The model's `stat_insert_insn` is the one on the pointers, with an allocator that gives
out every address once. -/
theorem Stat.Placed.statInsertInsn {g : Gen} (h : s.Placed g.instlist.cells)
    (hpos : s.insertpos = g.insertpos) (e : Entry) (pos : Position) :
    ∃ s' g', s.insertInsn e pos g.instlist.brk = some s' ∧
      (Btrtg.statInsertInsn e pos).run g = (.ok (), g') ∧ s'.insertpos = g'.insertpos ∧
      s'.Placed g'.instlist.cells := by
  have hbrk : g.instlist.brk ∉ g.instlist.cells.map Prod.fst :=
    fun hm => Nat.lt_irrefl _ (g.instlist.fresh _ hm)
  obtain ⟨s', hr, hp, hs'⟩ := h.insert hbrk e pos
  suffices hi : ∃ l', (Btrtg.statInsertInsn e pos).run g = (.ok (), g.put l' g.instlist.brk) ∧
      l'.cells = ((s.call e pos g.instlist.brk).apply g.instlist.cells).2 by
    obtain ⟨l', hl', heq⟩ := hi
    exact ⟨s', _, hr, hl', hp, heq ▸ hs'⟩
  have hm := h.mem
  have hn := h.null
  rw [hpos] at hm hn
  cases pos with
  | tail => exact ⟨_, rfl, rfl⟩
  | after =>
    obtain ⟨k', hk, hc⟩ := insertAfter_cells hm hn e
    refine ⟨k', ?_, by simpa only [call, hpos] using hc⟩
    simp only [Btrtg.statInsertInsn, Prog.run_bind, Prog.run_get, hk]
    rfl
  | before =>
    obtain ⟨k', hk, hc⟩ := insertBefore_cells hm hn e
    refine ⟨k', ?_, by simpa only [call, hpos] using hc⟩
    simp only [Btrtg.statInsertInsn, Prog.run_bind, Prog.run_get, hk]
    rfl

/-- The pointers refine the plain list in every run; a null position in a list that is not
empty changes nothing; and no insertion of the generator is dropped. -/
theorem insnlist_refines_sequence :
    (∀ calls, AllAllowed calls [] → ∃ l, runCalls calls create = some ((applyCalls calls []).1, l) ∧
      l.Represents (applyCalls calls []).2) ∧
    (∀ (l : LinkedList) cs, l.Represents cs → cs ≠ [] → ∀ e q,
      l.insertBefore none e q = some (none, l) ∧ l.insertAfter none e q = some (none, l)) ∧
    ∀ s : Stat, s.Reached → ∀ e pos q, s.instlist.heap.data q = none →
      ∃ s' xs ys, s.insertInsn e pos q = some s' ∧ s'.insertpos = some q ∧
        s.instlist.Represents (xs ++ ys) ∧ s'.instlist.Represents (xs ++ (q, e) :: ys) := by
  refine ⟨fun calls => runCalls_represents create_represents calls, ?_, ?_⟩
  · exact fun l cs h hne e q => h.refused hne e q
  · intro s hs e pos q hq
    obtain ⟨cs, hcs⟩ := hs.placed
    obtain ⟨s', hr, hpos, hs'⟩ := hcs.insert (hcs.list.free_iff.1 hq) e pos
    obtain ⟨xs, ys, rfl, happ⟩ := hcs.apply e pos q
    rw [happ] at hs'
    exact ⟨s', xs, ys, hr, hpos, hcs.list, hs'.list⟩

theorem appends_plain (as : List Addr) (hn : as.Nodup) (hd : ∀ a ∈ as, a ∉ cs.map Prod.fst) :
    AllAllowed (as.map (Call.tail .ret)) cs ∧
      (applyCalls (as.map (Call.tail .ret)) cs).2 = cs ++ as.map fun a => (a, .ret) := by
  induction as generalizing cs with
  | nil => exact ⟨trivial, (List.append_nil cs).symm⟩
  | cons a as ih =>
    obtain ⟨hna, hn⟩ := List.nodup_cons.1 hn
    obtain ⟨hda, hd⟩ := List.forall_mem_cons.1 hd
    have hd' : ∀ b ∈ as, b ∉ (cs ++ [(a, Entry.ret)]).map Prod.fst := by
      intro b hb
      simp only [List.map_append, List.map_cons, List.map_nil, List.mem_append,
        List.mem_singleton, not_or]
      exact ⟨hd b hb, fun h => hna (h ▸ hb)⟩
    obtain ⟨hall, heq⟩ := ih hn hd'
    exact ⟨⟨hda, hall⟩, by simpa [applyCalls, Call.apply] using heq⟩

/-- The count after `n` insertions. -/
theorem insnCount_mod (n : Nat) :
    ∃ calls l, AllAllowed calls [] ∧ runCalls calls create = some ((applyCalls calls []).1, l) ∧
      (applyCalls calls []).2.length = n ∧ l.insnCount.toNat = n % 2 ^ 32 := by
  have hfresh : ∀ a ∈ List.range n, a ∉ ([] : List (Addr × Entry)).map Prod.fst := by simp
  obtain ⟨ha, heq⟩ := appends_plain (List.range n) List.nodup_range hfresh
  obtain ⟨l, hr, hl⟩ := runCalls_represents create_represents _ ha
  have hlen : (applyCalls ((List.range n).map (Call.tail .ret)) []).2.length = n := by simp [heq]
  exact ⟨_, l, ha, hr, hlen, by rw [hl.count, hlen, BitVec.toNat_ofNat]⟩

/-- After 2^32 insertions the count is back at 0. -/
theorem insnCount_wraps :
    ∃ calls l, AllAllowed calls [] ∧ runCalls calls create = some ((applyCalls calls []).1, l) ∧
      (applyCalls calls []).2.length ≠ l.insnCount.toNat := by
  obtain ⟨calls, l, ha, hr, hlen, hcount⟩ := insnCount_mod (2 ^ 32)
  refine ⟨calls, l, ha, hr, ?_⟩
  rw [hlen, hcount]
  decide

end LinkedList

end Btrtg
