import Mathlib.Data.List.AList

/-!
# Lists with back links

A singly headed list whose entries keep the address of the link that points to
them. Every insertion splices one entry in behind a link: behind the head,
behind the link of an entry, or behind the link that points to an entry.

Following a pointer to an entry that is not allocated gives `none`.
-/

namespace BackLinked

/-- Where a link is stored: in the head, or in the entry at an address. -/
inductive Link
  | first
  | next (a : Nat)
  deriving DecidableEq

structure Node (ε : Type) where
  data : ε
  next : Option Nat
  prev : Option Link

structure Heap (ε : Type) where
  first : Option Nat
  nodes : AList fun _ : Nat => Node ε

variable {ε : Type}

theorem lookup_insert {a b : Nat} (s : AList fun _ : Nat => Node ε) (n : Node ε) :
    (s.insert a n).lookup b = if b = a then some n else s.lookup b := by
  split
  · subst_vars
    exact AList.lookup_insert s
  · exact AList.lookup_insert_ne ‹_›

theorem lookup_erase {a b : Nat} (s : AList fun _ : Nat => Node ε) :
    (s.erase a).lookup b = if b = a then none else s.lookup b := by
  split
  · subst_vars
    exact AList.lookup_erase _ s
  · exact AList.lookup_erase_ne ‹_›

namespace Heap

def empty : Heap ε := ⟨none, ∅⟩

def alloc (h : Heap ε) (a : Nat) (e : ε) : Heap ε :=
  { h with nodes := h.nodes.insert a ⟨e, none, none⟩ }

def free (h : Heap ε) (a : Nat) : Heap ε := { h with nodes := h.nodes.erase a }

def update (h : Heap ε) (a : Nat) (f : Node ε → Node ε) : Option (Heap ε) := do
  let n ← h.nodes.lookup a
  some { h with nodes := h.nodes.insert a (f n) }

def link (h : Heap ε) : Link → Option (Option Nat)
  | .first => some h.first
  | .next a => (h.nodes.lookup a).map Node.next

def prev (h : Heap ε) (a : Nat) : Option Link := (h.nodes.lookup a).bind Node.prev

def data (h : Heap ε) (a : Nat) : Option ε := (h.nodes.lookup a).map Node.data

def setLink (h : Heap ε) (l : Link) (x : Option Nat) : Option (Heap ε) :=
  match l with
  | .first => some { h with first := x }
  | .next a => h.update a fun n => { n with next := x }

def setPrev (h : Heap ε) (a : Nat) (l : Option Link) : Option (Heap ε) :=
  h.update a fun n => { n with prev := l }

/-- `setPrev` of the entry pointed to, if there is one. -/
def setPrevOf (h : Heap ε) (x : Option Nat) (l : Option Link) : Option (Heap ε) :=
  match x with
  | some a => h.setPrev a l
  | none => some h

-- ---------------------------------------------------------------------------
-- Writes
-- ---------------------------------------------------------------------------

section
variable {h : Heap ε} {a : Nat} {l : Link} {x : Option Nat}

theorem setLink_some (hl : h.link l = some x) (y : Option Nat) :
    ∃ h', h.setLink l y = some h' ∧ (∀ m, h'.link m = if m = l then some y else h.link m) ∧
      h'.prev = h.prev ∧ h'.data = h.data := by
  cases l with
  | first =>
    refine ⟨{ h with first := y }, rfl, fun m => ?_, rfl, rfl⟩
    cases m <;> rfl
  | next a =>
    simp only [link, Option.map_eq_some_iff] at hl
    obtain ⟨n, hn, -⟩ := hl
    refine ⟨_, by simp [setLink, update, hn]; rfl, fun m => ?_, ?_, ?_⟩
    · cases m with
      | first => rfl
      | next b =>
        simp only [link, lookup_insert, Link.next.injEq]
        split <;> simp
    all_goals
      funext b
      simp only [prev, data, lookup_insert]
      rcases eq_or_ne b a with rfl | hb <;> simp [*]

theorem setPrev_some (ha : h.data a = some e) (l : Option Link) :
    ∃ h', h.setPrev a l = some h' ∧ h'.link = h.link ∧
      (∀ b, h'.prev b = if b = a then l else h.prev b) ∧ h'.data = h.data := by
  simp only [data, Option.map_eq_some_iff] at ha
  obtain ⟨n, hn, -⟩ := ha
  refine ⟨_, by simp [setPrev, update, hn]; rfl, ?_, fun b => ?_, ?_⟩
  · funext m
    cases m with
    | first => rfl
    | next b =>
      simp only [link, lookup_insert]
      rcases eq_or_ne b a with rfl | hb <;> simp [*]
  · simp only [prev, lookup_insert]
    split <;> simp
  · funext b
    simp only [data, lookup_insert]
    rcases eq_or_ne b a with rfl | hb <;> simp [*]

theorem setPrevOf_some (hx : ∀ a, x = some a → ∃ e, h.data a = some e) (l : Option Link) :
    ∃ h', h.setPrevOf x l = some h' ∧ h'.link = h.link ∧
      (∀ b, h'.prev b = if x = some b then l else h.prev b) ∧ h'.data = h.data := by
  cases x with
  | none => exact ⟨h, rfl, rfl, fun b => by simp, rfl⟩
  | some a =>
    obtain ⟨e, he⟩ := hx a rfl
    obtain ⟨h', hr, hl, hp, hd⟩ := setPrev_some he l
    exact ⟨h', hr, hl, fun b => by simp [hp, eq_comm], hd⟩

@[simp] theorem alloc_link (m : Link) :
    (h.alloc a e).link m = if m = .next a then some none else h.link m := by
  cases m with
  | first => rfl
  | next b =>
    simp only [alloc, link, lookup_insert, Link.next.injEq]
    split <;> simp

theorem alloc_prev (b : Nat) : (h.alloc a e).prev b = if b = a then none else h.prev b := by
  simp only [alloc, prev, lookup_insert]
  split <;> simp

@[simp] theorem alloc_data (b : Nat) :
    (h.alloc a e).data b = if b = a then some e else h.data b := by
  simp only [alloc, data, lookup_insert]
  split <;> simp

theorem free_link (m : Link) : (h.free a).link m = if m = .next a then none else h.link m := by
  cases m with
  | first => rfl
  | next b =>
    simp only [free, link, lookup_erase, Link.next.injEq]
    split <;> simp

theorem free_prev (b : Nat) : (h.free a).prev b = if b = a then none else h.prev b := by
  simp only [free, prev, lookup_erase]
  split <;> simp

theorem free_data (b : Nat) : (h.free a).data b = if b = a then none else h.data b := by
  simp only [free, data, lookup_erase]
  split <;> simp

end

-- ---------------------------------------------------------------------------
-- Operations
-- ---------------------------------------------------------------------------

def insertAfter (h : Heap ε) (listelm elm : Nat) : Option (Heap ε) := do
  let next ← h.link (.next listelm)
  let h ← h.setLink (.next elm) next
  let h ← h.setPrevOf next (some (.next elm))
  let h ← h.setLink (.next listelm) (some elm)
  h.setPrev elm (some (.next listelm))

def insertBefore (h : Heap ε) (listelm elm : Nat) : Option (Heap ε) := do
  let prev ← h.prev listelm
  let h ← h.setPrev elm (some prev)
  let h ← h.setLink (.next elm) (some listelm)
  let h ← h.setLink prev (some elm)
  h.setPrev listelm (some (.next elm))

def insertHead (h : Heap ε) (elm : Nat) : Option (Heap ε) := do
  let h ← h.setLink (.next elm) h.first
  let h ← h.setPrevOf h.first (some (.next elm))
  let h ← h.setLink .first (some elm)
  h.setPrev elm (some .first)

def remove (h : Heap ε) (elm : Nat) : Option (Heap ε) := do
  let next ← h.link (.next elm)
  let prev ← h.prev elm
  let h ← h.setPrevOf next (some prev)
  let h ← h.setLink prev next
  let h ← h.setLink (.next elm) none
  h.setPrev elm none

/-- Remove and free the first entry until there is none. Each round frees an entry, so
there are no more rounds than entries. -/
def clearFrom (h : Heap ε) : Nat → Option (Heap ε)
  | 0 => if h.first = none then some h else none
  | n + 1 =>
    match h.first with
    | none => some h
    | some a => do
      let h ← h.remove a
      (h.free a).clearFrom n

def clear (h : Heap ε) : Option (Heap ε) := h.clearFrom h.nodes.keys.length

-- ---------------------------------------------------------------------------
-- Splices
-- ---------------------------------------------------------------------------

/-- `h'` is `h` with the entry `elm` behind the link `l`. -/
structure Spliced (h h' : Heap ε) (l : Link) (elm : Nat) : Prop where
  link_at : h'.link l = some (some elm)
  link_elm : h'.link (.next elm) = h.link l
  link_old : ∀ m, m ≠ l → m ≠ .next elm → h'.link m = h.link m
  prev_elm : h'.prev elm = some l
  prev_on : ∀ b, h.link l = some (some b) → h'.prev b = some (.next elm)
  prev_old : ∀ b, b ≠ elm → h.link l ≠ some (some b) → h'.prev b = h.prev b
  data : h'.data = h.data

section
variable {h : Heap ε} {p q : Nat} {x : Option Nat}

/-- The four writes of an insertion, the entry having been linked on to `x`. -/
theorem Spliced.of_writes {h' : Heap ε} {l : Link} {q : Nat} {x : Option Nat}
    (hl : h.link l = some x) (hne : l ≠ .next q) (hx : x ≠ some q)
    (link : ∀ m, h'.link m = if m = l then some (some q) else if m = .next q then some x else h.link m)
    (prev : ∀ b, h'.prev b = if b = q then some l else if x = some b then some (.next q) else h.prev b)
    (data : h'.data = h.data) : h.Spliced h' l q where
  link_at := by simp [link]
  link_elm := by simp [link, hne.symm, hl]
  link_old m hm hm' := by simp [link, hm, hm']
  prev_elm := by simp [prev]
  prev_on b hb := by
    rw [hl] at hb
    cases hb
    have hbq : b ≠ q := fun h => hx (congrArg some h)
    simp [prev, hbq]
  prev_old b hb hn := by
    have hxb : x ≠ some b := fun h => hn (hl.trans (congrArg some h))
    simp [prev, hb, hxb]
  data := data

theorem insertAfter_spliced (hp : h.link (.next p) = some x) (hq : h.link (.next q) = some y)
    (hx : ∀ a, x = some a → a ≠ q ∧ ∃ e, h.data a = some e) (he : h.data q = some e) (hne : p ≠ q) :
    ∃ h', h.insertAfter p q = some h' ∧ h.Spliced h' (.next p) q := by
  obtain ⟨h₁, hr₁, hl₁, hp₁, hd₁⟩ := setLink_some hq x
  obtain ⟨h₂, hr₂, hl₂, hp₂, hd₂⟩ :=
    setPrevOf_some (fun a ha => hd₁ ▸ (hx a ha).2) (some (.next q))
  have hp' : h₂.link (.next p) = some x := by simp [hl₂, hl₁, hne, hp]
  obtain ⟨h₃, hr₃, hl₃, hp₃, hd₃⟩ := setLink_some hp' (some q)
  have he' : h₃.data q = some e := by rw [hd₃, hd₂, hd₁, he]
  obtain ⟨h₄, hr₄, hl₄, hp₄, hd₄⟩ := setPrev_some he' (some (.next p))
  refine ⟨h₄, by simp [insertAfter, hp, hr₁, hr₂, hr₃, hr₄], ?_⟩
  refine .of_writes hp (by simpa using hne) (fun h => (hx q h).1 rfl) (fun m => ?_) (fun b => ?_) ?_
  · simp [hl₄, hl₃, hl₂, hl₁]
  · simp [hp₄, hp₃, hp₂, hp₁]
  · rw [hd₄, hd₃, hd₂, hd₁]

theorem insertHead_spliced (hq : h.link (.next q) = some y)
    (hx : ∀ a, h.first = some a → a ≠ q ∧ ∃ e, h.data a = some e) (he : h.data q = some e) :
    ∃ h', h.insertHead q = some h' ∧ h.Spliced h' .first q := by
  obtain ⟨h₁, hr₁, hl₁, hp₁, hd₁⟩ := setLink_some hq h.first
  have hf : h₁.first = h.first := Option.some.inj (hl₁ .first)
  obtain ⟨h₂, hr₂, hl₂, hp₂, hd₂⟩ :=
    setPrevOf_some (fun a ha => hd₁ ▸ (hx a (hf ▸ ha)).2) (some (.next q))
  obtain ⟨h₃, hr₃, hl₃, hp₃, hd₃⟩ := setLink_some (l := .first) (x := h₂.first) rfl (some q)
  have he' : h₃.data q = some e := by rw [hd₃, hd₂, hd₁, he]
  obtain ⟨h₄, hr₄, hl₄, hp₄, hd₄⟩ := setPrev_some he' (some .first)
  refine ⟨h₄, by simp [insertHead, hr₁, hr₂, hr₃, hr₄], ?_⟩
  refine .of_writes rfl nofun (fun h => (hx q h).1 rfl) (fun m => ?_) (fun b => ?_) ?_
  · simp [hl₄, hl₃, hl₂, hl₁]
  · simp [hp₄, hp₃, hp₂, hp₁, hf]
  · rw [hd₄, hd₃, hd₂, hd₁]

theorem insertBefore_spliced (hp : h.prev p = some l) (hl : h.link l = some (some p))
    (hq : h.link (.next q) = some y) (he : h.data q = some e) (hd : h.data p = some d)
    (hne : l ≠ .next q) (hpq : p ≠ q) :
    ∃ h', h.insertBefore p q = some h' ∧ h.Spliced h' l q := by
  obtain ⟨h₁, hr₁, hl₁, hp₁, hd₁⟩ := setPrev_some he (some l)
  obtain ⟨h₂, hr₂, hl₂, hp₂, hd₂⟩ := setLink_some (hl₁ ▸ hq) (some p)
  have hl' : h₂.link l = some (some p) := by simp [hl₂, hl₁, hne, hl]
  obtain ⟨h₃, hr₃, hl₃, hp₃, hd₃⟩ := setLink_some hl' (some q)
  have hd' : h₃.data p = some d := by rw [hd₃, hd₂, hd₁, hd]
  obtain ⟨h₄, hr₄, hl₄, hp₄, hd₄⟩ := setPrev_some hd' (some (.next q))
  refine ⟨h₄, by simp [insertBefore, hp, hr₁, hr₂, hr₃, hr₄], ?_⟩
  refine .of_writes hl hne (by simpa using hpq) (fun m => ?_) (fun b => ?_) ?_
  · simp [hl₄, hl₃, hl₂, hl₁]
  · by_cases hb : b = p
    · subst hb
      simp [hp₄, hpq]
    · simp [hp₄, hp₃, hp₂, hp₁, hb, Ne.symm hb]
  · rw [hd₄, hd₃, hd₂, hd₁]

end

-- ---------------------------------------------------------------------------
-- Segments
-- ---------------------------------------------------------------------------

/-- From the link `l` on there are these entries; the link of the last one is `l'`. -/
def Seg (h : Heap ε) : Link → List (Nat × ε) → Link → Prop
  | l, [], l' => l = l'
  | l, c :: cs, l' =>
    h.link l = some (some c.1) ∧ h.data c.1 = some c.2 ∧ h.prev c.1 = some l ∧
      h.Seg (.next c.1) cs l'

/-- The heap is the list: its entries in order, the link that ends it, and nothing else. -/
structure Holds (h : Heap ε) (cs : List (Nat × ε)) (l : Link) : Prop where
  seg : h.Seg .first cs l
  stop : h.link l = some none
  nodup : (cs.map Prod.fst).Nodup
  alloc : ∀ a, h.data a ≠ none → a ∈ cs.map Prod.fst

section
variable {h h' : Heap ε} {l l' : Link} {cs xs ys : List (Nat × ε)} {a q : Nat} {e : ε}

theorem seg_append :
    h.Seg l (xs ++ ys) l' ↔ ∃ m, h.Seg l xs m ∧ h.Seg m ys l' := by
  induction xs generalizing l with
  | nil => simp [Seg]
  | cons c xs ih => simp [Seg, ih, and_assoc]

theorem Seg.last (hs : h.Seg l cs l') : cs = [] ∧ l' = l ∨ ∃ a ∈ cs.map Prod.fst, l' = .next a := by
  induction cs generalizing l with
  | nil => exact .inl ⟨rfl, hs.symm⟩
  | cons c cs ih =>
    refine .inr ?_
    obtain ⟨rfl, hl⟩ | ⟨a, ha, hl⟩ := ih hs.2.2.2
    · exact ⟨c.1, by simp, hl⟩
    · exact ⟨a, by simpa using .inr (by simpa using ha), hl⟩

/-- A segment stays when the links in front of its entries, and their back links, do. -/
theorem Seg.frame (hs : h.Seg l cs l') (hn : (cs.map Prod.fst).Nodup)
    (hl : ∀ a ∈ cs.map Prod.fst, l ≠ .next a)
    (link : ∀ m, m ≠ l' → (m = l ∨ ∃ a ∈ cs.map Prod.fst, m = .next a) → h'.link m = h.link m)
    (prev : ∀ a ∈ cs.map Prod.fst, h'.prev a = h.prev a)
    (data : ∀ a ∈ cs.map Prod.fst, h'.data a = h.data a) : h'.Seg l cs l' := by
  induction cs generalizing l with
  | nil => exact hs
  | cons c cs ih =>
    have hne : l ≠ l' := by
      rcases hs.last with ⟨hnil, -⟩ | ⟨a, ha, rfl⟩
      · cases hnil
      · exact hl a ha
    simp only [List.map_cons, List.nodup_cons] at hn
    simp only [List.map_cons, List.forall_mem_cons] at hl prev data
    obtain ⟨h₁, h₂, h₃, h₄⟩ := hs
    refine ⟨(link l hne (.inl rfl)).trans h₁, data.1.trans h₂, prev.1.trans h₃, ?_⟩
    refine ih h₄ hn.2 (fun a ha heq => ?_) (fun m hm hml => ?_) prev.2 data.2
    · cases heq
      exact hn.1 ha
    · refine link m hm (.inr ?_)
      rcases hml with rfl | ⟨a, ha, rfl⟩
      · exact ⟨c.1, by simp, rfl⟩
      · exact ⟨a, List.mem_cons_of_mem _ ha, rfl⟩

theorem Seg.prev_notMem (hs : h.Seg l ys l') (hstop : h.link l' = some none)
    (ha : a ∉ ys.map Prod.fst) : h.link l ≠ some (some a) := by
  cases ys with
  | nil =>
    cases hs
    simp [hstop]
  | cons c ys =>
    simp only [hs.1, ne_eq, Option.some.injEq]
    rintro rfl
    simp at ha

/-- An entry spliced in behind the link between two segments stands between them. -/
theorem Spliced.holds (hsp : h.Spliced h' l q) (hx : h.Seg .first xs l) (hy : h.Seg l ys l')
    (hstop : h.link l' = some none) (he : h.data q = some e)
    (hn : ((xs ++ ys).map Prod.fst).Nodup) (hq : q ∉ (xs ++ ys).map Prod.fst)
    (halloc : ∀ a, h.data a ≠ none → a = q ∨ a ∈ (xs ++ ys).map Prod.fst) :
    ∃ l'', h'.Holds (xs ++ (q, e) :: ys) l'' := by
  simp only [List.map_append, List.nodup_append', List.mem_append, not_or] at hn hq halloc
  obtain ⟨hnx, hny, hdisj⟩ := hn
  have hlq : ∀ a ∈ ys.map Prod.fst, l ≠ .next a := by
    intro a ha hla
    rcases hx.last with ⟨-, hl⟩ | ⟨b, hb, hl⟩
    · rw [hl] at hla
      cases hla
    · rw [hl] at hla
      cases hla
      exact hdisj hb ha
  have hxs : h'.Seg .first xs l := by
    refine hx.frame hnx nofun (fun m hm hml => hsp.link_old m hm ?_) (fun a ha => ?_)
      fun a _ => congrFun hsp.data a
    · rintro rfl
      rcases hml with hml | ⟨a, ha, hml⟩
      · cases hml
      · cases hml
        exact hq.1 ha
    · refine hsp.prev_old a (fun h => hq.1 (h ▸ ha)) ?_
      exact hy.prev_notMem hstop fun hay => hdisj ha hay
  have hnodup : ((xs ++ (q, e) :: ys).map Prod.fst).Nodup := by
    simp only [List.map_append, List.map_cons, List.nodup_append', List.nodup_cons,
      List.disjoint_cons_right]
    exact ⟨hnx, ⟨hq.2, hny⟩, hq.1, hdisj⟩
  have hall : ∀ a, h'.data a ≠ none → a ∈ (xs ++ (q, e) :: ys).map Prod.fst := by
    intro a ha
    rw [hsp.data] at ha
    have := halloc a ha
    simp only [List.map_append, List.map_cons, List.mem_append, List.mem_cons]
    tauto
  cases ys with
  | nil =>
    cases hy
    refine ⟨.next q, seg_append.2 ⟨l, hxs, ?_⟩, hsp.link_elm.trans hstop, hnodup, hall⟩
    exact ⟨hsp.link_at, hsp.data ▸ he, hsp.prev_elm, rfl⟩
  | cons c ys =>
    obtain ⟨h₁, h₂, h₃, h₄⟩ := hy
    simp only [List.map_cons, List.nodup_cons, List.mem_cons, not_or] at hny hq hlq
    have hl' : l' ≠ l ∧ l' ≠ .next q := by
      rcases h₄.last with ⟨-, rfl⟩ | ⟨a, ha, rfl⟩
      · exact ⟨(hlq _ (.inl rfl)).symm, by simpa using Ne.symm hq.2.1⟩
      · refine ⟨(hlq a (.inr ha)).symm, ?_⟩
        rintro ⟨⟩
        exact hq.2.2 ha
    refine ⟨l', seg_append.2 ⟨l, hxs, ?_⟩, (hsp.link_old l' hl'.1 hl'.2).trans hstop, hnodup, hall⟩
    refine ⟨hsp.link_at, hsp.data ▸ he, hsp.prev_elm, hsp.link_elm.trans h₁, hsp.data ▸ h₂,
      hsp.prev_on _ h₁, ?_⟩
    refine h₄.frame hny.2 (fun a ha heq => ?_) (fun m hm hml => hsp.link_old m ?_ ?_) (fun a ha => ?_)
      fun a _ => congrFun hsp.data a
    · cases heq
      exact hny.1 ha
    · rintro rfl
      rcases hml with hml | ⟨a, ha, hml⟩
      · exact hlq _ (.inl rfl) hml
      · exact hlq a (.inr ha) hml
    · rintro rfl
      rcases hml with hml | ⟨a, ha, hml⟩
      · cases hml
        exact hq.2.1 rfl
      · cases hml
        exact hq.2.2 ha
    · refine hsp.prev_old a (fun h => hq.2.2 (h ▸ ha)) ?_
      rw [h₁]
      rintro ⟨⟩
      exact hny.1 ha

end

-- ---------------------------------------------------------------------------
-- Operations on lists
-- ---------------------------------------------------------------------------

section
variable {h : Heap ε} {l : Link} {cs xs ys : List (Nat × ε)} {p q : Nat} {d e : ε}

theorem holds_empty : (empty : Heap ε).Holds [] .first where
  seg := rfl
  stop := rfl
  nodup := .nil
  alloc a ha := by simp [data, empty] at ha

theorem Holds.first_eq (hh : h.Holds cs l) : h.first = cs.head?.map Prod.fst := by
  cases cs with
  | nil =>
    obtain rfl : Link.first = l := hh.seg
    exact Option.some.inj hh.stop
  | cons c cs => exact Option.some.inj hh.seg.1

theorem Holds.data_mem (hh : h.Holds cs l) (hp : p ∈ cs.map Prod.fst) : ∃ d, h.data p = some d := by
  have hseg := hh.seg
  generalize Link.first = m at hseg
  clear hh
  induction cs generalizing m with
  | nil => cases hp
  | cons c cs ih =>
    rcases List.mem_cons.1 hp with rfl | hp
    · exact ⟨c.2, hseg.2.1⟩
    · exact ih hp _ hseg.2.2.2

theorem Holds.free_iff (hh : h.Holds cs l) : h.data q = none ↔ q ∉ cs.map Prod.fst := by
  constructor
  · intro hq hm
    obtain ⟨d, hd⟩ := hh.data_mem hm
    rw [hq] at hd
    cases hd
  · intro hq
    by_contra hne
    exact hq (hh.alloc q hne)

/-- The segments stay when an entry is allocated that is in none of them. -/
theorem Seg.alloc (hs : h.Seg l cs m) (hq : q ∉ cs.map Prod.fst) (hl : l ≠ .next q) :
    (h.alloc q e).Seg l cs m := by
  induction cs generalizing l with
  | nil => exact hs
  | cons c cs ih =>
    simp only [List.map_cons, List.mem_cons, not_or] at hq
    obtain ⟨h₁, h₂, h₃, h₄⟩ := hs
    have hc := Ne.symm hq.1
    refine ⟨by simp [hl, h₁], by simp [hc, h₂], by simp [alloc_prev, hc, h₃], ?_⟩
    exact ih h₄ hq.2 (by simpa using hc)

/-- A fresh entry spliced in behind the link between the two parts of the list. -/
theorem Holds.splice {h' : Heap ε} (hh : h.Holds (xs ++ ys) l) (hx : h.Seg .first xs m)
    (hy : h.Seg m ys l) (hq : q ∉ (xs ++ ys).map Prod.fst)
    (hsp : (h.alloc q e).Spliced h' m q) : ∃ l', h'.Holds (xs ++ (q, e) :: ys) l' := by
  simp only [List.map_append, List.mem_append, not_or] at hq
  have hm : m ≠ .next q := by
    rcases hx.last with ⟨-, rfl⟩ | ⟨a, ha, rfl⟩
    · nofun
    · rintro ⟨⟩
      exact hq.1 ha
  have hl : l ≠ .next q := by
    rcases hy.last with ⟨-, rfl⟩ | ⟨a, ha, rfl⟩
    · exact hm
    · rintro ⟨⟩
      exact hq.2 ha
  refine hsp.holds (hx.alloc hq.1 nofun) (hy.alloc hq.2 hm) ?_ (by simp) hh.nodup (by simpa using hq)
    fun a ha => ?_
  · simp [hl, hh.stop]
  · by_cases haq : a = q
    · exact .inl haq
    · exact .inr (hh.alloc a (by simpa [haq] using ha))

theorem Seg.first_mem (hs : h.Seg l cs m) (hstop : h.link m = some none)
    (hx : h.link l = some (some a)) : a ∈ cs.map Prod.fst := by
  by_contra ha
  exact hs.prev_notMem hstop ha hx

theorem Holds.insertAfter (hh : h.Holds (xs ++ (p, d) :: ys) l)
    (hq : q ∉ (xs ++ (p, d) :: ys).map Prod.fst) (e : ε) :
    ∃ h' l', (h.alloc q e).insertAfter p q = some h' ∧ h'.Holds (xs ++ (p, d) :: (q, e) :: ys) l' := by
  have hseg := hh.seg
  rw [List.append_cons, seg_append] at hseg
  obtain ⟨m, hx, hy⟩ := hseg
  obtain ⟨m', hx', h₁, h₂, h₃, rfl⟩ := seg_append.1 hx
  have hpq : p ≠ q := by
    rintro rfl
    simp at hq
  obtain ⟨x, hp⟩ : ∃ x, h.link (.next p) = some x := by
    cases ys with
    | nil =>
      cases hy
      exact ⟨_, hh.stop⟩
    | cons c ys => exact ⟨_, hy.1⟩
  have hnext : ∀ a, x = some a → a ≠ q ∧ ∃ e', (h.alloc q e).data a = some e' := by
    rintro a rfl
    have ha := hy.first_mem hh.stop hp
    have haq : a ≠ q := by
      rintro rfl
      simp only [List.map_append, List.map_cons, List.mem_append, List.mem_cons, not_or] at hq
      exact hq.2.2 ha
    obtain ⟨d', hd'⟩ := hh.data_mem (p := a) (by simp [List.mem_map.1 ha])
    exact ⟨haq, d', by simp [haq, hd']⟩
  obtain ⟨h', hr, hsp⟩ := insertAfter_spliced (h := h.alloc q e) (p := p) (q := q) (x := x)
    (y := none) (e := e) (by simp [hpq, hp]) (by simp) hnext (by simp) hpq
  rw [List.append_cons] at hh hq ⊢
  obtain ⟨l', hl'⟩ := hh.splice hx hy hq hsp
  exact ⟨h', l', hr, by simpa using hl'⟩

theorem Holds.insertBefore (hh : h.Holds (xs ++ (p, d) :: ys) l)
    (hq : q ∉ (xs ++ (p, d) :: ys).map Prod.fst) (e : ε) :
    ∃ h' l', (h.alloc q e).insertBefore p q = some h' ∧
      h'.Holds (xs ++ (q, e) :: (p, d) :: ys) l' := by
  obtain ⟨m, hx, hy⟩ := seg_append.1 hh.seg
  have hpq : p ≠ q := by
    rintro rfl
    simp at hq
  have hm : m ≠ .next q := by
    rcases hx.last with ⟨-, rfl⟩ | ⟨a, ha, rfl⟩
    · nofun
    · rintro ⟨⟩
      simp only [List.map_append, List.mem_append, not_or] at hq
      exact hq.1 ha
  obtain ⟨h₁, h₂, h₃, -⟩ := id hy
  obtain ⟨h', hr, hsp⟩ := insertBefore_spliced (h := h.alloc q e) (p := p) (q := q) (l := m)
    (y := none) (e := e) (d := d) (by simp [alloc_prev, hpq, h₃]) (by simp [hm, h₁]) (by simp)
    (by simp) (by simp [hpq, h₂]) hm hpq
  obtain ⟨l', hl'⟩ := hh.splice hx hy hq hsp
  exact ⟨h', l', hr, hl'⟩

theorem Holds.insertHead (hh : h.Holds [] l) (q : Nat) (e : ε) :
    ∃ h' l', (h.alloc q e).insertHead q = some h' ∧ h'.Holds [(q, e)] l' := by
  have hl : l = .first := hh.seg.symm
  have hfirst : h.first = none := hh.first_eq
  obtain ⟨h', hr, hsp⟩ := insertHead_spliced (h := h.alloc q e) (q := q) (y := none) (e := e)
    (by simp) (fun a ha => by cases hfirst.symm.trans ha) (by simp)
  have hnone : h.Seg .first [] .first := rfl
  have hrest : h.Seg .first [] l := hl.symm
  obtain ⟨l', hl'⟩ := Holds.splice hh hnone hrest (by simp) hsp
  exact ⟨h', l', hr, hl'⟩

/-- The first entry is taken out and freed. -/
theorem Holds.remove (hh : h.Holds ((p, d) :: cs) l) :
    ∃ h' l', h.remove p = some h' ∧ (h'.free p).Holds cs l' := by
  obtain ⟨h₁, h₂, h₃, h₄⟩ := hh.seg
  have hn := hh.nodup
  simp only [List.map_cons, List.nodup_cons] at hn
  obtain ⟨x, hx⟩ : ∃ x, h.link (.next p) = some x := by
    cases cs with
    | nil =>
      cases h₄
      exact ⟨_, hh.stop⟩
    | cons c cs => exact ⟨_, h₄.1⟩
  have hnext : ∀ a, x = some a → a ∈ cs.map Prod.fst := by
    rintro a rfl
    exact h₄.first_mem hh.stop hx
  have hne : x ≠ some p := fun h => hn.1 (hnext p h)
  obtain ⟨k₁, hr₁, hl₁, hp₁, hd₁⟩ := setPrevOf_some
    (fun a ha => hh.data_mem (p := a) (by simpa using .inr (by simpa using hnext a ha)))
    (some Link.first)
  obtain ⟨k₂, hr₂, hl₂, hp₂, hd₂⟩ := setLink_some (show k₁.link .first = _ from hl₁ ▸ h₁) x
  obtain ⟨k₃, hr₃, hl₃, hp₃, hd₃⟩ := setLink_some
    (show k₂.link (.next p) = some x by simp [hl₂, hl₁, hx]) none
  obtain ⟨k₄, hr₄, hl₄, hp₄, hd₄⟩ := setPrev_some (show k₃.data p = some d by
    rw [hd₃, hd₂, hd₁, h₂]) none
  have hdata : k₄.data = h.data := by rw [hd₄, hd₃, hd₂, hd₁]
  have hlink : ∀ m, (k₄.free p).link m =
      if m = .next p then none else if m = .first then some x else h.link m := by
    intro m
    by_cases hm : m = .next p
    · simp [free_link, hm]
    · simp [free_link, hl₄, hl₃, hl₂, hl₁, hm]
  have hprev : ∀ b ≠ p, (k₄.free p).prev b = if x = some b then some .first else h.prev b := by
    intro b hb
    simp [free_prev, hp₄, hp₃, hp₂, hp₁, hb]
  have halloc : ∀ a, (k₄.free p).data a ≠ none → a ∈ cs.map Prod.fst := by
    intro a ha
    rw [free_data, hdata] at ha
    by_cases hap : a = p
    · simp [hap] at ha
    · rw [if_neg hap] at ha
      exact (List.mem_cons.1 (hh.alloc a ha)).resolve_left hap
  refine ⟨k₄, ?_⟩
  have hrun : h.remove p = some k₄ := by simp [Heap.remove, hx, h₃, hr₁, hr₂, hr₃, hr₄]
  cases cs with
  | nil =>
    cases h₄
    refine ⟨.first, hrun, rfl, ?_, .nil, halloc⟩
    rw [hlink, if_neg nofun, if_pos rfl, ← hx, hh.stop]
  | cons c cs =>
    obtain ⟨g₁, g₂, g₃, g₄⟩ := h₄
    rw [hx] at g₁
    cases g₁
    simp only [List.map_cons, List.nodup_cons, List.mem_cons, not_or] at hn
    obtain ⟨⟨hpc, hpcs⟩, hnc, hncs⟩ := hn
    have hl : l ≠ .next p ∧ l ≠ .first := by
      rcases g₄.last with ⟨-, rfl⟩ | ⟨a, ha, rfl⟩
      · exact ⟨by simpa using Ne.symm hpc, nofun⟩
      · refine ⟨?_, nofun⟩
        rintro ⟨⟩
        exact hpcs ha
    refine ⟨l, hrun, ⟨?_, ?_, ?_, ?_⟩, ?_, List.nodup_cons.2 ⟨hnc, hncs⟩, halloc⟩
    · simp [hlink]
    · simp [free_data, hdata, Ne.symm hpc, g₂]
    · simp [hprev _ (Ne.symm hpc)]
    · refine g₄.frame hncs (fun a ha heq => ?_) (fun m _ hml => ?_) (fun a ha => ?_) fun a ha => ?_
      · cases heq
        exact hnc ha
      · rw [hlink]
        rcases hml with rfl | ⟨a, ha, rfl⟩
        · simp [Ne.symm hpc]
        · have hap : a ≠ p := fun h => hpcs (h ▸ ha)
          simp [hap]
      · have hap : a ≠ p := fun h => hpcs (h ▸ ha)
        have hca : c.1 ≠ a := fun h => hnc (h ▸ ha)
        simp [hprev a hap, hca]
      · have hap : a ≠ p := fun h => hpcs (h ▸ ha)
        simp [free_data, hdata, hap]
    · simp [hlink, hl, hh.stop]

theorem Holds.clearFrom (hh : h.Holds cs l) {n : Nat} (hn : cs.length ≤ n) :
    ∃ h' l', h.clearFrom n = some h' ∧ h'.Holds [] l' := by
  have hfirst := hh.first_eq
  induction n generalizing h cs l with
  | zero =>
    obtain rfl := List.length_eq_zero_iff.1 (Nat.le_zero.1 hn)
    exact ⟨h, l, by simp [Heap.clearFrom, hfirst], hh⟩
  | succ n ih =>
    cases cs with
    | nil => exact ⟨h, l, by simp [Heap.clearFrom, hfirst], hh⟩
    | cons c cs =>
      obtain ⟨h₁, l₁, hr, hh₁⟩ := Holds.remove (p := c.1) (d := c.2) hh
      obtain ⟨h', l', hr', hh'⟩ := ih hh₁ (Nat.le_of_succ_le_succ hn) hh₁.first_eq
      exact ⟨h', l', by simp [Heap.clearFrom, hfirst, hr, hr'], hh'⟩

theorem Holds.clear (hh : h.Holds cs l) : ∃ h' l', h.clear = some h' ∧ h'.Holds [] l' := by
  refine hh.clearFrom ?_
  have hsub : cs.map Prod.fst ⊆ h.nodes.keys := by
    intro a ha
    obtain ⟨d, hd⟩ := hh.data_mem ha
    simp only [data, Option.map_eq_some_iff] at hd
    obtain ⟨n, hn, -⟩ := hd
    exact AList.mem_keys.1 (AList.lookup_isSome.1 (by simp [hn]))
  simpa using (List.subperm_of_subset hh.nodup hsub).length_le

end

end Heap

end BackLinked
