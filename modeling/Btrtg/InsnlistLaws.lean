import Btrtg.Insnlist

/-!
# What an insertion changes

An insertion is described by what it does to the four things execution can
see of a list: its head, the entry at an address, the entry after it, and the
address of a label.
-/

namespace Btrtg.Insnlist

/-- `l'` has one entry more than `l`: `e`, at the new address `b`. -/
structure Adds (l l' : Insnlist) (b : Addr) (e : Entry) : Prop where
  fresh : l.entry? b = none
  entry_new : l'.entry? b = some e
  entry_old : ∀ x ≠ b, l'.entry? x = l.entry? x
  label : ∀ n, (e = .label n → l.labelAddr? n = none) →
    l'.labelAddr? n = if e = .label n then some b else l.labelAddr? n

structure IsAfter (l l' : Insnlist) (pos : Option Addr) (b : Addr) (e : Entry) : Prop
    extends Adds l l' b e where
  succ_pos : l'.succ? pos = some b
  succ_new : l'.succ? (some b) = l.succ? pos
  succ_old : ∀ x ≠ pos, x ≠ some b → l'.succ? x = l.succ? x

structure IsBefore (l l' : Insnlist) (a b : Addr) (e : Entry) : Prop
    extends Adds l l' b e where
  succ_new : l'.succ? (some b) = some a
  succ_old : ∀ x ≠ some b, l'.succ? x = if l.succ? x = some a then some b else l.succ? x

structure IsLast (l l' : Insnlist) (b : Addr) (e : Entry) : Prop extends Adds l l' b e where
  succ_new : l'.succ? (some b) = none
  succ_old : ∀ x y, l.succ? x = some y → l'.succ? x = some y

theorem Adds.entry_mono (h : Adds l l' b e) (he : l.entry? x = some e') :
    l'.entry? x = some e' := by
  have hx : x ≠ b := by
    rintro rfl
    rw [h.fresh] at he; cases he
  rw [h.entry_old x hx, he]

theorem Adds.fresh_old (h : Adds l l' b e) (hx : l'.entry? x = none) : l.entry? x = none := by
  cases hl : l.entry? x with
  | none => rfl
  | some e' => rw [h.entry_mono hl] at hx; cases hx

theorem Adds.label_mono (h : Adds l l' b e) (hnew : ∀ n, e = .label n → l.labelAddr? n = none)
    (hl : l.labelAddr? n = some x) : l'.labelAddr? n = some x := by
  have hn : e ≠ .label n := by
    intro hn
    rw [hnew n hn] at hl; cases hl
  rw [h.label n (hnew n), if_neg hn, hl]

theorem Adds.label_keep (h : Adds l l' b e) (he : ∀ m, e ≠ .label m) (n : Nat) :
    l'.labelAddr? n = l.labelAddr? n := by
  rw [h.label n (fun hn => absurd hn (he n)), if_neg (he n)]

/-- The position is that of an entry, or null in the empty list. -/
def Placed (l : Insnlist) : Option Addr → Prop
  | none => l.cells = []
  | some a => a ∈ l.cells.map Prod.fst

-- ---------------------------------------------------------------------------
-- Links
-- ---------------------------------------------------------------------------

section
variable {cs : List (Addr × Entry)} {c : Addr × Entry} {a b x : Addr} {n : Nat}

theorem entryIn_none : entryIn x cs = none ↔ x ∉ cs.map Prod.fst := by
  induction cs with
  | nil => simp [entryIn]
  | cons d ds ih => grind [entryIn]

theorem entryIn_some_mem (h : entryIn x cs = some e) : x ∈ cs.map Prod.fst := by
  by_contra hx
  rw [entryIn_none.2 hx] at h
  cases h

theorem succIn_none_of_notMem (h : x ∉ cs.map Prod.fst) : succIn x cs = none := by
  induction cs with
  | nil => rfl
  | cons d ds ih => grind [succIn]

theorem succIn_mem (h : succIn x cs = some a) : a ∈ cs.map Prod.fst := by
  induction cs with
  | nil => simp [succIn] at h
  | cons d ds ih =>
    cases ds <;> grind [succIn]

/-- The first entry is the successor of none. -/
theorem succIn_ne_head (hn : (cs.map Prod.fst).Nodup) (h : succIn x cs = some a) :
    cs.head?.map Prod.fst ≠ some a := by
  cases cs with
  | nil => simp [succIn] at h
  | cons d ds =>
    have ha : a ∈ ds.map Prod.fst := by
      unfold succIn at h
      split at h
      · cases ds <;> grind
      · exact succIn_mem h
    grind

theorem entryIn_linkAfter (ha : a ∈ cs.map Prod.fst) (hc : c.1 ∉ cs.map Prod.fst) :
    entryIn x (linkAfter a c cs) = if x = c.1 then some c.2 else entryIn x cs := by
  induction cs with
  | nil => simp at ha
  | cons d ds ih => grind [linkAfter, entryIn]

theorem entryIn_linkBefore (ha : a ∈ cs.map Prod.fst) (hc : c.1 ∉ cs.map Prod.fst) :
    entryIn x (linkBefore a c cs) = if x = c.1 then some c.2 else entryIn x cs := by
  induction cs with
  | nil => simp at ha
  | cons d ds ih => grind [linkBefore, entryIn]

theorem entryIn_append (hc : c.1 ∉ cs.map Prod.fst) :
    entryIn x (cs ++ [c]) = if x = c.1 then some c.2 else entryIn x cs := by
  induction cs with
  | nil => grind [entryIn]
  | cons d ds ih => grind [entryIn]

theorem head_linkAfter : (linkAfter a c cs).head? = cs.head? := by
  cases cs with
  | nil => rfl
  | cons d ds => grind [linkAfter]

theorem head_linkBefore (ha : a ∈ cs.map Prod.fst) :
    (linkBefore a c cs).head?.map Prod.fst =
      if cs.head?.map Prod.fst = some a then some c.1 else cs.head?.map Prod.fst := by
  cases cs with
  | nil => simp at ha
  | cons d ds => grind [linkBefore]

theorem succIn_linkAfter (ha : a ∈ cs.map Prod.fst) (hc : c.1 ∉ cs.map Prod.fst)
    (hn : (cs.map Prod.fst).Nodup) :
    succIn x (linkAfter a c cs) =
      if x = a then some c.1 else if x = c.1 then succIn a cs else succIn x cs := by
  induction cs with
  | nil => simp at ha
  | cons d ds ih =>
    have hhead : (linkAfter a c ds).head? = ds.head? := head_linkAfter
    grind [linkAfter, succIn, succIn_none_of_notMem]

theorem succIn_linkBefore (ha : a ∈ cs.map Prod.fst) (hc : c.1 ∉ cs.map Prod.fst)
    (hn : (cs.map Prod.fst).Nodup) :
    succIn x (linkBefore a c cs) =
      if x = c.1 then some a else if succIn x cs = some a then some c.1 else succIn x cs := by
  induction cs with
  | nil => simp at ha
  | cons d ds ih =>
    by_cases hd : d.1 = a
    · have hx := fun h => succIn_ne_head hn (x := x) (a := a) h
      grind [linkBefore, succIn]
    · have ha' : a ∈ ds.map Prod.fst := by grind
      have hhead := head_linkBefore (c := c) ha'
      grind [linkBefore, succIn]

theorem succIn_append (hc : c.1 ∉ cs.map Prod.fst) :
    succIn x (cs ++ [c]) = if x = c.1 then none else
      if x ∈ cs.map Prod.fst then (succIn x cs).or (some c.1) else none := by
  induction cs with
  | nil => grind [succIn]
  | cons d ds ih =>
    cases ds <;> grind [succIn, succIn_none_of_notMem]

theorem labelIn_linkAfter (ha : a ∈ cs.map Prod.fst) (hl : c.2 = .label n → labelIn n cs = none) :
    labelIn n (linkAfter a c cs) = if c.2 = .label n then some c.1 else labelIn n cs := by
  induction cs with
  | nil => simp at ha
  | cons d ds ih => grind [linkAfter, labelIn]

theorem labelIn_linkBefore (ha : a ∈ cs.map Prod.fst)
    (hl : c.2 = .label n → labelIn n cs = none) :
    labelIn n (linkBefore a c cs) = if c.2 = .label n then some c.1 else labelIn n cs := by
  induction cs with
  | nil => simp at ha
  | cons d ds ih => grind [linkBefore, labelIn]

theorem labelIn_append (hl : c.2 = .label n → labelIn n cs = none) :
    labelIn n (cs ++ [c]) = if c.2 = .label n then some c.1 else labelIn n cs := by
  induction cs with
  | nil => grind [labelIn]
  | cons d ds ih => grind [labelIn]

end

-- ---------------------------------------------------------------------------
-- Operations
-- ---------------------------------------------------------------------------

section
variable {l l' : Insnlist} {a b : Addr} {e : Entry} {pos : Option Addr}

theorem brk_notMem (l : Insnlist) : l.brk ∉ l.cells.map Prod.fst :=
  fun h => Nat.lt_irrefl _ (l.fresh _ h)

theorem placed_iff_entry : l.Placed (some a) ↔ ∃ e, l.entry? a = some e := by
  rw [← not_iff_not, Placed, ← entryIn_none, not_exists, Option.eq_none_iff_forall_ne_some]
  rfl

/-- The insert position is not a new entry. -/
theorem placed_ne (hp : l.Placed pos) (hx : l.entry? x = none) : pos ≠ some x := by
  rintro rfl
  obtain ⟨e, he⟩ := placed_iff_entry.1 hp
  rw [hx] at he; cases he

theorem entry_brk (l : Insnlist) : l.entry? l.brk = none := entryIn_none.2 l.brk_notMem

theorem placed_succ (h : l.succ? pos = some a) : l.Placed (some a) := by
  cases pos with
  | some x => exact succIn_mem h
  | none =>
    show a ∈ l.cells.map Prod.fst
    cases hc : l.cells with
    | nil => simp [succ?, hc] at h
    | cons d ds =>
      simp only [succ?, hc, List.head?_cons, Option.map_some, Option.some.injEq] at h
      simp [h]

theorem placed_of_succ_some (h : l.succ? (some a) = some b) : ∃ e, l.entry? a = some e := by
  rw [← placed_iff_entry]
  by_contra hn
  rw [succ?, succIn_none_of_notMem hn] at h
  cases h

theorem Adds.ne_new (h : Adds l l' b e) (hs : l.succ? x = some y) : x ≠ some b := by
  rintro rfl
  obtain ⟨e, he⟩ := placed_of_succ_some hs
  rw [h.fresh] at he; cases he

theorem IsAfter.succ_keep (h : l.IsAfter l' pos b e) (hs : l.succ? x = some y) (hx : x ≠ pos) :
    l'.succ? x = some y := by
  rw [h.succ_old x hx (h.ne_new hs), hs]

theorem IsBefore.succ_keep (h : l.IsBefore l' a b e) (hs : l.succ? x = some y) (hy : y ≠ a) :
    l'.succ? x = some y := by
  rw [h.succ_old x (h.ne_new hs), hs, if_neg (by simpa using hy)]

theorem IsBefore.succ_moved (h : l.IsBefore l' a b e) (hs : l.succ? x = some a) :
    l'.succ? x = some b := by
  rw [h.succ_old x (h.ne_new hs), hs, if_pos rfl]

theorem isLast_insertTail (l : Insnlist) (e : Entry) :
    ∃ l', l.insertTail e = .done l' l.brk ∧ l.IsLast l' l.brk e := by
  refine ⟨_, rfl, ⟨l.entry_brk, ?_, ?_, ?_⟩, ?_, ?_⟩
  · exact (entryIn_append l.brk_notMem).trans (if_pos rfl)
  · exact fun x hx => (entryIn_append l.brk_notMem).trans (if_neg hx)
  · exact fun n hl => labelIn_append hl
  · exact (succIn_append l.brk_notMem).trans (if_pos rfl)
  · intro x y hxy
    cases x with
    | none =>
      show ((l.cells ++ [(l.brk, e)]).head?).map Prod.fst = _
      simp only [succ?] at hxy
      cases hc : l.cells <;> simp_all
    | some x =>
      have hx : x ∈ l.cells.map Prod.fst := by
        by_contra hx
        rw [succ?, succIn_none_of_notMem hx] at hxy
        cases hxy
      refine (succIn_append l.brk_notMem).trans ?_
      rw [if_neg (fun h : x = l.brk => l.brk_notMem (h ▸ hx)), if_pos hx]
      exact congrArg (Option.or · _) hxy

theorem isAfter_insertAfter (h : l.Placed pos) (e : Entry) :
    ∃ l', l.insertAfter pos e = .done l' l.brk ∧ l.IsAfter l' pos l.brk e := by
  cases pos with
  | none =>
    have hc : l.cells = [] := h
    refine ⟨_, if_pos h, ⟨l.entry_brk, ?_, ?_, ?_⟩, ?_, ?_, ?_⟩
    · simp [withFresh, entry?, hc, entryIn]
    · intro x hx
      simp [withFresh, entry?, hc, entryIn, hx.symm]
    · intro n _
      simp [withFresh, labelAddr?, hc, labelIn]
    · simp [withFresh, succ?, hc]
    · simp [withFresh, succ?, hc, succIn]
    · intro x hx hxb
      cases x with
      | none => exact absurd rfl hx
      | some x => simp [withFresh, succ?, hc, succIn]
  | some a =>
    have hne : ∀ {x}, x ∈ l.cells.map Prod.fst → x ≠ l.brk := fun hx h => l.brk_notMem (h ▸ hx)
    refine ⟨_, dif_pos h, ⟨l.entry_brk, ?_, ?_, ?_⟩, ?_, ?_, ?_⟩
    · exact (entryIn_linkAfter h l.brk_notMem).trans (if_pos rfl)
    · exact fun x hx => (entryIn_linkAfter h l.brk_notMem).trans (if_neg hx)
    · exact fun n hl => labelIn_linkAfter h hl
    · exact (succIn_linkAfter h l.brk_notMem l.nodup).trans (if_pos rfl)
    · refine (succIn_linkAfter h l.brk_notMem l.nodup).trans ?_
      rw [if_neg (hne h).symm, if_pos rfl]
      rfl
    · intro x hxa hxb
      cases x with
      | none => exact congrArg (Option.map Prod.fst) head_linkAfter
      | some x =>
        refine (succIn_linkAfter h l.brk_notMem l.nodup).trans ?_
        rw [if_neg (by simpa using hxa), if_neg (by simpa using hxb)]
        rfl

theorem isBefore_insertBefore (h : l.Placed (some a)) (e : Entry) :
    ∃ l', l.insertBefore (some a) e = .done l' l.brk ∧ l.IsBefore l' a l.brk e := by
  refine ⟨_, dif_pos h, ⟨l.entry_brk, ?_, ?_, ?_⟩, ?_, ?_⟩
  · exact (entryIn_linkBefore h l.brk_notMem).trans (if_pos rfl)
  · exact fun x hx => (entryIn_linkBefore h l.brk_notMem).trans (if_neg hx)
  · exact fun n hl => labelIn_linkBefore h hl
  · exact (succIn_linkBefore h l.brk_notMem l.nodup).trans (if_pos rfl)
  · intro x hx
    cases x with
    | none => exact head_linkBefore h
    | some x =>
      exact (succIn_linkBefore h l.brk_notMem l.nodup).trans (if_neg (by simpa using hx))

theorem entry_of_labelIn (hn : (cs.map Prod.fst).Nodup) (h : labelIn n cs = some x) :
    entryIn x cs = some (.label n) := by
  induction cs with
  | nil => simp [labelIn] at h
  | cons d ds ih =>
    have hx : labelIn n ds = some x → x ∈ ds.map Prod.fst := fun hl =>
      entryIn_some_mem (ih (List.nodup_cons.1 hn).2 hl)
    grind [labelIn, entryIn]

theorem labelIn_none (h : labelIn n cs = none) : entryIn x cs ≠ some (.label n) := by
  induction cs with
  | nil => simp [entryIn]
  | cons d ds ih => grind [labelIn, entryIn]

theorem entry_of_labelAddr (h : l.labelAddr? n = some x) : l.entry? x = some (.label n) :=
  entry_of_labelIn l.nodup h

theorem labelAddr_of_entry (h : l.entry? x = some (.label n)) : ∃ y, l.labelAddr? n = some y := by
  cases hl : l.labelAddr? n with
  | some y => exact ⟨y, rfl⟩
  | none => exact absurd h (labelIn_none hl)

end

end Btrtg.Insnlist
