import Btrtg.HashTbl
import Mathlib.Data.List.TakeWhile
import Mathlib.Data.Nat.Prime.Basic

/-!
# What stays registered

A parser hands `hash_add` whatever `hash_find` left in the insert object. For a
name that is there already that is the place of the name added before it, so a
name may be repeated only right behind itself, and not when the table has just
grown.
-/

namespace Btrtg

variable {α : Type}

-- ---------------------------------------------------------------------------
-- Probing of the table
-- ---------------------------------------------------------------------------

theorem hashMask_and (n p : Nat) : n &&& hashMask (2 ^ p) = n % 2 ^ p :=
  Nat.and_two_pow_sub_one_eq_mod n p

theorem hashPosNext_eq (inc p pos : Nat) :
    hashPosNext inc (hashMask (2 ^ p)) pos = (pos + inc) % 2 ^ p :=
  hashMask_and _ p

/-- The step is odd, so it meets every slot of a table whose size is a power of two. -/
theorem hashInc_coprime (hash : BitVec 64) (mask p : Nat) :
    Nat.Coprime (hashInc hash mask) (2 ^ p) := by
  refine Nat.Coprime.pow_right p ?_
  rw [Nat.coprime_two_right, Nat.odd_iff, hashInc, Nat.or_mod_two_eq_one]
  exact .inr rfl

/-- The order of probing for a hash value and a key. -/
def hashProbing (p : Nat) : OpenAddr.Probing (BitVec 64 × Text) (2 ^ p) where
  start k := hashPos k.1 (hashMask (2 ^ p))
  next k := hashPosNext (hashInc k.1 (hashMask (2 ^ p))) (hashMask (2 ^ p))
  lt k i := by
    have hstart : hashPos k.1 (hashMask (2 ^ p)) < 2 ^ p := by
      rw [hashPos, hashMask_and]
      exact Nat.mod_lt _ (Nat.two_pow_pos p)
    cases i with
    | zero => exact hstart
    | succ i =>
      rw [Function.iterate_succ_apply', hashPosNext_eq]
      exact Nat.mod_lt _ (Nat.two_pow_pos p)
  covers k q hq := by
    have hstart : hashPos k.1 (hashMask (2 ^ p)) < 2 ^ p := by
      rw [hashPos, hashMask_and]
      exact Nat.mod_lt _ (Nat.two_pow_pos p)
    obtain ⟨i, hi, hiq⟩ := OpenAddr.covers_of_coprime
      (hashInc_coprime k.1 (hashMask (2 ^ p)) p) (hashPos k.1 (hashMask (2 ^ p))) hq
    refine ⟨i, hi, ?_⟩
    rw [← hiq, ← OpenAddr.iterate_add_mod _ _ _ _ hstart]
    congr 1
    funext pos
    exact hashPosNext_eq _ p pos

namespace HashNode

/-- What a node is found by. -/
def id (node : HashNode α) : BitVec 64 × Text := (node.hash, node.key)

/-- The node of a name. -/
structure For (crc64b : Text → BitVec 64) (node : HashNode α) : Prop where
  hash : node.hash = crc64b node.key
  keylen : node.keylen = node.key.length + 1

end HashNode

/-- `hash_add` moves the entries as a table of another size has them placed. -/
theorem rebalance_eq (p : Nat) (newtbl ops : List (Option (HashNode α))) :
    HashTable.rebalance (2 ^ p) newtbl ops = (hashProbing p).rehash HashNode.id newtbl ops := by
  induction ops generalizing newtbl with
  | nil => rfl
  | cons op ops ih =>
    cases op with
    | none => exact ih newtbl
    | some op =>
      rw [HashTable.rebalance, OpenAddr.Probing.rehash, OpenAddr.Probing.place, Option.bind_eq_bind,
        Option.bind_eq_bind, Option.bind_map]
      refine Option.bind_congr fun _ _ => ?_
      exact ih _

-- ---------------------------------------------------------------------------
-- A table that is in order
-- ---------------------------------------------------------------------------

variable {crc64b : Text → BitVec 64}

/-- A table of `2 ^ p` slots that is at most half full, the entries where they
are looked for. -/
structure HashTable.Ordered (crc64b : Text → BitVec 64) (head : HashTable α)
    (tbl : List (Option (HashNode α))) (p : Nat) : Prop where
  table : head.table = some tbl
  large : 4 ≤ p
  size : head.size = 2 ^ p
  maxLoad : head.maxLoad = 2 ^ (p - 1)
  load_le : head.load ≤ 2 ^ (p - 1)
  occupied_le : OpenAddr.occupied tbl ≤ head.load
  placed : OpenAddr.Placed (hashProbing p) HashNode.id tbl
  for_ : ∀ node, some node ∈ tbl → node.For crc64b

namespace HashTable.Ordered

variable {head : HashTable α} {tbl : List (Option (HashNode α))} {p : Nat} {name : Text}

theorem room (h : head.Ordered crc64b tbl p) : none ∈ tbl := by
  refine OpenAddr.none_mem_of_occupied_lt (Nat.lt_of_le_of_lt (h.occupied_le.trans h.load_le) ?_)
  rw [h.placed.length]
  exact Nat.pow_lt_pow_right Nat.one_lt_two (by have := h.large; omega)

theorem find_eq (h : head.Ordered crc64b tbl p) (insert : Option HashInsert) :
    head.hashFind crc64b name insert =
      match (hashProbing p).find HashNode.id tbl (crc64b name, name) with
      | none => none
      | some (_, some np) => some (some np.data, insert)
      | some (pos, none) =>
        some (none, some ⟨some (head.block, pos), crc64b name, name, name.length + 1⟩) := by
  have hsame : OpenAddr.scan tbl
      (fun np => crc64b name = np.hash && name.length + 1 = np.keylen && name = np.key)
      (hashPosNext (hashInc (crc64b name) (hashMask (2 ^ p))) (hashMask (2 ^ p))) (2 ^ p)
      (hashPos (crc64b name) (hashMask (2 ^ p))) =
        (hashProbing p).find HashNode.id tbl (crc64b name, name) := by
    refine OpenAddr.scan_congr fun node hnode => ?_
    rw [Bool.eq_iff_iff]
    simp only [Bool.and_eq_true, decide_eq_true_eq, HashNode.id, Prod.mk.injEq]
    constructor
    · rintro ⟨⟨hhash, -⟩, hkey⟩
      exact ⟨hhash.symm, hkey.symm⟩
    · rintro ⟨hhash, hkey⟩
      refine ⟨⟨hhash.symm, ?_⟩, hkey.symm⟩
      rw [(h.for_ node hnode).keylen, hkey]
  rcases hfind : (hashProbing p).find HashNode.id tbl (crc64b name, name) with
    _ | ⟨pos, _ | node⟩
  all_goals
    rw [hfind] at hsame
    simp only [hashFind, h.table, h.size, hsame]

/-- A name with an entry is found. -/
theorem find_entry (h : head.Ordered crc64b tbl p) {node : HashNode α} {pos : Nat}
    (hnode : tbl[pos]? = some (some node)) (insert : Option HashInsert) :
    head.hashFind crc64b node.key insert = some (some node.data, insert) := by
  have hid : (crc64b node.key, node.key) = HashNode.id node := by
    rw [HashNode.id, (h.for_ node (List.mem_of_getElem? hnode)).hash]
  rw [h.find_eq, hid, h.placed.find_eq hnode]

/-- A name without an entry is not, and the place for it is kept. -/
theorem find_missing (h : head.Ordered crc64b tbl p)
    (hname : ∀ node, some node ∈ tbl → node.key ≠ name) (insert : Option HashInsert) :
    ∃ i, head.hashFind crc64b name insert =
        some (none, some ⟨some (head.block, (hashProbing p).slot (crc64b name, name) i),
          crc64b name, name, name.length + 1⟩) ∧
      tbl[(hashProbing p).slot (crc64b name, name) i]? = some none ∧
      (hashProbing p).Before HashNode.id tbl (crc64b name, name) i := by
  have hid : ∀ node, some node ∈ tbl → HashNode.id node ≠ (crc64b name, name) :=
    fun node hnode heq => hname node hnode (congrArg Prod.snd heq)
  obtain ⟨i, -, hfind, hslot, hbefore⟩ := h.placed.find_none h.room hid
  refine ⟨i, ?_, hslot, hbefore⟩
  rw [h.find_eq, hfind]

theorem get_entry (h : head.Ordered crc64b tbl p) {node : HashNode α} (hnode : some node ∈ tbl) :
    head.get crc64b node.key = some (some node.data) := by
  obtain ⟨pos, hpos⟩ := List.mem_iff_getElem?.1 hnode
  rw [HashTable.get, h.find_entry hpos]
  rfl

theorem get_missing (h : head.Ordered crc64b tbl p)
    (hname : ∀ node, some node ∈ tbl → node.key ≠ name) : head.get crc64b name = some none := by
  obtain ⟨i, hfind, -, -⟩ := h.find_missing hname none
  rw [HashTable.get, hfind]
  rfl

/-- Tables with the same entries for a name have the same answer for it. -/
theorem get_congr (h : head.Ordered crc64b tbl p) {head' : HashTable α}
    {tbl' : List (Option (HashNode α))} {p' : Nat} (h' : head'.Ordered crc64b tbl' p')
    (hsame : ∀ node, node.key = name → (some node ∈ tbl' ↔ some node ∈ tbl)) :
    head'.get crc64b name = head.get crc64b name := by
  by_cases hex : ∃ node, some node ∈ tbl ∧ node.key = name
  · obtain ⟨node, hnode, rfl⟩ := hex
    rw [h.get_entry hnode, h'.get_entry ((hsame node rfl).2 hnode)]
  · have hname : ∀ node, some node ∈ tbl → node.key ≠ name := fun node hnode hkey =>
      hex ⟨node, hnode, hkey⟩
    rw [h.get_missing hname, h'.get_missing fun node hnode hkey =>
      hname node ((hsame node hkey).1 hnode) hkey]

end HashTable.Ordered

/-- The end of a table that an entry is written into: it grows when the new load
is over half of the size, and has the same entries. -/
theorem HashTable.addAt_ok {head : HashTable α} {tbl : List (Option (HashNode α))} {p pos : Nat}
    {node : HashNode α} (hlarge : 4 ≤ p) (hsize : head.size = 2 ^ p)
    (hmax : head.maxLoad = 2 ^ (p - 1)) (hload : head.load ≤ 2 ^ (p - 1))
    (hocc : OpenAddr.occupied (tbl.set pos (some node)) ≤ head.load + 1)
    (hplaced : OpenAddr.Placed (hashProbing p) HashNode.id (tbl.set pos (some node)))
    (hfor : ∀ x, some x ∈ tbl.set pos (some node) → x.For crc64b) :
    ∃ head' tbl' p', head.addAt tbl pos node = some head' ∧ head'.Ordered crc64b tbl' p' ∧
      head'.load = head.load + 1 ∧ (∀ x, some x ∈ tbl' ↔ some x ∈ tbl.set pos (some node)) ∧
      (head.load + 1 ≤ 2 ^ (p - 1) ∧ p' = p ∧ head'.block = head.block ∧
          tbl' = tbl.set pos (some node) ∨
        head.load = 2 ^ (p - 1) ∧ p' = p + 1 ∧ head'.block = head.block + 1) := by
  rcases Nat.lt_or_ge (2 ^ (p - 1)) (head.load + 1) with hgrow | hgrow
  · have heq : head.load = 2 ^ (p - 1) := by omega
    have hdouble : 2 ^ (p + 1) = hashExpand head.size := by
      rw [hashExpand, hsize, Nat.shiftLeft_eq, Nat.pow_succ]
    have hhalf : 2 ^ p = 2 ^ (p - 1) * 2 := by
      rw [← Nat.pow_succ]
      congr 1
      omega
    have hpos : 0 < 2 ^ (p - 1) := Nat.two_pow_pos _
    have hzero : OpenAddr.occupied
        (List.replicate (2 ^ (p + 1)) (none : Option (HashNode α))) = 0 := by
      simp [OpenAddr.occupied]
    have hroom : OpenAddr.occupied (List.replicate (2 ^ (p + 1)) (none : Option (HashNode α))) +
        OpenAddr.occupied (tbl.set pos (some node)) < 2 ^ (p + 1) := by
      rw [hzero, Nat.pow_succ]
      omega
    have hempty : OpenAddr.Placed (hashProbing (p + 1)) (HashNode.id (α := α))
        (List.replicate (2 ^ (p + 1)) none) := OpenAddr.placed_empty
    obtain ⟨newtbl, hre, hnew, hcount, hmem⟩ := hempty.rehash hroom hplaced.pairwise
      fun _ _ x hx => by cases List.eq_of_mem_replicate hx
    have hmem' : ∀ x, some x ∈ newtbl ↔ some x ∈ tbl.set pos (some node) := by
      intro x
      rw [hmem, or_iff_right]
      intro hx
      cases List.eq_of_mem_replicate hx
    refine ⟨⟨some newtbl, head.block + 1, head.load + 1, hashExpand head.size,
      hashMaxLoad (hashExpand head.size)⟩, newtbl, p + 1, ?_, ?_, rfl, hmem', .inr ⟨heq, rfl, rfl⟩⟩
    · rw [HashTable.addAt, hmax, if_pos hgrow, ← hdouble]
      simp only [rebalance_eq, hre]
      rfl
    · refine ⟨rfl, by omega, hdouble.symm, ?_, ?_, ?_, hnew, fun x hx => hfor x ((hmem' x).1 hx)⟩
      · show hashMaxLoad (hashExpand head.size) = 2 ^ p
        rw [hashMaxLoad, ← hdouble, Nat.pow_succ]
        omega
      · show head.load + 1 ≤ 2 ^ p
        omega
      · show OpenAddr.occupied newtbl ≤ head.load + 1
        omega
  · refine ⟨{ head with table := some (tbl.set pos (some node)), load := head.load + 1 },
      tbl.set pos (some node), p, ?_, ?_, rfl, fun _ => Iff.rfl, .inl ⟨hgrow, rfl, rfl, rfl⟩⟩
    · rw [HashTable.addAt, hmax, if_neg (Nat.not_lt.2 hgrow)]
    · exact ⟨rfl, hlarge, hsize, hmax, hgrow, hocc, hplaced, hfor⟩

-- ---------------------------------------------------------------------------
-- Names and the load
-- ---------------------------------------------------------------------------

def FillStep.name? : FillStep α → Option Text
  | .enter => none
  | .add name _ => some name

def names (steps : List (FillStep α)) : List Text := steps.filterMap FillStep.name?

/-- The load of the table: a repetition of the first name makes it anew. -/
def loadOf : List Text → Nat
  | [] => 0
  | n :: ns => (ns.dropWhile (· = n)).length + 1

/-- The table has grown when it has got this load. -/
def Doubled (load : Nat) : Prop := ∃ k, 3 ≤ k ∧ load = 2 ^ k + 1

@[simp] theorem names_append (l l' : List (FillStep α)) : names (l ++ l') = names l ++ names l' :=
  List.filterMap_append

@[simp] theorem names_add (name : Text) (data : α) : names [FillStep.add name data] = [name] := rfl

@[simp] theorem names_enter : names [(FillStep.enter : FillStep α)] = [] := rfl

theorem mem_names_of_mem {steps : List (FillStep α)} {name : Text} {data : α}
    (h : .add name data ∈ steps) : name ∈ names steps :=
  List.mem_filterMap.2 ⟨_, h, rfl⟩

theorem loadOf_append_of_forall {ns : List Text} {n : Text} (h : ∀ x ∈ ns, x = n) :
    loadOf (ns ++ [n]) = 1 := by
  cases ns with
  | nil => rfl
  | cons m ms =>
    obtain ⟨rfl, hms⟩ := List.forall_mem_cons.1 h
    have hdrop : (ms ++ [m]).dropWhile (· = m) = [] := by
      rw [List.dropWhile_eq_nil_iff]
      intro x hx
      rcases List.mem_append.1 hx with hx | hx
      · exact decide_eq_true (hms x hx)
      · exact decide_eq_true (List.mem_singleton.1 hx)
    rw [List.cons_append, loadOf, hdrop]
    rfl

theorem loadOf_append_of_not {ns : List Text} {n : Text} (h : ¬ ∀ x ∈ ns, x = n) :
    loadOf (ns ++ [n]) = loadOf ns + 1 := by
  cases ns with
  | nil => exact absurd (fun x hx => by cases hx) h
  | cons m ms =>
    rw [List.cons_append, loadOf, loadOf, List.dropWhile_append]
    split
    · case isTrue hempty =>
      have hms : ∀ x ∈ ms, x = m := fun x hx =>
        of_decide_eq_true (List.dropWhile_eq_nil_iff.1 (List.isEmpty_iff.1 hempty) x hx)
      have hne : ¬ n = m := by
        rintro rfl
        exact h (List.forall_mem_cons.2 ⟨rfl, hms⟩)
      rw [List.isEmpty_iff.1 hempty, List.dropWhile_cons_of_neg (by simpa using hne)]
      rfl
    · rw [List.length_append]
      rfl

/-- A table that is no larger than it has to be grows at the powers of two. -/
theorem doubled_iff {load p : Nat} (hp : 4 ≤ p) (hload : load ≤ 2 ^ (p - 1))
    (hmin : p = 4 ∨ 2 ^ (p - 2) < load) : Doubled (load + 1) ↔ load = 2 ^ (p - 1) := by
  constructor
  · rintro ⟨k, hk, heq⟩
    have hpow : load = 2 ^ k := Nat.succ.inj heq
    have hle : k ≤ p - 1 := by
      rw [hpow] at hload
      exact (Nat.pow_le_pow_iff_right Nat.one_lt_two).1 hload
    have hge : p - 1 ≤ k := by
      rcases hmin with rfl | hmin
      · exact hk
      · rw [hpow] at hmin
        have := (Nat.pow_lt_pow_iff_right Nat.one_lt_two).1 hmin
        omega
    rw [hpow, Nat.le_antisymm hle hge]
  · intro heq
    exact ⟨p - 1, by omega, by rw [heq]⟩

-- ---------------------------------------------------------------------------
-- A table that is being filled
-- ---------------------------------------------------------------------------

/-- The table has the names that were registered, each with data of its own. -/
structure HashTable.Holds (crc64b : Text → BitVec 64) (head : HashTable α)
    (tbl : List (Option (HashNode α))) (p : Nat) (pre : List (FillStep α)) : Prop where
  ordered : head.Ordered crc64b tbl p
  load : head.load = loadOf (names pre)
  least : p = 4 ∨ 2 ^ (p - 2) < head.load
  has : ∀ name ∈ names pre, ∃ node, some node ∈ tbl ∧ node.key = name
  from_ : ∀ node, some node ∈ tbl → .add node.key node.data ∈ pre

/-- Where the insert object points when `name` was registered last. -/
structure HashInsert.At (crc64b : Text → BitVec 64) (insert : HashInsert) (head : HashTable α)
    (tbl : List (Option (HashNode α))) (ns : List Text) (name : Text) : Prop where
  hash : insert.hash = crc64b name
  keylen : insert.keylen = name.length + 1
  slot : insert.slot = none ∧ (∀ n ∈ ns, n = name) ∨
    (∃ pos node, insert.slot = some (head.block, pos) ∧ tbl[pos]? = some (some node) ∧
      node.key = name ∧ (¬ ∀ n ∈ ns, n = name) ∧ ¬ Doubled (loadOf ns)) ∨
    ∃ block pos, insert.slot = some (block, pos) ∧ block ≠ head.block ∧ Doubled (loadOf ns)

/-- The state of a parser after these steps. -/
def Filling.After (crc64b : Text → BitVec 64) (s : Filling α) (pre : List (FillStep α)) : Prop :=
  names pre = [] ∧ s.head = .zero ∧ s.hi = none ∨
    ∃ tbl p, names pre ≠ [] ∧ s.head.Holds crc64b tbl p pre ∧
      (∀ pre', pre = pre' ++ [.enter] → s.hi = none) ∧
      ∀ pre' name data, pre = pre' ++ [.add name data] →
        ∃ insert, s.hi = some insert ∧ insert.At crc64b s.head tbl (names pre) name

section
variable {head : HashTable α} {tbl : List (Option (HashNode α))} {p : Nat}
  {pre : List (FillStep α)} {insert : HashInsert} {name : Text} {data : α}

theorem Filling.after_add {head' : HashTable α} {tbl' : List (Option (HashNode α))} {p' : Nat}
    (hholds : head'.Holds crc64b tbl' p' (pre ++ [.add name data]))
    (hat : insert.At crc64b head' tbl' (names (pre ++ [.add name data])) name) :
    Filling.After crc64b ⟨head', some insert⟩ (pre ++ [.add name data]) := by
  refine .inr ⟨tbl', p', by simp, hholds, fun pre' h => ?_, fun pre' name' data' h => ?_⟩
  · cases (List.append_inj_right' h rfl)
  · cases (List.append_inj_right' h rfl)
    exact ⟨insert, rfl, hat⟩

/-- A node is written into a slot of a table that has another name. -/
theorem HashTable.Holds.write (h : head.Holds crc64b tbl p pre) (insert : HashInsert) (data : α)
    {pos : Nat} {node : HashNode α}
    (hnode : node = ⟨insert.hash, name, insert.keylen, data⟩) (hhash : insert.hash = crc64b name)
    (hkeylen : insert.keylen = name.length + 1) (hslot : insert.slot = some (head.block, pos))
    (hpos : pos < tbl.length) (hothers : ¬ ∀ n ∈ names pre, n = name)
    (hplaced : OpenAddr.Placed (hashProbing p) HashNode.id (tbl.set pos (some node)))
    (hocc : OpenAddr.occupied (tbl.set pos (some node)) ≤ head.load + 1)
    (hmem : ∀ x, some x ∈ tbl.set pos (some node) ↔ x = node ∨ x.key ≠ name ∧ some x ∈ tbl) :
    ∃ head' tbl' p', head.addAt tbl pos node = some head' ∧
      Filling.After crc64b ⟨head', some insert⟩ (pre ++ [.add name data]) ∧
      head'.Ordered crc64b tbl' p' ∧
      ∀ x, some x ∈ tbl' ↔ x = node ∨ x.key ≠ name ∧ some x ∈ tbl := by
  have hfor : ∀ x, some x ∈ tbl.set pos (some node) → x.For crc64b := by
    intro x hx
    rcases (hmem x).1 hx with rfl | ⟨-, hx⟩
    · subst hnode
      exact ⟨hhash, hkeylen⟩
    · exact h.ordered.for_ x hx
  have hnew : loadOf (names (pre ++ [FillStep.add name data])) = head.load + 1 := by
    rw [names_append, names_add, loadOf_append_of_not hothers, h.load]
  obtain ⟨head', tbl', p', hadd, hord, hload, hmem', hgrow⟩ := HashTable.addAt_ok h.ordered.large
    h.ordered.size h.ordered.maxLoad h.ordered.load_le hocc hplaced hfor
  have hdoubled := doubled_iff h.ordered.large h.ordered.load_le h.least
  have hmem'' : ∀ x, some x ∈ tbl' ↔ x = node ∨ x.key ≠ name ∧ some x ∈ tbl := fun x =>
    (hmem' x).trans (hmem x)
  have hkey : node.key = name := by rw [hnode]
  refine ⟨head', tbl', p', hadd, Filling.after_add
    (⟨hord, by rw [hload, hnew], ?_, ?_, ?_⟩ :
      head'.Holds crc64b tbl' p' (pre ++ [.add name data]))
    ⟨hhash, hkeylen, .inr ?_⟩, hord, hmem''⟩
  · rcases hgrow with ⟨-, rfl, -, -⟩ | ⟨heq, rfl, -⟩
    · exact h.least.imp_right fun hlt => by omega
    · refine .inr ?_
      show 2 ^ (p - 1) < head'.load
      omega
  · intro n hn
    rw [names_append, names_add] at hn
    by_cases hne : n = name
    · exact ⟨node, (hmem'' node).2 (.inl rfl), hkey.trans hne.symm⟩
    · have hold : n ∈ names pre := (List.mem_append.1 hn).resolve_right fun h =>
        hne (List.mem_singleton.1 h)
      obtain ⟨x, hx, rfl⟩ := h.has n hold
      exact ⟨x, (hmem'' x).2 (.inr ⟨hne, hx⟩), rfl⟩
  · intro x hx
    rcases (hmem'' x).1 hx with rfl | ⟨-, hx⟩
    · subst hnode
      exact List.mem_append_right _ (List.mem_singleton.2 rfl)
    · exact List.mem_append_left _ (h.from_ x hx)
  · have hothers' : ¬ ∀ n ∈ names (pre ++ [FillStep.add name data]), n = name := by
      rw [names_append]
      exact fun hall => hothers fun n hn => hall n (List.mem_append_left _ hn)
    rw [hnew, hdoubled]
    rcases hgrow with ⟨hle, -, hblock, rfl⟩ | ⟨heq, -, hblock⟩
    · refine .inl ⟨pos, node, by rw [hblock, hslot], List.getElem?_set_self hpos, hkey, hothers', ?_⟩
      omega
    · exact .inr ⟨head.block, pos, hslot, by omega, heq⟩

/-- The first name makes the table. -/
theorem HashTable.add_first (head : HashTable α) (data : α) (hslot : insert.slot = none)
    (hhash : insert.hash = crc64b name) (hkeylen : insert.keylen = name.length + 1)
    (hall : ∀ n ∈ names pre, n = name) :
    ∃ head' tbl' p', head.hashAdd insert name data = some head' ∧
      Filling.After crc64b ⟨head', some insert⟩ (pre ++ [.add name data]) ∧
      head'.Ordered crc64b tbl' p' ∧
      ∀ x, some x ∈ tbl' ↔ x = ⟨insert.hash, name, insert.keylen, data⟩ := by
  let node : HashNode α := ⟨insert.hash, name, insert.keylen, data⟩
  let pos := hashPos insert.hash (hashMask (2 ^ 4))
  have hempty : OpenAddr.Placed (hashProbing 4) (HashNode.id (α := α))
      (List.replicate (2 ^ 4) none) := OpenAddr.placed_empty
  have hlt : pos < 2 ^ 4 := (hashProbing 4).lt (HashNode.id node) 0
  have hnone : (List.replicate (2 ^ 4) (none : Option (HashNode α)))[pos]? = some none := by
    rw [List.getElem?_replicate, if_pos hlt]
  have hmem : ∀ x, some x ∈ (List.replicate (2 ^ 4) none).set pos (some node) ↔ x = node := by
    intro x
    rw [OpenAddr.mem_put hnone, or_iff_left]
    intro hx
    cases List.eq_of_mem_replicate hx
  have hplaced : OpenAddr.Placed (hashProbing 4) HashNode.id
      ((List.replicate (2 ^ 4) none).set pos (some node)) :=
    hempty.put (k := HashNode.id node) (i := 0) rfl hnone fun j hj => absurd hj (Nat.not_lt_zero j)
  have hocc : OpenAddr.occupied ((List.replicate (2 ^ 4) none).set pos (some node)) ≤
      head.hashInit.load + 1 := by
    rw [OpenAddr.occupied_put hnone]
    simp [OpenAddr.occupied]
  have hfor : ∀ x, some x ∈ (List.replicate (2 ^ 4) none).set pos (some node) → x.For crc64b := by
    intro x hx
    cases (hmem x).1 hx
    exact ⟨hhash, hkeylen⟩
  have hsize : head.hashInit.size = 2 ^ 4 := rfl
  have hmax : head.hashInit.maxLoad = 2 ^ (4 - 1) := rfl
  obtain ⟨head', tbl', p', hadd, hord, hload, hmem', hgrow⟩ := HashTable.addAt_ok
    (Nat.le_refl 4) hsize hmax (Nat.zero_le _) hocc hplaced hfor
  have hmem'' : ∀ x, some x ∈ tbl' ↔ x = node := fun x => (hmem' x).trans (hmem x)
  have hadd' : head.hashAdd insert name data = some head' := by
    rw [HashTable.hashAdd, hslot]
    exact hadd
  have hp' : p' = 4 := by
    rcases hgrow with ⟨-, hp, -⟩ | ⟨heq, -⟩
    · exact hp
    · have hzero : head.hashInit.load = 0 := rfl
      exact absurd (hzero.symm.trans heq) (by decide)
  subst hp'
  refine ⟨head', tbl', 4, hadd', Filling.after_add
    (⟨hord, ?_, .inl rfl, ?_, ?_⟩ : head'.Holds crc64b tbl' 4 (pre ++ [.add name data]))
    ⟨hhash, hkeylen, .inl ⟨hslot, ?_⟩⟩, hord, hmem''⟩
  · rw [names_append, names_add, loadOf_append_of_forall hall, hload]
    rfl
  · intro n hn
    rw [names_append, names_add] at hn
    refine ⟨node, (hmem'' node).2 rfl, ?_⟩
    rcases List.mem_append.1 hn with hn | hn
    · exact (hall n hn).symm
    · exact (List.mem_singleton.1 hn).symm
  · intro x hx
    cases (hmem'' x).1 hx
    exact List.mem_append_right _ (List.mem_singleton.2 rfl)
  · intro n hn
    rw [names_append, names_add] at hn
    rcases List.mem_append.1 hn with hn | hn
    · exact hall n hn
    · exact List.mem_singleton.1 hn

end

-- ---------------------------------------------------------------------------
-- One registration
-- ---------------------------------------------------------------------------

/-- A name that is there already is registered right behind itself, and the table
has not just grown. -/
def InPlace (pre : List (FillStep α)) (name : Text) : Prop :=
  (∃ pre' data', pre = pre' ++ [.add name data']) ∧ ¬ Doubled (loadOf (names pre))

section
variable {s s' : Filling α} {pre : List (FillStep α)} {name : Text} {data : α}

theorem Filling.step_add {found : Option α} {insert : HashInsert} {head' : HashTable α}
    (hfind : s.head.hashFind crc64b name s.hi = some (found, some insert))
    (hadd : s.head.hashAdd insert name data = some head') :
    s.step crc64b (.add name data) = some ⟨head', some insert⟩ := by
  simp only [Filling.step, hfind, hadd, Option.bind_eq_bind, Option.bind_some]

theorem HashTable.hashAdd_at {head : HashTable α} {insert : HashInsert}
    {tbl : List (Option (HashNode α))} {pos : Nat} (hslot : insert.slot = some (head.block, pos))
    (htable : head.table = some tbl) :
    head.hashAdd insert name data =
      head.addAt tbl pos ⟨insert.hash, name, insert.keylen, data⟩ := by
  simp only [HashTable.hashAdd, hslot, htable, if_true, Option.bind_some]

/-- A registration in place finds and adds, and no other name is touched. -/
theorem Filling.After.step_ok (h : s.After crc64b pre) (data : α)
    (hrep : name ∈ names pre → InPlace pre name) :
    ∃ s', s.step crc64b (.add name data) = some s' ∧
      s'.After crc64b (pre ++ [.add name data]) ∧
      ∀ other, other ≠ name → s'.head.get crc64b other = s.head.get crc64b other := by
  rcases h with ⟨hnames, hhead, hhi⟩ | ⟨tbl, p, hne, hholds, -, hadd⟩
  · -- the first name of all
    let insert : HashInsert := ⟨none, crc64b name, name, name.length + 1⟩
    have hall : ∀ n ∈ names pre, n = name := by simp [hnames]
    have hslot : insert.slot = none := rfl
    obtain ⟨head', tbl', p', hins, hafter, hord, hmem⟩ :=
      HashTable.add_first s.head data hslot rfl rfl hall
    have hfind : s.head.hashFind crc64b name s.hi = some (none, some insert) := by
      rw [hhead]
      rfl
    refine ⟨_, Filling.step_add hfind hins, hafter, fun other ho => ?_⟩
    have hmiss : ∀ node, some node ∈ tbl' → node.key ≠ other := fun node hnode hkey =>
      ho (by rw [← hkey, (hmem node).1 hnode])
    rw [hord.get_missing hmiss, hhead]
    rfl
  by_cases hin : name ∈ names pre
  · -- the name is there
    obtain ⟨⟨pre', data', rfl⟩, hload⟩ := hrep hin
    obtain ⟨insert, hhi, hat⟩ := hadd pre' name data' rfl
    obtain ⟨node, hnode, hkey⟩ := hholds.has name hin
    obtain ⟨pos₀, hpos₀⟩ := List.mem_iff_getElem?.1 hnode
    have hfind : s.head.hashFind crc64b name s.hi = some (some node.data, some insert) := by
      rw [← hkey, hholds.ordered.find_entry hpos₀, hhi]
    rcases hat.slot with ⟨hslot, hall⟩ | ⟨pos, node', hslot, hpos, hkey', hothers, -⟩ |
      ⟨block, pos, -, -, hdoubled⟩
    · obtain ⟨head', tbl', p', hins, hafter, hord, hmem⟩ :=
        HashTable.add_first s.head data hslot hat.hash hat.keylen hall
      refine ⟨_, Filling.step_add hfind hins, hafter, fun other ho => ?_⟩
      have hmiss : ∀ x, some x ∈ tbl' → x.key ≠ other := fun x hx hk =>
        ho (by rw [← hk, (hmem x).1 hx])
      have hmiss' : ∀ x, some x ∈ tbl → x.key ≠ other := fun x hx hk =>
        ho (hk ▸ hall _ (mem_names_of_mem (hholds.from_ x hx)))
      rw [hord.get_missing hmiss, hholds.ordered.get_missing hmiss']
    · have hid : HashNode.id (⟨insert.hash, name, insert.keylen, data⟩ : HashNode α) =
          HashNode.id node' := by
        rw [HashNode.id, HashNode.id, (hholds.ordered.for_ _ (List.mem_of_getElem? hpos)).hash,
          hkey', hat.hash]
      have hmem : ∀ x, some x ∈ tbl.set pos (some ⟨insert.hash, name, insert.keylen, data⟩) ↔
          x = ⟨insert.hash, name, insert.keylen, data⟩ ∨ x.key ≠ name ∧ some x ∈ tbl := by
        intro x
        rw [hholds.ordered.placed.mem_replace hpos]
        refine or_congr_right (and_congr_left fun hx => not_congr ?_)
        rw [HashNode.id, HashNode.id, (hholds.ordered.for_ x hx).hash,
          (hholds.ordered.for_ _ (List.mem_of_getElem? hpos)).hash, hkey', Prod.mk.injEq]
        exact ⟨fun h => h.2, fun h => ⟨by rw [h], h⟩⟩
      have hocc : OpenAddr.occupied
          (tbl.set pos (some ⟨insert.hash, name, insert.keylen, data⟩)) ≤ s.head.load + 1 := by
        rw [OpenAddr.occupied_replace hpos]
        exact Nat.le_succ_of_le hholds.ordered.occupied_le
      obtain ⟨head', tbl', p', hins, hafter, hord, hmem'⟩ := hholds.write insert data rfl
        hat.hash hat.keylen hslot (List.getElem?_eq_some_iff.1 hpos).1 hothers
        (hholds.ordered.placed.replace hpos hid) hocc hmem
      have hins' : s.head.hashAdd insert name data = some head' :=
        (HashTable.hashAdd_at hslot hholds.ordered.table).trans hins
      refine ⟨_, Filling.step_add hfind hins', hafter, fun other ho => ?_⟩
      refine hholds.ordered.get_congr hord fun x hx => ?_
      rw [hmem', or_iff_right fun heq => ho (by rw [← hx, heq])]
      exact and_iff_right fun hk => ho (hx.symm.trans hk)
    · exact absurd hdoubled hload
  · -- a new name
    have hmiss : ∀ node, some node ∈ tbl → node.key ≠ name := fun node hnode hk =>
      hin (hk ▸ mem_names_of_mem (hholds.from_ node hnode))
    obtain ⟨i, hfind, hslot, hbefore⟩ := hholds.ordered.find_missing hmiss s.hi
    have hothers : ¬ ∀ n ∈ names pre, n = name := fun hall => by
      obtain ⟨n, hn⟩ := List.exists_mem_of_ne_nil _ hne
      exact hin (hall n hn ▸ hn)
    have hmem : ∀ x, some x ∈ tbl.set ((hashProbing p).slot (crc64b name, name) i)
          (some ⟨crc64b name, name, name.length + 1, data⟩) ↔
        x = ⟨crc64b name, name, name.length + 1, data⟩ ∨ x.key ≠ name ∧ some x ∈ tbl := by
      intro x
      rw [OpenAddr.mem_put hslot]
      exact or_congr_right ⟨fun hx => ⟨hmiss x hx, hx⟩, fun hx => hx.2⟩
    have hocc : OpenAddr.occupied (tbl.set ((hashProbing p).slot (crc64b name, name) i)
        (some ⟨crc64b name, name, name.length + 1, data⟩)) ≤ s.head.load + 1 := by
      rw [OpenAddr.occupied_put hslot]
      exact Nat.succ_le_succ hholds.ordered.occupied_le
    let insert : HashInsert :=
      ⟨some (s.head.block, (hashProbing p).slot (crc64b name, name) i), crc64b name, name,
        name.length + 1⟩
    obtain ⟨head', tbl', p', hins, hafter, hord, hmem'⟩ := hholds.write insert data rfl rfl rfl rfl
      (List.getElem?_eq_some_iff.1 hslot).1 hothers
      (hholds.ordered.placed.put rfl hslot hbefore) hocc hmem
    have hins' : s.head.hashAdd insert name data = some head' :=
      (HashTable.hashAdd_at rfl hholds.ordered.table).trans hins
    refine ⟨_, Filling.step_add hfind hins', hafter, fun other ho => ?_⟩
    refine hholds.ordered.get_congr hord fun x hx => ?_
    rw [hmem', or_iff_right fun heq => ho (by rw [← hx, heq])]
    exact and_iff_right fun hk => ho (hx.symm.trans hk)

theorem Filling.After.step_enter (h : s.After crc64b pre) :
    Filling.After crc64b ⟨s.head, none⟩ (pre ++ [.enter]) := by
  rcases h with ⟨hnames, hhead, -⟩ | ⟨tbl, p, hne, hholds, -, -⟩
  · exact .inl ⟨by rw [names_append, hnames]; rfl, hhead, rfl⟩
  · have hnames : names (pre ++ [FillStep.enter]) = names pre := by
      rw [names_append, names_enter, List.append_nil]
    refine .inr ⟨tbl, p, hnames.symm ▸ hne,
      ⟨hholds.ordered, hnames.symm ▸ hholds.load, hholds.least, hnames.symm ▸ hholds.has,
        fun node hnode => List.mem_append_left _ (hholds.from_ node hnode)⟩,
      fun _ _ => rfl, fun pre' name data heq => ?_⟩
    cases List.append_inj_right' heq rfl

/-- What a look-up finds is an entry of the name. -/
theorem HashTable.mem_of_get {head : HashTable α} {found : α}
    (h : head.get crc64b name = some (some found)) :
    ∃ tbl node, head.table = some tbl ∧ some node ∈ tbl ∧ node.key = name := by
  obtain ⟨⟨_, _⟩, hfind, rfl⟩ := Option.map_eq_some_iff.1 h
  dsimp only [HashTable.hashFind] at hfind
  split at hfind
  · cases hfind
  · case h_2 tbl htbl =>
    split at hfind
    · cases hfind
    · case h_2 pos node hscan =>
      obtain ⟨i, -, -, hslot, haccept, -⟩ := OpenAddr.scan_spec hscan
      have hsame := haccept node rfl
      simp only [Bool.and_eq_true, decide_eq_true_eq] at hsame
      exact ⟨tbl, node, htbl, List.mem_of_getElem? hslot, hsame.2.symm⟩
    · cases hfind

/-- The entries of a table that was written to. -/
theorem HashTable.mem_of_addAt {head head' : HashTable α} {tbl : List (Option (HashNode α))}
    {p pos : Nat} {node : HashNode α} (hsize : head.size = 2 ^ p)
    (h : head.addAt tbl pos node = some head') :
    ∃ tbl', head'.table = some tbl' ∧ ∀ x, some x ∈ tbl' → some x ∈ tbl.set pos (some node) := by
  have hdouble : hashExpand head.size = 2 ^ (p + 1) := by
    rw [hashExpand, hsize, Nat.shiftLeft_eq, Nat.pow_succ 2 p, Nat.pow_one]
  dsimp only [HashTable.addAt] at h
  split at h
  · obtain ⟨newtbl, hre, hsome⟩ := Option.bind_eq_some_iff.1 h
    cases hsome
    refine ⟨newtbl, rfl, fun x hx => ?_⟩
    rw [hdouble, rebalance_eq] at hre
    refine (OpenAddr.mem_of_rehash hre hx).resolve_left fun hx => ?_
    cases List.eq_of_mem_replicate hx
  · cases h
    exact ⟨_, rfl, fun _ hx => hx⟩

/-- A repeated name that is not in place overwrites the one before it, unless the
insert object is of no use. -/
theorem Filling.After.step_lost (h : s.After crc64b pre) (hin : name ∈ names pre)
    (hout : ¬ InPlace pre name) (hstep : s.step crc64b (.add name data) = some s') :
    ∃ other, other ≠ name ∧ s'.head.get crc64b other ≠ s.head.get crc64b other := by
  rcases h with ⟨hnames, -, -⟩ | ⟨tbl, p, -, hholds, henter, hadd⟩
  · rw [hnames] at hin
    cases hin
  obtain ⟨node, hnode, hkey⟩ := hholds.has name hin
  obtain ⟨pos₀, hpos₀⟩ := List.mem_iff_getElem?.1 hnode
  have hfind : s.head.hashFind crc64b name s.hi = some (some node.data, s.hi) := by
    rw [← hkey, hholds.ordered.find_entry hpos₀]
  simp only [Filling.step, hfind, Option.bind_eq_bind, Option.bind_some] at hstep
  obtain ⟨insert, hhi, hstep⟩ := Option.bind_eq_some_iff.1 hstep
  obtain ⟨head', hins, hs'⟩ := Option.bind_eq_some_iff.1 hstep
  cases hs'
  obtain ⟨pre', last, rfl⟩ : ∃ pre' last, pre = pre' ++ [last] := by
    rcases List.eq_nil_or_concat pre with rfl | ⟨pre', last, rfl⟩
    · cases hin
    · exact ⟨pre', last, List.concat_eq_append⟩
  cases last with
  | enter => cases (henter pre' rfl).symm.trans hhi
  | add n data' =>
    obtain ⟨insert', hhi', hat⟩ := hadd pre' n data' rfl
    cases hhi'.symm.trans hhi
    rcases hat.slot with ⟨-, hall⟩ | ⟨pos, node', hslot, hpos, hkey', -, hload⟩ |
      ⟨block, pos, hslot, hblock, -⟩
    · -- there is no other name
      have hname := hall name hin
      subst hname
      refine absurd ⟨⟨pre', data', rfl⟩, ?_⟩ hout
      have hload : loadOf (names (pre' ++ [FillStep.add name data'])) = 1 := by
        rw [names_append, names_add]
        refine loadOf_append_of_forall fun n hn => hall n ?_
        rw [names_append]
        exact List.mem_append_left _ hn
      rintro ⟨k, -, hk⟩
      have hpos := Nat.two_pow_pos k
      omega
    · have hne : n ≠ name := by
        rintro rfl
        exact hout ⟨⟨pre', data', rfl⟩, hload⟩
      refine ⟨n, hne, fun hsame => ?_⟩
      rw [HashTable.hashAdd_at hslot hholds.ordered.table] at hins
      obtain ⟨tbl', htbl', hsub⟩ := HashTable.mem_of_addAt hholds.ordered.size hins
      have hget : s.head.get crc64b n = some (some node'.data) := by
        rw [← hkey']
        exact hholds.ordered.get_entry (List.mem_of_getElem? hpos)
      obtain ⟨tbl'', x, htbl'', hx, hxkey⟩ := HashTable.mem_of_get (hsame.trans hget)
      cases htbl'.symm.trans htbl''
      rcases (hholds.ordered.placed.mem_replace hpos).1 (hsub x hx) with rfl | ⟨hid, hx⟩
      · exact hne hxkey.symm
      · refine hid ?_
        rw [HashNode.id, HashNode.id, (hholds.ordered.for_ x hx).hash,
          (hholds.ordered.for_ _ (List.mem_of_getElem? hpos)).hash, hkey', hxkey]
    · simp only [HashTable.hashAdd, hslot, if_neg hblock] at hins
      cases hins

end

-- ---------------------------------------------------------------------------
-- Runs
-- ---------------------------------------------------------------------------

/-- Every registered name is found at the end, with data that was registered for
it, and a name registered again never changes what is found for another one. -/
structure StaysRegistered (crc64b : Text → BitVec 64) (steps : List (FillStep α)) : Prop where
  found : ∃ s, Filling.run crc64b steps = some s ∧ ∀ name ∈ names steps, ∃ data,
    s.head.get crc64b name = some (some data) ∧ .add name data ∈ steps
  others : ∀ pre name data post, steps = pre ++ .add name data :: post → name ∈ names pre →
    ∀ s s', Filling.run crc64b pre = some s → s.step crc64b (.add name data) = some s' →
      ∀ other, other ≠ name → s'.head.get crc64b other = s.head.get crc64b other

/-- Every repeated name is registered in place. -/
def RepeatsInPlace (steps : List (FillStep α)) : Prop :=
  ∀ pre name data post, steps = pre ++ .add name data :: post → name ∈ names pre →
    InPlace pre name

section
variable {steps : List (FillStep α)}

theorem Filling.run_append (pre post : List (FillStep α)) :
    Filling.run crc64b (pre ++ post) =
      (Filling.run crc64b pre).bind fun s => post.foldlM (Filling.step crc64b) s :=
  List.foldlM_append

/-- As long as repeated names are in place a run goes on. -/
theorem Filling.run_after (h : ∀ pre name data post, steps = pre ++ .add name data :: post →
      name ∈ names pre → (∃ s, Filling.run crc64b pre = some s ∧ s.After crc64b pre) →
        InPlace pre name) (pre post : List (FillStep α)) (hsteps : steps = pre ++ post) :
    ∃ s, Filling.run crc64b pre = some s ∧ s.After crc64b pre := by
  induction pre using List.reverseRecOn generalizing post with
  | nil => exact ⟨Filling.empty, rfl, .inl ⟨rfl, rfl, rfl⟩⟩
  | append_singleton pre last ih =>
    rw [List.append_assoc, List.singleton_append] at hsteps
    obtain ⟨s, hrun, hafter⟩ := ih _ hsteps
    rw [Filling.run_append, hrun, Option.bind_some]
    cases last with
    | enter => exact ⟨_, rfl, hafter.step_enter⟩
    | add name data =>
      obtain ⟨s', hstep, hafter', -⟩ :=
        hafter.step_ok data fun hin => h pre name data post hsteps hin ⟨s, hrun, hafter⟩
      refine ⟨s', ?_, hafter'⟩
      rw [List.foldlM_cons, hstep]
      rfl

/-- What is registered stays registered exactly when every repeated name comes
right behind itself and not when the table has just grown. -/
theorem staysRegistered_iff (crc64b : Text → BitVec 64) (steps : List (FillStep α)) :
    StaysRegistered crc64b steps ↔ RepeatsInPlace steps := by
  constructor
  · rintro ⟨⟨last, hlast, -⟩, hothers⟩
    have hplace : ∀ pre name data post, steps = pre ++ .add name data :: post → name ∈ names pre →
        (∃ s, Filling.run crc64b pre = some s ∧ s.After crc64b pre) → InPlace pre name := by
      rintro pre name data post hsteps hin ⟨s, hrun, hafter⟩
      by_contra hout
      -- the run goes on, so this step gives a state
      rw [hsteps, Filling.run_append, hrun, Option.bind_some, List.foldlM_cons] at hlast
      obtain ⟨s', hstep, -⟩ := Option.bind_eq_some_iff.1 hlast
      obtain ⟨other, hne, hlost⟩ := hafter.step_lost hin hout hstep
      exact hlost (hothers pre name data post hsteps hin s s' hrun hstep other hne)
    intro pre name data post hsteps hin
    exact hplace pre name data post hsteps hin (Filling.run_after hplace pre _ hsteps)
  · intro h
    have hafter : ∀ pre post, steps = pre ++ post →
        ∃ s, Filling.run crc64b pre = some s ∧ s.After crc64b pre := Filling.run_after
      fun pre name data post hsteps hin _ => h pre name data post hsteps hin
    constructor
    · obtain ⟨s, hrun, hs⟩ := hafter steps [] (List.append_nil _).symm
      refine ⟨s, hrun, fun name hname => ?_⟩
      rcases hs with ⟨hnames, -, -⟩ | ⟨tbl, p, -, hholds, -, -⟩
      · rw [hnames] at hname
        cases hname
      · obtain ⟨node, hnode, rfl⟩ := hholds.has name hname
        exact ⟨node.data, hholds.ordered.get_entry hnode, hholds.from_ node hnode⟩
    · intro pre name data post hsteps hin s s' hrun hstep
      obtain ⟨s₁, hrun₁, hs₁⟩ := hafter pre _ hsteps
      cases hrun.symm.trans hrun₁
      obtain ⟨s₂, hstep₂, -, hsame⟩ :=
        hs₁.step_ok data fun _ => h pre name data post hsteps hin
      cases hstep.symm.trans hstep₂
      exact hsame

end

/-- The tables of `init_tks` and of the group parsers. -/
theorem parsed_staysRegistered_iff (crc64b : Text → BitVec 64) (tkFiles : List TkFile)
    (cgFiles : List CgFile) (groupFiles : List GroupFile) :
    (StaysRegistered crc64b (tkSteps tkFiles) ∧
        StaysRegistered crc64b (wdSteps cgFiles groupFiles)) ↔
      RepeatsInPlace (tkSteps tkFiles) ∧ RepeatsInPlace (wdSteps cgFiles groupFiles) :=
  and_congr (staysRegistered_iff crc64b _) (staysRegistered_iff crc64b _)

end Btrtg
