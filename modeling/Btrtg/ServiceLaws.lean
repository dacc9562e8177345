import Btrtg.Service

/-!
# What the bare-metal `printf` sends

`int2str` writes as many characters as the number has digits, the digits
themselves when it is not negative. Only `str_cpy` ends the text in the buffer,
so the text that is sent ends where it should when a string was its last piece.
-/

namespace Btrtg.Service

open CMem

-- ---------------------------------------------------------------------------
-- Numbers
-- ---------------------------------------------------------------------------

def digits (val : Int) : Text := Nat.toDigits 10 val.natAbs

/-- What `int2str` writes: the remainders of a negative number are subtracted from '0'. -/
def writtenInt (val : Int) : Text :=
  (digits val).map fun c => if val < 0 then Char.ofNat (96 - c.toNat) else c

section
variable {val v : Int} {pre post mem : CMem}

@[simp] theorem length_writtenInt : (writtenInt val).length = (digits val).length := by
  simp [writtenInt]

theorem writtenInt_of_nonneg (h : 0 ≤ val) : writtenInt val = digits val := by
  simp [writtenInt, Int.not_lt.2 h]

theorem natAbs_tdiv_ten (val : Int) : (val.tdiv 10).natAbs = val.natAbs / 10 :=
  Int.natAbs_tdiv val 10

/-- Dividing keeps the sign, as long as something is left. -/
theorem tdiv_neg_iff (h : val.tdiv 10 ≠ 0) : val.tdiv 10 < 0 ↔ val < 0 := by
  rcases Int.lt_or_le val 0 with hval | hval
  · have hnonneg := Int.tdiv_nonneg (Int.neg_nonneg.2 (Int.le_of_lt hval)) (by decide : (0 : Int) ≤ 10)
    rw [Int.neg_tdiv] at hnonneg
    omega
  · have hnonneg := Int.tdiv_nonneg hval (by decide : (0 : Int) ≤ 10)
    omega

/-- The character of a remainder. -/
theorem digit_eq (val : Int) :
    digit val = (fun c => if val < 0 then Char.ofNat (96 - c.toNat) else c)
      (val.natAbs % 10).digitChar := by
  have habs : (val.tmod 10).natAbs = val.natAbs % 10 := Int.natAbs_tmod val 10
  have hlt : val.natAbs % 10 < 10 := Nat.mod_lt _ (by decide)
  have hsmall : ∀ d < 10, Char.ofNat (48 + d) = d.digitChar ∧
      Char.ofNat (48 - d) = Char.ofNat (96 - d.digitChar.toNat) := by decide
  obtain ⟨hpos, hneg⟩ := hsmall _ hlt
  unfold digit
  rcases Int.lt_or_le val 0 with hval | hval
  · have hrem := Int.tmod_nonneg 10 (Int.neg_nonneg.2 (Int.le_of_lt hval))
    rw [Int.neg_tmod] at hrem
    simp only [if_pos hval, ← hneg]
    congr 1
    omega
  · have hrem := Int.tmod_nonneg 10 hval
    simp only [if_neg (Int.not_lt.2 hval), ← hpos]
    congr 1
    omega

/-- The digits by the steps of the loops. -/
theorem digits_eq (val : Int) :
    digits val = (if val.tdiv 10 = 0 then [] else digits (val.tdiv 10)) ++
      [(val.natAbs % 10).digitChar] := by
  have habs := natAbs_tdiv_ten val
  rw [digits, Nat.toDigits_eq_if (by decide), digits, habs]
  by_cases hlt : val.natAbs < 10
  · rw [if_pos hlt, if_pos (by omega), Nat.mod_eq_of_lt hlt, List.nil_append]
  · rw [if_neg hlt, if_neg (by omega)]

theorem writtenInt_eq (val : Int) :
    writtenInt val =
      (if val.tdiv 10 = 0 then [] else writtenInt (val.tdiv 10)) ++ [digit val] := by
  rw [writtenInt, digits_eq, digit_eq, List.map_append, List.map_singleton]
  congr 1
  by_cases hzero : val.tdiv 10 = 0
  · rw [if_pos hzero, if_pos hzero, List.map_nil]
  · rw [if_neg hzero, if_neg hzero, writtenInt]
    simp only [tdiv_neg_iff hzero]

theorem length_digits (val : Int) :
    (digits val).length = (if val.tdiv 10 = 0 then 0 else (digits (val.tdiv 10)).length) + 1 := by
  rw [digits_eq, List.length_append, List.length_singleton, apply_ite List.length, List.length_nil]

theorem length_digits_pos (val : Int) : 0 < (digits val).length := Nat.length_toDigits_pos

-- ---------------------------------------------------------------------------
-- `int2str`
-- ---------------------------------------------------------------------------

/-- The digits that were counted and those that are left. -/
def CountInv (val : Int) (st : Int × Int) : Prop :=
  st.2 + (digits st.1).length = (digits val).length

theorem countStep_ok {st : Int × Int} (h : CountInv val st) :
    Steps countStep (CountInv val) (fun st => st.1.natAbs)
      (fun i => i + 1 = (digits val).length) st := by
  obtain ⟨tmp, i⟩ := st
  have hlen := length_digits tmp
  have habs := natAbs_tdiv_ten tmp
  unfold CountInv at h
  by_cases hzero : tmp.tdiv 10 = 0
  · refine .inr ⟨i, by simp [countStep, hzero], ?_⟩
    rw [if_pos hzero] at hlen
    simp only [hlen] at h
    omega
  · refine .inl ⟨(tmp.tdiv 10, i + 1), by simp [countStep, hzero], ?_, ?_⟩
    · rw [if_neg hzero] at hlen
      simp only [CountInv]
      simp only [hlen] at h
      omega
    · simp only [habs]
      omega

/-- The characters that are written stand behind the place of those that are not. -/
def DigitInv (pre post : CMem) (val : Int) (st : CMem × Int × Int) : Prop :=
  ∃ old done, st.1 = pre ++ (old ++ (done ++ post)) ∧
    old.length = (digits st.2.2).length ∧ st.2.1 + 1 = old.length ∧
    writtenInt val = writtenInt st.2.2 ++ done

theorem digitStep_ok {st : CMem × Int × Int} (h : DigitInv pre post val st) :
    Steps (digitStep pre.length) (DigitInv pre post val) (fun st => st.2.2.natAbs)
      (· = pre ++ (writtenInt val ++ post)) st := by
  obtain ⟨mem, i, v⟩ := st
  obtain ⟨old, done, rfl, hold, hi, hwritten⟩ := h
  simp only at hold hi hwritten
  have hlen := length_digits v
  have habs := natAbs_tdiv_ten v
  have hne : old ≠ [] := List.ne_nil_of_length_pos (hold ▸ length_digits_pos v)
  obtain ⟨old, x, rfl⟩ := (List.eq_nil_or_concat' old).resolve_left hne
  rw [List.length_append, List.length_singleton] at hold hi
  have hplace : (pre.length : Int) + i = (pre ++ old).length := by
    rw [List.length_append]
    omega
  have hput : put (pre ++ (old ++ [x] ++ (done ++ post))) (pre ++ old).length (digit v) =
      some (pre ++ (old ++ (digit v :: done ++ post))) := by
    rw [put_ok (by simp), List.append_assoc, List.singleton_append, ← List.append_assoc,
      List.set_append_right _ _ (Nat.le_refl _), Nat.sub_self]
    simp
  have hround : digitStep pre.length (pre ++ (old ++ [x] ++ (done ++ post)), i, v) =
      some (if v.tdiv 10 ≠ 0 then
        .inl (pre ++ (old ++ (digit v :: done ++ post)), i - 1, v.tdiv 10)
        else .inr (pre ++ (old ++ (digit v :: done ++ post)))) := by
    simp only [digitStep, hplace, Int.toNat_natCast, if_neg (Int.not_lt.2 (Int.natCast_nonneg _)),
      hput, Option.bind_eq_bind, Option.bind_some]
    rfl
  rw [writtenInt_eq v, List.append_assoc, List.singleton_append] at hwritten
  by_cases hzero : v.tdiv 10 = 0
  · refine .inr ⟨_, hround.trans (by rw [if_neg (not_not.2 hzero)]), ?_⟩
    rw [if_pos hzero] at hlen hwritten
    obtain rfl := List.length_eq_zero_iff.1 (by omega : old.length = 0)
    rw [hwritten]
    rfl
  · refine .inl ⟨_, hround.trans (by rw [if_pos hzero]), ⟨old, digit v :: done, rfl, ?_, ?_, ?_⟩, ?_⟩
    · rw [if_neg hzero] at hlen
      simp only
      omega
    · simp only
      omega
    · rw [if_neg hzero] at hwritten
      exact hwritten
    · simp only [habs]
      omega

/-- `int2str` writes the characters of the number and counts them. -/
theorem int2str_ok {old : CMem} (hold : old.length = (digits val).length) :
    int2str (pre ++ (old ++ post)) pre.length val =
      some (pre ++ (writtenInt val ++ post), ((digits val).length : Int)) := by
  obtain ⟨i, hcount, hi⟩ := loop_ends _ (fun _ => countStep_ok)
    (show CountInv val (val, 0) from Int.zero_add _) (Nat.lt_succ_self _)
  have hinv : DigitInv pre post val (pre ++ (old ++ post), i, val) :=
    ⟨old, [], rfl, hold, by simp only; omega, (List.append_nil _).symm⟩
  obtain ⟨mem, hdigits, rfl⟩ := loop_ends _ (fun _ => digitStep_ok) hinv (Nat.lt_succ_self _)
  simp only at hcount hdigits
  simp only [int2str, hcount, Option.bind_eq_bind, Option.bind_some, hdigits, hi]
  rfl

-- ---------------------------------------------------------------------------
-- The pieces of a format
-- ---------------------------------------------------------------------------

end

/-- A piece of a format, with its argument: an ordinary character or a conversion. -/
inductive Item
  | lit (k : Char)
  | int (v : Int)
  | char (ch : Char)
  | str (s : Text)

namespace Item

/-- A character of the format is no `%` and no NUL, and a string has no NUL. -/
def Ok : Item → Prop
  | lit k => k ≠ '%' ∧ k ≠ nul
  | str s => nul ∉ s
  | _ => True

def fmt : Item → Text
  | lit k => [k]
  | int _ => ['%', 'd']
  | char _ => ['%', 'c']
  | str _ => ['%', 's']

def args : Item → List Arg
  | lit _ => []
  | int v => [.int v]
  | char ch => [.char ch]
  | str s => [.str s]

def expansion : Item → Text
  | lit k => [k]
  | int v => (toString v).toList
  | char ch => [ch]
  | str s => s

def written : Item → Text
  | int v => writtenInt v
  | it => it.expansion

def behind (tail : CMem) : Item → CMem
  | str s => nul :: tail.drop (s.length + 1)
  | it => tail.drop it.written.length

end Item

section
variable {it : Item} {items : List Item} {pre post tail : CMem} {p src : Text} {args : List Arg}

theorem put_at {x : Char} (c : Char) : put (pre ++ x :: post) pre.length c =
    some (pre ++ c :: post) := by
  rw [put_ok (by simp), List.set_append_right _ _ (Nat.le_refl _), Nat.sub_self]
  rfl

/-- `str_cpy` writes the string and its NUL. -/
theorem strCpy_ok {old : CMem} {x : Char} (hold : old.length = src.length) :
    strCpy (pre ++ (old ++ x :: post)) pre.length src =
      some (pre ++ (src ++ nul :: post), src.length) := by
  induction src generalizing pre old with
  | nil =>
    obtain rfl := List.length_eq_zero_iff.1 hold
    rw [strCpy, List.nil_append, put_at]
    rfl
  | cons c src ih =>
    obtain ⟨y, old, rfl⟩ := List.exists_cons_of_length_eq_add_one hold
    have hrest := @ih (pre ++ [c]) old (Nat.succ.inj hold)
    rw [List.length_append, List.length_singleton, List.append_assoc,
      List.singleton_append] at hrest
    rw [strCpy, List.cons_append, put_at]
    simp only [Option.bind_eq_bind, Option.bind_some]
    rw [hrest]
    simp

theorem printfFrom_lit {mem : CMem} {c : Nat} {k : Char} (hk : k ≠ '%') :
    printfFrom mem c (k :: p) args = (put mem c k).bind fun mem =>
      printfFrom mem (c + 1) p args := by
  rw [printfFrom.eq_def]
  simp only [if_pos hk]
  rfl

/-- One piece. -/
theorem printfFrom_item (hok : it.Ok) (hroom : it.written.length < tail.length) :
    printfFrom (pre ++ tail) pre.length (it.fmt ++ p) (it.args ++ args) =
      printfFrom (pre ++ (it.written ++ it.behind tail)) (pre.length + it.written.length)
        p args := by
  obtain ⟨old, x, post, rfl, hold⟩ :
      ∃ old x post, tail = old ++ x :: post ∧ old.length = it.written.length :=
    ⟨tail.take it.written.length, tail[it.written.length], tail.drop (it.written.length + 1),
      by rw [← List.drop_eq_getElem_cons hroom, List.take_append_drop],
      List.length_take_of_le (Nat.le_of_lt hroom)⟩
  cases it with
  | lit k =>
    obtain ⟨y, rfl⟩ := List.length_eq_one_iff.1 (hold.trans rfl : old.length = 1)
    rw [Item.fmt, Item.args, List.singleton_append, List.singleton_append, List.nil_append,
      printfFrom_lit hok.1, put_at]
    rfl
  | int v =>
    have hlength : old.length = (digits v).length := hold.trans length_writtenInt
    simp only [Item.fmt, Item.args, List.cons_append, List.nil_append, printfFrom, ne_eq,
      not_true_eq_false, if_false, int2str_ok hlength, Option.bind_eq_bind, Option.bind_some,
      Item.behind, ← hold]
    rw [List.drop_left, Int.toNat_natCast, hlength]
    rfl
  | char ch =>
    obtain ⟨y, rfl⟩ := List.length_eq_one_iff.1 (hold.trans rfl : old.length = 1)
    simp only [Item.fmt, Item.args, List.cons_append, List.nil_append, printfFrom, ne_eq,
      not_true_eq_false, if_false, put_at, Option.bind_eq_bind, Option.bind_some]
    rfl
  | str s =>
    have hold : old.length = s.length := hold
    simp only [Item.fmt, Item.args, List.cons_append, List.nil_append, printfFrom, ne_eq,
      not_true_eq_false, if_false, strCpy_ok hold, Option.bind_eq_bind, Option.bind_some,
      Item.behind, ← hold]
    rw [← List.drop_drop, List.drop_left, hold]
    rfl

-- ---------------------------------------------------------------------------
-- Formats
-- ---------------------------------------------------------------------------

/-- The format string and the arguments of the pieces, and the text they stand for. -/
def format (items : List Item) : Text := items.flatMap Item.fmt

def arguments (items : List Item) : List Arg := items.flatMap Item.args

def expansion (items : List Item) : Text := items.flatMap Item.expansion

def written (items : List Item) : Text := items.flatMap Item.written

def behind (tail : CMem) (items : List Item) : CMem := items.foldl Item.behind tail

theorem Item.length_behind (it : Item) (hroom : it.written.length < tail.length) :
    (it.behind tail).length = tail.length - it.written.length := by
  cases it with
  | str s =>
    have hroom : s.length < tail.length := hroom
    have hwritten : (Item.str s).written.length = s.length := rfl
    rw [behind, List.length_cons, List.length_drop, hwritten]
    omega
  | _ => exact List.length_drop

/-- Every piece is written behind the last. -/
theorem printfFrom_items (hok : ∀ it ∈ items, it.Ok)
    (hroom : (written items).length < tail.length) :
    printfFrom (pre ++ tail) pre.length (format items) (arguments items) =
      some (pre ++ (written items ++ behind tail items)) := by
  induction items generalizing pre tail with
  | nil => rfl
  | cons it items ih =>
    obtain ⟨hit, hitems⟩ := List.forall_mem_cons.1 hok
    have hlength : (written (it :: items)).length =
        it.written.length + (written items).length := List.length_append
    have hbehind := it.length_behind (by omega : _ < tail.length)
    have hrest := @ih (pre ++ it.written) (it.behind tail) hitems (by omega)
    rw [List.length_append, List.append_assoc] at hrest
    rw [format, arguments, List.flatMap_cons, List.flatMap_cons,
      printfFrom_item hit (by omega)]
    refine hrest.trans ?_
    simp [written, behind]

/-- Behind the next character the buffer is as it was found. -/
theorem Item.drop_behind {k : Nat} (hk : 1 ≤ k) :
    (it.behind tail).drop k = tail.drop (it.written.length + k) := by
  obtain ⟨k, rfl⟩ := Nat.exists_eq_add_of_le hk
  cases it with
  | str s =>
    rw [behind, Nat.add_comm 1 k, List.drop_succ_cons, List.drop_drop, Nat.add_assoc,
      Nat.add_comm 1 k]
    rfl
  | _ => exact List.drop_drop

theorem drop_behind {k : Nat} (hk : 1 ≤ k) :
    (behind tail items).drop k = tail.drop ((written items).length + k) := by
  induction items generalizing tail with
  | nil => simp [behind, written]
  | cons it items ih =>
    refine ih.trans ?_
    have hlength : (written (it :: items)).length =
        it.written.length + (written items).length := List.length_append
    rw [Item.drop_behind (by omega), hlength, Nat.add_assoc]

theorem Item.length_written_pos (h : ∀ s, it ≠ .str s) : 1 ≤ it.written.length := by
  cases it with
  | str s => exact absurd rfl (h s)
  | int v => exact length_writtenInt ▸ length_digits_pos v
  | _ => exact Nat.le_refl 1

/-- After a piece that is no string the buffer is as it was found. -/
theorem behind_eq (h : ∀ s, items.getLast? ≠ some (.str s)) :
    behind tail items = tail.drop (written items).length := by
  rcases List.eq_nil_or_concat' items with rfl | ⟨items, it, rfl⟩
  · rfl
  · have hit : ∀ s, it ≠ .str s := by
      rintro s rfl
      exact h s List.getLast?_concat
    have hdrop := @drop_behind items tail _ (Item.length_written_pos hit)
    rw [written, List.flatMap_append, List.length_append, List.flatMap_singleton, behind,
      List.foldl_append]
    cases it with
    | str s => exact absurd rfl (hit s)
    | _ => exact hdrop

theorem behind_str {s : Text} (h : items.getLast? = some (.str s)) :
    ∃ rest, behind tail items = nul :: rest := by
  obtain ⟨items, rfl⟩ := List.getLast?_eq_some_iff.1 h
  rw [behind, List.foldl_append]
  exact ⟨_, rfl⟩

-- ---------------------------------------------------------------------------
-- What is sent
-- ---------------------------------------------------------------------------

/-- A text that ends in the buffer. -/
theorem printk_text (h : nul ∉ src) : printk (src ++ nul :: post) = some src := by
  induction src with
  | nil => rfl
  | cons c src ih =>
    have hc : c ≠ nul := fun hc => h (hc ▸ List.mem_cons_self ..)
    rw [List.cons_append, printk, if_pos hc, ih fun hmem => h (List.mem_cons_of_mem _ hmem)]
    rfl

/-- No more is sent than stands before a NUL. -/
theorem length_printk_le (h : printk (src ++ nul :: post) = some p) : p.length ≤ src.length := by
  induction src generalizing p with
  | nil =>
    cases h
    exact Nat.le_refl 0
  | cons c src ih =>
    rw [List.cons_append, printk] at h
    split at h
    · obtain ⟨q, hq, rfl⟩ := Option.map_eq_some_iff.1 h
      exact Nat.succ_le_succ (ih hq)
    · cases h
      exact Nat.zero_le _

/-- A NUL is never sent. -/
theorem nul_notMem_printk {mem : CMem} (h : printk mem = some p) : nul ∉ p := by
  induction mem generalizing p with
  | nil => cases h
  | cons c mem ih =>
    rw [printk] at h
    split at h
    case isTrue hc =>
      obtain ⟨q, hq, rfl⟩ := Option.map_eq_some_iff.1 h
      exact fun hmem => (List.mem_cons.1 hmem).elim (fun h => hc h.symm) (ih hq)
    case isFalse =>
      cases h
      exact List.not_mem_nil

/-- A buffer without a NUL is read beyond its end. -/
theorem printk_none {mem : CMem} (h : nul ∉ mem) : printk mem = none := by
  induction mem with
  | nil => rfl
  | cons c mem ih =>
    have hc : c ≠ nul := fun hc => h (hc ▸ List.mem_cons_self ..)
    rw [printk, if_pos hc, ih fun hmem => h (List.mem_cons_of_mem _ hmem)]
    rfl

/-- The usual decimal representation of a number. -/
theorem toString_eq (v : Int) :
    (toString v).toList = if v < 0 then '-' :: digits v else digits v := by
  cases v with
  | ofNat n => exact Nat.toList_repr
  | negSucc n =>
    rw [if_pos (Int.negSucc_lt_zero n)]
    exact (String.toList_append ..).trans (congrArg ('-' :: ·) Nat.toList_repr)

theorem Item.written_eq (h : ∀ v, it = .int v → 0 ≤ v) : it.written = it.expansion := by
  cases it with
  | int v =>
    have hv := h v rfl
    rw [expansion, toString_eq, if_neg (Int.not_lt.2 hv)]
    exact writtenInt_of_nonneg hv
  | _ => rfl

theorem Item.length_written_lt (h : ∃ v < 0, it = .int v) :
    it.written.length < it.expansion.length := by
  obtain ⟨v, hv, rfl⟩ := h
  rw [expansion, toString_eq, if_pos hv]
  exact Nat.lt_succ_of_le (Nat.le_of_eq length_writtenInt)

theorem Item.length_written_le : it.written.length ≤ it.expansion.length := by
  by_cases h : ∃ v < 0, it = .int v
  · exact Nat.le_of_lt (length_written_lt h)
  · rw [written_eq fun v hv => Int.not_lt.1 fun hneg => h ⟨v, hneg, hv⟩]

theorem written_eq (h : ∀ v, .int v ∈ items → 0 ≤ v) : written items = expansion items :=
  List.flatMap_congr fun _ hit => Item.written_eq fun v hv => h v (hv ▸ hit)

theorem length_written_le (items : List Item) : (written items).length ≤ (expansion items).length := by
  induction items with
  | nil => exact Nat.le_refl 0
  | cons it items ih =>
    simp only [written, expansion, List.flatMap_cons, List.length_append]
    exact Nat.add_le_add Item.length_written_le ih

/-- The sign of a negative number is missing. -/
theorem length_written_lt {v : Int} (hv : v < 0) (h : .int v ∈ items) :
    (written items).length < (expansion items).length := by
  obtain ⟨before, after, rfl⟩ := List.append_of_mem h
  have hbefore := length_written_le before
  have hafter := length_written_le after
  have hit := Item.length_written_lt ⟨v, hv, rfl⟩
  simp only [written, expansion, List.flatMap_append, List.flatMap_cons, List.length_append]
    at hbefore hafter ⊢
  omega

theorem nul_mem_expansion (hok : ∀ it ∈ items, it.Ok) :
    nul ∈ expansion items ↔ .char nul ∈ items := by
  rw [expansion, List.mem_flatMap]
  constructor
  · rintro ⟨it, hit, hmem⟩
    have hitem := hok it hit
    cases it with
    | lit k => exact absurd (List.mem_singleton.1 hmem).symm hitem.2
    | int v =>
      rw [Item.expansion, toString_eq] at hmem
      have hmem : nul ∈ digits v := by
        split at hmem
        · exact (List.mem_cons.1 hmem).resolve_left (by decide)
        · exact hmem
      have hdigit := Nat.isDigit_of_mem_toDigits (by decide) (by decide) hmem
      exact absurd hdigit (by decide)
    | char ch => exact List.mem_singleton.1 hmem ▸ hit
    | str s => exact absurd hmem hitem
  · exact fun h => ⟨_, h, List.mem_singleton_self _⟩

theorem behind_nul {n : Nat} (h : (written items).length < n) :
    ∃ rest, behind (List.replicate n nul) items = nul :: rest := by
  by_cases hlast : ∃ s, items.getLast? = some (.str s)
  · obtain ⟨s, hlast⟩ := hlast
    exact behind_str hlast
  · rw [behind_eq fun s hs => hlast ⟨s, hs⟩, List.drop_replicate]
    obtain ⟨k, hk⟩ := Nat.exists_eq_add_of_lt h
    exact ⟨List.replicate k nul, by rw [hk, Nat.add_assoc, Nat.add_sub_cancel_left]; rfl⟩

/-- `printf` sends the text of its format, whatever its buffer held, when no number is
negative, no character is a NUL and the format ends with a string. -/
theorem printf_iff (hok : ∀ it ∈ items, it.Ok)
    (hlen : (expansion items).length < maxPrintfStrSize) :
    (∀ strBuf : CMem, strBuf.length = maxPrintfStrSize →
      printf strBuf (format items) (arguments items) = some (expansion items)) ↔
      (∀ v, .int v ∈ items → 0 ≤ v) ∧ .char nul ∉ items ∧
        ∃ s, items.getLast? = some (.str s) := by
  have hrun : ∀ strBuf : CMem, strBuf.length = maxPrintfStrSize →
      printf strBuf (format items) (arguments items) =
        printk (written items ++ behind strBuf items) := by
    intro strBuf hbuf
    have hroom : (written items).length < strBuf.length := by
      rw [hbuf]
      exact Nat.lt_of_le_of_lt (length_written_le items) hlen
    exact congrArg (·.bind printk) (@printfFrom_items items [] strBuf hok hroom)
  constructor
  · intro h
    have hnonneg : ∀ v, .int v ∈ items → 0 ≤ v := by
      intro v hv
      by_contra hneg
      -- where the stack holds NULs, a text that lacks a sign is too short
      have hlt := length_written_lt (Int.not_le.1 hneg) hv
      obtain ⟨rest, hrest⟩ := behind_nul (hlt.trans hlen)
      have hsent := h _ (List.length_replicate (a := nul))
      rw [hrun _ List.length_replicate, hrest] at hsent
      exact Nat.not_lt.2 (length_printk_le hsent) hlt
    have hnul : nul ∉ expansion items := by
      have hsent := h _ (List.length_replicate (a := nul))
      rw [hrun _ List.length_replicate] at hsent
      exact nul_notMem_printk hsent
    refine ⟨hnonneg, mt (nul_mem_expansion hok).2 hnul, ?_⟩
    by_contra hlast
    -- where it holds none, a text without an end is read beyond the buffer
    have hsent := h _ (List.length_replicate (a := 'x'))
    rw [hrun _ List.length_replicate, written_eq hnonneg,
      behind_eq fun s hs => hlast ⟨s, hs⟩, List.drop_replicate, printk_none] at hsent
    · cases hsent
    · rw [List.mem_append, List.mem_replicate]
      rintro (hmem | ⟨-, hx⟩)
      · exact hnul hmem
      · exact absurd hx (by decide)
  · rintro ⟨hnonneg, hnul, s, hlast⟩ strBuf hbuf
    obtain ⟨rest, hrest⟩ := @behind_str items strBuf s hlast
    rw [hrun strBuf hbuf, hrest, written_eq hnonneg,
      printk_text (mt (nul_mem_expansion hok).1 hnul)]

/-- The format "a=%d%s" with 42 and a line end. -/
def answer : List Item := [.lit 'a', .lit '=', .int 42, .str ['\n']]

theorem printf_iff_answer :
    (∀ strBuf : CMem, strBuf.length = maxPrintfStrSize →
      printf strBuf (format answer) (arguments answer) = some (expansion answer)) ↔
      (∀ v, .int v ∈ answer → 0 ≤ v) ∧ .char nul ∉ answer ∧
        ∃ s, answer.getLast? = some (.str s) :=
  printf_iff (show ∀ it ∈ answer, it.Ok by simp [answer, Item.Ok, nul]) (by decide)

/-- An ordinary character is followed by what the stack held, and a negative number loses
its sign. -/
theorem printf_ordinary :
    (∃ strBuf : CMem, strBuf.length = maxPrintfStrSize ∧
      printf strBuf "a".toList [] = some "a123".toList ∧ expansion [.lit 'a'] = "a".toList) ∧
    ∃ strBuf : CMem, strBuf.length = maxPrintfStrSize ∧
      printf strBuf "%d%s".toList [.int (-5), .str []] = some "+".toList ∧
        expansion [.int (-5), .str []] = "-5".toList :=
  ⟨⟨"0123\x00\x00\x00\x00\x00\x00".toList, by decide⟩,
    ⟨"0123\x00\x00\x00\x00\x00\x00".toList, by decide⟩⟩

end

end Btrtg.Service
