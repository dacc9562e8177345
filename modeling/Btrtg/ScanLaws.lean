import Btrtg.Buf2Token
import Mathlib.Data.List.TakeWhile
import Mathlib.Tactic.ByContra

/-!
# Progress of the scanner

Every call of `get_token` consumes part of the text or is at its end, but for a
`$` that starts a token: it starts a number and does not continue one.
-/

namespace Btrtg

-- ---------------------------------------------------------------------------
-- Texts
-- ---------------------------------------------------------------------------

inductive Lexing
  | start | ident | number
  deriving DecidableEq

/-- Some token up to the end or the comment starts with `$`. -/
def dollarStarts : Lexing → Text → Bool
  | _, [] => false
  | l, c :: cs =>
    if l = .ident ∧ nasmIsidchar c then dollarStarts .ident cs
    else if l = .number ∧ nasmIsnumchar c then dollarStarts .number cs
    else if nasmIsspace c then dollarStarts .start cs
    else if nasmIsidstart c then dollarStarts .ident cs
    else if c = '$' then true
    else if c.isDigit then dollarStarts .number cs
    else if c = ';' || c = '\n' then false
    else dollarStarts .start cs

theorem dollarStarts_skip (s : Text) :
    dollarStarts .start s = dollarStarts .start (nasmSkipSpaces s) := by
  induction s with
  | nil => rfl
  | cons c cs ih =>
    by_cases hc : nasmIsspace c = true
    · rw [nasmSkipSpaces, List.dropWhile_cons_of_pos hc, ← nasmSkipSpaces, ← ih]
      simp [dollarStarts, hc]
    · rw [nasmSkipSpaces, List.dropWhile_cons_of_neg hc]

theorem dollarStarts_ident (s : Text) :
    dollarStarts .ident s = dollarStarts .start (s.dropWhile nasmIsidchar) := by
  induction s with
  | nil => rfl
  | cons c cs ih =>
    by_cases hc : nasmIsidchar c = true
    · rw [List.dropWhile_cons_of_pos hc, ← ih]
      simp [dollarStarts, hc]
    · rw [List.dropWhile_cons_of_neg hc]
      simp [dollarStarts, hc]

theorem dollarStarts_number (s : Text) :
    dollarStarts .number s = dollarStarts .start (s.dropWhile nasmIsnumchar) := by
  induction s with
  | nil => rfl
  | cons c cs ih =>
    by_cases hc : nasmIsnumchar c = true
    · rw [List.dropWhile_cons_of_pos hc, ← ih]
      simp [dollarStarts, hc]
    · rw [List.dropWhile_cons_of_neg hc]
      simp [dollarStarts, hc]

-- ---------------------------------------------------------------------------
-- One call
-- ---------------------------------------------------------------------------

/-- What a call of `get_token` does: it is at the end, or at a `$`, or it reads a token. -/
inductive Scanned (s : Text) (tok : Token) (rest : Text) : Prop
  | ends : tok = .eos → rest = nasmSkipSpaces s → dollarStarts .start s = false →
      (∀ c cs, rest = c :: cs → nasmIsnumstart c = false) → Scanned s tok rest
  | stuck (cs : Text) : nasmSkipSpaces s = '$' :: cs → tok = .errnum → rest = '$' :: cs →
      Scanned s tok rest
  | reads (c : Char) (cs : Text) : nasmSkipSpaces s = c :: cs → tok ≠ .eos → rest <:+ cs →
      dollarStarts .start s = dollarStarts .start rest →
      (nasmIsnumstart c = true → (∃ n, tok = .num n) ∨ tok = .errnum) → Scanned s tok rest

/-- What starts an identifier starts no number. -/
theorem nasmIsnumstart_of_idstart {c : Char} (h : nasmIsidstart c = true) :
    nasmIsnumstart c = false := by
  have hne : c ≠ '$' := by
    rintro rfl
    cases h
  have hdigit : ¬ (48 ≤ c.toNat ∧ c.toNat ≤ 57) := by
    rintro ⟨hlo, hhi⟩
    have hupper : c.isUpper = (decide (65 ≤ c.toNat) && decide (c.toNat ≤ 90)) :=
      Bool.decide_and _ _
    have hlower : c.isLower = (decide (97 ≤ c.toNat) && decide (c.toNat ≤ 122)) := rfl
    simp only [nasmIsidstart, isalpha, hupper, hlower, Bool.or_eq_true, Bool.and_eq_true,
      decide_eq_true_eq] at h
    rcases h with ((((((h | h) | rfl) | rfl) | rfl) | rfl) | h)
    · omega
    · omega
    · exact absurd hhi (by decide)
    · exact absurd hlo (by decide)
    · exact absurd hhi (by decide)
    · exact absurd hhi (by decide)
    · omega
  have hdec : c.isDigit = (decide (48 ≤ c.toNat) && decide (c.toNat ≤ 57)) := rfl
  simp [nasmIsnumstart, hdec, hne]
  omega

theorem not_space_of_skip {s : Text} {c : Char} {cs : Text} (h : nasmSkipSpaces s = c :: cs) :
    nasmIsspace c = false := by
  have hhead := List.head?_dropWhile_not nasmIsspace s
  rw [nasmSkipSpaces] at h
  rwa [h] at hhead

theorem getToken_scanned (hash : TokenHash) (s : Text) :
    Scanned s (getToken hash s).1 (getToken hash s).2 := by
  rw [getToken]
  cases hs : nasmSkipSpaces s with
  | nil => exact .ends rfl hs.symm (by rw [dollarStarts_skip, hs]; rfl) nofun
  | cons c cs =>
    have hspace := not_space_of_skip hs
    have hstart : dollarStarts .start s = dollarStarts .start (c :: cs) := by
      rw [dollarStarts_skip, hs]
    dsimp only
    by_cases hid : nasmIsidstart c = true
    · rw [if_pos hid]
      refine .reads c cs hs (by simp) (List.dropWhile_suffix _) ?_ fun hnum => ?_
      · rw [hstart, ← dollarStarts_ident]
        simp [dollarStarts, hspace, hid]
      · rw [nasmIsnumstart_of_idstart hid] at hnum
        cases hnum
    · rw [if_neg hid]
      by_cases hnum : nasmIsnumstart c = true
      · rw [if_pos hnum]
        by_cases hdollar : c = '$'
        · subst hdollar
          exact .stuck cs hs rfl rfl
        · have hdigit : c.isDigit = true := by simpa [nasmIsnumstart, hdollar] using hnum
          have hdrop : (c :: cs).dropWhile nasmIsnumchar = cs.dropWhile nasmIsnumchar :=
            List.dropWhile_cons_of_pos (by simp [nasmIsnumchar, hdigit])
          have hrest : dollarStarts .start s = dollarStarts .start (cs.dropWhile nasmIsnumchar) := by
            rw [hstart, ← dollarStarts_number]
            simp [dollarStarts, hspace, hid, hdollar, hdigit]
          rw [hdrop]
          cases readnum ((c :: cs).takeWhile nasmIsnumchar) with
          | none =>
            exact .reads c cs hs (by simp) (List.dropWhile_suffix _) hrest fun _ => .inr rfl
          | some n =>
            exact .reads c cs hs (by simp) (List.dropWhile_suffix _) hrest fun _ => .inl ⟨n, rfl⟩
      · rw [if_neg hnum]
        have hdigit : c.isDigit = false := by
          simpa using fun h : c.isDigit = true => hnum (by simp [nasmIsnumstart, h])
        have hdollar : c ≠ '$' := by
          rintro rfl
          exact hnum rfl
        by_cases hend : (c = ';' || c = '\n') = true
        · rw [if_pos hend]
          refine .ends rfl hs.symm ?_ fun d ds h => ?_
          · rw [hstart]
            simp [dollarStarts, hspace, hid, hdollar, hdigit, hend]
          · cases h
            simpa using hnum
        · rw [if_neg hend]
          refine .reads c cs hs (by simp) (List.suffix_refl cs) ?_ fun h => absurd h hnum
          rw [hstart]
          simp [dollarStarts, hspace, hid, hdollar, hdigit, hend]

-- ---------------------------------------------------------------------------
-- All calls
-- ---------------------------------------------------------------------------

def pointerAfter (hash : TokenHash) (s : Text) : Nat → Text
  | 0 => s
  | k + 1 => (getToken hash (pointerAfter hash s k)).2

theorem pointerAfter_succ (hash : TokenHash) (s : Text) (k : Nat) :
    pointerAfter hash s (k + 1) = pointerAfter hash (getToken hash s).2 k := by
  induction k with
  | zero => rfl
  | succ k ih => rw [pointerAfter, ih, pointerAfter]

/-- A call is at the end, or reads on past a character that is no blank. -/
def Progress (hash : TokenHash) (s : Text) : Prop :=
  (getToken hash s).1 = .eos ∨
    ∃ read, s = read ++ (getToken hash s).2 ∧ ∃ c ∈ read, nasmIsspace c = false

/-- What starts a number is one, or is diagnosed and read. -/
def ReadsNumber (hash : TokenHash) (s : Text) : Prop :=
  ∀ c cs, nasmSkipSpaces s = c :: cs → nasmIsnumstart c = true →
    (∃ n, (getToken hash s).1 = .num n) ∨
      (getToken hash s).1 = .errnum ∧ (getToken hash s).2.length ≤ cs.length

/-- Calls from a position on make progress, come to the end, stay there, and
read the numbers on the way. -/
structure Scans (hash : TokenHash) (s : Text) : Prop where
  progress : ∀ k, Progress hash (pointerAfter hash s k)
  ends : ∃ k ≤ s.length, (getToken hash (pointerAfter hash s k)).1 = .eos
  stays : ∀ k, (getToken hash (pointerAfter hash s k)).1 = .eos →
    (getToken hash (pointerAfter hash s (k + 1))).1 = .eos
  numbers : ∀ k, ReadsNumber hash (pointerAfter hash s k)

section
variable {hash : TokenHash} {s : Text}

theorem skip_suffix (s : Text) : nasmSkipSpaces s <:+ s := List.dropWhile_suffix _

theorem length_lt_of_reads {c : Char} {cs rest : Text} (hs : nasmSkipSpaces s = c :: cs)
    (hrest : rest <:+ cs) : rest.length < s.length := by
  have hskip := (skip_suffix s).length_le
  rw [hs, List.length_cons] at hskip
  exact Nat.lt_of_le_of_lt hrest.length_le hskip

theorem getToken_skip (hash : TokenHash) (s : Text) :
    getToken hash (nasmSkipSpaces s) = getToken hash s := by
  have hskip : nasmSkipSpaces (nasmSkipSpaces s) = nasmSkipSpaces s := by
    cases hs : nasmSkipSpaces s with
    | nil => rfl
    | cons c cs => exact List.dropWhile_cons_of_neg (by simpa using not_space_of_skip hs)
  rw [getToken, getToken, hskip]

/-- At the end, the next call is there too. -/
theorem getToken_eos (h : (getToken hash s).1 = .eos) :
    (getToken hash (getToken hash s).2).1 = .eos := by
  cases getToken_scanned hash s with
  | ends _ hrest => rwa [hrest, getToken_skip]
  | stuck _ _ htok =>
    rw [htok] at h
    cases h
  | reads _ _ _ hne => exact absurd h hne

theorem progress_of_not_dollar (h : dollarStarts .start s = false) : Progress hash s := by
  cases getToken_scanned hash s with
  | ends htok => exact .inl htok
  | stuck cs hs =>
    rw [dollarStarts_skip, hs] at h
    cases h
  | reads c cs hs _ hrest =>
    obtain ⟨token, htoken⟩ := hrest
    obtain ⟨blanks, hblanks⟩ := skip_suffix s
    refine .inr ⟨blanks ++ c :: token, ?_, c, by simp, not_space_of_skip hs⟩
    rw [List.append_assoc, List.cons_append, htoken, ← hs, hblanks]

/-- A call keeps what starts with `$`, and one that reads shortens the text. -/
theorem dollarStarts_next (h : dollarStarts .start s = false) :
    dollarStarts .start (getToken hash s).2 = false := by
  cases getToken_scanned hash s with
  | ends _ hrest _ => rwa [hrest, ← dollarStarts_skip]
  | stuck cs hs =>
    rw [dollarStarts_skip, hs] at h
    cases h
  | reads c cs hs _ _ hkeep => rwa [← hkeep]

theorem dollarStarts_pointerAfter (h : dollarStarts .start s = false) (k : Nat) :
    dollarStarts .start (pointerAfter hash s k) = false := by
  induction k with
  | zero => exact h
  | succ k ih => exact dollarStarts_next ih

theorem numbers_of_not_dollar (h : dollarStarts .start s = false) : ReadsNumber hash s := by
  intro c cs hs hnum
  cases getToken_scanned hash s with
  | ends _ hrest _ hno =>
    rw [hno c cs (hrest.trans hs)] at hnum
    cases hnum
  | stuck cs hs =>
    rw [dollarStarts_skip, hs] at h
    cases h
  | reads c' cs' hs' _ hrest _ htok =>
    rw [hs] at hs'
    cases hs'
    exact (htok hnum).imp_right fun herr => ⟨herr, hrest.length_le⟩

theorem ends_of_not_dollar (h : dollarStarts .start s = false) :
    ∃ k ≤ s.length, (getToken hash (pointerAfter hash s k)).1 = .eos := by
  induction hn : s.length using Nat.strong_induction_on generalizing s with
  | _ n ih =>
    subst hn
    cases getToken_scanned hash s with
    | ends htok => exact ⟨0, Nat.zero_le _, htok⟩
    | stuck cs hs =>
      rw [dollarStarts_skip, hs] at h
      cases h
    | reads c cs hs _ hrest =>
      have hlt := length_lt_of_reads hs hrest
      obtain ⟨k, hk, heos⟩ := ih _ hlt (dollarStarts_next h) rfl
      exact ⟨k + 1, Nat.succ_le_of_lt (Nat.lt_of_le_of_lt hk hlt), by rwa [pointerAfter_succ]⟩

/-- Calls come to the `$`, and the call there makes no progress. -/
theorem stuck_of_dollar (h : dollarStarts .start s = true) :
    ∃ k, ¬ Progress hash (pointerAfter hash s k) := by
  induction hn : s.length using Nat.strong_induction_on generalizing s with
  | _ n ih =>
    subst hn
    cases getToken_scanned hash s with
    | ends _ _ hno =>
      rw [hno] at h
      cases h
    | stuck cs hs htok hrest =>
      refine ⟨0, ?_⟩
      rintro (heos | ⟨read, hread, c, hc, hblank⟩)
      · exact Token.noConfusion (htok.symm.trans heos)
      · have hsplit : read = s.takeWhile nasmIsspace := by
          refine (List.append_left_inj (nasmSkipSpaces s)).1 ?_
          rw [nasmSkipSpaces, List.takeWhile_append_dropWhile, ← nasmSkipSpaces, hs, ← hrest]
          exact hread.symm
        have hspace : nasmIsspace c = true := List.mem_takeWhile_imp (hsplit ▸ hc)
        rw [hspace] at hblank
        cases hblank
    | reads c cs hs _ hrest hkeep =>
      have hlt := length_lt_of_reads hs hrest
      obtain ⟨k, hk⟩ := ih _ hlt (hkeep ▸ h) rfl
      exact ⟨k + 1, by rwa [pointerAfter_succ]⟩

end

/-- Repeated calls of `get_token` read the text to its end, and its numbers, just
where no token starts with `$`. -/
theorem scans_iff (hash : TokenHash) (s : Text) :
    Scans hash s ↔ dollarStarts .start s = false := by
  constructor
  · intro h
    by_contra hdollar
    obtain ⟨k, hk⟩ := @stuck_of_dollar hash s (by simpa using hdollar)
    exact hk (h.progress k)
  · intro h
    exact {
      progress := fun k => progress_of_not_dollar (dollarStarts_pointerAfter h k)
      ends := ends_of_not_dollar h
      stays := fun k => getToken_eos
      numbers := fun k => numbers_of_not_dollar (dollarStarts_pointerAfter h k) }

/-- A `$` is never read past. -/
theorem scans_dollar : ¬ ∀ (hash : TokenHash) (s : Text), Scans hash s := by
  intro h
  have hprogress := (h (fun _ => (.id, false)) ['$']).progress 0
  obtain htok | ⟨read, hread, c, hc, -⟩ := hprogress
  · cases htok
  · cases List.append_left_eq_self.1 hread.symm ▸ hc

end Btrtg
