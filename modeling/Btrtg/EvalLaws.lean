import Btrtg.ParseOpnd
import Btrtg.ScanLaws

/-!
# How far an operand is read

The evaluator and the reader of operands go from token to token: what they leave
is the end of what they were given, and a sum of products is read up to the
token behind it.
-/

namespace Btrtg

section
variable {tables : RegTables} {s s₁ last : Scan} {v e : Vect} {n : Nat}

-- ---------------------------------------------------------------------------
-- Suffixes
-- ---------------------------------------------------------------------------

theorem getToken_suffix (hash : TokenHash) (t : Text) : (getToken hash t).2 <:+ t := by
  rcases getToken_scanned hash t with ⟨-, hrest, -, -⟩ | ⟨cs, hskip, -, hrest⟩ |
    ⟨c, cs, hskip, -, hrest, -, -⟩
  · exact hrest ▸ skip_suffix t
  · exact hrest ▸ hskip ▸ skip_suffix t
  · exact hrest.trans ((List.suffix_cons c cs).trans (hskip ▸ skip_suffix t))

theorem scan_suffix (t : Text) : (scan tables t).bufptr <:+ t := getToken_suffix tables.hash t

/-- `expr6` reads one token, or an operand behind one. -/
theorem expr6_cases (h : expr6 tables (n + 1) s = some (v, s₁)) :
    (s.tt.op? sign = none ∧ s₁ = scan tables s.bufptr) ∨
      ∃ e, expr6 tables n (scan tables s.bufptr) = some (e, s₁) := by
  rw [expr6] at h
  cases hsign : s.tt.op? sign with
  | none =>
    rw [hsign] at h
    obtain ⟨e, _, h⟩ := Option.bind_eq_some_iff.1 h
    cases h
    exact .inl ⟨rfl, rfl⟩
  | some f =>
    rw [hsign] at h
    obtain ⟨⟨e, s₂⟩, he, h⟩ := Option.bind_eq_some_iff.1 h
    obtain ⟨_, _, h⟩ := Option.bind_eq_some_iff.1 h
    cases h
    exact .inr ⟨e, he⟩

/-- The loop of `expr5` is at its end, or reads an operand behind an operator. -/
theorem expr5Loop_cases (h : expr5Loop tables (n + 1) e s = some (v, s₁)) :
    (s.tt.op? product = none ∧ s₁ = s) ∨
      ∃ e' e'' s₂, s.tt.op? product ≠ none ∧
        expr6 tables n (scan tables s.bufptr) = some (e', s₂) ∧
        expr5Loop tables n e'' s₂ = some (v, s₁) := by
  rw [expr5Loop] at h
  cases hop : s.tt.op? product with
  | none =>
    rw [hop] at h
    cases h
    exact .inl ⟨rfl, rfl⟩
  | some f =>
    rw [hop] at h
    obtain ⟨⟨e', s₂⟩, he', h⟩ := Option.bind_eq_some_iff.1 h
    obtain ⟨e'', _, h⟩ := Option.bind_eq_some_iff.1 h
    exact .inr ⟨e', e'', s₂, nofun, he', h⟩

theorem expr4Loop_cases (h : expr4Loop tables (n + 1) e s = some (v, s₁)) :
    (s.tt.op? (sum tables) = none ∧ s₁ = s) ∨
      ∃ e' e'' s₂, s.tt.op? (sum tables) ≠ none ∧
        expr5 tables n (scan tables s.bufptr) = some (e', s₂) ∧
        expr4Loop tables n e'' s₂ = some (v, s₁) := by
  rw [expr4Loop] at h
  cases hop : s.tt.op? (sum tables) with
  | none =>
    rw [hop] at h
    cases h
    exact .inl ⟨rfl, rfl⟩
  | some f =>
    rw [hop] at h
    obtain ⟨⟨e', s₂⟩, he', h⟩ := Option.bind_eq_some_iff.1 h
    exact .inr ⟨e', f e e', s₂, nofun, he', h⟩

theorem expr5_cases (h : expr5 tables n s = some (v, s₁)) :
    ∃ e s₂, expr6 tables n s = some (e, s₂) ∧ expr5Loop tables n e s₂ = some (v, s₁) := by
  obtain ⟨⟨e, s₂⟩, he, h⟩ := Option.bind_eq_some_iff.1 h
  exact ⟨e, s₂, he, h⟩

theorem expr4_cases (h : expr4 tables n s = some (v, s₁)) :
    ∃ e s₂, expr5 tables n s = some (e, s₂) ∧ expr4Loop tables n e s₂ = some (v, s₁) := by
  obtain ⟨⟨e, s₂⟩, he, h⟩ := Option.bind_eq_some_iff.1 h
  exact ⟨e, s₂, he, h⟩

theorem level_cases {next : Nat → Scan → Option (Vect × Scan)}
    {op : Char → Option (Vect → Vect → Vect)} (h : level tables next op n s = some (v, s₁)) :
    ∃ e s₂, next n s = some (e, s₂) ∧ levelLoop tables next op n e s₂ = some (v, s₁) := by
  obtain ⟨⟨e, s₂⟩, he, h⟩ := Option.bind_eq_some_iff.1 h
  exact ⟨e, s₂, he, h⟩

/-- The sum that an expression begins with. -/
theorem evaluate_cases (h : evaluate tables s = some (v, s₁)) :
    ∃ e s₂, expr4 tables s.fuel s = some (e, s₂) := by
  obtain ⟨⟨e, s₂⟩, he, -⟩ := Option.bind_eq_some_iff.1 h
  obtain ⟨⟨_, _⟩, h3, -⟩ := Option.bind_eq_some_iff.1 he
  obtain ⟨_, _, h0, -⟩ := level_cases h3
  obtain ⟨_, _, h1, -⟩ := level_cases h0
  obtain ⟨_, _, h2, -⟩ := level_cases h1
  obtain ⟨e, s₂, h4, -⟩ := level_cases h2
  exact ⟨e, s₂, h4⟩

def endsSum : Token → Bool
  | .char c => c ∉ ['&', '^', '|', '=', '<', '>']
  | tok => !tok.isQmark

theorem level_of_next {next : Nat → Scan → Option (Vect × Scan)}
    {op : Char → Option (Vect → Vect → Vect)} (h : next (n + 1) s = some (e, s₁))
    (hop : s₁.tt.op? op = none) : level tables next op (n + 1) s = some (e, s₁) := by
  rw [level, h, Option.bind_eq_bind, Option.bind_some]
  dsimp only
  rw [levelLoop, hop]

theorem endsSum_op {tok : Token} (h : endsSum tok = true) :
    (∀ f, ∀ c ∈ ['&', '^', '|'], tok.op? (bitwise f c) = none) ∧
      tok.op? (relation tables) = none ∧ tok.isQmark = false := by
  cases tok with
  | char c =>
    simp only [endsSum, List.mem_cons, List.not_mem_nil, or_false, not_or, decide_eq_true_eq] at h
    simp_all [Token.op?, bitwise, relation, Token.isQmark]
  | _ => simp_all [endsSum, Token.op?, Token.isQmark]

/-- A sum is the whole expression where no operator above the sums is behind it. -/
theorem evaluate_of_expr4 (h : expr4 tables s.fuel s = some (e, s₁)) (hends : endsSum s₁.tt = true) :
    evaluate tables s = some (scalarMult e 1, s₁) := by
  obtain ⟨hbit, hrel, hqmark⟩ := @endsSum_op tables _ hends
  have hfuel : s.fuel = (s.fuel - 1) + 1 := rfl
  rw [hfuel] at h
  have h2 : expr2 tables _ s = _ := level_of_next h (hbit _ _ (by simp))
  have h1 : expr1 tables _ s = _ := level_of_next h2 (hbit _ _ (by simp))
  have h0 : expr0 tables _ s = _ := level_of_next h1 (hbit _ _ (by simp))
  have h3 : rexp3 tables _ s = _ := level_of_next h0 hrel
  rw [evaluate, hfuel, cexpr, h3]
  simp [hqmark]

theorem expr6_suffix (h : expr6 tables n s = some (v, s₁)) : s₁.bufptr <:+ s.bufptr := by
  induction n generalizing s v with
  | zero => cases h
  | succ n ih =>
    rcases expr6_cases h with ⟨-, rfl⟩ | ⟨e, he⟩
    · exact scan_suffix _
    · exact (ih he).trans (scan_suffix _)

theorem expr5Loop_suffix (h : expr5Loop tables n e s = some (v, s₁)) : s₁.bufptr <:+ s.bufptr := by
  induction n generalizing s e with
  | zero => cases h
  | succ n ih =>
    rcases expr5Loop_cases h with ⟨-, rfl⟩ | ⟨e', e'', s₂, -, he', h⟩
    · exact List.suffix_refl _
    · exact (ih h).trans ((expr6_suffix he').trans (scan_suffix _))

theorem expr5_suffix (h : expr5 tables n s = some (v, s₁)) : s₁.bufptr <:+ s.bufptr := by
  obtain ⟨e, s₂, he, h⟩ := expr5_cases h
  exact (expr5Loop_suffix h).trans (expr6_suffix he)

theorem expr4Loop_suffix (h : expr4Loop tables n e s = some (v, s₁)) : s₁.bufptr <:+ s.bufptr := by
  induction n generalizing s e with
  | zero => cases h
  | succ n ih =>
    rcases expr4Loop_cases h with ⟨-, rfl⟩ | ⟨e', e'', s₂, -, he', h⟩
    · exact List.suffix_refl _
    · exact (ih h).trans ((expr5_suffix he').trans (scan_suffix _))

theorem expr4_suffix (h : expr4 tables n s = some (v, s₁)) : s₁.bufptr <:+ s.bufptr := by
  obtain ⟨e, s₂, he, h⟩ := expr4_cases h
  exact (expr4Loop_suffix h).trans (expr5_suffix he)

section
variable {next : Nat → Scan → Option (Vect × Scan)} {op : Char → Option (Vect → Vect → Vect)}
  (hnext : ∀ {n s v s₁}, next n s = some (v, s₁) → s₁.bufptr <:+ s.bufptr)
include hnext

theorem levelLoop_suffix (h : levelLoop tables next op n e s = some (v, s₁)) :
    s₁.bufptr <:+ s.bufptr := by
  induction n generalizing s e with
  | zero => cases h
  | succ n ih =>
    rw [levelLoop] at h
    split at h
    · obtain ⟨⟨e', s₂⟩, he', h⟩ := Option.bind_eq_some_iff.1 h
      exact (ih h).trans ((hnext he').trans (scan_suffix _))
    · cases h
      exact List.suffix_refl _

theorem level_suffix (h : level tables next op n s = some (v, s₁)) : s₁.bufptr <:+ s.bufptr := by
  obtain ⟨e, s₂, he, h⟩ := level_cases h
  exact (levelLoop_suffix hnext h).trans (hnext he)

end

theorem rexp3_suffix : rexp3 tables n s = some (v, s₁) → s₁.bufptr <:+ s.bufptr :=
  level_suffix (level_suffix (level_suffix (level_suffix expr4_suffix)))

theorem cexpr_suffix (h : cexpr tables n s = some (v, s₁)) : s₁.bufptr <:+ s.bufptr := by
  induction n generalizing s v s₁ with
  | zero => cases h
  | succ n ih =>
    obtain ⟨⟨e, s₂⟩, he, h⟩ := Option.bind_eq_some_iff.1 h
    refine List.IsSuffix.trans ?_ (rexp3_suffix he)
    dsimp only at h
    by_cases hq : s₂.tt.isQmark = true
    · rw [if_pos hq] at h
      obtain ⟨⟨f, s₃⟩, hf, h⟩ := Option.bind_eq_some_iff.1 h
      dsimp only at h
      by_cases hcolon : s₃.tt = .char ':'
      · rw [if_pos hcolon] at h
        obtain ⟨⟨g, s₄⟩, hg, h⟩ := Option.bind_eq_some_iff.1 h
        cases h
        exact (ih hg).trans ((scan_suffix _).trans ((ih hf).trans (scan_suffix _)))
      · rw [if_neg hcolon] at h
        cases h
    · rw [if_neg hq] at h
      cases h
      exact List.suffix_refl _

theorem evaluate_suffix (h : evaluate tables s = some (v, s₁)) : s₁.bufptr <:+ s.bufptr := by
  obtain ⟨⟨e, s₂⟩, he, h⟩ := Option.bind_eq_some_iff.1 h
  cases h
  exact cexpr_suffix he

end

-- ---------------------------------------------------------------------------
-- Sums of products
-- ---------------------------------------------------------------------------

/-- The tokens of a sum of products without signs, up to the one behind it; the flag
tells that an operand comes next. -/
inductive Formula (tables : RegTables) (last : Scan) : Bool → Scan → Prop
  | opnd {s : Scan} : s.tt.op? sign = none → Formula tables last false (scan tables s.bufptr) →
      Formula tables last true s
  | op {s : Scan} : s.tt.op? product ≠ none ∨ s.tt.op? (sum tables) ≠ none →
      Formula tables last true (scan tables s.bufptr) → Formula tables last false s
  | ends : last.tt.op? product = none → last.tt.op? (sum tables) = none →
      endsSum last.tt = true → Formula tables last false last

section
variable {tables : RegTables} {s s₁ last : Scan} {v e : Vect} {n : Nat}

theorem Formula.expr6 (hs : Formula tables last true s) (h : expr6 tables n s = some (v, s₁)) :
    Formula tables last false s₁ := by
  cases n with
  | zero => cases h
  | succ n =>
    cases hs with
    | opnd hsign hnext =>
      rw [Btrtg.expr6, hsign] at h
      obtain ⟨e, _, h⟩ := Option.bind_eq_some_iff.1 h
      cases h
      exact hnext

theorem Formula.expr5Loop (hs : Formula tables last false s)
    (h : expr5Loop tables n e s = some (v, s₁)) :
    Formula tables last false s₁ ∧ s₁.tt.op? product = none := by
  induction n generalizing s e with
  | zero => cases h
  | succ n ih =>
    rcases expr5Loop_cases h with ⟨hend, rfl⟩ | ⟨e', e'', s₂, hop, he', h⟩
    · exact ⟨hs, hend⟩
    · cases hs with
      | op _ hnext => exact ih (hnext.expr6 he') h
      | ends hend => exact absurd hend hop

theorem Formula.expr5 (hs : Formula tables last true s) (h : expr5 tables n s = some (v, s₁)) :
    Formula tables last false s₁ ∧ s₁.tt.op? product = none := by
  obtain ⟨e, s₂, he, h⟩ := expr5_cases h
  exact (hs.expr6 he).expr5Loop h

theorem Formula.expr4Loop (hs : Formula tables last false s ∧ s.tt.op? product = none)
    (h : expr4Loop tables n e s = some (v, s₁)) : s₁ = last ∧ endsSum last.tt = true := by
  induction n generalizing s e with
  | zero => cases h
  | succ n ih =>
    obtain ⟨hs, hproduct⟩ := hs
    rcases expr4Loop_cases h with ⟨hend, rfl⟩ | ⟨e', e'', s₂, hop, he', h⟩
    · cases hs with
      | op hop => exact absurd hend (hop.resolve_left fun h => h hproduct)
      | ends _ _ hends => exact ⟨rfl, hends⟩
    · cases hs with
      | op _ hnext => exact ih (hnext.expr5 he') h
      | ends _ hend => exact absurd hend hop

/-- A sum of products is read to its end. -/
theorem Formula.evaluate (hs : Formula tables last true s) (h : evaluate tables s = some (v, s₁)) :
    s₁ = last := by
  obtain ⟨e, s₂, hsum⟩ := evaluate_cases h
  obtain ⟨e', s₃, he', h'⟩ := expr4_cases hsum
  obtain ⟨rfl, hends⟩ := Formula.expr4Loop (hs.expr5 he') h'
  rw [evaluate_of_expr4 hsum hends] at h
  cases h
  rfl

end

end Btrtg
