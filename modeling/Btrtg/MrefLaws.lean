import Btrtg.EvalLaws
import Btrtg.Asm
import Mathlib.Data.List.TakeWhile
import Mathlib.Tactic.Ring

/-!
# Addresses that are read back

The operands that `create_random_modrm` prints without a label, through the
scanner, the evaluator and `parse_mref`: the parts add up to what is printed.
-/

namespace Btrtg

-- ---------------------------------------------------------------------------
-- Digits
-- ---------------------------------------------------------------------------

theorem readDigits_append (radix : Nat) (x : BitVec 64) (cs ds : Text) :
    readDigits radix x (cs ++ ds) = (readDigits radix x cs).bind (readDigits radix · ds) := by
  induction cs generalizing x with
  | nil => rfl
  | cons c cs ih =>
    simp only [List.cons_append, readDigits]
    split
    · exact ih x
    · split
      · rfl
      · exact ih _

theorem readDigits_digitChar {d : Nat} (hd : d < 16) (x : BitVec 64) :
    readDigits 16 x [d.digitChar] = some (16 * x + .ofNat 64 d) := by
  have hdigit : ∀ d : Fin 16, d.val.digitChar ≠ '_' ∧ ¬d.val.digitChar < '0' ∧
      ¬('9' < d.val.digitChar ∧ d.val.digitChar < 'A') ∧ numvalue d.val.digitChar = d := by
    decide
  obtain ⟨hblank, hlow, hmid, hvalue⟩ := hdigit ⟨d, hd⟩
  simp only at hblank hlow hmid hvalue
  simp [readDigits, hblank, hlow, hvalue, not_le.2 hd, -not_and, hmid]

theorem readDigits_toDigits (n : Nat) :
    readDigits 16 0 (Nat.toDigits 16 n) = some (.ofNat 64 n) := by
  induction n using Nat.strongRecOn with
  | ind n ih =>
    by_cases hn : n < 16
    · rw [Nat.toDigits_of_lt_base hn, readDigits_digitChar hn]
      simp
    · have hlt : n / 16 < n := Nat.div_lt_self (by omega) (by decide)
      rw [Nat.toDigits_of_base_le (by decide) (Nat.le_of_not_lt hn), readDigits_append, ih _ hlt]
      refine (readDigits_digitChar (Nat.mod_lt n (by decide)) _).trans (congrArg some ?_)
      calc 16 * BitVec.ofNat 64 (n / 16) + .ofNat 64 (n % 16)
          = .ofNat 64 (16 * (n / 16) + n % 16) := by rw [BitVec.ofNat_add, BitVec.ofNat_mul]; rfl
        _ = .ofNat 64 n := by rw [Nat.div_add_mod]

/-- A property of the sixteen digits holds of every digit. -/
theorem forall_mem_toDigits {p : Char → Prop} (h : ∀ d : Fin 16, p d.val.digitChar) (n : Nat) :
    ∀ c ∈ Nat.toDigits 16 n, p c := by
  induction n using Nat.strongRecOn with
  | ind n ih =>
    by_cases hn : n < 16
    · rw [Nat.toDigits_of_lt_base hn]
      simpa using h ⟨n, hn⟩
    · have hlt : n / 16 < n := Nat.div_lt_self (by omega) (by decide)
      rw [Nat.toDigits_of_base_le (by decide) (Nat.le_of_not_lt hn)]
      intro c hc
      rcases List.mem_append.1 hc with hc | hc
      · exact ih _ hlt c hc
      · rw [List.mem_singleton.1 hc]
        exact h ⟨n % 16, Nat.mod_lt n (by decide)⟩

-- ---------------------------------------------------------------------------
-- Tokens
-- ---------------------------------------------------------------------------

section
variable {tables : RegTables} {s : Text} {r : Reg}

theorem takeWhile_append_of_head {p : Char → Bool} {cs : Text} (hcs : ∀ c ∈ cs, p c = true)
    (hs : ∀ c ∈ s.head?, p c = false) : (cs ++ s).takeWhile p = cs := by
  rw [List.takeWhile_append_of_pos hcs]
  cases s with
  | nil => simp
  | cons c s => simp [hs c rfl]

theorem dropWhile_append_of_head {p : Char → Bool} {cs : Text} (hcs : ∀ c ∈ cs, p c = true)
    (hs : ∀ c ∈ s.head?, p c = false) : (cs ++ s).dropWhile p = s := by
  rw [List.dropWhile_append_of_pos hcs]
  cases s with
  | nil => rfl
  | cons c s => rw [List.dropWhile_cons_of_neg (by simp [hs c rfl])]

theorem scan_blank : scan tables (' ' :: s) = scan tables s := rfl

theorem scan_char {c : Char} (hc : c ∈ ['[', ']', '+', '*']) :
    scan tables (c :: s) = ⟨.char c, s⟩ := by
  simp only [List.mem_cons, List.not_mem_nil, or_false] at hc
  obtain rfl | rfl | rfl | rfl := hc <;> rfl

theorem scan_reg (hr : r ∈ nasmRdReg32) (hs : ∀ c ∈ s.head?, nasmIsidchar c = false) :
    scan tables (r.name.toList ++ s) = ⟨.keyword (.reg r), s⟩ := by
  have hname : ∀ r ∈ nasmRdReg32, ∃ c cs, r.name.toList = c :: cs ∧ nasmIsspace c = false ∧
      nasmIsidstart c = true ∧ (∀ c ∈ cs, nasmIsidchar c = true) ∧ cs.length = 2 := by
    intro r hr
    simp only [nasmRdReg32, List.mem_cons, List.not_mem_nil, or_false] at hr
    rcases hr with rfl | rfl | rfl | rfl | rfl | rfl | rfl | rfl <;>
      exact ⟨_, _, rfl, by decide, by decide, forall_mem_of_all (by decide), rfl⟩
  have hhash := tables.hash_name r hr
  obtain ⟨c, cs, hcs, hspace, hstart, hchars, hlen⟩ := hname r hr
  rw [hcs] at hhash ⊢
  have htake : (c :: cs).take (idlenMax - 1) = c :: cs :=
    List.take_of_length_le (by simp [hlen, idlenMax])
  simp [scan, getToken, nasmSkipSpaces, hspace, hstart, takeWhile_append_of_head hchars hs,
    dropWhile_append_of_head hchars hs, htake, hhash]

theorem scan_num {c : Char} {cs : Text} {n : BitVec 64} (hc : c ∈ ['0', '2', '4', '8'])
    (hcs : ∀ d ∈ cs, nasmIsnumchar d = true) (hn : readnum (c :: cs) = some n)
    (hs : ∀ d ∈ s.head?, nasmIsnumchar d = false) :
    scan tables (c :: cs ++ s) = ⟨.num n, s⟩ := by
  have hstart : nasmIsspace c = false ∧ nasmIsidstart c = false ∧ nasmIsnumstart c = true ∧
      nasmIsnumchar c = true := by
    simp only [List.mem_cons, List.not_mem_nil, or_false] at hc
    obtain rfl | rfl | rfl | rfl := hc <;> decide
  obtain ⟨hspace, hid, hnum, hchar⟩ := hstart
  simp [scan, getToken, nasmSkipSpaces, hspace, hid, hnum, hchar, takeWhile_append_of_head hcs hs,
    dropWhile_append_of_head hcs hs, hn]

theorem scan_scale {k : Nat} (hk : k ∈ [2, 4, 8]) (hs : ∀ d ∈ s.head?, nasmIsnumchar d = false) :
    scan tables ((toString k).toList ++ s) = ⟨.num (.ofNat 64 k), s⟩ := by
  simp only [List.mem_cons, List.not_mem_nil, or_false] at hk
  obtain rfl | rfl | rfl := hk
  · exact scan_num (by decide) nofun (by decide) hs
  · exact scan_num (by decide) nofun (by decide) hs
  · exact scan_num (by decide) nofun (by decide) hs

theorem readnum_hex (n : Nat) :
    readnum ('0' :: 'x' :: Nat.toDigits 16 n) = some (.ofNat 64 n) := by
  have hchars : ∀ c ∈ '0' :: 'x' :: Nat.toDigits 16 n, libIsnumchar c = true := by
    intro c hc
    rcases List.mem_cons.1 hc with rfl | hc
    · decide
    · rcases List.mem_cons.1 hc with rfl | hc
      · decide
      · exact forall_mem_toDigits (p := (libIsnumchar · = true)) (by decide) n c hc
  have hradix : ∀ c ∈ Nat.toDigits 16 n, radixLetter c < 16 :=
    forall_mem_toDigits (p := (radixLetter · < 16)) (by decide) n
  obtain ⟨d, ds, hds⟩ : ∃ d ds, Nat.toDigits 16 n = d :: ds :=
    List.exists_cons_of_ne_nil Nat.toDigits_ne_nil
  have hlast : (Option.map radixLetter (Nat.toDigits 16 n).getLast?).getD 0 < 16 := by
    rw [List.getLast?_eq_getLast_of_ne_nil (by simp [hds])]
    exact hradix _ (List.getLast_mem _)
  have hread := readDigits_toDigits n
  have hnum := List.takeWhile_eq_self_iff.2 hchars
  rw [hds] at hnum hlast hread ⊢
  have hprefix : prefixRadix ('0' :: 'x' :: d :: ds) = (16, 2) := rfl
  have hskip : nasmSkipSpaces ('0' :: 'x' :: d :: ds) = '0' :: 'x' :: d :: ds := rfl
  simpa [readnum, hskip, hnum, hprefix, hlast] using hread

theorem scan_hex (n : Nat) (hs : ∀ d ∈ s.head?, nasmIsnumchar d = false) :
    scan tables ('0' :: 'x' :: Nat.toDigits 16 n ++ s) = ⟨.num (.ofNat 64 n), s⟩ := by
  refine scan_num (by decide) ?_ (readnum_hex n) hs
  intro c hc
  rcases List.mem_cons.1 hc with rfl | hc
  · decide
  · exact forall_mem_toDigits (p := (nasmIsnumchar · = true)) (by decide) n c hc

end

-- ---------------------------------------------------------------------------
-- Sums
-- ---------------------------------------------------------------------------

section
variable {tables : RegTables} {s s' : Scan} {t : Text} {n : Nat} {r r' : Reg} {x y : BitVec 64}

theorem expr5Loop_end {e : Vect} (hs : s.tt.op? product = none) :
    expr5Loop tables (n + 1) e s = some (e, s) := by
  rw [expr5Loop, hs]

theorem expr5_num (hs : (scan tables t).tt.op? product = none) :
    expr5 tables (n + 1) ⟨.num x, t⟩ = some (scalarvect x, scan tables t) :=
  expr5Loop_end hs

theorem expr5_reg (hs : (scan tables t).tt.op? product = none) :
    expr5 tables (n + 1) ⟨.keyword (.reg r), t⟩ = some ([⟨.reg r, 1⟩], scan tables t) :=
  expr5Loop_end hs

theorem nonzero_scalarvect :
    (scalarvect x).nonzero = if x = 0 then [] else scalarvect x := by
  by_cases hx : x = 0
  · simp [Vect.nonzero, scalarvect, hx]
  · rw [if_neg hx]
    exact List.filter_cons_of_pos (by simpa using hx)

@[simp] theorem isSimple_scalarvect : isSimple (scalarvect x) = true := by
  rw [isSimple, nonzero_scalarvect]
  split_ifs <;> rfl

@[simp] theorem isReallySimple_scalarvect : isReallySimple (scalarvect x) = true := by
  rw [isReallySimple, nonzero_scalarvect]
  split_ifs <;> rfl

@[simp] theorem relocValue_scalarvect : relocValue (scalarvect x) = x := by
  rw [relocValue, nonzero_scalarvect]
  split_ifs with hx
  · exact hx.symm
  · rfl

theorem multiply_reg : multiply [⟨.reg r, 1⟩] (scalarvect x) = some [⟨.reg r, x⟩] := by
  have hreg : isSimple [⟨.reg r, 1⟩] = false := by simp [isSimple, Vect.nonzero]
  rw [multiply, hreg, if_neg Bool.false_ne_true, isSimple_scalarvect, if_pos rfl,
    relocValue_scalarvect]
  simp [scalarMult, Term.far]

theorem expr5_scaled {t' t'' : Text} (hstar : scan tables t = ⟨.char '*', t'⟩)
    (hnum : scan tables t' = ⟨.num x, t''⟩) (hs : (scan tables t'').tt.op? product = none) :
    expr5 tables (n + 2) ⟨.keyword (.reg r), t⟩ = some ([⟨.reg r, x⟩], scan tables t'') := by
  change expr5Loop tables (n + 2) [⟨.reg r, 1⟩] (scan tables t) = _
  rw [hstar, expr5Loop, hnum]
  change (multiply [⟨.reg r, 1⟩] (scalarvect x) >>= fun e => expr5Loop tables (n + 1) e _) = _
  rw [multiply_reg]
  exact expr5Loop_end hs

theorem expr4Loop_plus {e f : Vect} (h : expr5 tables n (scan tables t) = some (f, s')) :
    expr4Loop tables (n + 1) e ⟨.char '+', t⟩ = expr4Loop tables n (addVectors tables e f) s' := by
  rw [expr4Loop, h]
  rfl

-- ---------------------------------------------------------------------------
-- Vectors
-- ---------------------------------------------------------------------------

theorem addMerge_nil (b : Bool) (v : Vect) : addMerge tables b v [] = addRest b v := by
  cases v <;> simp [addMerge, addRest]

/-- A number comes behind the registers. -/
theorem addVectors_simple {v : Vect} (hv : ∀ t ∈ v, ∃ r, t.type = .reg r) :
    addVectors tables v (scalarvect x) = v ++ scalarvect x := by
  rw [addVectors, isReallySimple_scalarvect, Bool.or_true]
  induction v with
  | nil => simp [addMerge, addRest]
  | cons t v ih =>
    have ih := ih fun t ht => hv t (.tail _ ht)
    obtain ⟨r, ht⟩ := hv t (.head _)
    have hfar : t.far = false := by simp [Term.far, ht]
    have hle := tables.num_le r
    have hlt : t.type.number tables < TermType.simple.number tables := by
      rw [ht, TermType.number, TermType.number]
      omega
    rw [scalarvect, addMerge, hfar, if_neg (by simp [Term.far]), if_neg hlt.le.not_gt, if_pos hlt,
      if_neg (by simp [ht]), ← scalarvect, ih]
    rfl

/-- A base and an index in the order of their numbers. -/
def regTerms (tables : RegTables) (base index : Reg) (x : BitVec 64) : Vect :=
  if tables.num base < tables.num index then [⟨.reg base, 1⟩, ⟨.reg index, x⟩]
  else [⟨.reg index, x⟩, ⟨.reg base, 1⟩]

theorem regTerms_reg : ∀ t ∈ regTerms tables r r' x, ∃ r, t.type = .reg r := by
  intro t ht
  unfold regTerms at ht
  split at ht
  · rcases List.mem_pair.1 ht with rfl | rfl <;> exact ⟨_, rfl⟩
  · rcases List.mem_pair.1 ht with rfl | rfl <;> exact ⟨_, rfl⟩

theorem addVectors_regs (h : tables.num r ≠ tables.num r') :
    addVectors tables [⟨.reg r, 1⟩] [⟨.reg r', x⟩] = regTerms tables r r' x := by
  have hfar : ∀ r x, Term.far ⟨.reg r, x⟩ = false := fun _ _ => rfl
  rw [addVectors, addMerge, regTerms, if_neg (by simp [hfar])]
  simp only [TermType.number, reduceCtorEq, if_false, addMerge_nil]
  obtain hlt | hlt := Nat.lt_or_gt_of_ne h
  · rw [if_neg hlt.le.not_gt, if_pos hlt, if_pos hlt]
    simp [addMerge, addRest, hfar]
  · rw [if_pos hlt, if_neg hlt.le.not_gt]
    simp [addRest, hfar]

/-- The terms that an address without a label is made of. -/
def Plain (t : Term) : Prop := t.type = .simple ∨ ∃ r, t.type = .reg r

theorem scalarMult_one {v : Vect} (hv : ∀ t ∈ v, Plain t) : scalarMult v 1 = v := by
  have hnear : v.takeWhile (!·.far) = v := List.takeWhile_eq_self_iff.2 fun t ht => by
    obtain h | ⟨r, h⟩ := hv t ht <;> simp [Term.far, h]
  simp [scalarMult, hnear]

-- ---------------------------------------------------------------------------
-- References
-- ---------------------------------------------------------------------------

def MemRef.value (op : MemRef) (regs : Reg → Int) : Int :=
  (op.basereg.map regs).getD 0 + (op.indexreg.map regs).getD 0 * op.scale.toInt + op.offset.toInt

theorem isClass_regGpr (hr : r ∈ nasmRdReg32) : OpFlags.isClass OpFlags.regGpr r.flags = true := by
  revert r
  decide

theorem toInt_disp {d : Nat} (hd : d < 2 ^ 32) : (BitVec.ofNat 64 d).toInt = d := by
  rw [BitVec.toInt_eq_toNat_of_lt] <;> rw [BitVec.toNat_ofNat] <;> omega

end

/-- What `create_random_modrm` prints without a label: the registers differ, the
scale is a power of two and the displacement has 32 bits. -/
def ModRM.LabelFree : ModRM → Prop
  | .b base _ => base ∈ nasmRdReg32
  | .bd base _ disp => base ∈ nasmRdReg32 ∧ disp < 2 ^ 32
  | .bid base index _ _ disp =>
    base ∈ nasmRdReg32 ∧ index ∈ nasmRdReg32 ∧ base ≠ index ∧ disp < 2 ^ 32
  | .bisd base index scale _ _ disp =>
    base ∈ nasmRdReg32 ∧ index ∈ nasmRdReg32 ∧ base ≠ index ∧ scale ∈ [2, 4, 8] ∧ disp < 2 ^ 32
  | .d _ | .isd .. => False

def ModRM.printed (regs : Reg → Int) : ModRM → Int
  | .b base _ => regs base
  | .bd base _ disp => regs base + disp
  | .bid base index _ _ disp => regs base + regs index + disp
  | .bisd base index scale _ _ disp => regs base + regs index * scale + disp
  | .d _ | .isd .. => 0

section
variable {tables : RegTables} {s : Scan} {t t₁ t₂ t₃ rest : Text} {op : MemRef} {v : Vect}
  {base index : Reg} {regs : Reg → Int}

theorem parseMref_scalarvect {x : BitVec 64} (h : parseMref none {} v = some op) :
    parseMref none {} (v ++ scalarvect x) = some { op with offset := op.offset + x } := by
  rw [parseMref] at h ⊢
  rw [List.foldlM_append, h]
  rfl

theorem parseMref_reg (hr : base ∈ nasmRdReg32) :
    parseMref none {} [⟨.reg base, 1⟩] = some { basereg := base } := by
  simp [parseMref, parseMrefTerm, isClass_regGpr hr]

/-- Either order of the registers makes up the same sum: the first with the factor
1 is the base. -/
theorem parseMref_regs (hbase : base ∈ nasmRdReg32) (hindex : index ∈ nasmRdReg32)
    (x : BitVec 64) :
    ∃ op, parseMref none {} (regTerms tables base index x) = some op ∧
      op.offset = 0 ∧ ∀ regs, op.value regs = regs base + regs index * (x.setWidth 32).toInt := by
  unfold regTerms
  split
  · refine ⟨{ basereg := base, indexreg := index, scale := x.setWidth 32 }, ?_, rfl, ?_⟩
    · simp [parseMref, parseMrefTerm, isClass_regGpr hbase]
    · simp [MemRef.value]
  · by_cases hx : x = 1
    · subst hx
      refine ⟨{ basereg := index, indexreg := base, scale := 1 }, ?_, rfl, fun regs => ?_⟩
      · simp [parseMref, parseMrefTerm, isClass_regGpr hindex]
      · change regs index + regs base * 1 + 0 = regs base + regs index * 1
        ring
    · refine ⟨{ basereg := base, indexreg := index, scale := x.setWidth 32 }, ?_, rfl, ?_⟩
      · have hx : ¬x = 1#64 := hx
        simp [parseMref, parseMrefTerm, isClass_regGpr hbase, hx]
      · simp [MemRef.value]

/-- A sum up to its bracket. -/
theorem parseMemoryOpnd_of_expr4 (hscan : scan tables t = s)
    (hexpr : expr4 tables s.fuel s = some (v, ⟨.char ']', rest⟩))
    (hplain : ∀ t ∈ v, Plain t) (hop : parseMref none {} v = some op) :
    parseMemoryOpnd tables ('[' :: t) = some (op, rest) := by
  have heval : evaluate tables s = some (v, ⟨.char ']', rest⟩) := by
    rw [evaluate_of_expr4 hexpr rfl, scalarMult_one hplain]
  rw [parseMemoryOpnd, scan_char (by decide), hscan, heval]
  change (parseMref none {} v >>= fun op => some (op, rest)) = _
  rw [hop]
  rfl

-- ---------------------------------------------------------------------------
-- The modes
-- ---------------------------------------------------------------------------

@[simp] theorem toString_string (s : String) : toString s = s := rfl

/-- ` + 0x` and the digits, up to the bracket. -/
def dispText (disp : Nat) (rest : Text) : Text :=
  ' ' :: '+' :: ' ' :: ('0' :: 'x' :: Nat.toDigits 16 disp ++ ']' :: rest)

theorem expr4Loop_disp {n disp : Nat} (hv : ∀ t ∈ v, ∃ r, t.type = .reg r) :
    expr4Loop tables (n + 2) v (scan tables (dispText disp rest)) =
      some (v ++ scalarvect (.ofNat 64 disp), ⟨.char ']', rest⟩) := by
  have hplus : scan tables (dispText disp rest) =
      ⟨.char '+', ' ' :: ('0' :: 'x' :: Nat.toDigits 16 disp ++ ']' :: rest)⟩ := rfl
  have hnum : expr5 tables (n + 1)
      (scan tables (' ' :: ('0' :: 'x' :: Nat.toDigits 16 disp ++ ']' :: rest))) =
      some (scalarvect (.ofNat 64 disp), ⟨.char ']', rest⟩) := by
    rw [scan_blank, scan_hex disp (by simp [nasmIsnumchar, isalpha])]
    exact expr5_num (n := n) rfl
  rw [hplus, expr4Loop_plus hnum, addVectors_simple hv]
  rfl

theorem expr4Loop_index {n disp : Nat} {x : BitVec 64}
    (hne : tables.num base ≠ tables.num index)
    (hindex : expr5 tables (n + 2) (scan tables (' ' :: t)) =
      some ([⟨.reg index, x⟩], scan tables (dispText disp rest))) :
    expr4Loop tables (n + 3) [⟨.reg base, 1⟩] (scan tables (' ' :: '+' :: ' ' :: t)) =
      some (regTerms tables base index x ++ scalarvect (.ofNat 64 disp), ⟨.char ']', rest⟩) := by
  have hplus : scan tables (' ' :: '+' :: ' ' :: t) = ⟨.char '+', ' ' :: t⟩ := rfl
  rw [hplus, expr4Loop_plus hindex, addVectors_regs hne, expr4Loop_disp regTerms_reg]

theorem expr4_reg {n : Nat} (hs : (scan tables t).tt.op? product = none) :
    expr4 tables (n + 1) ⟨.keyword (.reg base), t⟩ =
      expr4Loop tables (n + 1) [⟨.reg base, 1⟩] (scan tables t) := by
  rw [expr4, expr5_reg hs]
  rfl

theorem plain_append {x : BitVec 64} (hv : ∀ t ∈ v, ∃ r, t.type = .reg r) :
    ∀ t ∈ v ++ scalarvect x, Plain t := by
  intro t ht
  rcases List.mem_append.1 ht with ht | ht
  · exact .inr (hv t ht)
  · rw [scalarvect, List.mem_singleton] at ht
    exact .inl (by rw [ht])

theorem MemRef.value_add {x : BitVec 64} (h : op.offset = 0) :
    ({ op with offset := op.offset + x } : MemRef).value regs = op.value regs + x.toInt := by
  simp [MemRef.value, h]

theorem MemRef.value_base : ({ basereg := base } : MemRef).value regs = regs base := by
  simp [MemRef.value]

/-- A register and a displacement. -/
theorem parseMemoryOpnd_disp {disp : Nat} (hbase : base ∈ nasmRdReg32) :
    parseMemoryOpnd tables ('[' :: (base.name.toList ++ dispText disp rest)) =
      some ({ basereg := base, offset := 0 + .ofNat 64 disp }, rest) := by
  have hreg : ∀ t ∈ [(⟨.reg base, 1⟩ : Term)], ∃ r, t.type = .reg r :=
    fun t ht => ⟨base, by rw [List.mem_singleton.1 ht]⟩
  have hscan : scan tables (base.name.toList ++ dispText disp rest) =
      ⟨.keyword (.reg base), dispText disp rest⟩ :=
    scan_reg hbase (by simp [dispText, nasmIsidchar, nasmIsidstart, isalpha])
  refine parseMemoryOpnd_of_expr4 hscan ?_ (plain_append hreg)
    (parseMref_scalarvect (parseMref_reg hbase))
  exact (expr4_reg rfl).trans (expr4Loop_disp hreg)

/-- Two registers and a displacement, where the second is read with its factor. -/
theorem parseMemoryOpnd_index {disp : Nat} {x : BitVec 64} (hbase : base ∈ nasmRdReg32)
    (hindex : index ∈ nasmRdReg32) (hne : base ≠ index)
    (hread : ∀ n, expr5 tables (n + 2) (scan tables t) =
      some ([⟨.reg index, x⟩], scan tables (dispText disp rest))) :
    ∃ op, parseMemoryOpnd tables ('[' :: (base.name.toList ++ ' ' :: '+' :: ' ' :: t)) =
        some (op, rest) ∧ ∀ regs, op.value regs =
          regs base + regs index * (x.setWidth 32).toInt + (BitVec.ofNat 64 disp).toInt := by
  have hnum : tables.num base ≠ tables.num index := fun h =>
    hne (tables.num_ne base hbase index hindex h)
  obtain ⟨op, hop, hoffset, hvalue⟩ := @parseMref_regs tables _ _ hbase hindex x
  have hscan : scan tables (base.name.toList ++ ' ' :: '+' :: ' ' :: t) =
      ⟨.keyword (.reg base), ' ' :: '+' :: ' ' :: t⟩ :=
    scan_reg hbase (by simp [nasmIsidchar, nasmIsidstart, isalpha])
  refine ⟨{ op with offset := op.offset + .ofNat 64 disp }, ?_, fun regs => ?_⟩
  · refine parseMemoryOpnd_of_expr4 hscan ?_ (plain_append regTerms_reg) (parseMref_scalarvect hop)
    exact (expr4_reg rfl).trans (expr4Loop_index hnum (hread _))
  · rw [MemRef.value_add hoffset, hvalue]

end

/-- An operand without a label is read back as parts that add up to what is
printed, in either order of the registers. -/
theorem parseMemoryOpnd_text (tables : RegTables) {m : ModRM} (h : m.LabelFree) (rest : Text) :
    ∃ op, parseMemoryOpnd tables (m.text.toList ++ rest) = some (op, rest) ∧
      ∀ regs, op.value regs = m.printed regs := by
  cases m with
  | d | isd => exact h.elim
  | b base data =>
    have htext : (ModRM.b base data).text.toList ++ rest =
        '[' :: (base.name.toList ++ ']' :: rest) := by
      simp [ModRM.text, ModRM.inner]
    have hscan : scan tables (base.name.toList ++ ']' :: rest) = ⟨.keyword (.reg base), ']' :: rest⟩ :=
      scan_reg h (by simp [nasmIsidchar, nasmIsidstart, isalpha])
    rw [htext]
    refine ⟨{ basereg := base }, ?_, fun regs => MemRef.value_base⟩
    refine parseMemoryOpnd_of_expr4 hscan (v := [⟨.reg base, 1⟩]) ?_ ?_ (parseMref_reg h)
    · exact expr4_reg (n := (rest.filter (!nasmIsspace ·)).length + 2) rfl
    · exact fun t ht => .inr ⟨base, by rw [List.mem_singleton.1 ht]⟩
  | bd base data disp =>
    obtain ⟨hbase, hdisp⟩ := h
    have htext : (ModRM.bd base data disp).text.toList ++ rest =
        '[' :: (base.name.toList ++ dispText disp rest) := by
      simp [ModRM.text, ModRM.inner, hex, dispText]
    rw [htext]
    refine ⟨_, parseMemoryOpnd_disp hbase, fun regs => ?_⟩
    have hvalue (op : MemRef) (h : op.offset = 0) := @MemRef.value_add op regs (.ofNat 64 disp) h
    rw [hvalue { basereg := base } rfl, MemRef.value_base, toInt_disp hdisp]
    rfl
  | bid base index data value disp =>
    obtain ⟨hbase, hindex, hne, hdisp⟩ := h
    have htext : (ModRM.bid base index data value disp).text.toList ++ rest =
        '[' :: (base.name.toList ++ ' ' :: '+' :: ' ' ::
          (index.name.toList ++ dispText disp rest)) := by
      simp [ModRM.text, ModRM.inner, hex, dispText]
    have hscan : scan tables (index.name.toList ++ dispText disp rest) =
        ⟨.keyword (.reg index), dispText disp rest⟩ :=
      scan_reg hindex (by simp [dispText, nasmIsidchar, nasmIsidstart, isalpha])
    rw [htext]
    have hread : ∀ n, expr5 tables (n + 2) (scan tables (index.name.toList ++ dispText disp rest)) =
        some ([⟨.reg index, 1⟩], scan tables (dispText disp rest)) := by
      intro n
      rw [hscan]
      exact expr5_reg rfl
    obtain ⟨op, hop, hvalue⟩ := parseMemoryOpnd_index hbase hindex hne hread
    refine ⟨op, hop, fun regs => ?_⟩
    rw [hvalue, toInt_disp hdisp, ModRM.printed]
    exact congrArg (regs base + · + (disp : Int)) (mul_one _)
  | bisd base index scale data value disp =>
    obtain ⟨hbase, hindex, hne, hscale, hdisp⟩ := h
    have htext : (ModRM.bisd base index scale data value disp).text.toList ++ rest =
        '[' :: (base.name.toList ++ ' ' :: '+' :: ' ' ::
          (index.name.toList ++ '*' :: ((toString scale).toList ++ dispText disp rest))) := by
      simp [ModRM.text, ModRM.inner, hex, dispText]
    have hscan : scan tables
        (index.name.toList ++ '*' :: ((toString scale).toList ++ dispText disp rest)) =
          ⟨.keyword (.reg index), '*' :: ((toString scale).toList ++ dispText disp rest)⟩ :=
      scan_reg hindex (by simp [nasmIsidchar, nasmIsidstart, isalpha])
    have hnum : scan tables ((toString scale).toList ++ dispText disp rest) =
        ⟨.num (.ofNat 64 scale), dispText disp rest⟩ :=
      scan_scale hscale (by simp [dispText, nasmIsnumchar, isalpha])
    have htoInt : ((BitVec.ofNat 64 scale).setWidth 32).toInt = scale := by
      simp only [List.mem_cons, List.not_mem_nil, or_false] at hscale
      obtain rfl | rfl | rfl := hscale <;> rfl
    rw [htext]
    have hread : ∀ n, expr5 tables (n + 2) (scan tables
        (index.name.toList ++ '*' :: ((toString scale).toList ++ dispText disp rest))) =
        some ([⟨.reg index, .ofNat 64 scale⟩], scan tables (dispText disp rest)) := by
      intro n
      rw [hscan]
      exact expr5_scaled (scan_char (by decide)) hnum rfl
    obtain ⟨op, hop, hvalue⟩ := parseMemoryOpnd_index hbase hindex hne hread
    refine ⟨op, hop, fun regs => ?_⟩
    rw [hvalue, toInt_disp hdisp, htoInt, ModRM.printed]

/-- The tables cut down to the eight registers. -/
def rd32Tables : RegTables where
  hash t := ((nasmRdReg32.find? (·.name.toList = t)).elim .id .reg, false)
  num r := nasmRdReg32.idxOf r + 1
  regEnd := 9
  hash_name := by decide
  num_ne := by decide
  num_le _ := Nat.succ_le_succ List.idxOf_le_length

theorem parseMemoryOpnd_text_behind :
    rd32Tables.num .eax < rd32Tables.num .ebx ∧ ∃ op,
      parseMemoryOpnd rd32Tables ((ModRM.bisd .ebx .eax 4 0 1 16).text.toList ++ [' ']) =
          some (op, [' ']) ∧
        ∀ regs, op.value regs = (ModRM.bisd .ebx .eax 4 0 1 16).printed regs :=
  have h : (ModRM.bisd .ebx .eax 4 0 1 16).LabelFree :=
    ⟨by decide, by decide, by decide, by decide, by decide⟩
  ⟨by decide, parseMemoryOpnd_text rd32Tables h [' ']⟩

end Btrtg
