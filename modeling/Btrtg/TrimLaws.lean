import Mathlib.Data.List.DropRight
import Btrtg.NasmString
import Btrtg.ParseTmplt

/-!
# Trimming in place

`nasm_trim` overwrites the blanks before a text and the blanks at the end of its
first line. A line end is no blank and ends the line as a NUL does, so a text
whose line has no blanks at its end keeps what stands behind it.
-/

namespace Btrtg.CMem

section
variable {mem pre post : CMem} {x t u : Text} {fuel : Nat}

/-- A character that the zapping loops overwrite. -/
theorem zaps {c : Char} (h : nasmIsspace c = true) : (c ≠ nul && nasmIsspace c) = true := by
  have hnul : c ≠ nul := by
    rintro rfl
    cases h
  simp [hnul, h]

/-- The text at a place of a memory. -/
theorem getElem?_at (c : Char) : (pre ++ c :: post)[pre.length]? = some c := by
  simp

theorem set_at (c d : Char) : (pre ++ c :: post).set pre.length d = pre ++ d :: post := by
  simp

/-- The first loop overwrites the blanks. -/
theorem zapFwdFrom_blanks (hx : ∀ c ∈ x, nasmIsspace c = true) :
    zapFwdFrom (pre ++ (x ++ t)) (x.length + fuel) pre.length =
      zapFwdFrom (pre ++ (List.replicate x.length nul ++ t)) fuel (pre.length + x.length) := by
  induction x generalizing pre with
  | nil => simp
  | cons c x ih =>
    have hc := zaps (hx c (List.mem_cons_self ..))
    have hrest := @ih (pre ++ [nul]) fun d hd => hx d (List.mem_cons_of_mem _ hd)
    rw [show (c :: x).length + fuel = x.length + fuel + 1 by simp; omega, zapFwdFrom,
      List.cons_append, getElem?_at]
    simp only [hc, if_true, set_at]
    simpa [List.replicate_succ, Nat.add_assoc, Nat.add_comm 1] using hrest

/-- The last loop overwrites the blanks before it. -/
theorem nasmZapSpacesRev_blanks (hx : ∀ c ∈ x, nasmIsspace c = true) :
    nasmZapSpacesRev (pre ++ (x ++ t)) (pre.length + x.length) =
      nasmZapSpacesRev (pre ++ (List.replicate x.length nul ++ t)) pre.length := by
  induction x using List.reverseRecOn generalizing t with
  | nil => simp
  | append_singleton x c ih =>
    have hc := zaps (hx c (by simp))
    have hrest := ih (t := nul :: t) fun d hd => hx d (by simp [hd])
    rw [show pre.length + (x ++ [c]).length = (pre ++ x).length + 1 by simp; omega,
      nasmZapSpacesRev, show pre ++ (x ++ [c] ++ t) = (pre ++ x) ++ c :: t by simp,
      getElem?_at]
    simp only [hc, if_true, set_at]
    rw [List.length_append, List.append_assoc]
    simpa [List.replicate_succ'] using hrest

/-- Both loops stop at a character that is no blank. -/
theorem zapFwdFrom_stops {c : Char} (hc : nasmIsspace c = false) :
    zapFwdFrom (pre ++ c :: post) (fuel + 1) pre.length = some (pre ++ c :: post, pre.length) := by
  rw [zapFwdFrom, getElem?_at]
  simp [hc]

theorem nasmZapSpacesRev_stops {c : Char} (hlast : pre.getLast? = some c)
    (hc : (c ≠ nul && nasmIsspace c) = false) :
    nasmZapSpacesRev (pre ++ t) pre.length = some (pre ++ t, pre.length) := by
  obtain ⟨before, rfl⟩ := List.getLast?_eq_some_iff.1 hlast
  rw [List.length_append, List.length_singleton, nasmZapSpacesRev, List.append_assoc,
    List.singleton_append, getElem?_at]
  simp only [hc, if_false, Bool.false_eq_true]

theorem nasmSkipString_at {line : Text} {d : Char} (hline : ∀ c ∈ line, c ≠ nul ∧ c ≠ '\n')
    (hd : d = nul ∨ d = '\n') :
    nasmSkipString (pre ++ (line ++ d :: post)) pre.length = some (pre.length + line.length) := by
  have htake : ((pre ++ (line ++ d :: post)).drop pre.length).takeWhile
      (fun c => c ≠ nul && c ≠ '\n') = line := by
    rw [List.drop_left, List.takeWhile_append_of_pos fun c hc => by simpa using hline c hc]
    rcases hd with rfl | rfl <;> simp
  rw [nasmSkipString, htake]
  exact if_pos (by simp)

-- ---------------------------------------------------------------------------
-- The parts of a text
-- ---------------------------------------------------------------------------

/-- A text by its leading blanks, its line without the blanks at the end, these blanks,
and what begins with the line end. -/
structure TrimParts (x lead cut trail rest : Text) : Prop where
  eq : x = lead ++ (cut ++ (trail ++ rest))
  leadBlank : ∀ c ∈ lead, nasmIsspace c = true
  trailBlank : ∀ c ∈ trail, nasmIsspace c = true
  head : ∀ c ∈ (cut ++ (trail ++ rest)).head?, nasmIsspace c = false
  last : ∀ c ∈ cut.getLast?, nasmIsspace c = false
  noLineEnd : ∀ c ∈ cut ++ trail, c ≠ '\n'
  lineEnd : ∀ c ∈ rest.head?, c = '\n'

def TrimParts.left (cut trail rest : Text) : Text := if trail = [] then cut ++ rest else cut

theorem exists_trimParts (x : Text) : ∃ lead cut trail rest, TrimParts x lead cut trail rest ∧
    Btrtg.nasmTrim x = TrimParts.left cut trail rest := by
  let t := x.dropWhile nasmIsspace
  let line := t.takeWhile (· ≠ '\n')
  have hline : line.rdropWhile nasmIsspace ++ line.rtakeWhile nasmIsspace = line :=
    List.rdropWhile_append_rtakeWhile
  have ht : line.rdropWhile nasmIsspace ++
      (line.rtakeWhile nasmIsspace ++ t.dropWhile (· ≠ '\n')) = t := by
    rw [← List.append_assoc, hline]
    exact List.takeWhile_append_dropWhile
  refine ⟨x.takeWhile nasmIsspace, line.rdropWhile nasmIsspace, line.rtakeWhile nasmIsspace,
    t.dropWhile (· ≠ '\n'), ⟨?_, ?_, ?_, ?_, ?_, ?_, ?_⟩, ?_⟩
  · rw [ht]
    exact List.takeWhile_append_dropWhile.symm
  · exact fun c hc => List.mem_takeWhile_imp hc
  · exact fun c hc => List.mem_rtakeWhile_imp hc
  · rw [ht]
    intro c hc
    have h := List.head?_dropWhile_not nasmIsspace x
    rw [Option.mem_def.1 hc] at h
    exact h
  · intro c hc
    obtain ⟨hne, rfl⟩ := List.mem_getLast?_eq_getLast hc
    exact Bool.eq_false_of_not_eq_true (List.rdropWhile_last_not _ _ hne)
  · rw [hline]
    intro c hc
    exact of_decide_eq_true (List.mem_takeWhile_imp (p := fun c => decide (c ≠ '\n')) hc)
  · intro c hc
    have h := List.head?_dropWhile_not (fun c => decide (c ≠ '\n')) t
    rw [Option.mem_def.1 hc] at h
    simpa using h
  · have hlength := congrArg List.length hline
    rw [List.length_append] at hlength
    have hcut : ((line.reverse.dropWhile nasmIsspace).reverse.length < line.length) ↔
        line.rtakeWhile nasmIsspace ≠ [] := by
      rw [← List.length_pos_iff]
      change (line.rdropWhile nasmIsspace).length < _ ↔ _
      omega
    change (if _ < _ then line.rdropWhile nasmIsspace else t) = _
    by_cases htrail : line.rtakeWhile nasmIsspace = []
    · rw [if_neg (hcut.not.2 (not_not.2 htrail)), TrimParts.left, if_pos htrail]
      rw [htrail, List.nil_append] at ht
      exact ht.symm
    · rw [if_pos (hcut.2 htrail), TrimParts.left, if_neg htrail]

def TrimParts.zapped (lead cut trail rest : Text) : Text :=
  List.replicate lead.length nul ++ (cut ++ (List.replicate trail.length nul ++ rest))

variable {lead cut trail rest : Text}

/-- The first character that is read again after the leading blanks. -/
theorem TrimParts.exists_head (h : TrimParts x lead cut trail rest) (post : CMem) :
    ∃ c tail, cut ++ (trail ++ (rest ++ nul :: post)) = c :: tail ∧ nasmIsspace c = false := by
  have hhead := h.head
  rw [show cut ++ (trail ++ (rest ++ nul :: post)) =
    cut ++ (trail ++ rest) ++ nul :: post by simp]
  cases hbody : cut ++ (trail ++ rest) with
  | nil => exact ⟨nul, post, rfl, rfl⟩
  | cons c body => exact ⟨c, body ++ nul :: post, rfl, hhead c (by rw [hbody]; rfl)⟩

/-- The end of the line. -/
theorem TrimParts.exists_end (h : TrimParts x lead cut trail rest) (post : CMem) :
    ∃ d tail, rest ++ nul :: post = d :: tail ∧ (d = nul ∨ d = '\n') := by
  have hend := h.lineEnd
  cases hrest : rest with
  | nil => exact ⟨nul, post, rfl, .inl rfl⟩
  | cons d rest' => exact ⟨d, rest' ++ nul :: post, rfl, .inr (hend d (by rw [hrest]; rfl))⟩

/-- A text whose parts are known is trimmed, if the last loop finds a character to stop at. -/
theorem TrimParts.run (h : TrimParts x lead cut trail rest) (hnul : nul ∉ x) {c : Char}
    (hlast : (pre ++ (List.replicate lead.length nul ++ cut)).getLast? = some c)
    (hc : (c ≠ nul && nasmIsspace c) = false) :
    nasmTrim (pre ++ (x ++ nul :: post)) pre.length =
      some (pre ++ (zapped lead cut trail rest ++ nul :: post), pre.length + lead.length) := by
  have heq := h.eq
  subst heq
  have hpre : pre.length + lead.length = (pre ++ List.replicate lead.length nul).length := by simp
  have hfwd : nasmZapSpacesFwd (pre ++ (lead ++ (cut ++ (trail ++ rest)) ++ nul :: post))
      pre.length = some (pre ++ List.replicate lead.length nul ++
        (cut ++ (trail ++ (rest ++ nul :: post))), pre.length + lead.length) := by
    obtain ⟨d, tail, hbody, hd⟩ := h.exists_head post
    have hfuel : (pre ++ (lead ++ (cut ++ (trail ++ rest)) ++ nul :: post)).length + 1 - pre.length =
        lead.length + ((cut ++ (trail ++ rest) ++ nul :: post).length + 1) := by
      simp only [List.length_append]
      omega
    rw [nasmZapSpacesFwd, hfuel]
    simp only [List.append_assoc]
    rw [zapFwdFrom_blanks h.leadBlank, hbody, hpre, ← List.append_assoc, zapFwdFrom_stops hd]
  have hskip : nasmSkipString (pre ++ List.replicate lead.length nul ++
      (cut ++ (trail ++ (rest ++ nul :: post)))) (pre.length + lead.length) =
      some (pre.length + lead.length + (cut ++ trail).length) := by
    obtain ⟨d, tail, hend, hd⟩ := h.exists_end post
    rw [hend, ← List.append_assoc cut, hpre]
    refine nasmSkipString_at (fun c hc => ⟨?_, h.noLineEnd c hc⟩) hd
    rintro rfl
    refine hnul ?_
    simp only [List.mem_append] at hc ⊢
    tauto
  have hrev : nasmZapSpacesRev (pre ++ List.replicate lead.length nul ++
      (cut ++ (trail ++ (rest ++ nul :: post)))) (pre.length + lead.length + (cut ++ trail).length) =
      some (pre ++ (zapped lead cut trail rest ++ nul :: post),
        (pre ++ (List.replicate lead.length nul ++ cut)).length) := by
    have hplace : pre.length + lead.length + (cut ++ trail).length =
        (pre ++ (List.replicate lead.length nul ++ cut)).length + trail.length := by
      simp only [List.length_append, List.length_replicate]
      omega
    rw [hplace, ← List.append_assoc, List.append_assoc pre, nasmZapSpacesRev_blanks h.trailBlank,
      nasmZapSpacesRev_stops hlast hc]
    simp [zapped]
  rw [nasmTrim, hfwd]
  simp only [Option.bind_eq_bind, Option.bind_some, hskip, hrev]
  rfl

-- ---------------------------------------------------------------------------
-- The text that is left
-- ---------------------------------------------------------------------------

/-- What is left is a text by the same parts, which has no blanks to overwrite. -/
theorem TrimParts.again (h : TrimParts x lead cut trail rest) :
    ∃ rest', TrimParts (left cut trail rest) [] cut [] rest' ∧
      left cut trail rest = cut ++ rest' ∧
      ∀ post, ∃ post', cut ++ (List.replicate trail.length nul ++ (rest ++ nul :: post)) =
        left cut trail rest ++ nul :: post' := by
  have hcut : ∀ c ∈ cut, c ≠ '\n' := fun c hc => h.noLineEnd c (List.mem_append_left _ hc)
  unfold left
  split
  case isTrue htrail =>
    subst htrail
    exact ⟨rest, ⟨rfl, by simp, by simp, h.head, h.last, by simpa using hcut, h.lineEnd⟩, rfl,
      fun post => ⟨post, by simp⟩⟩
  case isFalse htrail =>
    obtain ⟨c, trail', rfl⟩ := List.exists_cons_of_ne_nil htrail
    refine ⟨[], ⟨by simp, by simp, by simp, ?_, h.last, by simpa using hcut, by simp⟩, by simp,
      fun post => ⟨List.replicate trail'.length nul ++ (rest ++ nul :: post),
        by simp [List.replicate_succ]⟩⟩
    intro d hd
    refine h.head d ?_
    cases hc : cut with
    | nil => simp [hc] at hd
    | cons e cut' => simpa [hc] using hd

theorem TrimParts.mem_of_left (h : TrimParts x lead cut trail rest) {c : Char}
    (hc : c ∈ left cut trail rest) : c ∈ x := by
  rw [h.eq]
  unfold left at hc
  split at hc <;> simp only [List.mem_append] at hc ⊢ <;> tauto

/-- A text stands in a memory that has it. -/
theorem strAt_append (hnul : nul ∉ t) : StrAt (pre ++ (t ++ nul :: post)) pre.length t := by
  refine ⟨hnul, fun i hi => ?_, ?_⟩
  · rw [List.getElem?_append_right (Nat.le_add_right _ _), Nat.add_sub_cancel_left,
      List.getElem?_append_left hi]
  · rw [← List.length_append, ← List.append_assoc]
    exact getElem?_at nul

/-- The last loop stops in a text that is not empty and does not begin with a line end. -/
theorem TrimParts.exists_stop (h : TrimParts x lead cut trail rest) (hne : x ≠ [])
    (hhead : x.head? ≠ some '\n') :
    ∃ c, (∀ pre : CMem, (pre ++ (List.replicate lead.length nul ++ cut)).getLast? = some c) ∧
      (c ≠ nul && nasmIsspace c) = false := by
  cases hcut : cut.getLast? with
  | some c =>
    refine ⟨c, fun pre => ?_, by simp [h.last c hcut]⟩
    rw [← List.append_assoc, List.getLast?_append, hcut]
    rfl
  | none =>
    obtain rfl := List.getLast?_eq_none_iff.1 hcut
    cases lead with
    | cons b lead =>
      exact ⟨nul, fun pre => by simp [List.getLast?_append, List.replicate_succ'], rfl⟩
    | nil =>
      exfalso
      have heq := h.eq
      simp only [List.nil_append] at heq
      cases trail with
      | cons c trail =>
        have hblank := h.trailBlank c (List.mem_cons_self ..)
        have hnot := h.head c rfl
        rw [hblank] at hnot
        cases hnot
      | nil =>
        cases rest with
        | nil => exact hne heq
        | cons d rest => exact hhead (by rw [heq, h.lineEnd d rfl]; rfl)

/-- A text without a line end loses the blanks at both ends. -/
theorem nasmTrim_line (hline : '\n' ∉ x) :
    Btrtg.nasmTrim x = (x.dropWhile nasmIsspace).rdropWhile nasmIsspace := by
  have htake : (x.dropWhile nasmIsspace).takeWhile (· ≠ '\n') = x.dropWhile nasmIsspace := by
    refine List.takeWhile_eq_self_iff.2 fun c hc => decide_eq_true ?_
    rintro rfl
    exact hline ((List.dropWhile_sublist _).mem hc)
  rw [Btrtg.nasmTrim, htake]
  change (if ((x.dropWhile nasmIsspace).rdropWhile nasmIsspace).length < _ then _ else _) = _
  split
  case isTrue => rfl
  case isFalse hle =>
    exact ((List.rdropWhile_prefix _ _).eq_of_length_le (Nat.not_lt.1 hle)).symm

/-- `nasm_trim` in any memory: only the text changes, what it points to is what is left
of the text, and a second run changes nothing. -/
theorem nasmTrim_trims (hnul : nul ∉ x) (hne : x ≠ []) (hhead : x.head? ≠ some '\n') :
    (∃ (y : Text) (off : Nat), y.length = x.length ∧ off ≤ x.length ∧ ∀ pre post : CMem,
      nasmTrim (pre ++ (x ++ nul :: post)) pre.length =
        some (pre ++ (y ++ nul :: post), pre.length + off) ∧
      StrAt (pre ++ (y ++ nul :: post)) (pre.length + off) (Btrtg.nasmTrim x) ∧
      nasmTrim (pre ++ (y ++ nul :: post)) (pre.length + off) =
        some (pre ++ (y ++ nul :: post), pre.length + off)) ∧
      ('\n' ∉ x → Btrtg.nasmTrim x = (x.dropWhile nasmIsspace).rdropWhile nasmIsspace) := by
  obtain ⟨lead, cut, trail, rest, hparts, hleft⟩ := exists_trimParts x
  obtain ⟨c, hlast, hc⟩ := hparts.exists_stop hne hhead
  obtain ⟨rest', hagain, hshape, hbehind⟩ := hparts.again
  have hnul' : nul ∉ TrimParts.left cut trail rest := fun h => hnul (hparts.mem_of_left h)
  refine ⟨⟨TrimParts.zapped lead cut trail rest, lead.length, ?_, ?_, fun pre post => ?_⟩,
    nasmTrim_line⟩
  · rw [hparts.eq]
    simp [TrimParts.zapped]
  · rw [hparts.eq]
    simp
  · obtain ⟨post', hpost⟩ := hbehind post
    have hmem : pre ++ (TrimParts.zapped lead cut trail rest ++ nul :: post) =
        (pre ++ List.replicate lead.length nul) ++
          (TrimParts.left cut trail rest ++ nul :: post') := by
      rw [← hpost]
      simp [TrimParts.zapped]
    have hplace : pre.length + lead.length = (pre ++ List.replicate lead.length nul).length := by
      simp
    refine ⟨hparts.run hnul (hlast pre) hc, ?_, ?_⟩
    · rw [hmem, hplace, hleft]
      exact strAt_append hnul'
    · rw [hmem, hplace]
      have hlast' : (pre ++ List.replicate lead.length nul ++ (List.replicate 0 nul ++ cut)).getLast? =
          some c := by simpa using hlast pre
      rw [hagain.run hnul' hlast' hc]
      simp [TrimParts.zapped, hshape]

theorem nasmTrim_trims_mov :
    (∃ (y : Text) (off : Nat), y.length = 6 ∧ off ≤ 6 ∧ ∀ pre post : CMem,
      nasmTrim (pre ++ ("  mov ".toList ++ nul :: post)) pre.length =
        some (pre ++ (y ++ nul :: post), pre.length + off) ∧
      StrAt (pre ++ (y ++ nul :: post)) (pre.length + off) (Btrtg.nasmTrim "  mov ".toList) ∧
      nasmTrim (pre ++ (y ++ nul :: post)) (pre.length + off) =
        some (pre ++ (y ++ nul :: post), pre.length + off)) ∧
      ('\n' ∉ "  mov ".toList → Btrtg.nasmTrim "  mov ".toList =
        ("  mov ".toList.dropWhile nasmIsspace).rdropWhile nasmIsspace) :=
  nasmTrim_trims (x := "  mov ".toList) (by decide) (by decide) (by decide)

/-- A line end at the end of a text stays, and the blank before an empty text goes. -/
theorem nasmTrim_lineEnd :
    (∃ mem p, nasmTrim "mov\n\x00".toList 0 = some (mem, p) ∧
      ¬StrAt mem p (("mov\n".toList.dropWhile isspace).rdropWhile isspace)) ∧
    ∃ p, nasmTrim "a \x00".toList 2 = some ("a\x00\x00".toList, p) :=
  ⟨⟨"mov\n\x00".toList, 0, by decide, fun h => absurd h.ends (by decide)⟩, 2, by decide⟩

end

end Btrtg.CMem
