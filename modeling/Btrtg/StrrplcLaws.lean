import Btrtg.NasmString
import Btrtg.TokenBufLaws

/-!
# Substitution in place

The rest of a string moves over itself when a part of it is replaced. The copy
picks the direction that reads a character before it is overwritten, and the
order of the two copies keeps the rest away from the replacement.
-/

namespace Btrtg.CMem

section
variable {mem mem' : CMem} {dest src n k : Nat} {p s rest : List Char}

/-- The copy moves whatever the two places are. -/
theorem strlcpyn_ok (mem : CMem) (dst src n : Nat) (hsrc : src + n ≤ mem.length) (hdst : dst + n ≤ mem.length) :
    ∃ mem', strlcpyn mem dst src n = some mem' ∧ Moved mem mem' dst src n := by
  unfold strlcpyn
  split
  case isTrue hover => exact copyBackward_ok hsrc hdst (.inl (by omega))
  case isFalse hover => exact copyForward_ok hsrc hdst (by omega)

/-- The replacement and the rest stand behind one another, with what is below `dest` and
from `hi` on as it was. -/
structure Replaced (mem mem' : CMem) (dest : Nat) (s rest : List Char) (hi : Nat) : Prop where
  length : mem'.length = mem.length
  chars : ∀ i < s.length, mem'[dest + i]? = s[i]?
  rest : ∀ i < rest.length, mem'[dest + s.length + i]? = rest[i]?
  outside : ∀ j, (j < dest ∨ hi ≤ j) → mem'[j]? = mem[j]?

/-- A text that does not grow: the replacement is written before the rest is moved down. -/
theorem replaced_shrink (hs : StrAt mem src s) (hrest : StrAt mem (dest + k) rest)
    (hle : s.length ≤ k) :
    ∃ mem₁ mem₂, strlcpyn mem dest src s.length = some mem₁ ∧
      strlen mem₁ (dest + k) = some rest.length ∧
      strlcpyn mem₁ (dest + s.length) (dest + k) rest.length = some mem₂ ∧
      Replaced mem mem₂ dest s rest (dest + k + rest.length) := by
  have hslt := hs.lt
  have hrlt := hrest.lt
  obtain ⟨mem₁, hcopy₁, hmoved₁⟩ := strlcpyn_ok mem dest src s.length (by omega) (by omega)
  -- the replacement ends before the rest begins
  have hrest₁ : StrAt mem₁ (dest + k) rest :=
    hrest.congr fun j hj _ => hmoved₁.outside j (.inr (by omega))
  have hlen := hmoved₁.length
  obtain ⟨mem₂, hcopy₂, hmoved₂⟩ := strlcpyn_ok mem₁ (dest + s.length) (dest + k) rest.length
    (by omega) (by omega)
  refine ⟨mem₁, mem₂, hcopy₁, hrest₁.strlen, hcopy₂, hmoved₂.length.trans hlen, ?_, ?_, ?_⟩
  · intro i hi
    rw [hmoved₂.outside _ (.inl (by omega))]
    exact hmoved₁.getElem? hs rfl hi
  · intro i hi
    exact hmoved₂.getElem? hrest₁ rfl hi
  · intro j hj
    rw [hmoved₂.outside j (by omega), hmoved₁.outside j (by omega)]

/-- A text that grows: the rest is moved up before the replacement is written. -/
theorem replaced_grow (hs : StrAt mem src s) (hrest : StrAt mem (dest + k) rest)
    (hlt : k < s.length) (hroom : dest + s.length + rest.length < mem.length)
    (hdisj : src + s.length < dest ∨ dest + s.length + rest.length < src) :
    ∃ mem₁ mem₂, strlcpyn mem (dest + s.length) (dest + k) rest.length = some mem₁ ∧
      strlen mem₁ src = some s.length ∧
      strlcpyn mem₁ dest src s.length = some mem₂ ∧
      Replaced mem mem₂ dest s rest (dest + s.length + rest.length) := by
  have hslt := hs.lt
  have hrlt := hrest.lt
  obtain ⟨mem₁, hcopy₁, hmoved₁⟩ := strlcpyn_ok mem (dest + s.length) (dest + k) rest.length
    (by omega) (by omega)
  have hs₁ : StrAt mem₁ src s := hs.congr fun j _ _ => hmoved₁.outside j (by omega)
  have hlen := hmoved₁.length
  obtain ⟨mem₂, hcopy₂, hmoved₂⟩ := strlcpyn_ok mem₁ dest src s.length (by omega) (by omega)
  refine ⟨mem₁, mem₂, hcopy₁, hs₁.strlen, hcopy₂, hmoved₂.length.trans hlen, ?_, ?_, ?_⟩
  · intro i hi
    exact hmoved₂.getElem? hs₁ rfl hi
  · intro i hi
    rw [hmoved₂.outside _ (.inr (by omega))]
    exact hmoved₁.getElem? hrest rfl hi
  · intro j hj
    rw [hmoved₂.outside j (by omega), hmoved₁.outside j (by omega)]

/-- The two texts are a string once the NUL is written. -/
theorem Replaced.strAt {hi : Nat} (h : Replaced mem mem' dest s rest hi) (hs : nul ∉ s)
    (hrest : nul ∉ rest) (hroom : dest + s.length + rest.length < mem.length) :
    StrAt (mem'.set (dest + s.length + rest.length) nul) dest (s ++ rest) := by
  have hlen := h.length
  refine .append hs (fun i hi => ?_) (.put hrest h.rest (by omega))
  rw [List.getElem?_set_ne (by omega), h.chars i hi]

/-- `nasm_strrplc` of the first characters of a string by another. -/
theorem nasmStrrplc_replaces (hp : StrAt mem dest p) (hs : StrAt mem src s)
    (hk : k ≤ p.length) (hroom : dest + (s.length + (p.length - k)) < mem.length)
    (hdisj : src + s.length < dest ∨
      dest + max p.length (s.length + (p.length - k)) < src) :
    ∃ mem', nasmStrrplc mem dest k src s.length = some (mem', some dest) ∧
      StrAt mem' dest (s ++ p.drop k) ∧ mem'.length = mem.length ∧
      ∀ j, (j < dest ∨ dest + max p.length (s.length + (p.length - k)) < j) →
        mem'[j]? = mem[j]? := by
  have hrest : StrAt mem (dest + k) (p.drop k) := hp.drop hk
  have hlength : (p.drop k).length = p.length - k := List.length_drop
  generalize p.drop k = rest at hrest hlength ⊢
  have hmoved : ∃ mem₂ hi, hi ≤ dest + max p.length (s.length + (p.length - k)) ∧
      Replaced mem mem₂ dest s rest hi ∧
      nasmStrrplc mem dest k src s.length =
        (put mem₂ (dest + s.length + rest.length) nul).bind
          fun mem => some (mem, some dest) := by
    have hsigns : ¬((k : Int) < 0 ∨ (s.length : Int) < 0) := by omega
    have hend : dest + (rest.length + s.length) = dest + s.length + rest.length := by omega
    by_cases hle : s.length ≤ k
    · obtain ⟨mem₁, mem₂, hcopy₁, hlen₁, hcopy₂, hrepl⟩ :=
        replaced_shrink hs hrest hle
      refine ⟨mem₂, _, by omega, hrepl, ?_⟩
      have hcmp : (s.length : Int) ≤ k := Int.ofNat_le.2 hle
      simp only [nasmStrrplc, hsigns, if_false, hcmp, if_true, Int.toNat_natCast,
        hrest.strlen, hs.strlen, hcopy₁, hlen₁, hcopy₂, hend, Option.bind_eq_bind,
        Option.bind_some]
      rfl
    · obtain ⟨mem₁, mem₂, hcopy₁, hlen₁, hcopy₂, hrepl⟩ :=
        replaced_grow hs hrest (by omega) (by omega) (by omega)
      refine ⟨mem₂, _, by omega, hrepl, ?_⟩
      have hcmp : ¬(s.length : Int) ≤ k := fun h => hle (Int.ofNat_le.1 h)
      simp only [nasmStrrplc, hsigns, if_false, hcmp, Int.toNat_natCast,
        hrest.strlen, hs.strlen, hcopy₁, hlen₁, hcopy₂, hend, Option.bind_eq_bind,
        Option.bind_some]
      rfl
  obtain ⟨mem₂, hi, hhi, hrepl, hrun⟩ := hmoved
  have hlen := hrepl.length
  rw [hrun, put_ok (by omega)]
  refine ⟨_, rfl, hrepl.strAt hs.noNul hrest.noNul (by omega),
    List.length_set.trans hlen, fun j hj => ?_⟩
  rw [List.getElem?_set_ne (by omega), hrepl.outside j (by omega)]

/-- A text that grows by one character, moved over itself. -/
theorem nasmStrrplc_replaces_ebx :
    ∃ mem', nasmStrrplc "  @r, 1\x00\x00ebx\x00".toList 2 2 9 3 = some (mem', some 2) ∧
      StrAt mem' 2 "ebx, 1".toList ∧ mem'.length = 13 ∧
      ∀ j, (j < 2 ∨ 8 < j) → mem'[j]? = "  @r, 1\x00\x00ebx\x00".toList[j]? :=
  nasmStrrplc_replaces (p := "@r, 1".toList) (s := "ebx".toList) (k := 2) ⟨by decide, by decide, by decide⟩
    ⟨by decide, by decide, by decide⟩ (by decide) (by decide) (by decide)

/-- The size of a memory operand is put before it. -/
theorem preappendMemSize_ok {memsize : SizeWord → Nat} {size : OpFlags}
    (hp : StrAt mem dest p)
    (hs : StrAt mem (memsize (Btrtg.preappendMemSize size)) s)
    (hroom : dest + (s.length + p.length) < mem.length)
    (hdisj : memsize (Btrtg.preappendMemSize size) + s.length < dest ∨
      dest + (s.length + p.length) < memsize (Btrtg.preappendMemSize size)) :
    ∃ mem', preappendMemSize memsize mem dest size = some (mem', some dest) ∧
      StrAt mem' dest (s ++ p) := by
  obtain ⟨mem', hrun, hstr, -⟩ := nasmStrrplc_replaces hp hs (Nat.zero_le _)
    (by omega) (by omega)
  refine ⟨mem', ?_, hstr⟩
  rw [preappendMemSize, hs.strlen, Option.bind_eq_bind, Option.bind_some]
  exact hrun

/-- What `nasm_strrplc` does to `token_buf`. -/
theorem nasmStrrplc_tokenBuf {t t' : TGen} {base : Nat} (hbuf : StrAt mem base t.tokenBuf)
    (hfits : t.tokenBuf.length < TokenBuf.tokenBufSize)
    (hroom : base + TokenBuf.tokenBufSize ≤ mem.length)
    (hs : StrAt mem src s) (hn : dest + n ≤ t.tokenBuf.length)
    (hdisj : src + s.length < base ∨ base + TokenBuf.tokenBufSize ≤ src)
    (hrun : (TokenBuf.nasmStrrplc dest n s).run t = (.ok (), t')) :
    ∃ mem', nasmStrrplc mem (base + dest) n src s.length = some (mem', some (base + dest)) ∧
      StrAt mem' base t'.tokenBuf ∧
      ∀ j, (j < base ∨ base + TokenBuf.tokenBufSize ≤ j) → mem'[j]? = mem[j]? := by
  obtain ⟨_, _, hget, hset⟩ := Prog.bind_ok.1 hrun
  cases hget
  obtain ⟨hlt, rfl⟩ := TokenBuf.setTokenBuf_ok hset
  have htake : (t.tokenBuf.take dest).length = dest := List.length_take_of_le (by omega)
  have hdrop : (t.tokenBuf.drop dest).length = t.tokenBuf.length - dest := List.length_drop
  rw [List.append_assoc, List.length_append, List.length_append, List.length_drop,
    htake] at hlt
  obtain ⟨mem', hrepl, hstr, -, hout⟩ := nasmStrrplc_replaces (k := n)
    (hbuf.drop (by omega : dest ≤ t.tokenBuf.length)) hs (by omega) (by omega) (by omega)
  refine ⟨mem', hrepl, ?_, fun j hj => hout j (by omega)⟩
  rw [List.drop_drop] at hstr
  rw [List.append_assoc]
  refine .append (fun h => hbuf.noNul (List.mem_of_mem_take h)) (fun i hi => ?_) ?_
  · rw [htake] at hi
    rw [hout _ (.inl (by omega)), hbuf.chars i (by omega), List.getElem?_take_of_lt hi]
  · rw [htake]
    exact hstr

end

end Btrtg.CMem
