import Btrtg.CtrlLaws
import Btrtg.Modrm
import Mathlib.Tactic.IntervalCases

/-!
# Addresses within a data block

Where a random memory operand points: at most 128 bytes below the end of its
block in every addressing mode, and on a multiple of 128 for the instructions
that need it.
-/

namespace Btrtg

open Prog

-- ---------------------------------------------------------------------------
-- Addresses
-- ---------------------------------------------------------------------------

namespace ModRM

def data : ModRM → Nat
  | d data | b _ data | bd _ data _ | isd _ _ data _ | bid _ _ data _ _ | bisd _ _ _ data _ _ => data

def value : ModRM → Nat
  | d _ | b .. | bd .. => 0
  | isd _ _ _ value | bid _ _ _ value _ | bisd _ _ _ _ value _ => value

/-- The address that the text between the brackets stands for. -/
def address (regs : Reg → BitVec 32) (label : Nat → BitVec 32) : ModRM → BitVec 32
  | d data => label data
  | b base _ => regs base
  | bd base _ disp => regs base + .ofNat 32 disp
  | isd index scale data _ => regs index * .ofNat 32 scale + label data
  | bid base index _ _ disp => regs base + regs index + .ofNat 32 disp
  | bisd base index scale _ _ disp => regs base + regs index * .ofNat 32 scale + .ofNat 32 disp

/-- The registers as the set-up leaves them. -/
structure SetUp (regs : Reg → BitVec 32) (label : Nat → BitVec 32) (m : ModRM) : Prop where
  base : ∀ r, m.base? = some r → regs r = label m.data
  index : ∀ r, m.index? = some r → regs r = .ofNat 32 m.value

def offset : ModRM → Nat
  | d _ | b .. => 0
  | bd _ _ disp => disp
  | isd _ scale _ value => value * scale
  | bid _ _ _ value disp => value + disp
  | bisd _ _ scale _ value disp => value * scale + disp

theorem address_eq {regs : Reg → BitVec 32} {label : Nat → BitVec 32} {m : ModRM}
    (h : m.SetUp regs label) : m.address regs label = label m.data + .ofNat 32 m.offset := by
  obtain ⟨hbase, hindex⟩ := h
  cases m with
  | d data => exact (BitVec.add_zero _).symm
  | b base data => exact (hbase base rfl).trans (BitVec.add_zero _).symm
  | bd base data disp => rw [address, hbase base rfl, offset]
  | isd index scale data value =>
    rw [address, hindex index rfl, offset, BitVec.ofNat_mul, BitVec.add_comm]
    rfl
  | bid base index data value disp =>
    rw [address, hbase base rfl, hindex index rfl, offset, BitVec.ofNat_add, BitVec.add_assoc]
    rfl
  | bisd base index scale data value disp =>
    rw [address, hbase base rfl, hindex index rfl, offset, BitVec.ofNat_add, BitVec.ofNat_mul,
      BitVec.add_assoc]
    rfl

end ModRM

-- ---------------------------------------------------------------------------
-- Draws
-- ---------------------------------------------------------------------------

theorem dvd_align (r : Nat) : 128 ∣ r &&& xmmMemAlignMask := by
  refine Nat.dvd_of_mod_eq_zero ?_
  rw [show 128 = 2 ^ 7 from rfl, Nat.and_mod_two_pow]
  exact Nat.and_zero _

/-- A draw can only go on for ever. -/
def Ends (e : Fault) (_ : Gen) : Prop := e = .diverges

theorem nasmRandom32_triple {n : Nat} (hn : 0 < n) (g : Gen) :
    Triple (nasmRandom32 n) g (fun r g' => r < n ∧ Drawn g g') Ends :=
  .of_run (nasmRandom32_run (Nat.pos_iff_ne_zero.1 hn)) ⟨Nat.mod_lt _ hn, _, rfl⟩

theorem drawNonzero_triple {n : Nat} (hn : 0 < n) (patience : Nat) (g : Gen) :
    Triple (drawNonzero n patience) g (fun r g' => (0 < r ∧ r < n) ∧ Drawn g g') Ends := by
  induction patience generalizing g with
  | zero => rfl
  | succ patience ih =>
    refine .bind (nasmRandom32_triple hn g) fun r g₁ ⟨hr, hd⟩ => ?_
    split
    · exact (ih g₁).mono (fun r g₂ ⟨h, hd'⟩ => ⟨h, hd.trans hd'⟩) fun _ _ h => h
    · exact ⟨⟨Nat.pos_of_ne_zero ‹_›, hr⟩, hd⟩

theorem drawUnlocked_triple (patience : Nat) (g : Gen) :
    Triple (drawUnlocked addrRegs 6 patience) g (fun _ g' => Drawn g g') Ends := by
  induction patience generalizing g with
  | zero => rfl
  | succ patience ih =>
    refine .bind (nasmRandom32_triple (by decide) g) fun i g₁ ⟨hi, hd⟩ => ?_
    obtain ⟨reg, hreg⟩ : ∃ reg, addrRegs[i]? = some reg := ⟨_, List.getElem?_eq_getElem hi⟩
    rw [hreg]
    refine .bind_run rfl ?_
    split
    · exact (ih g₁).mono (fun _ g₂ hd' => hd.trans hd') fun _ _ h => h
    · exact hd

-- ---------------------------------------------------------------------------
-- The range
-- ---------------------------------------------------------------------------

/-- An address in a block of a size, where the displacement is only printed in
the modes without a label. -/
structure InBlock (aligned : Bool) (mode : SibMode) (a : RandomMemAddr) (size : Nat) : Prop where
  scale : 0 < a.scale
  index : a.index * a.scale + 128 ≤ size
  disp : mode ≠ .isd → mode ≠ .d → a.index * a.scale + a.disp + 128 ≤ size
  index_aligned : aligned = true → 128 ∣ a.index
  disp_aligned : aligned = true → mode ≠ .isd → mode ≠ .d → 128 ∣ a.disp

theorem InBlock.of_sum {aligned : Bool} {mode : SibMode} {base scale index disp size : Nat}
    (hscale : 0 < scale) (hsum : index * scale + disp + 128 ≤ size)
    (haligned : aligned = true → 128 ∣ index ∧ 128 ∣ disp) :
    InBlock aligned mode ⟨base, scale, index, if mode = .isd ∨ mode = .d then base else disp⟩
      size where
  scale := hscale
  index := by dsimp only; omega
  disp hisd hd := by rwa [if_neg (not_or.2 ⟨hisd, hd⟩)]
  index_aligned ha := (haligned ha).1
  disp_aligned ha hisd hd := by rw [if_neg (not_or.2 ⟨hisd, hd⟩)]; exact (haligned ha).2

theorem randomMemAddrFromData_triple {g : Gen} (hlen : g.datasizes.length = sectionDataNum)
    (hsize : ∀ size ∈ g.datasizes, 128 + 8 ≤ size) (mode : SibMode) :
    Triple (randomMemAddrFromData mode) g (fun a g' => Drawn g g' ∧
      ∃ size, g.datasizes[a.base]? = some size ∧
        InBlock (g.opcode.isSse || g.opcode.isSse2) mode a size) Ends := by
  refine .bind (nasmRandom32_triple (by decide) g) fun base g₁ ⟨hbase, hd₁⟩ => ?_
  refine .bind (nasmRandom32_triple (by decide) g₁) fun s g₂ ⟨hs, hd₂⟩ => ?_
  refine .bind_run rfl ?_
  obtain ⟨n, rfl⟩ := hd₁.trans hd₂
  have hget : g.datasizes[base]? = some g.datasizes[base] := List.getElem?_eq_getElem (hlen ▸ hbase)
  have h8 := hsize _ (List.getElem_mem (hlen ▸ hbase))
  simp only [hget]
  generalize g.datasizes[base] = size at h8 hget
  have hscale : 0 < 1 <<< (s + 1) ∧ 1 <<< (s + 1) ≤ 8 := by
    interval_cases s <;> decide
  generalize 1 <<< (s + 1) = scale at hscale
  split
  · case isTrue hsse =>
    refine .bind (drawNonzero_triple (by omega) _ _) fun dataSize g₃ ⟨⟨h0, hlt⟩, hd₃⟩ => ?_
    refine .bind (nasmRandom32_triple h0 g₃) fun r g₄ ⟨hr, hd₄⟩ => ?_
    refine .bind_run rfl ⟨Drawn.trans ⟨n, rfl⟩ (hd₃.trans hd₄), size, hget, ?_⟩
    refine .of_sum hscale.1 ?_ fun _ => ⟨dvd_align _, dvd_align _⟩
    have hdisp : r &&& xmmMemAlignMask ≤ r := Nat.and_le_left
    have hindex : ((dataSize - (r &&& xmmMemAlignMask)) / scale &&& xmmMemAlignMask) * scale ≤
        dataSize - (r &&& xmmMemAlignMask) :=
      (Nat.mul_le_mul_right scale Nat.and_le_left).trans (Nat.div_mul_le_self _ scale)
    dsimp only
    omega
  · case isFalse hsse =>
    have hpos : 0 < (size - 128) / scale := Nat.div_pos (by omega) hscale.1
    refine .bind (nasmRandom32_triple hpos _) fun index g₃ ⟨hlt, hd₃⟩ => ?_
    refine .bind_run rfl ⟨Drawn.trans ⟨n, rfl⟩ hd₃, size, hget, ?_⟩
    refine .of_sum hscale.1 ?_ fun h => absurd h hsse
    have hindex : index * scale ≤ size - 128 :=
      (Nat.mul_le_mul_right scale hlt.le).trans (Nat.div_mul_le_self _ scale)
    rw [Nat.mul_comm scale]
    dsimp only
    omega

-- ---------------------------------------------------------------------------
-- The operand
-- ---------------------------------------------------------------------------

theorem InBlock.modrmOf {aligned : Bool} {mode : SibMode} {a : RandomMemAddr} {size : Nat}
    (h : InBlock aligned mode a size) (base index : Reg) :
    (Btrtg.modrmOf mode a base index).data = a.base ∧
      (Btrtg.modrmOf mode a base index).offset + 128 ≤ size ∧
      (aligned = true → 128 ∣ (Btrtg.modrmOf mode a base index).offset) := by
  have hfit := h.index
  have hmul : aligned = true → 128 ∣ a.index * a.scale := fun ha =>
    Dvd.dvd.mul_right (h.index_aligned ha) a.scale
  cases mode with
  | d => exact ⟨rfl, by rw [Btrtg.modrmOf, ModRM.offset]; omega, fun _ => Nat.dvd_zero 128⟩
  | b => exact ⟨rfl, by rw [Btrtg.modrmOf, ModRM.offset]; omega, fun _ => Nat.dvd_zero 128⟩
  | isd => exact ⟨rfl, hfit, hmul⟩
  | bd =>
    have hdisp := h.disp (by decide) (by decide)
    exact ⟨rfl, by rw [Btrtg.modrmOf, ModRM.offset]; omega, fun ha => h.disp_aligned ha (by decide) (by decide)⟩
  | bid =>
    have hdisp := h.disp (by decide) (by decide)
    have hindex := Nat.le_mul_of_pos_right a.index h.scale
    exact ⟨rfl, by rw [Btrtg.modrmOf, ModRM.offset]; omega, fun ha =>
      Nat.dvd_add (h.index_aligned ha) (h.disp_aligned ha (by decide) (by decide))⟩
  | bisd =>
    exact ⟨rfl, h.disp (by decide) (by decide), fun ha =>
      Nat.dvd_add (hmul ha) (h.disp_aligned ha (by decide) (by decide))⟩

theorem drawBase_triple (mode : SibMode) (data patience : Nat) (g : Gen) :
    Triple (drawBase mode data patience) g (fun _ _ => True) Ends := by
  unfold drawBase
  split
  · exact .bind (drawUnlocked_triple patience g) fun _ _ _ => .bind_run rfl (.bind_run rfl trivial)
  · trivial

theorem drawIndex_triple (mode : SibMode) (value patience : Nat) (g : Gen) :
    Triple (drawIndex mode value patience) g (fun _ _ => True) Ends := by
  unfold drawIndex
  split
  · exact .bind (drawUnlocked_triple patience g) fun _ _ _ => .bind_run rfl trivial
  · trivial

/-- With its registers set up, the operand is at an offset into its block that
128 bytes follow, for an SSE instruction at a multiple of 128. -/
def InData (g : X86PGState) (m : ModRM) : Prop :=
  ∃ size offset, g.datasizes[m.data]? = some size ∧ offset + 128 ≤ size ∧
    ((g.opcode.isSse || g.opcode.isSse2) = true → 128 ∣ offset) ∧
    ∀ regs label, m.SetUp regs label → m.address regs label = label m.data + .ofNat 32 offset

/-- Every operand that is made stays 128 bytes below the end of a block, in an
SSE instruction on a multiple of 128. -/
theorem createRandomModrm_inBlock {g : Gen} (hlen : g.datasizes.length = sectionDataNum)
    (hsize : ∀ size ∈ g.datasizes, 128 + 8 ≤ size) (flags : OpFlags) :
    Triple (createRandomModrm flags) g (fun m _ => InData g.toX86PGState m) Ends := by
  rw [createRandomModrm_eq]
  refine .bind_run rfl (.bind_run rfl ?_)
  refine .bind (P := fun _ g' => g'.toX86PGState = g.toX86PGState) ?_ fun mode g₁ h₁ => ?_
  · unfold drawMode
    split
    · rfl
    · refine .bind (nasmRandom32_triple (by decide) _) fun i g₁ ⟨_, n, h₁⟩ => ?_
      rw [h₁]
      rfl
  · have haddr := randomMemAddrFromData_triple (g := g₁) (by rwa [h₁]) (by rwa [h₁]) mode
    rw [h₁] at haddr
    refine .bind haddr fun addr g₂ ⟨hd₂, size, hget, hin⟩ => ?_
    refine .bind_run rfl (.bind (drawBase_triple ..) fun base g₃ _ => ?_)
    refine .bind (drawIndex_triple ..) fun index g₄ _ => .bind_run rfl ?_
    obtain ⟨hdata, hfit, haligned⟩ := hin.modrmOf base index
    have hmade : InData g.toX86PGState (modrmOf mode addr base index) :=
      ⟨size, _, hdata ▸ hget, hfit, haligned, fun regs label h => ModRM.address_eq h⟩
    split
    · exact .bind_run rfl hmade
    · exact hmade

theorem createRandomModrm_inBlock_plain : Triple (createRandomModrm OpFlags.memory) (.plain 129)
    (fun m _ => InData (Gen.plain 129).toX86PGState m) Ends :=
  createRandomModrm_inBlock rfl (by decide) OpFlags.memory

end Btrtg
