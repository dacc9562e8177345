import Btrtg.Target
import Btrtg.PackedLaws

/-!
# What the initialisers leave

Each text of an initialiser, executed: the register, the x87 register or the
memory operand it is for holds the constant, and what it does not name is as it
was.
-/

namespace Btrtg

open Bytes

-- ---------------------------------------------------------------------------
-- General registers
-- ---------------------------------------------------------------------------

namespace Part

variable {p q : Part} {x v : BitVec 32} {j : Nat}

theorem getLsbD_get : (p.get x).getLsbD j = (decide (j < 32) && decide (j < p.width) &&
    x.getLsbD (p.off + j)) := by
  simp [get, BitVec.getLsbD_extractLsb', Bool.and_assoc]

theorem getLsbD_set (hj : j < 32) : (p.set x v).getLsbD j =
    if p.off ≤ j ∧ j < p.off + p.width then v.getLsbD (j - p.off) else x.getLsbD j := by
  simp only [set, BitVec.getLsbD_or, BitVec.getLsbD_and, BitVec.getLsbD_not, BitVec.getLsbD_shiftLeft,
    BitVec.getLsbD_setWidth, BitVec.getLsbD_allOnes]
  by_cases h : p.off ≤ j ∧ j < p.off + p.width
  · simp [h, hj, show j - p.off < p.width by omega, show ¬ j < p.off by omega,
      show j - p.off < 32 by omega]
  · rcases not_and_or.1 h with h' | h'
    · simp [h, hj, show j < p.off by omega]
    · simp [h, hj, show ¬ j - p.off < p.width by omega]

/-- The part holds the value, cut to its width. -/
theorem get_set (hp : p.off + p.width ≤ 32) :
    p.get (p.set x v) = (v.setWidth p.width).setWidth 32 := by
  refine BitVec.eq_of_getLsbD_eq fun j hj => ?_
  rw [getLsbD_get, BitVec.getLsbD_setWidth, BitVec.getLsbD_setWidth]
  by_cases h : j < p.width
  · rw [getLsbD_set (by omega), if_pos (by omega)]
    simp [hj, h]
  · simp [h]

/-- The bits of another part are as they were. -/
theorem get_set_apart (h : p.Apart q) (hf : p.file = q.file) (hp : p.off + p.width ≤ 32) :
    p.get (q.set x v) = p.get x := by
  refine BitVec.eq_of_getLsbD_eq fun j hj => ?_
  rw [getLsbD_get, getLsbD_get]
  by_cases hw : j < p.width
  · rcases h with h | h
    · exact absurd hf h
    · rw [getLsbD_set (by omega), if_neg (by omega)]
  · simp [hw]

end Part

theorem Reg.part?_fits {r : Reg} {p : Part} (h : r.part? = some p) : p.off + p.width ≤ 32 := by
  cases r <;> cases h <;> decide

def Reg.Apart (r r' : Reg) : Prop :=
  match r.part?, r'.part? with
  | some p, some q => p.Apart q
  | none, none => r ≠ r'
  | _, _ => True

namespace Target

variable {t t' : Target} {r r' : Reg} {v : BitVec 32}

theorem reg_eq {p : Part} (h : r.part? = some p) : t.reg r = p.get (t.gpr p.file) := by
  rw [reg, h]

/-- A register that was written, and what else there is. -/
structure Wrote (t : Target) (r : Reg) (v : BitVec 32) (t' : Target) : Prop where
  reg : ∃ p, r.part? = some p ∧ t'.reg r = (v.setWidth p.width).setWidth 32
  apart : ∀ r', r'.part?.isSome → r'.Apart r → t'.reg r' = t.reg r'
  fpu : t'.fpu = t.fpu
  packed : t'.packed = t.packed
  mem : t'.mem = t.mem

theorem setReg_wrote (h : t.setReg r v = some t') : t.Wrote r v t' := by
  unfold setReg at h
  split at h
  · rename_i p hp
    cases h
    refine ⟨⟨p, hp, ?_⟩, fun r' hr' hapart => ?_, rfl, rfl, rfl⟩
    · simp only [reg_eq hp, Function.update_self, Part.get_set (Reg.part?_fits hp)]
    · obtain ⟨q, hq⟩ := Option.isSome_iff_exists.1 hr'
      rw [reg_eq hq, reg_eq hq]
      by_cases hf : q.file = p.file
      · simp only [Reg.Apart, hq, hp] at hapart
        simp only [hf, Function.update_self, Part.get_set_apart hapart hf (Reg.part?_fits hq)]
      · simp only [Function.update_of_ne hf]
  · cases h

end Target

-- ---------------------------------------------------------------------------
-- The x87 stack
-- ---------------------------------------------------------------------------

namespace Fpu

variable {f : Fpu} {i j : Fin 8} {x : BitVec 80}

@[simp] theorem st_put (f : Fpu) (i : Fin 8) (y : Option (BitVec 80)) : (f.put i y).st i = y :=
  Function.update_self ..

@[simp] theorem st_put_of_ne (h : j ≠ i) (y : Option (BitVec 80)) : (f.put i y).st j = f.st j :=
  Function.update_of_ne (fun he => h (add_left_cancel he)) _ _

/-- `st(i)` is emptied, written and brought to the top of the stack, popped, and the
number is pushed and put in its place. -/
def replace (f : Fpu) (i : Fin 8) (x : BitVec 80) : Fpu :=
  ((((f.free i).store i).pop).push x).exchange i

@[simp] theorem pop_push (f : Fpu) (x : BitVec 80) : f.pop.push x = f.put 0 (some x) := by
  simp [pop, push, free, put, st]

theorem st_replace (f : Fpu) (i : Fin 8) (x : BitVec 80) : (f.replace i x).st i = some x := by
  simp [replace, exchange, read]

/-- Only an empty top of the stack is not what it was. -/
theorem st_replace_of_ne (h : j ≠ i) (hj : j ≠ 0 ∨ f.st 0 ≠ none) :
    (f.replace i x).st j = f.st j := by
  rw [replace, pop_push, exchange, st_put_of_ne h]
  by_cases h0 : j = 0
  · subst h0
    obtain ⟨y, hy⟩ := Option.ne_none_iff_exists'.1 (hj.resolve_left (not_not_intro rfl))
    simp [read, free, store, h, Ne.symm h, hy]
  · simp [free, store, h, h0]

end Fpu

-- ---------------------------------------------------------------------------
-- What a text may change
-- ---------------------------------------------------------------------------

def Line.regs : Line → List Reg
  | .lea r _ | .movIndex r _ | .leaSpecific r _ => [r]
  | .push _ => [.esp]
  | _ => []

def Line.sparesFpu : Line → Bool
  | .ffree _ | .fst _ | .fstpSt0 | .fld .. | .fxch _ => false
  | _ => true

/-- Nothing is stored but in the 16 bytes of the scratch buffer. -/
def Line.inScratch : Line → Bool
  | .store _ p off _ => p = .floatData && off + 4 ≤ 16
  | .push _ => false
  | _ => true

/-- The `n` bytes at an address are not in the scratch buffer. -/
def Layout.OffScratch (L : Layout) (a : BitVec 32) (n : Nat) : Prop :=
  ∀ i < n, ∀ j < 16, a + .ofNat 32 i ≠ L.floatData + .ofNat 32 j

namespace Target

variable {L : Layout} {t t' t'' : Target}

/-- A run that writes no other register, and no memory off the scratch buffer where it
stores nothing else. -/
structure Kept (L : Layout) (rs : List Reg) (inScratch : Bool) (t t' : Target) : Prop where
  reg : ∀ r, r.part?.isSome → (∀ r' ∈ rs, r.Apart r') → t'.reg r = t.reg r
  st : ∀ i x, (∀ r' ∈ rs, Reg.Apart (.st i) r') → t.fpu.st i = some x → t'.fpu.st i = some x
  mem : inScratch → ∀ a n, L.OffScratch a n → load t'.mem a n = load t.mem a n

theorem Kept.refl (t : Target) : Kept L [] true t t :=
  ⟨fun _ _ _ => rfl, fun _ _ _ h => h, fun _ _ _ _ => rfl⟩

theorem Kept.trans {rs rs' : List Reg} {s s' : Bool} (h : Kept L rs s t t')
    (h' : Kept L rs' s' t' t'') : Kept L (rs ++ rs') (s && s') t t'' where
  reg r hr hrs := by
    rw [h'.reg r hr fun r' hr' => hrs r' (List.mem_append_right _ hr'),
      h.reg r hr fun r' hr' => hrs r' (List.mem_append_left _ hr')]
  st i x hrs hx := h'.st i x (fun r' hr' => hrs r' (List.mem_append_right _ hr'))
    (h.st i x (fun r' hr' => hrs r' (List.mem_append_left _ hr')) hx)
  mem hs a n ha := by
    rw [Bool.and_eq_true] at hs
    rw [h'.mem hs.2 a n ha, h.mem hs.1 a n ha]

theorem Kept.mono {rs rs' : List Reg} {s s' : Bool} (h : Kept L rs s t t') (hrs : rs ⊆ rs')
    (hs : s' → s) : Kept L rs' s' t t' where
  reg r hr h' := h.reg r hr fun r' hr' => h' r' (hrs hr')
  st i x h' := h.st i x fun r' hr' => h' r' (hrs hr')
  mem h' := h.mem (hs h')

theorem Wrote.kept {r : Reg} {v : BitVec 32} (h : t.Wrote r v t') : Kept L [r] true t t' where
  reg r' hr' hrs := h.apart r' hr' (hrs r (.head _))
  st i x _ hx := by rwa [h.fpu]
  mem _ a n _ := by rw [h.mem]

/-- Stores alone. -/
theorem Kept.of_mem {s : Bool} (t : Target) (mem : Memory 32)
    (h : s → ∀ a n, L.OffScratch a n → load mem a n = load t.mem a n) :
    Kept L [] s t { t with mem := mem } :=
  ⟨fun _ _ _ => rfl, fun _ _ _ hx => hx, h⟩

theorem load_store_apart {m : Memory 32} {a b : BitVec 32} {n k : Nat} {bs : List Byte}
    (h : ∀ i < n, ∀ j < bs.length, a + .ofNat 32 i ≠ b + .ofNat 32 (k + j)) :
    load (Bytes.store m (b + .ofNat 32 k) bs) a n = load m a n := by
  refine load_congr fun i hi => ?_
  obtain ⟨j, hj, heq⟩ := exists_offset (b + .ofNat 32 k) (a + .ofNat 32 i)
  rw [heq, store_offset hj, List.getD_eq_default]
  by_contra hlt
  refine h i hi j (Nat.not_le.1 hlt) ?_
  rw [heq, BitVec.ofNat_add, BitVec.add_assoc]

/-- What one line may change. -/
theorem step_kept {l : Line} (hf : l.sparesFpu) (h : t.step L l = some t') :
    Kept L l.regs l.inScratch t t' := by
  cases l with
  | lea | movIndex | leaSpecific => exact (setReg_wrote h).kept
  | store size p off value =>
    simp only [step] at h
    split at h
    · rename_i n hn
      cases h
      refine .of_mem t _ fun hs a k ha => load_store_apart fun i hi j hj => ?_
      simp only [Line.inScratch, Bool.and_eq_true, decide_eq_true_eq] at hs
      obtain ⟨rfl, hoff⟩ := hs
      have hn4 : n ≤ 4 := by
        cases size <;> cases hn <;> decide
      rw [leBytes_length] at hj
      exact ha i hi (off + j) (by omega)
    · cases h
  | ffree | fst | fxch | fstpSt0 | fld => cases hf
  | movq | movups | movupd =>
    cases h
    exact ⟨fun _ _ _ => rfl, fun _ _ _ hx => hx, fun _ _ _ _ => rfl⟩
  | push value =>
    cases h
    refine ⟨fun r hr hrs => ?_, fun _ _ _ hx => hx, fun hs => by cases hs⟩
    obtain ⟨p, hp⟩ := Option.isSome_iff_exists.1 hr
    have hapart : r.Apart .esp := hrs _ (.head _)
    have hfile : p.file ≠ 4 := by
      simp only [Reg.Apart, hp] at hapart
      rcases hapart with h | h | h
      · exact h
      · have := Reg.part?_fits hp
        cases r <;> cases hp <;> simp_all
      · have := Reg.part?_fits hp
        cases r <;> cases hp <;> simp_all
    simp only [reg_eq hp, Function.update_of_ne hfile]

theorem lines_kept {ls : List Line} (hf : ls.all Line.sparesFpu)
    (h : ls.foldlM (step L) t = some t') :
    Kept L (ls.flatMap Line.regs) (ls.all Line.inScratch) t t' := by
  induction ls generalizing t with
  | nil =>
    cases h
    exact .refl _
  | cons l ls ih =>
    rw [List.all_cons, Bool.and_eq_true] at hf
    obtain ⟨t₁, h₁, h₂⟩ := Option.bind_eq_some_iff.1 h
    exact (step_kept hf.1 h₁).trans (ih hf.2 h₂)

end Target

-- ---------------------------------------------------------------------------
-- Addresses
-- ---------------------------------------------------------------------------

/-- The registers of an operand as `create_random_modrm` draws them. -/
structure ModRM.Sound (m : ModRM) : Prop where
  mem : ∀ r, m.base? = some r ∨ m.index? = some r → r ∈ addrRegs
  apart : ∀ b i, m.base? = some b → m.index? = some i → b.Apart i

namespace Target

variable {L : Layout} {t t' : Target} {r : Reg} {v : BitVec 32} {m : ModRM}

/-- A whole register is written. -/
theorem setReg_addr (hr : r ∈ addrRegs) (t : Target) (v : BitVec 32) :
    ∃ t', t.setReg r v = some t' ∧ t.Wrote r v t' ∧ t'.reg r = v := by
  have hpart : ∃ p, r.part? = some p ∧ p.width = 32 := by
    simp only [addrRegs, List.mem_cons, List.not_mem_nil, or_false] at hr
    rcases hr with rfl | rfl | rfl | rfl | rfl | rfl <;> exact ⟨_, rfl, rfl⟩
  obtain ⟨p, hp, hw⟩ := hpart
  obtain ⟨t', ht'⟩ : ∃ t', t.setReg r v = some t' := by simp [setReg, hp]
  have hwrote := setReg_wrote ht'
  obtain ⟨q, hq, hreg⟩ := hwrote.reg
  cases hp.symm.trans hq
  refine ⟨t', ht', hwrote, ?_⟩
  rw [hreg, hw]
  simp

theorem part?_isSome_of_mem (hr : r ∈ addrRegs) : r.part?.isSome := by
  simp only [addrRegs, List.mem_cons, List.not_mem_nil, or_false] at hr
  rcases hr with rfl | rfl | rfl | rfl | rfl | rfl <;> rfl

/-- The registers of the operand are set up. -/
theorem exec_setup (h : m.Sound) (t : Target) : ∃ t', t.exec L (.lines m.setup) = some t' ∧
    m.SetUp t'.reg L.data ∧ t'.mem = t.mem := by
  cases m with
  | d data => exact ⟨t, rfl, ⟨fun r h => (by cases h), fun r h => (by cases h)⟩, rfl⟩
  | b base data | bd base data disp =>
    obtain ⟨t', ht', hw, hreg⟩ := setReg_addr (h.mem base (.inl rfl)) t (L.data data)
    refine ⟨t', ?_, ⟨fun r hr => ?_, fun r hr => (by cases hr)⟩, hw.mem⟩
    · simp [exec, ModRM.setup, step, ht']
    · cases hr
      exact hreg
  | isd index scale data value =>
    obtain ⟨t', ht', hw, hreg⟩ := setReg_addr (h.mem index (.inr rfl)) t (.ofNat 32 value)
    refine ⟨t', ?_, ⟨fun r hr => (by cases hr), fun r hr => ?_⟩, hw.mem⟩
    · simp [exec, ModRM.setup, step, ht']
    · cases hr
      exact hreg
  | bid base index data value disp | bisd base index scale data value disp =>
    obtain ⟨t₁, ht₁, hw₁, hbase⟩ := setReg_addr (h.mem base (.inl rfl)) t (L.data data)
    obtain ⟨t₂, ht₂, hw₂, hindex⟩ := setReg_addr (h.mem index (.inr rfl)) t₁ (.ofNat 32 value)
    refine ⟨t₂, ?_, ⟨fun r hr => ?_, fun r hr => ?_⟩, hw₂.mem.trans hw₁.mem⟩
    · simp [exec, ModRM.setup, step, ht₁, ht₂]
    · cases hr
      rw [hw₂.apart base (part?_isSome_of_mem (h.mem base (.inl rfl))) (h.apart base index rfl rfl)]
      exact hbase
    · cases hr
      exact hindex

end Target

-- ---------------------------------------------------------------------------
-- Memory operands
-- ---------------------------------------------------------------------------

/-- An integer constant, cut to the size of its operand. -/
def ConstNode.cut (v : ConstNode) (size : OpFlags) : BitVec 32 :=
  if size = OpFlags.bits8 then (v.imm32.setWidth 8).setWidth 32
  else if size = OpFlags.bits16 then (v.imm32.setWidth 16).setWidth 32 else v.imm32

/-- The bytes that a constant is in memory, in an operand of a size. -/
def ConstNode.bytesFor (v : ConstNode) (size : OpFlags) : List Byte :=
  if v.type = .float then
    if size = OpFlags.bits32 then leBytes 4 v.float32.toNat
    else if size = OpFlags.bits64 then leBytes 8 v.float64.toNat
    else leBytes 10 v.float80.toNat
  else if v.type = .x87env then leBytes 28 v.x87env.toNat
  else if size = OpFlags.bits64 then leBytes 8 v.imm64.toNat
  else if size = OpFlags.bits80 then leBytes 10 v.union.toNat
  else if size = OpFlags.bits8 then leBytes 1 v.imm8.toNat
  else if size = OpFlags.bits16 then leBytes 2 v.imm16.toNat
  else leBytes 4 v.imm32.toNat

/-- Dwords of `x` are stored to the operand, the lowest first. -/
def dwordStores (m : ModRM) (k : Nat) {w : Nat} (x : BitVec w) : List Line :=
  (List.range k).map fun i => .store .dword (.opnd m) (4 * i) (dword x i)

/-- The text that `init_memory_opnd` has for a constant, where it is not packed. -/
def memoryText (m : ModRM) (size : OpFlags) (v : ConstNode) : Option (List Line) :=
  if v.type = .float then
    if size = OpFlags.bits32 then some [.store .dword (.opnd m) 0x0 v.float32]
    else if size = OpFlags.bits64 then some (dwordStores m 2 v.float64)
    else if size = OpFlags.bits80 then some (dwordStores m 3 v.float80)
    else none
  else if v.type = .x87env then some (dwordStores m 7 v.x87env)
  else if size = OpFlags.bits64 then some (dwordStores m 2 v.imm64)
  else if size = OpFlags.bits80 then some (dwordStores m 3 v.union)
  else some [.store (preappendMemSize size) (.opnd m) 0x0 (v.cut size)]

namespace Target

variable {L : Layout} {t t' : Target} {m : ModRM} {ls : List Line}

/-- Stores to the operand change the memory alone. -/
theorem exec_stores (h : ∀ l ∈ ls, ∃ size off value, l = .store size (.opnd m) off value) :
    t.exec L (.lines ls) = (ls.foldlM (execStore (m.address t.reg L.data)) t.mem).map
      fun mem => { t with mem := mem } := by
  induction ls generalizing t with
  | nil => rfl
  | cons l ls ih =>
    obtain ⟨⟨size, off, value, rfl⟩, hls⟩ := List.forall_mem_cons.1 h
    simp only [exec, List.foldlM_cons, step, execStore, address] at ih ⊢
    cases hn : size.bytes? with
    | none => simp
    | some n =>
      simp only [Option.bind_eq_bind, Option.map_some, Option.bind_some]
      exact ih hls

/-- The text leaves the low `n` bytes of `x` in the operand. -/
def Leaves (L : Layout) (m : ModRM) (ls : List Line) (n x : Nat) : Prop :=
  ∀ t t', exec L t (.lines ls) = some t' →
    t'.gpr = t.gpr ∧ load t'.mem (m.address t.reg L.data) n = leBytes n x

theorem leaves_dwordStores {w n k j : Nat} (x : BitVec w) (hn : n + j = 4 * k)
    (hk : 4 * k < 2 ^ 32) : Leaves L m (dwordStores m k x) n x.toNat := by
  intro t t' ht
  obtain ⟨mem, hmem, hload⟩ := execStore_dwords m x (m.address t.reg L.data) t.mem hk
  have hstores : ∀ l ∈ dwordStores m k x, ∃ size off value, l = .store size (.opnd m) off value := by
    intro l hl
    obtain ⟨i, -, rfl⟩ := List.mem_map.1 hl
    exact ⟨_, _, _, rfl⟩
  rw [exec_stores hstores, dwordStores, hmem] at ht
  cases ht
  refine ⟨rfl, ?_⟩
  rw [← hn, load_add, leBytes_add] at hload
  exact List.append_inj_left hload (by simp)

theorem leaves_store {size : SizeWord} {n : Nat} (value : BitVec 32) (hn : size.bytes? = some n) :
    Leaves L m [.store size (.opnd m) 0 value] n value.toNat := by
  intro t t' ht
  have h4 : n ≤ 4 := by cases size <;> cases hn <;> decide
  simp only [exec, List.foldlM_cons, List.foldlM_nil, step, hn, address, BitVec.add_zero] at ht
  cases ht
  have hload : load (Bytes.store t.mem (m.address t.reg L.data) (leBytes n value.toNat))
      (m.address t.reg L.data) (leBytes n value.toNat).length = leBytes n value.toNat :=
    load_store (by rw [leBytes_length]; omega)
  rw [leBytes_length] at hload
  exact ⟨rfl, hload⟩

theorem preappendMemSize_none {size : OpFlags} (h8 : size ≠ OpFlags.bits8)
    (h16 : size ≠ OpFlags.bits16) (h32 : size ≠ OpFlags.bits32) :
    (preappendMemSize size).bytes? = none := by
  unfold preappendMemSize
  rw [if_neg h8, if_neg h16, if_neg h32]
  split_ifs <;> rfl

/-- The operand holds the constant. -/
theorem leaves_memoryText {size : OpFlags} {v : ConstNode} (h : memoryText m size v = some ls) :
    ∃ n x, v.bytesFor size = leBytes n x ∧ Leaves L m ls n x := by
  unfold memoryText at h
  unfold ConstNode.bytesFor
  by_cases hfloat : v.type = .float
  · simp only [if_pos hfloat] at h ⊢
    split_ifs at h ⊢ with h32 h64 h80 <;> cases h
    · exact ⟨4, _, rfl, leaves_store _ rfl⟩
    · exact ⟨8, _, rfl, leaves_dwordStores _ (j := 0) rfl (by decide)⟩
    · exact ⟨10, _, rfl, leaves_dwordStores _ (j := 2) rfl (by decide)⟩
  simp only [if_neg hfloat] at h ⊢
  by_cases henv : v.type = .x87env
  · simp only [if_pos henv] at h ⊢
    cases h
    exact ⟨28, _, rfl, leaves_dwordStores _ (j := 0) rfl (by decide)⟩
  simp only [if_neg henv] at h ⊢
  unfold ConstNode.cut at h
  split_ifs at h ⊢ with h64 h80 h8 h16 <;> cases h
  · exact ⟨8, _, rfl, leaves_dwordStores _ (j := 0) rfl (by decide)⟩
  · exact ⟨10, _, rfl, leaves_dwordStores _ (j := 2) rfl (by decide)⟩
  · subst h8
    refine ⟨1, _, congrArg _ ?_, leaves_store _ rfl⟩
    simp [ConstNode.imm8, ConstNode.imm32]
    omega
  · subst h16
    refine ⟨2, _, congrArg _ ?_, leaves_store _ rfl⟩
    simp [ConstNode.imm16, ConstNode.imm32]
    omega
  · by_cases h32 : size = OpFlags.bits32
    · subst h32
      exact ⟨4, _, rfl, leaves_store _ rfl⟩
    -- no size word fits, so the line is not assembled
    · refine ⟨4, _, rfl, fun t t' ht => ?_⟩
      simp [exec, step, preappendMemSize_none h8 h16 h32] at ht

end Target

-- ---------------------------------------------------------------------------
-- Numbers
-- ---------------------------------------------------------------------------

/-- The number is stored in the scratch buffer and pushed. -/
def pushNumber (single : Bool) (v : ConstNode) : List Line :=
  if single then [.store .dword .floatData 0x0 v.imm32, .fld "dword" .floatData]
  else [.store .dword .floatData 0x0 (dword v.float64 0),
    .store .dword .floatData 0x4 (dword v.float64 1), .fld "qword" .floatData]

/-- The text of an x87 register: the short one is for the top of the stack. -/
def fpuText (short single : Bool) (i : Fin 8) (v : ConstNode) : List Line :=
  if short then .fstpSt0 :: pushNumber single v
  else [.ffree (.st i), .fst (.st i), .fstpSt0] ++ (pushNumber single v ++ [.fxch (.st i)])

def Layout.number (L : Layout) (single : Bool) (v : ConstNode) : BitVec 80 :=
  if single then L.single v.imm32 else L.double v.float64

namespace Target

variable {L : Layout} {t t' : Target}

theorem load_scratch (mem : Memory 32) {bs : List Byte} {a : BitVec 32} {n : Nat}
    (hbs : bs.length ≤ 16) (h : L.OffScratch a n) :
    load (Bytes.store mem L.floatData bs) a n = load mem a n := by
  have hzero : L.floatData = L.floatData + .ofNat 32 0 := (BitVec.add_zero _).symm
  rw [hzero]
  exact load_store_apart fun i hi j hj => by simpa using h i hi j (by omega)

/-- What was stored at the address is read back as a word. -/
theorem word_store (mem : Memory 32) (a : BitVec 32) {w n : Nat} (hw : w = 8 * n) (hn : n ≤ 2 ^ 32)
    (x : BitVec w) : word w (load (Bytes.store mem a (leBytes n x.toNat)) a n) = x := by
  have hload : load (Bytes.store mem a (leBytes n x.toNat)) a (leBytes n x.toNat).length =
      leBytes n x.toNat := load_store (by rwa [leBytes_length])
  rw [leBytes_length] at hload
  rw [hload, word_leBytes hw.le]
  simp

theorem store_qword (mem : Memory 32) (a : BitVec 32) (x : BitVec 64) :
    Bytes.store (Bytes.store mem a (leBytes 4 (dword x 0).toNat)) (a + .ofNat 32 4)
      (leBytes 4 (dword x 1).toNat) = Bytes.store mem a (leBytes 8 x.toNat) := by
  have happend : Bytes.store (Bytes.store mem a (leBytes 4 (dword x 0).toNat))
      (a + .ofNat 32 (leBytes 4 (dword x 0).toNat).length) (leBytes 4 (dword x 1).toNat) =
        Bytes.store mem a (leBytes 4 (dword x 0).toNat ++ leBytes 4 (dword x 1).toNat) :=
    store_append (by simp) (by simp)
  rw [leBytes_length] at happend
  rw [happend, PackedClass.leBytes_qword]

theorem exec_pushNumber (L : Layout) (single : Bool) (v : ConstNode) (t : Target) :
    ∃ mem, (pushNumber single v).foldlM (step L) t =
        some { t with mem := mem, fpu := t.fpu.push (L.number single v) } ∧
      ∀ a n, L.OffScratch a n → load mem a n = load t.mem a n := by
  cases single with
  | true =>
    have hword : word 32 (load (Bytes.store t.mem L.floatData (leBytes 4 v.imm32.toNat)) L.floatData 4) =
        v.imm32 := word_store t.mem L.floatData (n := 4) rfl (by decide) v.imm32
    refine ⟨Bytes.store t.mem L.floatData (leBytes 4 v.imm32.toNat), ?_,
      fun a n h => load_scratch t.mem (by simp) h⟩
    simp only [pushNumber, if_true, List.foldlM_cons, List.foldlM_nil, step, SizeWord.bytes?, address,
      BitVec.add_zero, Option.bind_eq_bind, Option.bind_some, hword]
    rfl
  | false =>
    have hword : word 64 (load (Bytes.store t.mem L.floatData (leBytes 8 v.float64.toNat))
        L.floatData 8) = v.float64 := word_store t.mem L.floatData (n := 8) rfl (by decide) v.float64
    refine ⟨Bytes.store t.mem L.floatData (leBytes 8 v.float64.toNat), ?_,
      fun a n h => load_scratch t.mem (by simp) h⟩
    simp only [pushNumber, Bool.false_eq_true, if_false, List.foldlM_cons, List.foldlM_nil, step,
      SizeWord.bytes?, address, BitVec.add_zero, Option.bind_eq_bind, Option.bind_some, store_qword]
    simp only [String.reduceEq, if_false, if_true, Option.bind_some, hword]
    rfl

/-- The register holds the number, and the other registers of the stack keep theirs. -/
theorem exec_fpuText (L : Layout) {short single : Bool} {i : Fin 8} {v : ConstNode}
    (hi : short → i = 0) (t : Target) :
    ∃ t', (fpuText short single i v).foldlM (step L) t = some t' ∧
      t'.fpu.st i = some (L.number single v) ∧ Kept L [.st i] true t t' := by
  cases short with
  | true =>
    obtain ⟨mem, hexec, hmem⟩ := exec_pushNumber L single v { t with fpu := t.fpu.pop }
    obtain rfl := hi rfl
    refine ⟨_, hexec, by simp, fun _ _ _ => rfl, fun j x hj hx => ?_, fun _ => hmem⟩
    have hne : j ≠ 0 := by
      rintro rfl
      exact hj _ (.head _) rfl
    simp [hne, hx]
  | false =>
    obtain ⟨mem, hexec, hmem⟩ := exec_pushNumber L single v
      { t with fpu := ((t.fpu.free i).store i).pop }
    refine ⟨{ t with mem := mem, fpu := t.fpu.replace i (L.number single v) }, ?_, Fpu.st_replace ..,
      fun _ _ _ => rfl, fun j x hj hx => ?_, fun _ => hmem⟩
    · simp only [fpuText, List.cons_append, List.nil_append, List.foldlM_cons, step,
        Option.bind_eq_bind, Option.bind_some, List.foldlM_append, hexec, Bool.false_eq_true, if_false]
      rfl
    · have hne : j ≠ i := by
        rintro rfl
        exact hj _ (.head _) rfl
      rw [Fpu.st_replace_of_ne hne, hx]
      by_cases h0 : j = 0
      · subst h0
        exact .inr (by simp [hx])
      · exact .inl h0

end Target

-- ---------------------------------------------------------------------------
-- Stores
-- ---------------------------------------------------------------------------

/-- A text that writes no register but packed ones, and that stores within 16 bytes of
the scratch buffer when that is its place. -/
structure StoreText (p : Place) (ls : List Line) : Prop where
  regs : ls.flatMap Line.regs = []
  sparesFpu : ls.all Line.sparesFpu
  inScratch : p = .floatData → ls.all Line.inScratch

def Line.StoresTo (p : Place) (l : Line) : Prop :=
  ∃ size off value, l = .store size p off value ∧ (p = .floatData → off + 4 ≤ 16)

section
variable {p : Place} {r : Reg} {m : ModRM} {vals : List ConstNode} {ls : List Line}

theorem StoreText.of_stores (h : ∀ l ∈ ls, l.StoresTo p) {rest : List Line}
    (hrest : ∀ l ∈ rest, l.regs = [] ∧ l.sparesFpu ∧ l.inScratch) : StoreText p (ls ++ rest) where
  regs := by
    simp only [List.flatMap_eq_nil_iff, List.mem_append]
    rintro l (hl | hl)
    · obtain ⟨_, _, _, rfl, -⟩ := h l hl
      rfl
    · exact (hrest l hl).1
  sparesFpu := by
    simp only [List.all_eq_true, List.mem_append]
    rintro l (hl | hl)
    · obtain ⟨_, _, _, rfl, -⟩ := h l hl
      rfl
    · exact (hrest l hl).2.1
  inScratch hp := by
    simp only [List.all_eq_true, List.mem_append]
    rintro l (hl | hl)
    · obtain ⟨_, off, _, rfl, hoff⟩ := h l hl
      simp [Line.inScratch, hp, hoff hp]
    · exact (hrest l hl).2.2

theorem StoreText.of_storesTo (h : ∀ l ∈ ls, l.StoresTo p) : StoreText p ls := by
  have happend : StoreText p (ls ++ []) := .of_stores h (by simp)
  rwa [List.append_nil] at happend

theorem StoreText.of_opnd (h : ∀ l ∈ ls, ∃ size off value, l = .store size (.opnd m) off value) :
    StoreText (.opnd m) ls := by
  refine .of_storesTo fun l hl => ?_
  obtain ⟨size, off, value, rfl⟩ := h l hl
  exact ⟨size, off, value, rfl, fun hp => (by cases hp)⟩

theorem mmxStores_storesTo (h : mmxStores p vals = some ls) : ∀ l ∈ ls, l.StoresTo p := by
  unfold mmxStores at h
  split at h <;> cases h <;> simp [Line.StoresTo]

theorem xmmStores_storesTo {x : List Line × XmmLoad} (h : xmmStores p vals = some x) :
    ∀ l ∈ x.1, l.StoresTo p := by
  unfold xmmStores at h
  split at h
  all_goals first | cases h | (split at h <;> cases h <;> simp [Line.StoresTo])

theorem initMmxRegisterOpnd_text (h : initMmxRegisterOpnd r vals = some ls) :
    StoreText .floatData ls := by
  obtain ⟨ls', h', rfl⟩ := Option.map_eq_some_iff.1 h
  exact .of_stores (mmxStores_storesTo h') (by simp [Line.regs, Line.sparesFpu, Line.inScratch])

theorem initXmmRegisterOpnd_text (h : initXmmRegisterOpnd r vals = some ls) :
    StoreText .floatData ls := by
  obtain ⟨⟨ls', load⟩, h', rfl⟩ := Option.map_eq_some_iff.1 h
  refine .of_stores (xmmStores_storesTo h') ?_
  cases load <;> simp [XmmLoad.line, Line.regs, Line.sparesFpu, Line.inScratch]

theorem initMemoryOpndMmx_text (h : initMemoryOpndMmx m vals = some ls) :
    StoreText (.opnd m) ls := .of_storesTo (mmxStores_storesTo h)

theorem initMemoryOpndXmm_text (h : initMemoryOpndXmm m vals = some ls) :
    StoreText (.opnd m) ls := by
  obtain ⟨x, h', rfl⟩ := Option.map_eq_some_iff.1 h
  exact .of_storesTo (xmmStores_storesTo h')

theorem memoryText_text {size : OpFlags} {v : ConstNode} (h : memoryText m size v = some ls) :
    StoreText (.opnd m) ls := by
  refine .of_opnd ?_
  unfold memoryText at h
  split_ifs at h <;> cases h <;> simp [dwordStores]

end

-- ---------------------------------------------------------------------------
-- Operands
-- ---------------------------------------------------------------------------

namespace Opnd

def regs : Opnd → List Reg
  | .reg r => [r]
  | .imm _ => []
  | .mem m => m.base?.toList ++ m.index?.toList

def isMem : Opnd → Bool
  | .mem _ => true
  | _ => false

def Holds (L : Layout) (t : Target) (size : OpFlags) (v : ConstNode) : Opnd → Prop
  | .imm x => x = v.cut size
  | .reg (.st i) => t.fpu.st i = some (L.double v.float64)
  | .reg r => ∃ p, r.part? = some p ∧ t.reg r = (v.imm32.setWidth p.width).setWidth 32
  | .mem m => load t.mem (m.address t.reg L.data) (v.bytesFor size).length = v.bytesFor size

end Opnd

/-- The operand is of a class whose registers get packed constants. -/
def OpFlags.isPacked (flags : OpFlags) : Bool :=
  OpFlags.isClass OpFlags.regClassRmMmx flags || OpFlags.isClass OpFlags.regClassRmXmm flags

/-- The entries initialise an operand, with a constant if one was requested for it. They
write no register that is not the operand's, and no memory unless it is in memory. -/
structure Initialises (o : Opnd) (flags : OpFlags) (v? : Option ConstNode) (es : List Entry) :
    Prop where
  kept : ∀ L t t', Target.execAll L t es = some t' → Target.Kept L o.regs (!o.isMem) t t'
  setUp : ∀ L t t', Target.execAll L t es = some t' → ∀ m, o = .mem m → m.SetUp t'.reg L.data
  holds : ∀ L t t', Target.execAll L t es = some t' → flags.isPacked = false →
    ∀ v, v? = some v → o.Holds L t' (flags &&& OpFlags.sizeMask) v

namespace Target

variable {L : Layout} {t t' : Target} {es es' : List Entry}

theorem execAll_append (h : t.execAll L (es ++ es') = some t') :
    ∃ t₁, t.execAll L es = some t₁ ∧ t₁.execAll L es' = some t' := by
  rw [execAll, List.foldlM_append] at h
  exact Option.bind_eq_some_iff.1 h

theorem execAll_cons {e : Entry} (h : t.execAll L (e :: es) = some t') :
    ∃ t₁, t.exec L e = some t₁ ∧ t₁.execAll L es = some t' := Option.bind_eq_some_iff.1 h

theorem execAll_one {e : Entry} : t.execAll L [e] = t.exec L e := by
  simp [execAll]

/-- Labels do nothing. -/
theorem execAll_labels (h : ∀ e ∈ es, ∃ n, e = .label n) : t.execAll L es = some t := by
  induction es with
  | nil => rfl
  | cons e es ih =>
    obtain ⟨⟨n, rfl⟩, hes⟩ := List.forall_mem_cons.1 h
    exact ih hes

end Target

section
variable {flags : OpFlags} {v? : Option ConstNode} {ls : List Line}

theorem initialises_imm (v : ConstNode) :
    Initialises (.imm (v.cut (flags &&& OpFlags.sizeMask))) flags (some v) [] where
  kept L t t' h := by
    cases h
    exact .refl t
  setUp L t t' h m hm := by cases hm
  holds L t t' h hp w hw := by
    cases hw
    rfl

/-- A `mov` to the register, perhaps behind a label. -/
theorem initialises_mov {labels : List Entry} {r : Reg} {x : BitVec 32}
    (hlabels : ∀ e ∈ labels, ∃ n, e = .label n) (hx : ∀ v, v? = some v → x = v.imm32) :
    Initialises (.reg r) flags v?
      (labels ++ [.insn ⟨.mov, [(none, .reg r), (none, .imm x)], false⟩]) := by
  have hwrote : ∀ L t t', Target.execAll L t
      (labels ++ [.insn ⟨.mov, [(none, .reg r), (none, .imm x)], false⟩]) = some t' →
        t.Wrote r x t' := by
    intro L t t' h
    obtain ⟨t₁, h₁, h₂⟩ := Target.execAll_append h
    cases h₁.symm.trans (Target.execAll_labels hlabels)
    exact Target.setReg_wrote (Target.execAll_one.symm.trans h₂)
  refine ⟨fun L t t' h => (hwrote L t t' h).kept, fun _ _ _ _ m hm => (by cases hm),
    fun L t t' h _ v hv => ?_⟩
  obtain ⟨p, hp, hreg⟩ := (hwrote L t t' h).reg
  cases hx v hv
  cases r with
  | st i => cases hp
  | _ => exact ⟨p, hp, hreg⟩

theorem initialises_fpu {r : Reg} {v : ConstNode} :
    Initialises (.reg r) flags (some v) [.lines ([.ffree r, .fst r, .fstpSt0] ++
      (pushNumber false v ++ [.fxch r]))] := by
  cases r with
  | st i =>
    have hexec : ∀ L t t', Target.execAll L t [.lines (fpuText false false i v)] = some t' →
        t'.fpu.st i = some (L.double v.float64) ∧ Target.Kept L [.st i] true t t' := by
      intro L t t' h
      have hlong : false = true → i = 0 := fun h => (by cases h)
      obtain ⟨t₁, h₁, hst, hkept⟩ := Target.exec_fpuText L hlong t
      cases (Target.execAll_one.symm.trans h).symm.trans h₁
      exact ⟨hst, hkept⟩
    refine ⟨fun L t t' h => (hexec L t t' h).2, fun _ _ _ _ m hm => (by cases hm),
      fun L t t' h _ w hw => ?_⟩
    cases hw
    exact (hexec L t t' h).1
  | _ =>
    refine ⟨fun L t t' h => ?_, fun L t t' h => ?_, fun L t t' h => ?_⟩ <;> cases h

theorem initialises_packed {r : Reg} (h : StoreText .floatData ls) :
    Initialises (.reg r) flags none [.lines ls] where
  kept L t t' ht := by
    have hkept := Target.lines_kept h.sparesFpu (Target.execAll_one.symm.trans ht)
    rw [h.regs, h.inScratch rfl] at hkept
    exact hkept.mono (List.nil_subset _) fun _ => rfl
  setUp L t t' _ m hm := by cases hm
  holds L t t' _ _ v hv := by cases hv

theorem ModRM.setup_regs (m : ModRM) : m.setup.flatMap Line.regs = (Opnd.mem m).regs := by
  cases m <;> rfl

theorem ModRM.setup_sparesFpu (m : ModRM) : m.setup.all Line.sparesFpu := by
  cases m <;> rfl

theorem ModRM.setup_inScratch (m : ModRM) : m.setup.all Line.inScratch := by
  cases m <;> rfl

/-- The registers that the set-up is for are not written by stores. -/
theorem ModRM.SetUp.kept {m : ModRM} {L : Layout} {t t' : Target} {s : Bool}
    (h : m.SetUp t.reg L.data) (hm : m.Sound) (hkept : Target.Kept L [] s t t') :
    m.SetUp t'.reg L.data where
  base r hr := by
    rw [hkept.reg r (Target.part?_isSome_of_mem (hm.mem r (.inl hr))) (by simp), h.base r hr]
  index r hr := by
    rw [hkept.reg r (Target.part?_isSome_of_mem (hm.mem r (.inr hr))) (by simp), h.index r hr]

/-- The set-up of a memory operand and what is stored there. -/
theorem initialises_mem {m : ModRM} (hm : m.Sound) (h : StoreText (.opnd m) ls)
    (hv : flags.isPacked = false → ∀ v, v? = some v →
      memoryText m (flags &&& OpFlags.sizeMask) v = some ls) :
    Initialises (.mem m) flags v? [.lines m.setup, .lines ls] := by
  have hexec : ∀ L t t', Target.execAll L t [.lines m.setup, .lines ls] = some t' →
      ∃ t₁, t.exec L (.lines m.setup) = some t₁ ∧ t₁.exec L (.lines ls) = some t' ∧
        m.SetUp t₁.reg L.data ∧ Target.Kept L [] (ls.all Line.inScratch) t₁ t' := by
    intro L t t' ht
    obtain ⟨t₁, h₁, h₂⟩ := Target.execAll_cons ht
    rw [Target.execAll_one] at h₂
    obtain ⟨t₂, h₁', hset, -⟩ := Target.exec_setup (L := L) hm t
    cases h₁.symm.trans h₁'
    have hkept := Target.lines_kept h.sparesFpu h₂
    rw [h.regs] at hkept
    exact ⟨t₁, h₁, h₂, hset, hkept⟩
  refine ⟨fun L t t' ht => ?_, fun L t t' ht m' hm' => ?_, fun L t t' ht hp v hv' => ?_⟩
  · obtain ⟨t₁, h₁, -, -, hkept⟩ := hexec L t t' ht
    refine ((Target.lines_kept m.setup_sparesFpu h₁).trans hkept).mono ?_ (by simp [Opnd.isMem])
    rw [m.setup_regs, List.append_nil]
    exact List.Subset.refl _
  · cases hm'
    obtain ⟨t₁, -, -, hset, hkept⟩ := hexec L t t' ht
    exact hset.kept hm hkept
  · obtain ⟨t₁, -, h₂, hset, hkept⟩ := hexec L t t' ht
    obtain ⟨n, x, hbytes, hleaves⟩ := Target.leaves_memoryText (L := L) (hv hp v hv')
    obtain ⟨-, hload⟩ := hleaves t₁ t' h₂
    rw [ModRM.address_eq hset, ← ModRM.address_eq (hset.kept hm hkept)] at hload
    rw [Opnd.Holds, hbytes, leBytes_length, hload]

end

end Btrtg
