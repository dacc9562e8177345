import Mathlib.Tactic.FinCases
import Btrtg.CheckMacro

/-!
# What the check macro passes and leaves behind

The stack below the arguments is followed word by word: what is pushed stands in
front of what was there. The structures read from it show the registers as they
were before the macro, and the same words restore them after the call.
-/

namespace Btrtg

open Bytes

-- ---------------------------------------------------------------------------
-- Words in a list of bytes
-- ---------------------------------------------------------------------------

section Words

variable {w : Nat} (bs : List Byte)

theorem wordAt_skip {k v i n : Nat} (h : k ≤ i) :
    wordAt w (leBytes k v ++ bs) i n = wordAt w bs (i - k) n := by
  rw [wordAt, wordAt, List.drop_append, leBytes_length,
    List.drop_eq_nil_of_le (by simpa using h), List.nil_append]

/-- A word within the bytes of a number. -/
theorem wordAt_part {k v i n : Nat} (hk : i + n ≤ k) (hn : w ≤ 8 * n) :
    wordAt w (leBytes k v ++ bs) i n = .ofNat w (v / 256 ^ i) := by
  obtain ⟨j, rfl⟩ := Nat.exists_eq_add_of_le hk
  rw [wordAt, Nat.add_assoc, leBytes_add, leBytes_add n, List.append_assoc, List.append_assoc,
    List.drop_left' (leBytes_length ..), List.take_left' (leBytes_length ..), word_leBytes hn]

theorem wordAt_here {k v : Nat} (hn : w ≤ 8 * k) :
    wordAt w (leBytes k v ++ bs) 0 k = .ofNat w v := by
  rw [wordAt_part bs (by omega) hn, Nat.pow_zero, Nat.div_one]

theorem wordAt_last {k v i n : Nat} (hk : i + n ≤ k) (hn : w ≤ 8 * n) :
    wordAt w (leBytes k v) i n = .ofNat w (v / 256 ^ i) := by
  rw [← List.append_nil (leBytes k v), wordAt_part [] hk hn]

/-- A word made up of two numbers of two bytes. -/
theorem wordAt_pair {a b : Nat} (ha : a < 2 ^ 16) :
    wordAt 32 (leBytes 2 a ++ (leBytes 2 b ++ bs)) 0 4 = .ofNat 32 (a + 2 ^ 16 * b) := by
  have hlow : leBytes 2 (a + 2 ^ 16 * b) = leBytes 2 a := by
    rw [← leBytes_mod 2 (a + _)]
    congr 1
    omega
  have hbytes : leBytes 4 (a + 2 ^ 16 * b) = leBytes 2 a ++ leBytes 2 b := by
    rw [leBytes_add 2 2, hlow]
    congr 2
    omega
  rw [← List.append_assoc, ← hbytes, wordAt_here bs (by omega)]

end Words

-- ---------------------------------------------------------------------------
-- The image of the x87 unit
-- ---------------------------------------------------------------------------

theorem image_length (resv : BitVec 16) (x : X87) : (x.image resv).length = 108 := by
  unfold X87.image
  simp only [List.length_append, leBytes_length]

theorem wordAt_image_st (resv : BitVec 16) (x : X87) (i : Fin 8) :
    wordAt 80 (x.image resv) (28 + 10 * i.val) 10 = x.st i := by
  unfold X87.image
  simp only [List.append_assoc]
  fin_cases i <;>
    simp (disch := decide) [wordAt_skip, wordAt_here, wordAt_last]

theorem ofImage_image (resv : BitVec 16) (x : X87) : X87.ofImage (x.image resv) = x := by
  have hfsw : wordAt 16 (x.image resv) 4 2 = x.fsw := by
    unfold X87.image
    simp (disch := decide) [wordAt_skip, wordAt_here]
  refine X87.ext ?_ ?_ ?_ ?_ ?_ ?_ ?_ ?_ (funext fun p => ?_)
  case refine_9 =>
    simp only [X87.ofImage, hfsw, wordAt_image_st, X87.st, add_sub_cancel]
  all_goals
    unfold X87.image
    simp (disch := decide) [X87.ofImage, wordAt_skip, wordAt_here]

/-- `st80` is the end of the image. -/
theorem getSt_ofBytes {bs : List Byte} (hbs : bs.length = 108) (i : Nat) :
    (X87LegacyFPUSaveArea.ofBytes bs).getSt i =
      ⟨wordAt 64 bs (28 + i * 10) 8, wordAt 16 bs (28 + i * 10 + 8) 2⟩ := by
  have hst : (X87LegacyFPUSaveArea.ofBytes bs).st80.toList = bs.drop 28 := by
    refine List.ext_getElem (by simp [hbs]) fun j hj _ => ?_
    have hj' : 28 + j < bs.length := by simp at hj; omega
    simp [X87LegacyFPUSaveArea.ofBytes, List.getElem?_eq_getElem hj']
  rw [X87LegacyFPUSaveArea.getSt, hst, List.drop_drop, List.drop_drop, Nat.add_assoc]
  rfl

-- ---------------------------------------------------------------------------
-- The stack
-- ---------------------------------------------------------------------------

/-- The bytes at the top of the stack. -/
def Machine.Top (m : Machine) (bs : List Byte) : Prop := load m.stack m.esp bs.length = bs

theorem Machine.top_nil (m : Machine) : m.Top [] := rfl

theorem Machine.Top.push {m : Machine} {bs : List Byte} (h : m.Top bs) {l : List Byte}
    (hl : l.length + bs.length ≤ 2 ^ 32) : (m.pushBytes l).Top (l ++ bs) := by
  simp only [Machine.Top, Machine.pushBytes, List.length_append]
  rw [load_store_below hl, BitVec.sub_add_cancel, h]

/-- A part of the bytes at the top of the stack. -/
theorem Machine.Top.part {m : Machine} {as bs cs : List Byte} (h : m.Top (as ++ (bs ++ cs)))
    {k n : Nat} (hk : as.length = k) (hn : bs.length = n) :
    load m.stack (m.esp + .ofNat 32 k) n = bs := by
  subst hk hn
  rw [Machine.Top, List.length_append, List.length_append, load_add, load_add] at h
  exact (List.append_inj (List.append_inj h (by simp)).2 (by simp)).1

/-- What is left when the first bytes are popped. -/
theorem Machine.Top.rest {m : Machine} {as bs : List Byte} (h : m.Top (as ++ bs)) {k : Nat}
    (hk : as.length = k) : load m.stack (m.esp + .ofNat 32 k) bs.length = bs := by
  rw [← List.append_nil bs] at h
  exact h.part hk rfl

theorem Machine.Top.first {m : Machine} {l bs : List Byte} (h : m.Top (l ++ bs)) {k : Nat}
    (hk : l.length = k) : load m.stack m.esp k = l := by
  subst hk
  rw [Machine.Top, List.length_append, load_add] at h
  exact (List.append_inj h (by simp)).1

theorem Machine.Top.stack32 {m : Machine} {l bs : List Byte} {v : BitVec 32}
    (h : m.Top (l ++ (leBytes 4 v.toNat ++ bs))) {k : Nat} (hk : l.length = k) :
    m.stack32 (.ofNat 32 k) = v := by
  rw [Machine.stack32, h.part hk (leBytes_length ..), word_leBytes (Nat.le_refl 32),
    BitVec.ofNat_toNat, BitVec.setWidth_eq]

section Frame

variable (p : Program) (m : Machine) (i : MacroInsn)

@[simp] theorem push32_sreg (v : BitVec 32) (r : SReg) : (m.push32 v).sreg r = m.sreg r := by
  cases r <;> rfl

@[simp] theorem push32_eflags (v : BitVec 32) : (m.push32 v).eflags = m.eflags := rfl
@[simp] theorem push32_x87 (v : BitVec 32) : (m.push32 v).x87 = m.x87 := rfl
@[simp] theorem push32_xmm (v : BitVec 32) : (m.push32 v).xmm = m.xmm := rfl
@[simp] theorem push32_data (v : BitVec 32) : (m.push32 v).data = m.data := rfl
@[simp] theorem push32_mxcsr (v : BitVec 32) : (m.push32 v).mxcsr = m.mxcsr := rfl

theorem exec_sreg (r : SReg) : (MacroInsn.exec p m i).sreg r = m.sreg r := by
  cases i
  case pusha => simp [MacroInsn.exec]
  all_goals cases r <;> rfl

theorem exec_xmm : (MacroInsn.exec p m i).xmm = m.xmm := by
  cases i
  case pusha => simp [MacroInsn.exec]
  all_goals rfl

theorem exec_mxcsr : (MacroInsn.exec p m i).mxcsr = m.mxcsr := by
  cases i
  case pusha => simp [MacroInsn.exec]
  all_goals rfl

/-- Only `fsave` and `frstor` touch the x87 unit. -/
theorem exec_x87 (hs : i ≠ .fsave) (hr : i ≠ .frstor) : (MacroInsn.exec p m i).x87 = m.x87 := by
  cases i
  case fsave => exact absurd rfl hs
  case frstor => exact absurd rfl hr
  case pusha => simp [MacroInsn.exec]
  all_goals rfl

end Frame

section Exec

variable {p : Program} {m : Machine} {bs : List Byte} (h : m.Top bs)

include h

theorem top_push (hl : 4 + bs.length ≤ 2 ^ 32) :
    (MacroInsn.exec p m .push).Top (leBytes 4 m.eax.toNat ++ bs) :=
  h.push (by simpa using hl)

theorem top_pushf (hl : 4 + bs.length ≤ 2 ^ 32) :
    (MacroInsn.exec p m .pushf).Top (leBytes 4 m.eflags.toNat ++ bs) :=
  h.push (by simpa using hl)

theorem top_pushSreg (r : SReg) (hl : 4 + bs.length ≤ 2 ^ 32) :
    (MacroInsn.exec p m (.pushSreg r)).Top
      (leBytes 2 (m.sreg r).toNat ++ (leBytes 2 0 ++ bs)) := by
  rw [← List.append_assoc]
  exact h.push (by simpa using hl)

theorem top_fsave (hl : 108 + bs.length ≤ 2 ^ 32) :
    (MacroInsn.exec p (MacroInsn.exec p m (.subEsp 0x6c)) .fsave).Top
      (m.x87.image p.resv ++ bs) := by
  have htop := h.push (l := m.x87.image p.resv) (by rwa [image_length])
  rw [Machine.pushBytes, image_length] at htop
  exact htop

theorem top_pusha (hl : 32 + bs.length ≤ 2 ^ 32) :
    (MacroInsn.exec p m .pusha).Top
      (leBytes 4 m.edi.toNat ++ (leBytes 4 m.esi.toNat ++ (leBytes 4 m.ebp.toNat ++
        (leBytes 4 m.esp.toNat ++ (leBytes 4 m.ebx.toNat ++ (leBytes 4 m.edx.toNat ++
        (leBytes 4 m.ecx.toNat ++ (leBytes 4 m.eax.toNat ++ bs)))))))) := by
  have push {m : Machine} {bs : List Byte} (h : m.Top bs) (v : BitVec 32)
      (hl : 4 + bs.length ≤ 2 ^ 32) : (m.push32 v).Top (leBytes 4 v.toNat ++ bs) :=
    h.push (by simpa using hl)
  have h1 := push h m.eax (by omega)
  have h2 := push h1 m.ecx (by simp; omega)
  have h3 := push h2 m.edx (by simp; omega)
  have h4 := push h3 m.ebx (by simp; omega)
  have h5 := push h4 m.esp (by simp; omega)
  have h6 := push h5 m.ebp (by simp; omega)
  have h7 := push h6 m.esi (by simp; omega)
  exact push h7 m.edi (by simp; omega)

/-- The call of `_get_pc` gives its return address and leaves the stack as it was. -/
theorem top_getPc (hl : 4 + bs.length ≤ 2 ^ 32) :
    (execAll p getPc (m.push32 p.afterGetPc)).Top bs ∧
      (execAll p getPc (m.push32 p.afterGetPc)).eax = p.afterGetPc := by
  have htop : (m.push32 p.afterGetPc).Top (leBytes 4 p.afterGetPc.toNat ++ bs) :=
    h.push (by simpa using hl)
  exact ⟨htop.rest (leBytes_length ..), htop.stack32 (l := []) rfl⟩

theorem top_movupd (offset : BitVec 32) (i : Fin 8) :
    (MacroInsn.exec p m (.movupd offset i)).Top bs := h

theorem top_stmxcsr (offset : BitVec 32) : (MacroInsn.exec p m (.stmxcsr offset)).Top bs := h

theorem top_lea : (MacroInsn.exec p m .lea).Top bs := h

theorem top_checkMacroSave (hl : 144 + bs.length ≤ 2 ^ 32) :
    (execAll p checkMacroSave m).Top
      (leBytes 4 p.fxstate.toNat ++ (m.x87.image p.resv ++
        (leBytes 2 m.gs.toNat ++ (leBytes 2 0 ++ (leBytes 2 m.fs.toNat ++ (leBytes 2 0 ++
        (leBytes 2 m.es.toNat ++ (leBytes 2 0 ++ (leBytes 2 m.ds.toNat ++ (leBytes 2 0 ++
        (leBytes 2 m.ss.toNat ++ (leBytes 2 0 ++ (leBytes 2 m.cs.toNat ++ (leBytes 2 0 ++
        (leBytes 4 m.eflags.toNat ++ (leBytes 4 m.eax.toNat ++ bs)))))))))))))))) := by
  have h1 := top_push (p := p) h (by omega)
  have h2 := top_pushf (p := p) h1 (by simp; omega)
  have h3 := top_pushSreg (p := p) h2 .cs (by simp; omega)
  have h4 := top_pushSreg (p := p) h3 .ss (by simp; omega)
  have h5 := top_pushSreg (p := p) h4 .ds (by simp; omega)
  have h6 := top_pushSreg (p := p) h5 .es (by simp; omega)
  have h7 := top_pushSreg (p := p) h6 .fs (by simp; omega)
  have h8 := top_pushSreg (p := p) h7 .gs (by simp; omega)
  have h9 := top_fsave (p := p) h8 (by simp; omega)
  -- storing the xmm registers and loading the pointer leave the stack alone
  have h10 := top_movupd (p := p) (top_movupd (p := p) (top_movupd (p := p)
    (top_movupd (p := p) h9 0 0) 0x10 1) 0x20 2) 0x30 3
  have h11 := top_movupd (p := p) (top_movupd (p := p) (top_movupd (p := p)
    (top_movupd (p := p) h10 0x40 4) 0x50 5) 0x60 6) 0x70 7
  have h12 := top_push (p := p) (top_lea (p := p) (top_stmxcsr (p := p) h11 0x80))
    (by simp [image_length]; omega)
  simp only [exec_sreg] at h12
  rw [exec_x87 p _ (.pushSreg .gs) nofun nofun, exec_x87 p _ (.pushSreg .fs) nofun nofun,
    exec_x87 p _ (.pushSreg .es) nofun nofun, exec_x87 p _ (.pushSreg .ds) nofun nofun,
    exec_x87 p _ (.pushSreg .ss) nofun nofun, exec_x87 p _ (.pushSreg .cs) nofun nofun,
    exec_x87 p _ .pushf nofun nofun, exec_x87 p _ .push nofun nofun] at h12
  exact h12

end Exec

/-- What the macro has on the stack when it calls the check function: the pointer to
`fxstate`, the image of the x87 unit and the registers. -/
def savedRegs (p : Program) (m : Machine) : List Byte :=
  leBytes 2 m.gs.toNat ++ (leBytes 2 0 ++ (leBytes 2 m.fs.toNat ++ (leBytes 2 0 ++
  (leBytes 2 m.es.toNat ++ (leBytes 2 0 ++ (leBytes 2 m.ds.toNat ++ (leBytes 2 0 ++
  (leBytes 2 m.ss.toNat ++ (leBytes 2 0 ++ (leBytes 2 m.cs.toNat ++ (leBytes 2 0 ++
  (leBytes 4 m.eflags.toNat ++ (leBytes 4 p.afterGetPc.toNat ++
  (leBytes 4 m.edi.toNat ++ (leBytes 4 m.esi.toNat ++ (leBytes 4 m.ebp.toNat ++
  (leBytes 4 m.esp.toNat ++ (leBytes 4 m.ebx.toNat ++ (leBytes 4 m.edx.toNat ++
  (leBytes 4 m.ecx.toNat ++ (leBytes 4 m.eax.toNat ++ [])))))))))))))))))))))

def savedArgs (p : Program) (m : Machine) : List Byte :=
  leBytes 4 p.fxstate.toNat ++ (m.x87.image p.resv ++ savedRegs p m)

theorem savedRegs_length (p : Program) (m : Machine) : (savedRegs p m).length = 64 := by
  simp only [savedRegs, List.length_append, leBytes_length, List.length_nil]

theorem savedArgs_length (p : Program) (m : Machine) : (savedArgs p m).length = 176 := by
  simp only [savedArgs, List.length_append, leBytes_length, image_length, savedRegs_length]

/-- The stack when the check function starts: its return address and arguments. -/
theorem top_checkMacroCall (p : Program) (m : Machine) :
    (checkMacroCall p m).Top (leBytes 4 p.afterCheckPoint.toNat ++ savedArgs p m) := by
  have h0 := top_pusha (p := p) m.top_nil (by decide)
  obtain ⟨h1, heax⟩ := top_getPc (p := p) h0 (by simp)
  let m₁ := execAll p getPc ((MacroInsn.exec p m .pusha).push32 p.afterGetPc)
  have hsreg (r : SReg) : m₁.sreg r = m.sreg r := by
    simp [m₁, execAll, getPc, exec_sreg]
  have hx87 : m₁.x87 = m.x87 := by
    simp [m₁, execAll, getPc, exec_x87]
  have heflags : m₁.eflags = m.eflags := by
    simp [m₁, execAll, getPc, MacroInsn.exec]
  have h2 := top_checkMacroSave (p := p) h1 (by simp)
  rw [heax, hx87, heflags, show m₁.gs = m.gs from hsreg .gs, show m₁.fs = m.fs from hsreg .fs,
    show m₁.es = m.es from hsreg .es, show m₁.ds = m.ds from hsreg .ds,
    show m₁.ss = m.ss from hsreg .ss, show m₁.cs = m.cs from hsreg .cs] at h2
  exact h2.push (by simp [image_length])

-- ---------------------------------------------------------------------------
-- The area fxstate
-- ---------------------------------------------------------------------------

/-- What `movupd` and `stmxcsr` leave in the area. -/
def savedXmm (m : Machine) : List Byte :=
  leBytes 16 (m.xmm 0).toNat ++ (leBytes 16 (m.xmm 1).toNat ++ (leBytes 16 (m.xmm 2).toNat ++
  (leBytes 16 (m.xmm 3).toNat ++ (leBytes 16 (m.xmm 4).toNat ++ (leBytes 16 (m.xmm 5).toNat ++
  (leBytes 16 (m.xmm 6).toNat ++ (leBytes 16 (m.xmm 7).toNat ++
  (leBytes 4 m.mxcsr.toNat ++ []))))))))

section Data

variable {p : Program} {m : Machine} {bs : List Byte} {k : Nat}

theorem load_store_behind (h : load m.data p.fxstate k = bs) (l : List Byte)
    (hk : k < 2 ^ 32) (hl : k + l.length ≤ 2 ^ 32) :
    load (store m.data (p.fxstate + .ofNat 32 k) l) p.fxstate (k + l.length) = bs ++ l := by
  rw [load_store_above hk hl, h]

theorem data_movupd (h : load m.data p.fxstate k = bs) {o : BitVec 32}
    (ho : o = .ofNat 32 k) (i : Fin 8) (hk : k + 16 ≤ 2 ^ 32) :
    load (MacroInsn.exec p m (.movupd o i)).data p.fxstate (k + 16) =
      bs ++ leBytes 16 (m.xmm i).toNat := by
  have hload := load_store_behind h (leBytes 16 (m.xmm i).toNat) (by omega) (by simpa using hk)
  rw [leBytes_length, ← ho] at hload
  exact hload

theorem data_stmxcsr (h : load m.data p.fxstate k = bs) {o : BitVec 32}
    (ho : o = .ofNat 32 k) (hk : k + 4 ≤ 2 ^ 32) :
    load (MacroInsn.exec p m (.stmxcsr o)).data p.fxstate (k + 4) =
      bs ++ leBytes 4 m.mxcsr.toNat := by
  have hload := load_store_behind h (leBytes 4 m.mxcsr.toNat) (by omega) (by simpa using hk)
  rw [leBytes_length, ← ho] at hload
  exact hload

theorem data_push : (MacroInsn.exec p m .push).data = m.data := rfl

theorem data_lea : (MacroInsn.exec p m .lea).data = m.data := rfl

end Data

theorem data_checkMacroSave (p : Program) (m : Machine) :
    load (execAll p checkMacroSave m).data p.fxstate 132 = savedXmm m := by
  have h0 : load (execAll p (checkMacroSave.take 10) m).data p.fxstate 0 = [] := rfl
  have h1 := data_movupd (o := 0) h0 rfl 0 (by decide)
  have h2 := data_movupd (o := 0x10) h1 rfl 1 (by decide)
  have h3 := data_movupd (o := 0x20) h2 rfl 2 (by decide)
  have h4 := data_movupd (o := 0x30) h3 rfl 3 (by decide)
  have h5 := data_movupd (o := 0x40) h4 rfl 4 (by decide)
  have h6 := data_movupd (o := 0x50) h5 rfl 5 (by decide)
  have h7 := data_movupd (o := 0x60) h6 rfl 6 (by decide)
  have h8 := data_movupd (o := 0x70) h7 rfl 7 (by decide)
  have h9 := data_stmxcsr (o := 0x80) h8 rfl (by decide)
  have hxmm : (execAll p (checkMacroSave.take 10) m).xmm = m.xmm := by
    simp [execAll, checkMacroSave, exec_xmm]
  have hmxcsr : (execAll p (checkMacroSave.take 10) m).mxcsr = m.mxcsr := by
    simp [execAll, checkMacroSave, exec_mxcsr]
  simp only [exec_xmm, exec_mxcsr, hxmm, hmxcsr, List.append_assoc, List.nil_append] at h9
  have hsave : execAll p checkMacroSave m = MacroInsn.exec p (MacroInsn.exec p
      (execAll p (checkMacroSave.take 19) m) .lea) .push := rfl
  rw [hsave, data_push, data_lea]
  exact h9

-- ---------------------------------------------------------------------------
-- The arguments
-- ---------------------------------------------------------------------------

/-- The arguments are read from the stack and, behind the pointer, from the data section. -/
theorem checkArgs_of_top {m : Machine} {ret ptr : BitVec 32} {image regs data : List Byte}
    (h : m.Top (leBytes 4 ret.toNat ++ (leBytes 4 ptr.toNat ++ (image ++ regs))))
    (hi : image.length = 108) (hr : regs.length = 64) (hd : load m.data ptr 132 = data) :
    m.checkArgs = ⟨.ofBytes data, .ofBytes image, .ofBytes regs⟩ := by
  have hptr : m.stack32 4 = ptr := h.stack32 (leBytes_length ..)
  rw [← List.append_assoc] at h
  have himage : load m.stack (m.esp + 8) 108 = image := h.part (by simp) hi
  rw [← List.append_assoc] at h
  have hregs : load m.stack (m.esp + 116) 64 = regs := by
    rw [← hr]
    exact h.rest (by simp [hi])
  rw [Machine.checkArgs, hptr, hd, himage, hregs]

/-- What the structures are read from. -/
theorem checkArgs_checkMacroCall (p : Program) (m : Machine) :
    (checkMacroCall p m).checkArgs =
      ⟨.ofBytes (savedXmm m), .ofBytes (m.x87.image p.resv), .ofBytes (savedRegs p m)⟩ := by
  let m₁ := execAll p getPc ((MacroInsn.exec p m .pusha).push32 p.afterGetPc)
  have hxmm : m₁.xmm = m.xmm := by
    simp [m₁, execAll, getPc, exec_xmm]
  have hmxcsr : m₁.mxcsr = m.mxcsr := by
    simp [m₁, execAll, getPc, exec_mxcsr]
  have hcall : checkMacroCall p m = (execAll p checkMacroSave m₁).push32 p.afterCheckPoint := rfl
  have hdata : load (checkMacroCall p m).data p.fxstate 132 = savedXmm m := by
    rw [hcall, push32_data, data_checkMacroSave, savedXmm, savedXmm, hxmm, hmxcsr]
  have htop := top_checkMacroCall p m
  rw [savedArgs] at htop
  exact checkArgs_of_top htop (image_length ..) (savedRegs_length ..) hdata

structure Passed (m : Machine) (a : CheckArgs) : Prop where
  eax : a.x86regs.eax = m.eax
  ecx : a.x86regs.ecx = m.ecx
  edx : a.x86regs.edx = m.edx
  ebx : a.x86regs.ebx = m.ebx
  esp : a.x86regs.esp = m.esp
  ebp : a.x86regs.ebp = m.ebp
  esi : a.x86regs.esi = m.esi
  edi : a.x86regs.edi = m.edi
  cs : a.x86regs.cs = m.cs
  ss : a.x86regs.ss = m.ss
  ds : a.x86regs.ds = m.ds
  es : a.x86regs.es = m.es
  fs : a.x86regs.fs = m.fs
  gs : a.x86regs.gs = m.gs
  eflags : a.x86regs.eflags = m.eflags
  fcw : a.x87fpustate.getFcw = m.x87.fcw
  fsw : a.x87fpustate.getFsw = m.x87.fsw
  ftw : a.x87fpustate.getFtw = m.x87.ftw
  ffip : a.x87fpustate.getFfip = m.x87.fip
  ffop : a.x87fpustate.getFfop = m.x87.fop.setWidth 16
  ffdp : a.x87fpustate.getFfdp = m.x87.fdp
  st : ∀ i : Fin 8, a.x87fpustate.getSt i =
    ⟨(m.x87.st i).setWidth 64, (m.x87.st i >>> 64).setWidth 16⟩
  xmm : ∀ i, a.ssestate.getXmm i = ⟨(m.xmm i).setWidth 64, (m.xmm i >>> 64).setWidth 64⟩
  mxcsr : a.ssestate.getMxcsr = m.mxcsr

/-- The pointers of the x87 unit are where `X87LegacyFPUSaveArea` has them, although
it is laid out as `fsave` stores them in real mode. -/
def PointersFit (resv : BitVec 16) (x : X87) : Prop :=
  x.fip.toNat / 2 ^ 16 = x.fcs.toNat / 2 ^ 12 + 2 ^ 4 * x.fop.toNat ∧
  x.fop.toNat = x.fcs.toNat % 2 ^ 12 ∧
  x.fdp.toNat / 2 ^ 16 = (x.fds.toNat / 2 ^ 12 + 2 ^ 4 * resv.toNat) % 2 ^ 16

theorem ofNat_low {w v : Nat} (x : BitVec w) : BitVec.ofNat v (x.toNat / 256 ^ 0) = x.setWidth v := by
  simp

theorem ofNat_high {w v : Nat} (x : BitVec w) :
    BitVec.ofNat v (x.toNat / 256 ^ 8) = (x >>> 64).setWidth v := by
  refine BitVec.eq_of_toNat_eq ?_
  rw [BitVec.toNat_ofNat, BitVec.toNat_setWidth, BitVec.toNat_ushiftRight,
    Nat.shiftRight_eq_div_pow]
  rfl

theorem getXmm_ofBytes (m : Machine) (i : Fin 8) :
    (SSEStateSaveArea.ofBytes (savedXmm m)).getXmm i =
      ⟨(m.xmm i).setWidth 64, (m.xmm i >>> 64).setWidth 64⟩ := by
  have hget : (SSEStateSaveArea.ofBytes (savedXmm m)).getXmm i =
      ⟨wordAt 64 (savedXmm m) (16 * i.val) 8, wordAt 64 (savedXmm m) (16 * i.val + 8) 8⟩ :=
    Vector.getElem_ofFn i.isLt
  rw [hget, savedXmm, ← ofNat_low, ← ofNat_high]
  fin_cases i <;> simp (disch := decide) [wordAt_skip, wordAt_part]

theorem getSt_image (resv : BitVec 16) (x : X87) (i : Fin 8) :
    (X87LegacyFPUSaveArea.ofBytes (x.image resv)).getSt i =
      ⟨(x.st i).setWidth 64, (x.st i >>> 64).setWidth 16⟩ := by
  rw [getSt_ofBytes (image_length ..), ← ofNat_low, ← ofNat_high]
  unfold X87.image
  fin_cases i <;> simp (disch := decide) [wordAt_skip, wordAt_part, wordAt_last]

/-- Two halves put together. -/
theorem toNat_halves (lo hi : BitVec 16) :
    (lo.setWidth 32 ||| hi.setWidth 32 <<< 16).toNat = lo.toNat + 2 ^ 16 * hi.toNat := by
  have hhi : (hi.setWidth 32 <<< 16).toNat = hi.toNat <<< 16 := by
    have := hi.isLt
    rw [BitVec.toNat_shiftLeft, BitVec.toNat_setWidth, Nat.shiftLeft_eq, Nat.shiftLeft_eq]
    omega
  have hlo : (lo.setWidth 32).toNat = lo.toNat := by
    have := lo.isLt
    rw [BitVec.toNat_setWidth]
    omega
  rw [BitVec.toNat_or, hhi, hlo, Nat.or_comm, ← Nat.shiftLeft_add_eq_or_of_lt lo.isLt,
    Nat.shiftLeft_eq]
  omega

section Pointers

variable (resv : BitVec 16) (x : X87)

/-- The word with the code selector and the opcode, which the structure splits
otherwise. -/
theorem wordAt_image_fop :
    wordAt 32 (x.image resv) 16 4 = .ofNat 32 (x.fcs.toNat + 2 ^ 16 * x.fop.toNat) := by
  unfold X87.image
  simp (disch := decide) only [List.append_assoc, wordAt_skip, Nat.reduceSub]
  exact wordAt_pair _ x.fcs.isLt

theorem wordAt_image_fds :
    wordAt 32 (x.image resv) 24 4 = .ofNat 32 (x.fds.toNat + 2 ^ 16 * resv.toNat) := by
  unfold X87.image
  simp (disch := decide) only [List.append_assoc, wordAt_skip, Nat.reduceSub]
  exact wordAt_pair _ x.fds.isLt

theorem wordAt_image_fip : wordAt 16 (x.image resv) 12 2 = .ofNat 16 x.fip.toNat := by
  unfold X87.image
  simp (disch := decide) only [List.append_assoc, wordAt_skip, Nat.reduceSub, wordAt_part,
    Nat.pow_zero, Nat.div_one]

theorem wordAt_image_fdp : wordAt 16 (x.image resv) 20 2 = .ofNat 16 x.fdp.toNat := by
  unfold X87.image
  simp (disch := decide) only [List.append_assoc, wordAt_skip, Nat.reduceSub, wordAt_part,
    Nat.pow_zero, Nat.div_one]

/-- The middle bits of a word of two halves. -/
theorem toNat_middle {a b : Nat} :
    ((BitVec.ofNat 32 (a + 2 ^ 16 * b)).extractLsb' 12 16).toNat =
      (a / 2 ^ 12 + 2 ^ 4 * b) % 2 ^ 16 := by
  rw [BitVec.extractLsb'_toNat, BitVec.toNat_ofNat, Nat.shiftRight_eq_div_pow]
  omega

theorem getFfip_image :
    (X87LegacyFPUSaveArea.ofBytes (x.image resv)).getFfip = x.fip ↔
      x.fip.toNat / 2 ^ 16 = x.fcs.toNat / 2 ^ 12 + 2 ^ 4 * x.fop.toNat := by
  have hcs := x.fcs.isLt
  have hop := x.fop.isLt
  rw [← BitVec.toNat_inj, X87LegacyFPUSaveArea.getFfip, toNat_halves,
    X87LegacyFPUSaveArea.ofBytes, wordAt_image_fop, wordAt_image_fip, toNat_middle,
    BitVec.toNat_ofNat]
  omega

theorem getFfop_image :
    (X87LegacyFPUSaveArea.ofBytes (x.image resv)).getFfop = x.fop.setWidth 16 ↔
      x.fop.toNat = x.fcs.toNat % 2 ^ 12 := by
  have hop := x.fop.isLt
  have hlow : ((BitVec.ofNat 32 (x.fcs.toNat + 2 ^ 16 * x.fop.toNat)).extractLsb' 0 12).toNat =
      x.fcs.toNat % 2 ^ 12 := by
    rw [BitVec.extractLsb'_toNat, BitVec.toNat_ofNat, Nat.shiftRight_zero]
    omega
  rw [← BitVec.toNat_inj, X87LegacyFPUSaveArea.getFfop, X87LegacyFPUSaveArea.ofBytes,
    wordAt_image_fop, BitVec.toNat_setWidth, BitVec.toNat_setWidth, hlow]
  omega

theorem getFfdp_image :
    (X87LegacyFPUSaveArea.ofBytes (x.image resv)).getFfdp = x.fdp ↔
      x.fdp.toNat / 2 ^ 16 = (x.fds.toNat / 2 ^ 12 + 2 ^ 4 * resv.toNat) % 2 ^ 16 := by
  have hdp := x.fdp.isLt
  rw [← BitVec.toNat_inj, X87LegacyFPUSaveArea.getFfdp, toNat_halves,
    X87LegacyFPUSaveArea.ofBytes, wordAt_image_fds, wordAt_image_fdp, toNat_middle,
    BitVec.toNat_ofNat]
  omega

end Pointers

/-- All but the pointers of the x87 unit is passed as it is. -/
theorem passed_iff (p : Program) (m : Machine) :
    Passed m (checkMacroCall p m).checkArgs ↔ PointersFit p.resv m.x87 := by
  rw [checkArgs_checkMacroCall]
  constructor
  · intro h
    exact ⟨(getFfip_image ..).1 h.ffip, (getFfop_image ..).1 h.ffop, (getFfdp_image ..).1 h.ffdp⟩
  · rintro ⟨hip, hop, hdp⟩
    constructor
    case ffip => exact (getFfip_image ..).2 hip
    case ffop => exact (getFfop_image ..).2 hop
    case ffdp => exact (getFfdp_image ..).2 hdp
    case st => exact getSt_image _ _
    case xmm => exact getXmm_ofBytes m
    case mxcsr =>
      simp (disch := decide) [SSEStateSaveArea.getMxcsr, SSEStateSaveArea.ofBytes, savedXmm,
        wordAt_skip, wordAt_last]
    case fcw | fsw | ftw =>
      unfold X87.image
      simp (disch := decide) [X87LegacyFPUSaveArea.getFcw, X87LegacyFPUSaveArea.getFsw,
        X87LegacyFPUSaveArea.getFtw, X87LegacyFPUSaveArea.ofBytes, wordAt_skip, wordAt_here]
    all_goals
      simp (disch := decide) [X86StandardRegisters.ofBytes, savedRegs, wordAt_skip, wordAt_here,
        wordAt_last]

structure Restored (m m' : Machine) : Prop where
  eax : m'.eax = m.eax
  ecx : m'.ecx = m.ecx
  edx : m'.edx = m.edx
  ebx : m'.ebx = m.ebx
  esp : m'.esp = m.esp
  ebp : m'.ebp = m.ebp
  esi : m'.esi = m.esi
  edi : m'.edi = m.edi
  sreg : ∀ r, m'.sreg r = m.sreg r
  eflags : m'.eflags = m.eflags
  x87 : m'.x87 = m.x87
  xmm : m'.xmm = m.xmm
  mxcsr : m'.mxcsr = m.mxcsr

/-- What a called function keeps: it returns to its caller, and leaves the registers
that the convention has it keep, the segment registers, `mxcsr` and its 176 bytes of
arguments as they were. -/
structure Cdecl (f : Machine → Machine) : Prop where
  esp : ∀ m, (f m).esp = m.esp + 4
  ebx : ∀ m, (f m).ebx = m.ebx
  esi : ∀ m, (f m).esi = m.esi
  edi : ∀ m, (f m).edi = m.edi
  ebp : ∀ m, (f m).ebp = m.ebp
  sreg : ∀ m r, (f m).sreg r = m.sreg r
  mxcsr : ∀ m, (f m).mxcsr = m.mxcsr
  args : ∀ m, load (f m).stack (m.esp + 4) 176 = load m.stack (m.esp + 4) 176

section Restore

variable {p : Program} {m : Machine} {bs : List Byte}

theorem top_pop {v : BitVec 32} (h : m.Top (leBytes 4 v.toNat ++ bs)) :
    (MacroInsn.exec p m .pop).Top bs :=
  h.rest (leBytes_length ..)

/-- A segment register and its padding are one word. -/
theorem top_popSreg {a b : Nat} (h : m.Top (leBytes 2 a ++ (leBytes 2 b ++ bs))) :
    (MacroInsn.exec p m .pop).Top bs := by
  rw [← List.append_assoc] at h
  exact h.rest (by simp)

theorem top_popf {v : BitVec 32} (h : m.Top (leBytes 4 v.toNat ++ bs)) :
    (MacroInsn.exec p m .popf).Top bs ∧ (MacroInsn.exec p m .popf).eflags = v :=
  ⟨h.rest (leBytes_length ..), h.stack32 (l := []) rfl⟩

theorem top_frstor {resv : BitVec 16} {x : X87} (h : m.Top (x.image resv ++ bs)) :
    (MacroInsn.exec p (MacroInsn.exec p m .frstor) (.addEsp 0x6c)).Top bs ∧
      (MacroInsn.exec p (MacroInsn.exec p m .frstor) (.addEsp 0x6c)).x87 = x := by
  refine ⟨h.rest (image_length ..), ?_⟩
  have himage : load m.stack m.esp 108 = x.image resv := h.first (image_length ..)
  rw [exec_x87 p _ (.addEsp 0x6c) nofun nofun, MacroInsn.exec, himage, ofImage_image]

/-- What the registers are after `popa`. -/
theorem popa_regs {edi esi ebp esp ebx edx ecx eax : BitVec 32}
    (h : m.Top (leBytes 4 edi.toNat ++ (leBytes 4 esi.toNat ++ (leBytes 4 ebp.toNat ++
      (leBytes 4 esp.toNat ++ (leBytes 4 ebx.toNat ++ (leBytes 4 edx.toNat ++
      (leBytes 4 ecx.toNat ++ (leBytes 4 eax.toNat ++ []))))))))) :
    MacroInsn.exec p m .popa =
      { m with
        edi := edi, esi := esi, ebp := ebp, ebx := ebx, edx := edx, ecx := ecx, eax := eax
        esp := m.esp + 32 } := by
  have h0 : m.stack32 0 = edi := h.stack32 (l := []) rfl
  have h4 : m.stack32 4 = esi := h.stack32 (leBytes_length ..)
  rw [← List.append_assoc] at h
  have h8 : m.stack32 8 = ebp := h.stack32 (by simp)
  rw [← List.append_assoc] at h
  rw [← List.append_assoc] at h
  have h16 : m.stack32 16 = ebx := h.stack32 (by simp)
  rw [← List.append_assoc] at h
  have h20 : m.stack32 20 = edx := h.stack32 (by simp)
  rw [← List.append_assoc] at h
  have h24 : m.stack32 24 = ecx := h.stack32 (by simp)
  rw [← List.append_assoc] at h
  have h28 : m.stack32 28 = eax := h.stack32 (by simp)
  rw [MacroInsn.exec, h0, h4, h8, h16, h20, h24, h28]

theorem esp_pop : (MacroInsn.exec p m .pop).esp = m.esp + 4 := rfl

theorem eflags_pop : (MacroInsn.exec p m .pop).eflags = m.eflags := rfl

theorem esp_popf : (MacroInsn.exec p m .popf).esp = m.esp + 4 := rfl

theorem esp_frstor :
    (MacroInsn.exec p (MacroInsn.exec p m .frstor) (.addEsp 0x6c)).esp = m.esp + 0x6c := rfl

end Restore

/-- With the arguments still on the stack, the rest of the macro loads the registers
back from them and releases them. -/
theorem execAll_checkMacroRestore {p : Program} {m c : Machine} (h : c.Top (savedArgs p m)) :
    let r := execAll p checkMacroRestore c
    (r.eax = m.eax ∧ r.ecx = m.ecx ∧ r.edx = m.edx ∧ r.ebx = m.ebx ∧ r.ebp = m.ebp ∧
      r.esi = m.esi ∧ r.edi = m.edi) ∧
    r.esp = c.esp + 176 ∧ r.eflags = m.eflags ∧ r.x87 = m.x87 := by
  rw [savedArgs] at h
  have h1 := top_pop (p := p) h
  obtain ⟨h2, hx87⟩ := top_frstor (p := p) h1
  rw [savedRegs] at h2
  have h3 := top_popSreg (p := p) h2
  have h4 := top_popSreg (p := p) h3
  have h5 := top_popSreg (p := p) h4
  have h6 := top_popSreg (p := p) h5
  have h7 := top_popSreg (p := p) h6
  have h8 := top_popSreg (p := p) h7
  obtain ⟨h9, heflags⟩ := top_popf (p := p) h8
  have h10 := top_pop (p := p) h9
  simp only [execAll, checkMacroRestore, List.foldl_cons, List.foldl_nil, popa_regs h10]
  refine ⟨⟨trivial, trivial, trivial, trivial, trivial, trivial, trivial⟩, ?_, ?_, ?_⟩
  · simp only [esp_pop, esp_popf, esp_frstor]
    bv_omega
  · rw [eflags_pop, heflags]
  · rw [exec_x87 p _ .pop nofun nofun, exec_x87 p _ .popf nofun nofun]
    simp only [exec_x87 p _ .pop nofun nofun]
    exact hx87

/-- The words that the macro pushes take 180 bytes. -/
theorem esp_checkMacroCall (p : Program) (m : Machine) :
    (checkMacroCall p m).esp = m.esp - 180 := by
  have hpush32 (m : Machine) (v : BitVec 32) : (m.push32 v).esp = m.esp - 4 := by
    simp [Machine.push32, Machine.pushBytes]
  have hsreg (m : Machine) (r : SReg) : (MacroInsn.exec p m (.pushSreg r)).esp = m.esp - 4 := by
    simp [MacroInsn.exec, Machine.pushBytes]
  have hpush (m : Machine) : (MacroInsn.exec p m .push).esp = m.esp - 4 := hpush32 ..
  have hpushf (m : Machine) : (MacroInsn.exec p m .pushf).esp = m.esp - 4 := hpush32 ..
  have hpusha : (MacroInsn.exec p m .pusha).esp = m.esp - 4 - 4 - 4 - 4 - 4 - 4 - 4 - 4 := by
    simp only [MacroInsn.exec, List.foldl_cons, List.foldl_nil, hpush32]
  have hgetPc (m : Machine) : (execAll p getPc m).esp = m.esp + 4 := rfl
  have hsub (m : Machine) : (MacroInsn.exec p m (.subEsp 0x6c)).esp = m.esp - 0x6c := rfl
  have hfsave (m : Machine) : (MacroInsn.exec p m .fsave).esp = m.esp := rfl
  have hmovupd (m : Machine) (o : BitVec 32) (i : Fin 8) :
      (MacroInsn.exec p m (.movupd o i)).esp = m.esp := rfl
  have hstmxcsr (m : Machine) (o : BitVec 32) :
      (MacroInsn.exec p m (.stmxcsr o)).esp = m.esp := rfl
  have hlea (m : Machine) : (MacroInsn.exec p m .lea).esp = m.esp := rfl
  have hsave (m : Machine) : (execAll p checkMacroSave m).esp =
      m.esp - 4 - 4 - 4 - 4 - 4 - 4 - 4 - 4 - 0x6c - 4 := by
    simp only [execAll, checkMacroSave, List.foldl_cons, List.foldl_nil, hpush, hpushf, hsreg,
      hsub, hfsave, hmovupd, hstmxcsr, hlea]
  rw [checkMacroCall, hpush32, hsave, hgetPc, hpush32, hpusha]
  bv_omega

section Frame

variable {p : Program} (is : List MacroInsn) (m : Machine)

theorem execAll_sreg (r : SReg) : (execAll p is m).sreg r = m.sreg r := by
  induction is generalizing m with
  | nil => rfl
  | cons i is ih => rw [execAll, List.foldl_cons, ← execAll, ih, exec_sreg]

theorem execAll_xmm : (execAll p is m).xmm = m.xmm := by
  induction is generalizing m with
  | nil => rfl
  | cons i is ih => rw [execAll, List.foldl_cons, ← execAll, ih, exec_xmm]

theorem execAll_mxcsr : (execAll p is m).mxcsr = m.mxcsr := by
  induction is generalizing m with
  | nil => rfl
  | cons i is ih => rw [execAll, List.foldl_cons, ← execAll, ih, exec_mxcsr]

end Frame

/-- The macro passes the registers and leaves them as they were exactly when the called
function does not change `xmm0` to `xmm7`, which nothing restores, and the pointers of
the x87 unit fit the layout of the structure. -/
theorem check_macro_transparent (p : Program) (h : Cdecl p.checkPoint) (m : Machine) :
    (Passed m (checkMacroCall p m).checkArgs ∧ Restored m (checkMacro p m)) ↔
      (p.checkPoint (checkMacroCall p m)).xmm = m.xmm ∧ PointersFit p.resv m.x87 := by
  let c := checkMacroCall p m
  have htop : (p.checkPoint c).Top (savedArgs p m) := by
    have hrest := (top_checkMacroCall p m).rest (leBytes_length ..)
    rw [savedArgs_length] at hrest
    rw [Machine.Top, h.esp, savedArgs_length, h.args]
    exact hrest
  obtain ⟨⟨heax, hecx, hedx, hebx, hebp, hesi, hedi⟩, hesp, heflags, hx87⟩ :=
    execAll_checkMacroRestore htop
  rw [passed_iff]
  constructor
  · rintro ⟨hfit, hback⟩
    exact ⟨(execAll_xmm ..).symm.trans hback.xmm, hfit⟩
  · rintro ⟨hxmm, hfit⟩
    refine ⟨hfit, ?_⟩
    constructor
    case eax => exact heax
    case ecx => exact hecx
    case edx => exact hedx
    case ebx => exact hebx
    case ebp => exact hebp
    case esi => exact hesi
    case edi => exact hedi
    case eflags => exact heflags
    case x87 => exact hx87
    case esp =>
      refine hesp.trans ?_
      rw [h.esp, esp_checkMacroCall]
      bv_omega
    case sreg =>
      intro r
      refine (execAll_sreg ..).trans ((h.sreg ..).trans ?_)
      simp [checkMacroCall, execAll_sreg, exec_sreg]
    case xmm => exact (execAll_xmm ..).trans hxmm
    case mxcsr =>
      refine (execAll_mxcsr ..).trans ((h.mxcsr ..).trans ?_)
      simp [checkMacroCall, execAll_mxcsr, exec_mxcsr]

/-- A function that returns with its arguments in place and `xmm0` cleared. -/
def clearXmm0 (m : Machine) : Machine :=
  { m with esp := m.esp + 4, xmm := Function.update m.xmm 0 0 }

def returnOnly (m : Machine) : Machine := { m with esp := m.esp + 4 }

theorem cdecl_clearXmm0 : Cdecl clearXmm0 :=
  ⟨fun _ => rfl, fun _ => rfl, fun _ => rfl, fun _ => rfl, fun _ => rfl,
    fun _ r => by cases r <;> rfl, fun _ => rfl, fun _ => rfl⟩

theorem cdecl_returnOnly : Cdecl returnOnly :=
  ⟨fun _ => rfl, fun _ => rfl, fun _ => rfl, fun _ => rfl, fun _ => rfl,
    fun _ r => by cases r <;> rfl, fun _ => rfl, fun _ => rfl⟩

def onesMachine : Machine where
  eax := 0
  ecx := 0
  edx := 0
  ebx := 0
  esp := 0xffffd000
  ebp := 0
  esi := 0
  edi := 0
  cs := 0x23
  ss := 0x2b
  ds := 0x2b
  es := 0x2b
  fs := 0
  gs := 0x63
  eflags := 0x202
  x87 := X87.init ⟨0, 0, 0, 0, 0, 0, 0, 0, fun _ => 0⟩
  xmm := Function.update (fun _ => 0) 0 1
  mxcsr := 0x1f80
  stack := fun _ => 0
  data := fun _ => 0

def program (f : Machine → Machine) : Program := ⟨0x8049000, 0x8048005, 0x8048060, 0, f⟩

theorem check_macro_transparent_return :
    Cdecl returnOnly ∧ Restored onesMachine (checkMacro (program returnOnly) onesMachine) := by
  have h := check_macro_transparent (program returnOnly) cdecl_returnOnly onesMachine
  have hxmm : (returnOnly (checkMacroCall (program returnOnly) onesMachine)).xmm =
      onesMachine.xmm := by
    simp [returnOnly, checkMacroCall, execAll_xmm, exec_xmm]
  exact ⟨cdecl_returnOnly, (h.2 ⟨hxmm, rfl, rfl, rfl⟩).2⟩

/-- What the called function leaves in `xmm0` is what the test goes on with. -/
theorem check_macro_loses_xmm0 :
    Cdecl clearXmm0 ∧ ¬Restored onesMachine (checkMacro (program clearXmm0) onesMachine) := by
  refine ⟨cdecl_clearXmm0, fun h => ?_⟩
  have hxmm : (checkMacro (program clearXmm0) onesMachine).xmm 0 = 0 := by
    rw [checkMacro, execAll_xmm]
    rfl
  rw [h.xmm] at hxmm
  exact absurd hxmm (by decide)

end Btrtg
