import Btrtg.Frame

/-!
# Made addresses

`create_random_modrm` in its steps, and what it leaves: the set-up of the
operand it made in the global text, and the locks as they were.
-/

namespace Btrtg

open Prog OpFlags

-- ---------------------------------------------------------------------------
-- Steps
-- ---------------------------------------------------------------------------

def drawMode (flags : OpFlags) : M SibMode :=
  if isClass memOffs flags then pure .d else do
    let i ← nasmRandom32 6
    pure (sibModes.getD i .d)

def drawBase (mode : SibMode) (data patience : Nat) : M Reg :=
  if mode.hasBase then do
    let base ← drawUnlocked addrRegs 6 patience
    statLockReg base .mem
    modify fun g => { g with initMemAddr := [.lea base data] }
    pure base
  else pure .eax

def drawIndex (mode : SibMode) (value patience : Nat) : M Reg :=
  if mode.hasIndex then do
    let index ← drawUnlocked addrRegs 6 patience
    modify fun g => { g with initMemAddr := g.initMemAddr ++ [.movIndex index value] }
    pure index
  else pure .eax

def modrmOf (mode : SibMode) (addr : RandomMemAddr) (base index : Reg) : ModRM :=
  match mode with
  | .d => .d addr.base
  | .b => .b base addr.base
  | .bd => .bd base addr.base addr.disp
  | .isd => .isd index addr.scale addr.base addr.index
  | .bid => .bid base index addr.base addr.index addr.disp
  | .bisd => .bisd base index addr.scale addr.base addr.index addr.disp

theorem createRandomModrm_eq (flags : OpFlags) : createRandomModrm flags = (do
    let g ← get
    record (.modrm g.hasMemOpnd)
    let mode ← drawMode flags
    let addr ← randomMemAddrFromData mode
    modify fun g => { g with initMemAddr := [] }
    let base ← drawBase mode addr.base g.patience
    let index ← drawIndex mode addr.index g.patience
    statUnlockReg .mem
    if mode ≠ .d then
      modify fun g => { g with hasMemOpnd := true }
    pure (modrmOf mode addr base index)) := by
  unfold createRandomModrm drawMode drawBase drawIndex
  refine bind_congr fun g => bind_congr fun _ => ?_
  dsimp only
  split
  · simp only [pure_bind]
    refine bind_congr fun addr => bind_congr fun _ => ?_
    simp [SibMode.hasBase, SibMode.hasIndex, modrmOf]
  · simp only [bind_assoc, pure_bind]
    refine bind_congr fun i => bind_congr fun addr => bind_congr fun _ => ?_
    generalize sibModes.getD i .d = mode
    cases mode <;> simp [SibMode.hasBase, SibMode.hasIndex, modrmOf]

-- ---------------------------------------------------------------------------
-- Draws
-- ---------------------------------------------------------------------------

def Drawn (g g' : Gen) : Prop := ∃ n, g' = { g with randi := n }

section
variable {g g' : Gen} {α : Type} {m : M α} {mode : SibMode} {r : Reg}

theorem Drawn.refl (g : Gen) : Drawn g g := ⟨g.randi, rfl⟩

theorem Drawn.trans (h : Drawn g₁ g₂) (h' : Drawn g₂ g₃) : Drawn g₁ g₃ := by
  obtain ⟨n, rfl⟩ := h
  obtain ⟨n', rfl⟩ := h'
  exact ⟨n', rfl⟩

theorem drawn_rand : Keeps Drawn NoOverflow rand := fun g => ⟨⟨g.randi + 1, rfl⟩, nofun⟩

theorem drawn_draws (h : Uses (fun _ m => Keeps Drawn NoOverflow m) NoOverflow m) :
    Keeps Drawn NoOverflow m :=
  h.keeps Drawn.refl (fun _ _ _ => Drawn.trans) fun _ h => h

theorem drawn_drawMode (flags : OpFlags) : Keeps Drawn NoOverflow (drawMode flags) := by
  refine drawn_draws ?_
  unfold drawMode
  split
  · exact .pure _
  · exact .bind (draws_nasmRandom32 drawn_rand 6) fun i => .pure _

/-- A register that is drawn is not locked. -/
theorem drawUnlocked_free {regs : List Reg} {n patience : Nat}
    (h : (drawUnlocked regs n patience).run g = (.ok r, g')) :
    g.lockRegCases (getLockRegType r) = .null := by
  induction patience generalizing g with
  | zero => cases h
  | succ patience ih =>
    obtain ⟨i, g₁, hi, h⟩ := bind_ok.1 h
    obtain ⟨k, rfl⟩ := (drawn_draws (draws_nasmRandom32 drawn_rand n)).of_run hi
    split at h
    · cases h
    · obtain ⟨_, _, hg, h⟩ := bind_ok.1 h
      cases hg
      split at h
      · have := ih h
        exact this
      · rename_i hu
        cases h
        simpa [X86PGState.regLocked] using hu

theorem drawUnlocked_ok {regs : List Reg} {n patience : Nat}
    (h : (drawUnlocked regs n patience).run g = (.ok r, g')) :
    Drawn g g' ∧ g.lockRegCases (getLockRegType r) = .null :=
  ⟨(drawn_draws (draws_drawUnlocked drawn_rand regs n patience)).of_run h, drawUnlocked_free h⟩

/-- What the choice of a base register leaves. -/
theorem drawBase_ok {data patience : Nat} (h : (drawBase mode data patience).run g = (.ok r, g')) :
    (mode.hasBase = true → g.lockRegCases (getLockRegType r) = .null) ∧ ∃ n, g' =
      if mode.hasBase then
        { g with
          randi := n
          lockRegCases := fun t => if t = getLockRegType r then .mem else g.lockRegCases t
          initMemAddr := [.lea r data] }
      else { g with randi := n } := by
  unfold drawBase at h
  split at h
  · rename_i hb
    obtain ⟨base, g₁, hd, h⟩ := bind_ok.1 h
    obtain ⟨⟨n, rfl⟩, hu⟩ := drawUnlocked_ok hd
    cases h
    exact ⟨fun _ => hu, n, by rw [if_pos hb]⟩
  · rename_i hb
    cases h
    exact ⟨fun h => absurd h hb, g.randi, by rw [if_neg hb]⟩

theorem drawIndex_ok {value patience : Nat}
    (h : (drawIndex mode value patience).run g = (.ok r, g')) :
    (mode.hasIndex = true → g.lockRegCases (getLockRegType r) = .null) ∧ ∃ n, g' =
      if mode.hasIndex then
        { g with
          randi := n
          initMemAddr := g.initMemAddr ++ [.movIndex r value] }
      else { g with randi := n } := by
  unfold drawIndex at h
  split at h
  · rename_i hb
    obtain ⟨index, g₁, hd, h⟩ := bind_ok.1 h
    obtain ⟨⟨n, rfl⟩, hu⟩ := drawUnlocked_ok hd
    cases h
    exact ⟨fun _ => hu, n, by rw [if_pos hb]⟩
  · rename_i hb
    cases h
    exact ⟨fun h => absurd h hb, g.randi, by rw [if_neg hb]⟩

end

-- ---------------------------------------------------------------------------
-- The operand
-- ---------------------------------------------------------------------------

structure MadeModrm (g : Gen) (m : ModRM) (g' : Gen) : Prop where
  initMemAddr : g'.initMemAddr = m.setup
  hasMemOpnd : g'.hasMemOpnd = (g.hasMemOpnd || m.usesReg)
  lockRegCases : g'.lockRegCases = g.lockRegCases
  log : g'.log = g.log ++ [.modrm g.hasMemOpnd]
  free : ∀ r, m.base? = some r ∨ m.index? = some r → g.lockRegCases (getLockRegType r) = .null
  apart : ∀ b i, m.base? = some b → m.index? = some i → getLockRegType b ≠ getLockRegType i

theorem createRandomModrm_ok {g g' : Gen} {flags : OpFlags} {m : ModRM}
    (w : ∀ t, g.lockRegCases t ≠ .mem) (h : (createRandomModrm flags).run g = (.ok m, g')) :
    MadeModrm g m g' := by
  rw [createRandomModrm_eq] at h
  obtain ⟨_, _, hget, h⟩ := bind_ok.1 h
  cases hget
  obtain ⟨_, _, hrec, h⟩ := bind_ok.1 h
  cases hrec
  obtain ⟨mode, g₁, hmode, h⟩ := bind_ok.1 h
  obtain ⟨n₁, rfl⟩ := (drawn_drawMode flags).of_run hmode
  obtain ⟨addr, g₂, haddr, h⟩ := bind_ok.1 h
  obtain ⟨n₂, rfl⟩ := (drawn_draws (draws_randomMemAddrFromData drawn_rand mode)).of_run haddr
  obtain ⟨_, _, hmod, h⟩ := bind_ok.1 h
  cases hmod
  obtain ⟨base, g₃, hbase, h⟩ := bind_ok.1 h
  obtain ⟨hbu, n₃, rfl⟩ := drawBase_ok hbase
  obtain ⟨index, g₄, hindex, h⟩ := bind_ok.1 h
  obtain ⟨hiu, n₄, rfl⟩ := drawIndex_ok hindex
  obtain ⟨_, _, hunlock, h⟩ := bind_ok.1 h
  cases hunlock
  clear hmode haddr hbase hindex
  -- the entry of the base register was free, so the release leaves it as it was
  have hback : ∀ t, g.lockRegCases (getLockRegType base) = .null →
      (if (if t = getLockRegType base then LockRegCase.mem else g.lockRegCases t) = .mem then .null
        else if t = getLockRegType base then .mem else g.lockRegCases t) = g.lockRegCases t := by
    intro t hfree
    by_cases ht : t = getLockRegType base
    · simp [ht, hfree]
    · simp [ht, w t]
  have hsame : ∀ t, (if g.lockRegCases t = .mem then .null else g.lockRegCases t) =
      g.lockRegCases t := fun t => if_neg (w t)
  have hbase : mode.hasBase = true → g.lockRegCases (getLockRegType base) = .null := hbu
  have hindex : mode.hasIndex = true → g.lockRegCases (getLockRegType index) = .null ∧
      (mode.hasBase = true → getLockRegType base ≠ getLockRegType index) := by
    intro hi
    have hu := hiu hi
    cases hb : mode.hasBase with
    | false => exact ⟨by simpa [hb] using hu, nofun⟩
    | true =>
      have hne : getLockRegType index ≠ getLockRegType base := by
        intro heq
        simp [hb, heq] at hu
      exact ⟨by simpa [hb, hne] using hu, fun _ => hne.symm⟩
  clear hbu hiu
  have hregs : mode.hasBase = true → _ := fun hb => funext fun t => hback t (hbase hb)
  cases mode with
  | d =>
    cases h
    refine ⟨rfl, (Bool.or_false _).symm, funext hsame, rfl, ?_, nofun⟩
    rintro r (h | h) <;> cases h
  | b | bd =>
    cases h
    refine ⟨rfl, (Bool.or_true _).symm, hregs rfl, rfl, ?_, nofun⟩
    rintro r (h | h) <;> cases h
    exact hbase rfl
  | isd =>
    cases h
    refine ⟨rfl, (Bool.or_true _).symm, funext hsame, rfl, ?_, nofun⟩
    rintro r (h | h) <;> cases h
    exact (hindex rfl).1
  | bid | bisd =>
    cases h
    refine ⟨rfl, (Bool.or_true _).symm, hregs rfl, rfl, ?_, ?_⟩
    · rintro r (h | h) <;> cases h
      · exact hbase rfl
      · exact (hindex rfl).1
    · rintro b i h h'
      cases h
      cases h'
      exact (hindex rfl).2 rfl

end Btrtg
