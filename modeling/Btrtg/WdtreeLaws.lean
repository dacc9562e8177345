import Btrtg.CtrlLaws
import Btrtg.ParseTmplt
import Btrtg.Tk

/-!
# Selection from parsed trees

What a draw selects from a weighted node, by the partial sums of the weights,
and the trees that every draw selects a constant from.
-/

namespace Btrtg

open Wrap

-- ---------------------------------------------------------------------------
-- Parsed trees
-- ---------------------------------------------------------------------------

/-- A group that one of the two parsers stores. -/
inductive ParsedGroup : WdNode → Prop
  | consts {lib : Strto} {v : ConstNode} {doc : List XmlNode} {adds : List (Text × WdNode)}
      {key : Text} {node : WdNode} :
      parseCGs lib v doc = some adds → (key, node) ∈ adds → ParsedGroup node
  | insns {op : Text → Opcode} {doc : List XmlNode} {adds : List (Text × WdNode)} {key : Text}
      {node : WdNode} :
      parseGroups op doc = some adds → (key, node) ∈ adds → ParsedGroup node

/-- `hash_wdtrees`, as a lookup. -/
structure GroupTable where
  find : Text → Option WdNode
  parsed : ∀ {key node}, find key = some node → ParsedGroup node

/-- A tree that the parsers build. -/
inductive ParsedTree : WdRoot → Prop
  | opnd (table : GroupTable) {children : List XmlNode} {node : WdNode} (packedn : Nat) :
      parseOpndTK table.find children = some node → ParsedTree ⟨packedn, node⟩
  | sel (table : GroupTable) {children : List XmlNode} {tree : WdRoot} :
      parseSelBlk table.find children = some tree → ParsedTree tree
  | g (table : GroupTable) {e : XmlElement} {tree : WdRoot} :
      parseG table.find e = some tree → ParsedTree tree

/-- The trees that are parsed: a group, or a weight for each of some groups. -/
inductive Shallow : WdNode → Prop
  | leaf (cs : List ConstNode) : Shallow (.leaf cs)
  | inner {weights : List Int} {subs : List WdNode} : weights.length = subs.length →
      (∀ sub ∈ subs, ∃ cs, sub = .leaf cs) → Shallow (.inner weights subs)

theorem parseCGsFrom_leaf {lib : Strto} {v : ConstNode} {gs : List XmlElement}
    {adds : List (Text × WdNode)} (h : parseCGsFrom lib v gs = some adds) :
    ∀ add ∈ adds, ∃ cs, add.2 = .leaf cs := by
  induction gs generalizing v adds with
  | nil =>
    cases h
    simp
  | cons g gs ih =>
    obtain ⟨⟨last, cs⟩, -, h⟩ := Option.bind_eq_some_iff.1 h
    obtain ⟨key, -, h⟩ := Option.bind_eq_some_iff.1 h
    obtain ⟨adds', hadds, h⟩ := Option.bind_eq_some_iff.1 h
    cases h
    exact List.forall_mem_cons.2 ⟨⟨cs, rfl⟩, ih hadds⟩

theorem parseGroupsFrom_leaf {op : Text → Opcode} {gs : List XmlElement}
    {adds : List (Text × WdNode)} (h : parseGroupsFrom op gs = some adds) :
    ∀ add ∈ adds, ∃ cs, add.2 = .leaf cs := by
  induction gs generalizing adds with
  | nil =>
    cases h
    simp
  | cons g gs ih =>
    obtain ⟨cs, -, h⟩ := Option.bind_eq_some_iff.1 h
    obtain ⟨key, -, h⟩ := Option.bind_eq_some_iff.1 h
    obtain ⟨adds', hadds, h⟩ := Option.bind_eq_some_iff.1 h
    cases h
    exact List.forall_mem_cons.2 ⟨⟨cs, rfl⟩, ih hadds⟩

theorem ParsedGroup.leaf {node : WdNode} (h : ParsedGroup node) : ∃ cs, node = .leaf cs := by
  cases h with
  | consts hparse hmem => exact parseCGsFrom_leaf hparse _ hmem
  | insns hparse hmem => exact parseGroupsFrom_leaf hparse _ hmem

theorem parseWeighted_shallow (table : GroupTable) {key : String} {es : List XmlElement}
    {weights : List Int} {subs : List WdNode}
    (h : parseWeighted table.find key es = some (weights, subs)) :
    Shallow (.inner weights subs) := by
  induction es generalizing weights subs with
  | nil =>
    cases h
    exact .inner rfl (by simp)
  | cons e es ih =>
    obtain ⟨weight, -, h⟩ := Option.bind_eq_some_iff.1 h
    obtain ⟨sub, hsub, h⟩ := Option.bind_eq_some_iff.1 h
    obtain ⟨⟨weights', subs'⟩, hes, h⟩ := Option.bind_eq_some_iff.1 h
    cases h
    obtain ⟨name, -, hfind⟩ := Option.bind_eq_some_iff.1 hsub
    cases ih hes with
    | inner hlen hleaf =>
      exact .inner (congrArg Nat.succ hlen)
        (List.forall_mem_cons.2 ⟨(table.parsed hfind).leaf, hleaf⟩)

theorem ParsedTree.shallow {tree : WdRoot} (h : ParsedTree tree) : Shallow tree.wdNode := by
  cases h with
  | opnd table packedn hparse =>
    obtain ⟨⟨weights, subs⟩, hw, rfl⟩ := Option.map_eq_some_iff.1 hparse
    exact parseWeighted_shallow table hw
  | sel table hparse =>
    obtain ⟨⟨weights, subs⟩, hw, rfl⟩ := Option.map_eq_some_iff.1 hparse
    exact parseWeighted_shallow table hw
  | g table hparse =>
    obtain ⟨node, hnode, rfl⟩ := Option.map_eq_some_iff.1 hparse
    obtain ⟨gType, -, hfind⟩ := Option.bind_eq_some_iff.1 hnode
    obtain ⟨cs, rfl⟩ := (table.parsed hfind).leaf
    exact .leaf cs

-- ---------------------------------------------------------------------------
-- Weights
-- ---------------------------------------------------------------------------

/-- The sum of `acc` and the first weights, an `int`. -/
def sumFrom (acc : Int) (weights : List Int) (k : Nat) : Int := wrap 32 (acc + (weights.take k).sum)

/-- The sum of the first weights, an `int`. -/
def partialSum (weights : List Int) (k : Nat) : Int := wrap 32 (weights.take k).sum

theorem sumFrom_zero (weights : List Int) (k : Nat) :
    sumFrom 0 weights k = partialSum weights k := by
  rw [sumFrom, Int.zero_add, partialSum]

theorem sumFrom_first (acc w : Int) (ws : List Int) :
    sumFrom acc (w :: ws) (0 + 1) = wrap 32 (acc + w) := by simp [sumFrom]

theorem sumFrom_next (acc w : Int) (ws : List Int) (k : Nat) :
    sumFrom acc (w :: ws) (k + 1) = sumFrom (wrap 32 (acc + w)) ws k := by
  rw [sumFrom, sumFrom, List.take_succ_cons, List.sum_cons, wrap_wrap_add, Int.add_assoc]

theorem accumulate_eq_iff {chi : Int} {weights : List Int} {acc : Int} {i : Nat}
    (hi : i < weights.length) : accumulate chi weights acc = i ↔
      (∀ k < i, sumFrom acc weights (k + 1) ≤ chi) ∧ chi < sumFrom acc weights (i + 1) := by
  induction weights generalizing acc i with
  | nil => simp at hi
  | cons w ws ih =>
    have hfirst := sumFrom_first acc w ws
    rw [accumulate]
    by_cases hw : chi < wrap 32 (acc + w)
    · rw [if_pos hw]
      cases i with
      | zero => simp [hfirst, hw]
      | succ i =>
        refine iff_of_false (Nat.succ_ne_zero i).symm fun ⟨hle, _⟩ => ?_
        have h0 := hle 0 (Nat.succ_pos i)
        rw [hfirst] at h0
        exact absurd hw (Int.not_lt.2 h0)
    · rw [if_neg hw]
      cases i with
      | zero => simp [hfirst, hw]
      | succ i =>
        rw [Nat.add_right_cancel_iff, ih (by simpa using hi), sumFrom_next acc w ws (i + 1),
          Nat.forall_lt_succ_left', hfirst]
        simp only [sumFrom_next acc w ws, and_assoc]
        exact (and_iff_right (Int.not_lt.1 hw)).symm

theorem accumulate_lt_iff {chi : Int} {weights : List Int} {acc : Int} :
    accumulate chi weights acc < weights.length ↔
      ∃ k < weights.length, chi < sumFrom acc weights (k + 1) := by
  induction weights generalizing acc with
  | nil => simp [accumulate]
  | cons w ws ih =>
    have hfirst := sumFrom_first acc w ws
    rw [accumulate, List.length_cons]
    by_cases hw : chi < wrap 32 (acc + w)
    · rw [if_pos hw]
      exact iff_of_true (Nat.succ_pos _) ⟨0, Nat.succ_pos _, hfirst.symm ▸ hw⟩
    · rw [if_neg hw, Nat.add_lt_add_iff_right, ih]
      constructor
      · rintro ⟨k, hk, hlt⟩
        exact ⟨k + 1, Nat.succ_lt_succ hk, by rwa [sumFrom_next]⟩
      · rintro ⟨k, hk, hlt⟩
        cases k with
        | zero => exact absurd (hfirst ▸ hlt) hw
        | succ k => exact ⟨k, Nat.lt_of_succ_lt_succ hk, by rwa [sumFrom_next] at hlt⟩

/-- Some draw out of 100 falls to the child at an index: it is not below the
sums up to it, and below the sum with its own weight. -/
def Selectable (weights : List Int) (i : Nat) : Prop :=
  ∃ chi : Nat, chi < 100 ∧ (∀ k < i, partialSum weights (k + 1) ≤ chi) ∧
    (chi : Int) < partialSum weights (i + 1)

/-- The weights reach 100, and no draw falls to an empty group. -/
def WdNode.Covered : WdNode → Prop
  | .leaf cs => cs ≠ []
  | .inner weights subs =>
    (∃ k < weights.length, 100 ≤ partialSum weights (k + 1)) ∧
      ∀ i sub, subs[i]? = some sub → Selectable weights i → sub.leaves ≠ []

-- ---------------------------------------------------------------------------
-- Selection
-- ---------------------------------------------------------------------------

/-- The selection from a node returns one of its constants. -/
def Selects (g : Gen) (n : WdNode) : Prop :=
  ∃ c ∈ n.leaves, ∃ g', (wdtreeSelectLeafNodeRecursive n).run g = (.ok (some c), g')

theorem selects_leaf {cs : List ConstNode} (hcs : cs ≠ []) (g : Gen) : Selects g (.leaf cs) := by
  have hlen : cs.length ≠ 0 := by simpa using hcs
  have hi : (g.rand g.randi).val % cs.length < cs.length := Nat.mod_lt _ (Nat.pos_of_ne_zero hlen)
  refine ⟨cs[(g.rand g.randi).val % cs.length], List.getElem_mem hi,
    { g with randi := g.randi + 1 }, ?_⟩
  rw [wdtreeSelectLeafNodeRecursive, if_neg hcs]
  simp only [selectSubtree, ↓reduceIte, Prog.run_bind, Prog.run_pure, nasmRandom32_run hlen,
    List.getElem?_eq_getElem hi]

theorem selectAt_eq (subs : List WdNode) (i : Nat) : selectAt subs i =
    match subs[i]? with
    | some n => wdtreeSelectLeafNodeRecursive n
    | none => throw .outOfBounds := by
  induction subs generalizing i with
  | nil => rw [selectAt, List.getElem?_nil]
  | cons n ns ih =>
    cases i with
    | zero => rw [selectAt, List.getElem?_cons_zero]
    | succ i => rw [selectAt, List.getElem?_cons_succ, ih]

theorem mem_leavesList {c : ConstNode} {n : WdNode} {subs : List WdNode} (hn : n ∈ subs)
    (hc : c ∈ n.leaves) : c ∈ leavesList subs := by
  induction subs with
  | nil => cases hn
  | cons m ms ih =>
    rw [leavesList, List.mem_append]
    cases hn with
    | head => exact .inl hc
    | tail _ hn => exact .inr (ih hn)

def drawnChild (g : Gen) (weights : List Int) : Nat :=
  accumulate (((g.rand g.randi).val % 100 : Nat) : Int) weights 0

section
variable {weights : List Int} {subs : List WdNode}

theorem wdtreeSelectLeafNodeRecursive_inner (hlen : weights.length = subs.length)
    (hne : subs ≠ []) (g : Gen) :
    (wdtreeSelectLeafNodeRecursive (.inner weights subs)).run g =
      (selectAt subs (drawnChild g weights)).run { g with randi := g.randi + 1 } := by
  have hsubs : subs.length ≠ 0 := by simpa using hne
  have hweights : weights ≠ [] := by
    rintro rfl
    exact hsubs hlen.symm
  rw [wdtreeSelectLeafNodeRecursive, if_neg hsubs, selectSubtree, if_neg hweights, ← hlen,
    List.take_length]
  simp only [Prog.run_bind, nasmRandom32_run (show 100 ≠ 0 by decide), Prog.run_pure]
  rfl

theorem selects_inner_iff (hlen : weights.length = subs.length) (hne : subs ≠ [])
    (hleaf : ∀ sub ∈ subs, ∃ cs, sub = .leaf cs) (g : Gen) :
    Selects g (.inner weights subs) ↔
      ∃ sub, subs[drawnChild g weights]? = some sub ∧ sub.leaves ≠ [] := by
  rw [Selects, wdtreeSelectLeafNodeRecursive_inner hlen hne, selectAt_eq]
  constructor
  · rintro ⟨c, -, g', hrun⟩
    cases hsub : subs[drawnChild g weights]? with
    | none =>
      rw [hsub] at hrun
      cases hrun
    | some sub =>
      obtain ⟨cs, rfl⟩ := hleaf sub (List.mem_of_getElem? hsub)
      refine ⟨.leaf cs, rfl, ?_⟩
      rintro rfl
      rw [hsub] at hrun
      cases hrun
  · rintro ⟨sub, hsub, hcs⟩
    obtain ⟨cs, rfl⟩ := hleaf sub (List.mem_of_getElem? hsub)
    obtain ⟨c, hc, g', hrun⟩ := selects_leaf hcs { g with randi := g.randi + 1 }
    rw [hsub]
    exact ⟨c, mem_leavesList (List.mem_of_getElem? hsub) hc, g', hrun⟩

theorem drawnChild_plain {chi : Nat} (h : chi < 100) :
    drawnChild (.plain ⟨chi, by omega⟩) weights = accumulate chi weights 0 := by
  rw [drawnChild]
  congr 2
  exact Nat.mod_eq_of_lt h

/-- Every draw selects a constant just when the weights cover the draws. -/
theorem covered_inner_iff (hlen : weights.length = subs.length) (hne : subs ≠ [])
    (hleaf : ∀ sub ∈ subs, ∃ cs, sub = .leaf cs) :
    (∀ g, Selects g (.inner weights subs)) ↔ (WdNode.inner weights subs).Covered := by
  simp only [selects_inner_iff hlen hne hleaf]
  constructor
  · intro h
    refine ⟨?_, fun i sub hsub hi => ?_⟩
    · obtain ⟨sub, hsub, -⟩ := h (.plain 99)
      have hlt : accumulate 99 weights 0 < weights.length := by
        rw [hlen]
        exact (List.getElem?_eq_some_iff.1 hsub).1
      obtain ⟨k, hk, hsum⟩ := accumulate_lt_iff.1 hlt
      rw [sumFrom_zero] at hsum
      exact ⟨k, hk, by omega⟩
    · obtain ⟨chi, hchi, hle, hlt⟩ := hi
      obtain ⟨sub', hsub', hne'⟩ := h (.plain ⟨chi, by omega⟩)
      have hacc : accumulate chi weights 0 = i := by
        refine (accumulate_eq_iff ?_).2 (by simpa only [sumFrom_zero] using ⟨hle, hlt⟩)
        rw [hlen]
        exact (List.getElem?_eq_some_iff.1 hsub).1
      rw [drawnChild_plain hchi, hacc, hsub] at hsub'
      cases hsub'
      exact hne'
  · rintro ⟨⟨k, hk, hsum⟩, hsubs⟩ g
    have hchi := Nat.mod_lt (g.rand g.randi).val (show 100 > 0 by decide)
    have hlt : drawnChild g weights < weights.length :=
      accumulate_lt_iff.2 ⟨k, hk, by rw [sumFrom_zero]; omega⟩
    obtain ⟨hle, hsel⟩ := (accumulate_eq_iff hlt).1 rfl
    simp only [sumFrom_zero] at hle hsel
    have hget := List.getElem?_eq_getElem (l := subs) (hlen ▸ hlt)
    exact ⟨_, hget, hsubs _ _ hget ⟨_, hchi, hle, hsel⟩⟩

end

/-- From a parsed tree with a constant, every draw selects a constant of the
tree, just where the partial sums of its weights reach 100 and no draw falls to
an empty group. -/
theorem wdtreeSelectLeafNode_leaf_iff {tree : WdRoot} (h : ParsedTree tree)
    (hleaves : tree.wdNode.leaves ≠ []) :
    (∀ g : Gen, ∃ c ∈ tree.wdNode.leaves, ∃ g',
      (wdtreeSelectLeafNode tree).run g = (.ok (some c), g')) ↔ tree.wdNode.Covered := by
  have hshallow := h.shallow
  change (∀ g, Selects g tree.wdNode) ↔ _
  cases hn : tree.wdNode with
  | leaf cs =>
    rw [hn] at hleaves
    exact iff_of_true (selects_leaf hleaves) hleaves
  | inner weights subs =>
    rw [hn] at hleaves hshallow
    have hne : subs ≠ [] := by
      rintro rfl
      exact hleaves rfl
    cases hshallow with
    | inner hlen hleaf => exact covered_inner_iff hlen hne hleaf

def divTable : GroupTable where
  find key := if key = ['g'] then some (.leaf [{ type := .asmOp, union := 0, asmOp := .div }])
    else none
  parsed {key node} h := by
    split at h
    · cases h
      have hparse : parseGroups (fun _ => .div)
          [.element "insngroup" [("name", ['g'])] [.element "insn" [] [.other []]]] = some _ := rfl
      exact .insns hparse (List.mem_singleton_self _)
    · cases h

def divSelect (weight : Text) : List XmlNode :=
  [.element "group" [("weight", weight), ("type", ['g'])] []]

def divTree (weight : Int) : WdRoot :=
  ⟨1, .inner [weight] [.leaf [{ type := .asmOp, union := 0, asmOp := .div }]]⟩

theorem wdtreeSelectLeafNode_leaf_all :
    (∀ g : Gen, ∃ c ∈ (divTree 100).wdNode.leaves, ∃ g',
      (wdtreeSelectLeafNode (divTree 100)).run g = (.ok (some c), g')) ↔
        (divTree 100).wdNode.Covered := by
  have hparse : parseSelBlk divTable.find (divSelect ['1', '0', '0']) = some (divTree 100) := rfl
  exact wdtreeSelectLeafNode_leaf_iff (.sel divTable hparse) (by decide)

/-- With weights that only reach 60, a draw of 60 is past the children. -/
theorem wdtreeSelectLeafNode_past : ¬ ∀ tree : WdRoot, ParsedTree tree → tree.wdNode.leaves ≠ [] →
    ∀ g : Gen, ∃ c ∈ tree.wdNode.leaves, ∃ g',
      (wdtreeSelectLeafNode tree).run g = (.ok (some c), g') := by
  intro h
  have hparse : parseSelBlk divTable.find (divSelect ['6', '0']) = some (divTree 60) := rfl
  obtain ⟨c, -, g', hrun⟩ := h _ (.sel divTable hparse) (by decide) (.plain 60)
  cases hrun

end Btrtg
