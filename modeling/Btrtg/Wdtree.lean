import Btrtg.Opcode
import Btrtg.Lib.Wrap

/-!
# Constants and weight decision trees

A `const_node` keeps the bytes of its union as one bit vector, so a member is
a prefix of it whichever member was written. A node of a weight tree is a leaf
over constants or an inner node over weighted subtrees; `size` is the length.
-/

namespace Btrtg

open Wrap

inductive ConstType
  | imm8 | imm16 | imm32 | imm64
  | float | float32i | float32f | float64i | float64f
  | bcd | unity | asmOp | x87env
  deriving DecidableEq, Repr

structure ConstNode where
  type : ConstType
  union : BitVec 96
  asmOp : Opcode := .none
  float32 : BitVec 32 := 0
  float64 : BitVec 64 := 0
  float80 : BitVec 80 := 0
  x87env : BitVec 224 := 0
  deriving DecidableEq, Repr

namespace ConstNode

def imm8 (c : ConstNode) : BitVec 8 := c.union.setWidth 8
def imm16 (c : ConstNode) : BitVec 16 := c.union.setWidth 16
def imm32 (c : ConstNode) : BitVec 32 := c.union.setWidth 32
def imm64 (c : ConstNode) : BitVec 64 := c.union.setWidth 64

end ConstNode

inductive WdNode
  | leaf (constNodes : List ConstNode)
  | inner (weights : List Int) (subNodes : List WdNode)

structure WdRoot where
  packedn : Nat
  wdNode : WdNode

structure TkModel where
  tkTrees : List WdRoot

/-- `(int *)&x` at index `i`. -/
def dword (x : BitVec w) (i : Nat) : BitVec 32 := x.extractLsb' (32 * i) 32

mutual
/-- The constants of a tree in preorder. -/
def WdNode.leaves : WdNode → List ConstNode
  | .leaf cs => cs
  | .inner _ subs => leavesList subs
def leavesList : List WdNode → List ConstNode
  | [] => []
  | n :: ns => n.leaves ++ leavesList ns
end

mutual
/-- `get_tk_tree_leaf_num`, with its loop from `num` on. -/
def getTkTreeLeafNum : WdNode → Int
  | .leaf cs => wrap 32 cs.length
  | .inner _ subs => getTkTreeLeafNumList 0 subs
def getTkTreeLeafNumList (num : Int) : List WdNode → Int
  | [] => num
  | n :: ns => getTkTreeLeafNumList (wrap 32 (num + getTkTreeLeafNum n)) ns
end

mutual
theorem getTkTreeLeafNum_eq : (n : WdNode) → getTkTreeLeafNum n = wrap 32 n.leaves.length
  | .leaf _ => rfl
  | .inner _ subs => by
    have hzero : (0 : Int) = wrap 32 (0 : Nat) := rfl
    rw [getTkTreeLeafNum, hzero, getTkTreeLeafNumList_eq 0 subs, Nat.zero_add, WdNode.leaves]
theorem getTkTreeLeafNumList_eq (k : Nat) : (ns : List WdNode) →
    getTkTreeLeafNumList (wrap 32 k) ns = wrap 32 (k + (leavesList ns).length : Nat)
  | [] => rfl
  | n :: ns => by
    have hsum : wrap 32 (wrap 32 k + getTkTreeLeafNum n) = wrap 32 (k + n.leaves.length : Nat) := by
      rw [getTkTreeLeafNum_eq n, wrap_wrap_add, wrap_add_wrap, Int.natCast_add]
    rw [getTkTreeLeafNumList, hsum, getTkTreeLeafNumList_eq _ ns, leavesList, List.length_append,
      Nat.add_assoc]
end

end Btrtg
