import Btrtg.Asm
import Btrtg.Wdtree

/-!
# Packed initialisers

The texts of the MMX and XMM initialisers, by the length of the list of
constants and the kind of its first one. Where no case writes the buffer there
is no text.
-/

namespace Btrtg

/-- `((int *)(&val_node->imm64))[i]`. -/
def ConstNode.int (c : ConstNode) (i : Nat) : BitVec 32 := dword c.imm64 i

/-- The stores of `init_memory_opnd_mmx` and `init_mmx_register_opnd`. -/
def mmxStores (p : Place) : List ConstNode → Option (List Line)
  | [v0, v1, v2, v3, v4, v5, v6, v7] =>
    some [.store .byte p 0x0 (v0.int 0), .store .byte p 0x1 (v1.int 0),
      .store .byte p 0x2 (v2.int 0), .store .byte p 0x3 (v3.int 0),
      .store .byte p 0x4 (v4.int 0), .store .byte p 0x5 (v5.int 0),
      .store .byte p 0x6 (v6.int 0), .store .byte p 0x7 (v7.int 0)]
  | [v0, v1, v2, v3] =>
    some [.store .word p 0x0 (v0.int 0), .store .word p 0x2 (v1.int 0),
      .store .word p 0x4 (v2.int 0), .store .word p 0x6 (v3.int 0)]
  | [v0, v1] => some [.store .dword p 0x0 (v0.int 0), .store .dword p 0x4 (v1.int 0)]
  | [v0] => some [.store .dword p 0x0 (v0.int 0), .store .dword p 0x4 (v0.int 1)]
  | _ => none

def initMemoryOpndMmx (m : ModRM) (vals : List ConstNode) : Option (List Line) :=
  mmxStores (.opnd m) vals

def initMmxRegisterOpnd (r : Reg) (vals : List ConstNode) : Option (List Line) :=
  (mmxStores .floatData vals).map (· ++ [.movq r .floatData])

/-- The loads that end the XMM register formats. -/
inductive XmmLoad
  | ups | upd

def XmmLoad.line (r : Reg) : XmmLoad → Line
  | ups => .movups r .floatData
  | upd => .movupd r .floatData

/-- The stores of `init_memory_opnd_xmm` and `init_xmm_register_opnd`, and the
load that the register variant of the format ends with. -/
def xmmStores (p : Place) : List ConstNode → Option (List Line × XmmLoad)
  | [v0, v1, v2, v3] =>
    match v0.type with
    | .float32f =>
      some ([.store .dword p 0x0 v0.float32, .store .dword p 0x4 v1.float32,
        .store .dword p 0x8 v2.float32, .store .dword p 0xc v3.float32], .ups)
    | .imm32 =>
      some ([.store .dword p 0x0 v0.imm32, .store .dword p 0x4 v1.imm32,
        .store .dword p 0x8 v2.imm32, .store .dword p 0xc v3.imm32], .ups)
    | _ => none
  | [v0, v1] =>
    match v0.type with
    | .float64f =>
      some ([.store .dword p 0x0 (dword v0.float64 0), .store .dword p 0x4 (dword v0.float64 1),
        .store .dword p 0x8 (dword v1.float64 0), .store .dword p 0xc (dword v1.float64 1)], .upd)
    | .imm64 =>
      some ([.store .dword p 0x0 (dword v0.imm64 0), .store .dword p 0x4 (dword v0.imm64 1),
        .store .dword p 0x8 (dword v1.imm64 0), .store .dword p 0xc (dword v1.imm64 1)], .upd)
    | .float32f => some ([.store .dword p 0x0 v0.float32, .store .dword p 0x4 v0.float32], .ups)
    | .imm32 => some ([.store .dword p 0x0 v0.imm32, .store .dword p 0x4 v0.imm32], .ups)
    | _ => none
  | [v0] =>
    match v0.type with
    | .float32f =>
      some ([.store .dword p 0x0 v0.float32, .store .dword p 0x4 0, .store .dword p 0x8 0,
        .store .dword p 0xc 0], .ups)
    | .float64f =>
      some ([.store .dword p 0x0 (dword v0.float64 0), .store .dword p 0x4 (dword v0.float64 1)],
        .upd)
    | .imm64 =>
      some ([.store .dword p 0x0 (dword v0.imm64 0), .store .dword p 0x4 (dword v0.imm64 1)], .upd)
    | _ => none
  | _ => none

def initMemoryOpndXmm (m : ModRM) (vals : List ConstNode) : Option (List Line) :=
  (xmmStores (.opnd m) vals).map Prod.fst

def initXmmRegisterOpnd (r : Reg) (vals : List ConstNode) : Option (List Line) :=
  (xmmStores .floatData vals).map fun (ls, load) => ls ++ [load.line r]

end Btrtg
