import Btrtg.Lib.Bytes
import Btrtg.Opcode

/-!
# Verification

The structures of `verification.h`: what a check function is called with. A union
of a register and its parts is one field, its parts are read off it.
-/

namespace Btrtg

open Bytes

structure Floatx80 where
  low : BitVec 64
  high : BitVec 16
  deriving DecidableEq

structure Xmmreg where
  low : BitVec 64
  high : BitVec 64
  deriving DecidableEq

structure X87LegacyFPUSaveArea where
  fcw : BitVec 16
  fcwPadding : BitVec 16
  fsw : BitVec 16
  fswPadding : BitVec 16
  ftw : BitVec 16
  ftwPadding : BitVec 16
  ffip0 : BitVec 16
  ffipPadding : BitVec 16
  ffop : BitVec 12
  ffip16 : BitVec 16
  ffopfipPadding : BitVec 4
  ffdp0 : BitVec 16
  ffdpPadding : BitVec 16
  ffdpPaddingPre : BitVec 12
  ffdp16 : BitVec 16
  ffdpPaddingAfter : BitVec 4
  st80 : Vector Byte 80

structure SSEStateSaveArea where
  xmmRegs : Vector Xmmreg 8
  mxcsr : BitVec 32

structure X86StandardRegisters where
  gs : BitVec 16
  gsPadding : BitVec 16
  fs : BitVec 16
  fsPadding : BitVec 16
  es : BitVec 16
  esPadding : BitVec 16
  ds : BitVec 16
  dsPadding : BitVec 16
  ss : BitVec 16
  ssPadding : BitVec 16
  cs : BitVec 16
  csPadding : BitVec 16
  eflags : BitVec 32
  pc : BitVec 32
  edi : BitVec 32
  esi : BitVec 32
  ebp : BitVec 32
  esp : BitVec 32
  ebx : BitVec 32
  edx : BitVec 32
  ecx : BitVec 32
  eax : BitVec 32
  deriving DecidableEq

-- ---------------------------------------------------------------------------
-- Parts of registers
-- ---------------------------------------------------------------------------

def low16 (r : BitVec 32) : BitVec 16 := r.setWidth 16
def low8 (r : BitVec 32) : BitVec 8 := r.setWidth 8
def high8 (r : BitVec 32) : BitVec 8 := (r >>> 8).setWidth 8

namespace X86StandardRegisters

variable (r : X86StandardRegisters)

def di := low16 r.edi
def si := low16 r.esi
def bp := low16 r.ebp
def sp := low16 r.esp
def bx := low16 r.ebx
def bl := low8 r.ebx
def bh := high8 r.ebx
def dx := low16 r.edx
def dl := low8 r.edx
def dh := high8 r.edx
def cx := low16 r.ecx
def cl := low8 r.ecx
def ch := high8 r.ecx
def ax := low16 r.eax
def al := low8 r.eax
def ah := high8 r.eax

end X86StandardRegisters

-- ---------------------------------------------------------------------------
-- The save areas
-- ---------------------------------------------------------------------------

namespace X87LegacyFPUSaveArea

variable (a : X87LegacyFPUSaveArea)

def getFcw : BitVec 16 := a.fcw
def getFsw : BitVec 16 := a.fsw
def getFtw : BitVec 16 := a.ftw

def getFfdp : BitVec 32 := a.ffdp0.setWidth 32 ||| a.ffdp16.setWidth 32 <<< 16
def getFfip : BitVec 32 := a.ffip0.setWidth 32 ||| a.ffip16.setWidth 32 <<< 16
def getFfop : BitVec 16 := a.ffop.setWidth 16

/-- `fsa_get_st`: the ten bytes from `st80[i * 10]`. -/
def getSt (i : Nat) : Floatx80 where
  low := word 64 ((a.st80.toList.drop (i * 10)).take 8)
  high := word 16 ((a.st80.toList.drop (i * 10 + 8)).take 2)

end X87LegacyFPUSaveArea

namespace SSEStateSaveArea

variable (s : SSEStateSaveArea)

def getMxcsr : BitVec 32 := s.mxcsr
def getXmm (i : Fin 8) : Xmmreg := s.xmmRegs.get i

end SSEStateSaveArea

/-- The arguments of a check function, the first of them behind its pointer. -/
structure CheckArgs where
  ssestate : SSEStateSaveArea
  x87fpustate : X87LegacyFPUSaveArea
  x86regs : X86StandardRegisters

end Btrtg
