import Mathlib.Algebra.Order.Ring.Int

/-!
# Opcodes, registers and operand flags

The three enumerations the generator branches on. `Opcode` names the opcodes
that some modelled function tests for; every other instruction of the tables
is `sse`, `sse2` or `other`, by the range of the generated enumeration it
falls in.
-/

namespace Btrtg

-- ---------------------------------------------------------------------------
-- Opcodes
-- ---------------------------------------------------------------------------

inductive Opcode
  | none
  | jmp
  | ja | jae | jb | jbe | jc | je | jg | jge | jl | jle | jna | jnae | jnb | jnbe | jnc | jne
  | jng | jnge | jnl | jnle | jno | jnp | jns | jnz | jo | jp | js | jz | jpe | jpo | jcxz | jecxz
  | loop | loope | loopne | loopnz | loopz
  | call | ret | retf | enter
  | mov | movsx
  | rcl | rcr | rol | ror | sal | sar | shl | shr | shld | shrd
  | div | idiv | cmpxchg | cwd | cbw | cdq | cwde | popf
  | movsb | movsd | movsw | cmpsb | cmpsd | cmpsw | scasb | scasd | scasw
  | lodsb | lodsd | lodsw | stosb | stosd | stosw
  | fxtract | fbstp | fchs | fcos | fiadd | ficom | ficomp | fidiv | fidivr | fimul | fist | fistp
  | fisub | fisubr | fptan | frndint | fsin | fsincos | fsqrt | ftst | fabs | f2xm1
  | fadd | faddp | fcmovb | fcmovbe | fcmove | fcmovnb | fcmovnbe | fcmovne | fcmovnu | fcmovu
  | fcom | fcomi | fcomip | fcomp | fcompp | fdiv | fdivp | fdivr | fdivrp | fmul | fmulp
  | fsub | fsubp | fsubr | fsubrp | fucom | fucomi | fucomip | fucomp | fucompp | fxch
  | fld | fild | fpatan | fprem | fprem1 | fscale | fyl2x | fyl2xp1
  /-- `I_ADDPS` to `I_FXSAVE`. -/
  | sse (mnemonic : String)
  /-- `I_MASKMOVDQU` to `I_XORPD`. -/
  | sse2 (mnemonic : String)
  | other (mnemonic : String)
  deriving DecidableEq, Repr

/-- `nasm_insn_names`. -/
def Opcode.name : Opcode → String
  | .none => ""
  | .jmp => "jmp"
  | .ja => "ja" | .jae => "jae" | .jb => "jb" | .jbe => "jbe" | .jc => "jc" | .je => "je"
  | .jg => "jg" | .jge => "jge" | .jl => "jl" | .jle => "jle" | .jna => "jna" | .jnae => "jnae"
  | .jnb => "jnb" | .jnbe => "jnbe" | .jnc => "jnc" | .jne => "jne" | .jng => "jng"
  | .jnge => "jnge" | .jnl => "jnl" | .jnle => "jnle" | .jno => "jno" | .jnp => "jnp"
  | .jns => "jns" | .jnz => "jnz" | .jo => "jo" | .jp => "jp" | .js => "js" | .jz => "jz"
  | .jpe => "jpe" | .jpo => "jpo" | .jcxz => "jcxz" | .jecxz => "jecxz"
  | .loop => "loop" | .loope => "loope" | .loopne => "loopne" | .loopnz => "loopnz"
  | .loopz => "loopz"
  | .call => "call" | .ret => "ret" | .retf => "retf" | .enter => "enter"
  | .mov => "mov" | .movsx => "movsx"
  | .rcl => "rcl" | .rcr => "rcr" | .rol => "rol" | .ror => "ror" | .sal => "sal" | .sar => "sar"
  | .shl => "shl" | .shr => "shr" | .shld => "shld" | .shrd => "shrd"
  | .div => "div" | .idiv => "idiv" | .cmpxchg => "cmpxchg" | .cwd => "cwd" | .cbw => "cbw"
  | .cdq => "cdq" | .cwde => "cwde" | .popf => "popf"
  | .movsb => "movsb" | .movsd => "movsd" | .movsw => "movsw" | .cmpsb => "cmpsb"
  | .cmpsd => "cmpsd" | .cmpsw => "cmpsw" | .scasb => "scasb" | .scasd => "scasd"
  | .scasw => "scasw" | .lodsb => "lodsb" | .lodsd => "lodsd" | .lodsw => "lodsw"
  | .stosb => "stosb" | .stosd => "stosd" | .stosw => "stosw"
  | .fxtract => "fxtract" | .fbstp => "fbstp" | .fchs => "fchs" | .fcos => "fcos"
  | .fiadd => "fiadd" | .ficom => "ficom" | .ficomp => "ficomp" | .fidiv => "fidiv"
  | .fidivr => "fidivr" | .fimul => "fimul" | .fist => "fist" | .fistp => "fistp"
  | .fisub => "fisub" | .fisubr => "fisubr" | .fptan => "fptan" | .frndint => "frndint"
  | .fsin => "fsin" | .fsincos => "fsincos" | .fsqrt => "fsqrt" | .ftst => "ftst"
  | .fabs => "fabs" | .f2xm1 => "f2xm1"
  | .fadd => "fadd" | .faddp => "faddp" | .fcmovb => "fcmovb" | .fcmovbe => "fcmovbe"
  | .fcmove => "fcmove" | .fcmovnb => "fcmovnb" | .fcmovnbe => "fcmovnbe" | .fcmovne => "fcmovne"
  | .fcmovnu => "fcmovnu" | .fcmovu => "fcmovu" | .fcom => "fcom" | .fcomi => "fcomi"
  | .fcomip => "fcomip" | .fcomp => "fcomp" | .fcompp => "fcompp" | .fdiv => "fdiv"
  | .fdivp => "fdivp" | .fdivr => "fdivr" | .fdivrp => "fdivrp" | .fmul => "fmul"
  | .fmulp => "fmulp" | .fsub => "fsub" | .fsubp => "fsubp" | .fsubr => "fsubr"
  | .fsubrp => "fsubrp" | .fucom => "fucom" | .fucomi => "fucomi" | .fucomip => "fucomip"
  | .fucomp => "fucomp" | .fucompp => "fucompp" | .fxch => "fxch"
  | .fld => "fld" | .fild => "fild" | .fpatan => "fpatan" | .fprem => "fprem"
  | .fprem1 => "fprem1" | .fscale => "fscale" | .fyl2x => "fyl2x" | .fyl2xp1 => "fyl2xp1"
  | .sse m | .sse2 m | .other m => m

def Opcode.isJcc : Opcode → Bool
  | .ja | .jae | .jb | .jbe | .jc | .je | .jg | .jge | .jl | .jle | .jna | .jnae | .jnb | .jnbe
  | .jnc | .jne | .jng | .jnge | .jnl | .jnle | .jno | .jnp | .jns | .jnz | .jo | .jp | .js | .jz
  | .jpe | .jpo | .jcxz | .jecxz => true
  | _ => false

/-- The loop family, as `gen_control_transfer_insn` tests for it. -/
def Opcode.isLoop : Opcode → Bool
  | .loop | .loope | .loopne | .loopnz | .loopz => true
  | _ => false

def Opcode.isShiftOrRotate : Opcode → Bool
  | .rcl | .rcr | .rol | .ror | .sal | .sar | .shl | .shr | .shld | .shrd => true
  | _ => false

def Opcode.isSse : Opcode → Bool
  | .sse _ => true
  | _ => false

def Opcode.isSse2 : Opcode → Bool
  | .sse2 _ => true
  | _ => false

-- ---------------------------------------------------------------------------
-- Registers
-- ---------------------------------------------------------------------------

/-- The size of a register file. -/
instance fileSize : NeZero 8 := ⟨by decide⟩

inductive Reg
  | al | cl | dl | bl | ah | ch | dh | bh
  | ax | cx | dx | bx | sp | bp | si | di
  | eax | ecx | edx | ebx | esp | ebp | esi | edi
  | es | cs | ss | ds | fs | gs
  | st (i : Fin 8) | mm (i : Fin 8) | xmm (i : Fin 8)
  | ymm0 | zmm0
  deriving DecidableEq, Repr

/-- `nasm_reg_names`. -/
def Reg.name : Reg → String
  | .al => "al" | .cl => "cl" | .dl => "dl" | .bl => "bl"
  | .ah => "ah" | .ch => "ch" | .dh => "dh" | .bh => "bh"
  | .ax => "ax" | .cx => "cx" | .dx => "dx" | .bx => "bx"
  | .sp => "sp" | .bp => "bp" | .si => "si" | .di => "di"
  | .eax => "eax" | .ecx => "ecx" | .edx => "edx" | .ebx => "ebx"
  | .esp => "esp" | .ebp => "ebp" | .esi => "esi" | .edi => "edi"
  | .es => "es" | .cs => "cs" | .ss => "ss" | .ds => "ds" | .fs => "fs" | .gs => "gs"
  | .st i => "st" ++ toString i.val
  | .mm i => "mm" ++ toString i.val
  | .xmm i => "xmm" ++ toString i.val
  | .ymm0 => "ymm0" | .zmm0 => "zmm0"

inductive LockRegType
  | ax | bx | cx | dx | si | di
  deriving DecidableEq, Repr

inductive LockRegCase
  | null | mem | loop
  deriving DecidableEq, Repr

/-- `get_lock_reg_type` of x86pg.c: a register outside the six families falls
on the entry of `ax`. -/
def getLockRegType : Reg → LockRegType
  | .al | .ah | .ax | .eax => .ax
  | .bl | .bh | .bx | .ebx => .bx
  | .cl | .ch | .cx | .ecx => .cx
  | .dl | .dh | .dx | .edx => .dx
  | .si | .esi => .si
  | .di | .edi => .di
  | _ => .ax

def nasmRdReg8 : List Reg := [.al, .cl, .dl, .bl, .ah, .ch, .dh, .bh]

def nasmRdReg16 : List Reg := [.ax, .cx, .dx, .bx, .sp, .bp, .si, .di]

def nasmRdReg32 : List Reg := [.eax, .ecx, .edx, .ebx, .esp, .ebp, .esi, .edi]

def nasmRdSreg : List Reg := [.es, .cs, .ss, .ds, .fs, .gs]

-- ---------------------------------------------------------------------------
-- Operand flags
-- ---------------------------------------------------------------------------

abbrev OpFlags := BitVec 64

namespace OpFlags

def isClass (cls op : OpFlags) : Bool := cls &&& ~~~op == 0

def genOptype (bit : Nat) : OpFlags := 1#64 <<< bit
def genRegClass (bit : Nat) : OpFlags := 1#64 <<< (7 + bit)
def genSubclass (bit : Nat) : OpFlags := 1#64 <<< (18 + bit)
def genSize (bit : Nat) : OpFlags := 1#64 <<< (33 + bit)

def optypeMask : OpFlags := 0xf#64
def sizeMask : OpFlags := 0x7ff#64 <<< 33

def register : OpFlags := genOptype 0
def immediate : OpFlags := genOptype 1
def regmem : OpFlags := genOptype 2
def memory : OpFlags := genOptype 3 ||| regmem

def bits8 : OpFlags := genSize 0
def bits16 : OpFlags := genSize 1
def bits32 : OpFlags := genSize 2
def bits64 : OpFlags := genSize 3
def bits80 : OpFlags := genSize 4
def bits128 : OpFlags := genSize 5
def bits256 : OpFlags := genSize 6
def bits512 : OpFlags := genSize 7
def far : OpFlags := genSize 8
def near : OpFlags := genSize 9
def short : OpFlags := genSize 10

def modTo : OpFlags := 1#64 <<< 4
def strict : OpFlags := 1#64 <<< 6

def regClassCdt : OpFlags := genRegClass 0
def regClassGpr : OpFlags := genRegClass 1
def regClassSreg : OpFlags := genRegClass 2
def regClassFpureg : OpFlags := genRegClass 3
def regClassRmMmx : OpFlags := genRegClass 4
def regClassRmXmm : OpFlags := genRegClass 5
def regClassRmYmm : OpFlags := genRegClass 6
def regClassRmZmm : OpFlags := genRegClass 7
def regClassOpmask : OpFlags := genRegClass 8
def regClassBnd : OpFlags := genRegClass 9
def regClassRmTmm : OpFlags := genRegClass 10

def rmGpr : OpFlags := regClassGpr ||| regmem
def regGpr : OpFlags := regClassGpr ||| regmem ||| register
def fpureg : OpFlags := regClassFpureg ||| register
def fpu0 : OpFlags := genSubclass 1 ||| regClassFpureg ||| register
def mmxreg : OpFlags := regClassRmMmx ||| regmem ||| register
def rmMmx : OpFlags := regClassRmMmx ||| regmem
def xmmreg : OpFlags := regClassRmXmm ||| regmem ||| register
def ymmreg : OpFlags := regClassRmYmm ||| regmem ||| register
def zmmreg : OpFlags := regClassRmZmm ||| regmem ||| register
def regCreg : OpFlags := genSubclass 1 ||| regClassCdt ||| bits32 ||| register
def regDreg : OpFlags := genSubclass 2 ||| regClassCdt ||| bits32 ||| register
def regSreg : OpFlags := regClassSreg ||| bits16 ||| register

def regEs : OpFlags := genSubclass 0 ||| genSubclass 2 ||| regSreg
def regCs : OpFlags := genSubclass 1 ||| genSubclass 2 ||| regSreg
def regSs : OpFlags := genSubclass 0 ||| genSubclass 3 ||| regSreg
def regDs : OpFlags := genSubclass 1 ||| genSubclass 3 ||| regSreg
def regFs : OpFlags := genSubclass 0 ||| genSubclass 4 ||| regSreg
def regGs : OpFlags := genSubclass 1 ||| genSubclass 4 ||| regSreg

def regAl : OpFlags := genSubclass 1 ||| regGpr ||| bits8
def regAx : OpFlags := genSubclass 1 ||| regGpr ||| bits16
def regEax : OpFlags := genSubclass 1 ||| regGpr ||| bits32
def regCl : OpFlags := genSubclass 5 ||| genSubclass 2 ||| regGpr ||| bits8
def regCx : OpFlags := genSubclass 5 ||| genSubclass 2 ||| regGpr ||| bits16
def regEcx : OpFlags := genSubclass 5 ||| genSubclass 2 ||| regGpr ||| bits32
def regDl : OpFlags := genSubclass 5 ||| genSubclass 3 ||| regGpr ||| bits8
def regDx : OpFlags := genSubclass 5 ||| genSubclass 3 ||| regGpr ||| bits16
def regEdx : OpFlags := genSubclass 5 ||| genSubclass 3 ||| regGpr ||| bits32
def regHigh : OpFlags := genSubclass 5 ||| genSubclass 4 ||| regGpr ||| bits8
def reg8na : OpFlags := genSubclass 5 ||| regGpr ||| bits8
def reg16na : OpFlags := genSubclass 5 ||| regGpr ||| bits16
def reg32na : OpFlags := genSubclass 5 ||| regGpr ||| bits32

def memOffs : OpFlags := genSubclass 1 ||| memory
def xmem : OpFlags := genSubclass 3 ||| memory
def ymem : OpFlags := genSubclass 4 ||| memory
def zmem : OpFlags := genSubclass 5 ||| memory
def memoryAny : OpFlags :=
  memory ||| rmGpr ||| rmMmx ||| genSubclass 6 ||| regClassRmXmm ||| regClassRmYmm |||
    regClassRmZmm ||| regClassOpmask ||| regClassBnd
def unity : OpFlags := genSubclass 0 ||| immediate
def sbyteword : OpFlags := genSubclass 1 ||| immediate
def sbytedword : OpFlags := genSubclass 2 ||| immediate

def xmm0 : OpFlags := genSubclass 1 ||| genSubclass 6 ||| xmmreg
def xmmL16 : OpFlags := genSubclass 6 ||| xmmreg
def ymm0 : OpFlags := genSubclass 1 ||| genSubclass 6 ||| regClassRmYmm ||| regmem ||| register
def zmm0 : OpFlags := genSubclass 1 ||| genSubclass 6 ||| regClassRmZmm ||| regmem ||| register

end OpFlags

open OpFlags in
/-- `nasm_reg_flags`, from regs.dat. -/
def Reg.flags : Reg → OpFlags
  | .al => regAl | .cl => regCl | .dl => regDl | .bl => reg8na
  | .ah | .ch | .dh | .bh => regHigh
  | .ax => regAx | .cx => regCx | .dx => regDx
  | .bx | .sp | .bp | .si | .di => reg16na
  | .eax => regEax | .ecx => regEcx | .edx => regEdx
  | .ebx | .esp | .ebp | .esi | .edi => reg32na
  | .es => regEs | .cs => regCs | .ss => regSs | .ds => regDs | .fs => regFs | .gs => regGs
  | .st i => if i = 0 then fpu0 else fpureg
  | .mm _ => mmxreg
  | .xmm i => if i = 0 then OpFlags.xmm0 else xmmL16
  | .ymm0 => OpFlags.ymm0
  | .zmm0 => OpFlags.zmm0

end Btrtg
