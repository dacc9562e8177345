import Btrtg.Lib.Prog
import Btrtg.Lib.Inevitable
import Btrtg.Lib.BackLinked
import Btrtg.Lib.Product
import Btrtg.Lib.Initializer
import Btrtg.Lib.Bytes
import Btrtg.Lib.Wrap
import Btrtg.Lib.Loop
import Btrtg.Lib.CMemory
import Btrtg.Opcode
import Btrtg.Asm
import Btrtg.Wdtree
import Btrtg.Insnlist
import Btrtg.InsnlistLaws
import Btrtg.Links
import Btrtg.Flow
import Btrtg.FlowLaws
import Btrtg.Arrivals
import Btrtg.Packed
import Btrtg.X86PG
import Btrtg.Ctrl
import Btrtg.CtrlLaws
import Btrtg.TransferLaws
import Btrtg.JumpRuns
import Btrtg.Seed
import Btrtg.Tk
import Btrtg.Operand
import Btrtg.GenData
import Btrtg.Generator
import Btrtg.Tmplt
import Btrtg.Frame
import Btrtg.BlkFrame
import Btrtg.LabelRuns
import Btrtg.BlockRuns
import Btrtg.Modrm
import Btrtg.MemRange
import Btrtg.Locks
import Btrtg.OneLevel
import Btrtg.OwnState
import Btrtg.Scope
import Btrtg.Traverse
import Btrtg.TraverseRuns
import Btrtg.TrvStep
import Btrtg.GreatestPrime
import Btrtg.TrvCoverage
import Btrtg.Verification
import Btrtg.CheckLib
import Btrtg.CheckLaws
import Btrtg.CheckMacro
import Btrtg.CheckMacroLaws
import Btrtg.Transform
import Btrtg.Buf2Token
import Btrtg.ScanLaws
import Btrtg.Eval
import Btrtg.EvalLaws
import Btrtg.MrefLaws
import Btrtg.Asmlib
import Btrtg.ParseOpnd
import Btrtg.TokenBuf
import Btrtg.TokenBufLaws
import Btrtg.OpndLaws
import Btrtg.InsnText
import Btrtg.InsnTextLaws
import Btrtg.NasmString
import Btrtg.StrrplcLaws
import Btrtg.SizeLaws
import Btrtg.OpndLinks
import Btrtg.ParseTKs
import Btrtg.ParseTmplt
import Btrtg.TrimLaws
import Btrtg.Service
import Btrtg.ServiceLaws
import Btrtg.WdtreeLaws
import Btrtg.HexLaws
import Btrtg.ParseTKsLaws
import Btrtg.PackedLaws
import Btrtg.BcdLaws
import Btrtg.HashTbl
import Btrtg.HashTblLaws
import Btrtg.Target
import Btrtg.TargetLaws
import Btrtg.InitRuns
import Btrtg.OpndRuns
import Btrtg.InitLaws
