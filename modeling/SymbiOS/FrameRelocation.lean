import SymbiOS.X86.Machine

/-!
# The entry code on the exception-frame stack (`efasm.kS`, `pfasm.kS`)

A vector that has been redirected enters its stub with the hardware frame on the
IST page. The stub pushes the handler it stands in for, and the common code moves
the frame to the stack the handler expects and returns into it. There is one copy
of that code for frames with an error code and one for frames without, told apart
by the alignment of the stack pointer.
-/
namespace SymbiOS.Relocation
open SymbiOS.X86

/-- Addresses and offsets that the linker and the kernel headers provide. -/
structure Layout where
  efAdaptorOrigIsrs : Word
  dfHandlerLocation : Word
  cpuTssRw : Word
  tssSp0 : Word
  currentTask : Word
  taskSymbioteElevated : Word
  threadSize : Word

def ERRCODE_PF_USER : BitVec 32 := 1#32 <<< 2
def RFLAGS_SWAPPED_GS : BitVec 32 := 1#32 <<< 29
def RFLAGS_SWAPPED_GS_MASK : BitVec 32 := ~~~(1#32 <<< 29)
def USER_CS : Word := 0x33
def USER_SS : Word := 0x2b
def CS_MASK : BitVec 32 := ~~~0xff#32
def SS_MASK : BitVec 32 := ~~~0xff#32
/-- `testl` takes the low half of the constant. -/
def FLAGS_MASK : BitVec 32 := (0xffffffff00000000#64).setWidth 32
def ERRCODE_MASK : BitVec 32 := ~~~0xff#32

/-- The labels of the two files; `.Lerr_c_` and `.Lno_err_c_` are shortened. -/
inductive Label
  | efAdaptorIsr (vec : Fin 256)
  | fixIstErrCode
  | errLenNormal
  | errNoSwapgs
  | skipDoubleFaultTest
  | errSkipSetDest
  | errSkipFlagSet
  | errNoSwapBack
  | errRetNormal
  | errLenBad
  | errRetStateBad
  | fixIstNoErrCode
  | noErrLenNormal
  | noErrNoSwapgs
  | noErrSkipSetDest
  | noErrLenBad

def code (y : Layout) : Label → List (Instr Label)
  | .efAdaptorIsr vec =>
      [.endbr,
       .subImm 8#64 .rsp,
       .push .rdi,
       .load (.sym (y.efAdaptorOrigIsrs + BitVec.ofNat 64 (vec * 8))) .rdi,
       .store .rdi (.based .rsp 8#64),
       .pop .rdi,
       .jmp .fixIstErrCode]
  | .fixIstErrCode =>
      [.cld,
       .testImm 8#64 .rsp,
       .jcc .z .fixIstNoErrCode,
       .push .rdi,
       .xor .rdi .rdi,
       .mov .rsp .rdi,
       .andImm 0xfff#64 .rdi,
       .cmpImm 0xfc0#64 .rdi,
       .jcc .nz .errLenBad,
       .jmp .errLenNormal]
  | .errLenNormal =>
      [.load (.based .rsp 0x30#64) .rdi,
       .push .rsi,
       .push .rcx,
       .rdgsbase .rcx,
       .test .rcx .rcx,
       .jcc .s .errNoSwapgs,
       .swapgs,
       .orl RFLAGS_SWAPPED_GS (.based .rsp 0x38#64),
       .jmp .errNoSwapgs]
  | .errNoSwapgs =>
      [.test .rdi .rdi,
       .jcc .ns .skipDoubleFaultTest,
       .lea (.sym y.cpuTssRw) .rsi,
       .load (.gsBased .rsi y.tssSp0) .rsi,
       .subImm (y.threadSize + 0x1000#64) .rsi,
       .movCr2 .rcx,
       .andwImm 0xf000#16 .rcx,
       .test .rcx .rsi,
       .jcc .ns .errSkipSetDest,
       .pop .rcx,
       .pop .rsi,
       .pop .rdi,
       .addImm 8#64 .rsp,
       .jmpMem (.sym y.dfHandlerLocation)]
  | .skipDoubleFaultTest =>
      [.lea (.sym y.cpuTssRw) .rdi,
       .load (.gsBased .rdi y.tssSp0) .rdi,
       .jmp .errSkipSetDest]
  | .errSkipSetDest =>
      [.load (.gsSym y.currentTask) .rsi,
       .testb 1#8 (.based .rsi y.taskSymbioteElevated),
       .jcc .z .errSkipFlagSet,
       .movCr2 .rcx,
       .test .rcx .rcx,
       .jcc .s .errSkipFlagSet,
       .orl ERRCODE_PF_USER (.based .rsp 0x20#64),
       .storeImm USER_CS (.based .rsp 0x30#64),
       .storeImm USER_SS (.based .rsp 0x48#64),
       .jmp .errSkipFlagSet]
  | .errSkipFlagSet =>
      [.subImm 0x50#64 .rdi,
       .mov .rsp .rsi,
       .movImm 10#64 .rcx,
       .repMovsq,
       .lea (.based .rdi (-0x50#64)) .rsp,
       .testl RFLAGS_SWAPPED_GS (.based .rsp 0x38#64),
       .jcc .z .errNoSwapBack,
       .swapgs,
       .andl RFLAGS_SWAPPED_GS_MASK (.based .rsp 0x38#64),
       .jmp .errNoSwapBack]
  | .errNoSwapBack =>
      [.pop .rcx,
       .pop .rsi,
       .pop .rdi,
       .cmpMem 0#64 (.based .rsp 0#64),
       .jcc .z .errRetStateBad,
       .testl ERRCODE_MASK (.based .rsp 8#64),
       .jcc .nz .errRetStateBad,
       .testl CS_MASK (.based .rsp 0x18#64),
       .jcc .nz .errRetStateBad,
       .testl FLAGS_MASK (.based .rsp 0x20#64),
       .jcc .nz .errRetStateBad,
       .testl SS_MASK (.based .rsp 0x30#64),
       .jcc .nz .errRetStateBad,
       .jmp .errRetNormal]
  | .errRetNormal => [.ret]
  | .errLenBad => [.jmp .errLenNormal]
  | .errRetStateBad => [.jmp .errRetNormal]
  | .fixIstNoErrCode =>
      [.push .rdi,
       .xor .rdi .rdi,
       .mov .rsp .rdi,
       .andImm 0xfff#64 .rdi,
       .cmpImm 0xfc8#64 .rdi,
       .jcc .nz .noErrLenBad,
       .jmp .noErrLenNormal]
  | .noErrLenNormal =>
      [.load (.based .rsp 0x28#64) .rdi,
       .push .rsi,
       .push .rcx,
       .test .rdi .rdi,
       .jcc .s .noErrSkipSetDest,
       .rdgsbase .rdi,
       .test .rdi .rdi,
       .jcc .s .noErrNoSwapgs,
       .swapgs,
       .lea (.sym y.cpuTssRw) .rdi,
       .load (.gsBased .rdi y.tssSp0) .rdi,
       .swapgs,
       .jmp .noErrSkipSetDest]
  | .noErrNoSwapgs =>
      [.lea (.sym y.cpuTssRw) .rdi,
       .load (.gsBased .rdi y.tssSp0) .rdi,
       .jmp .noErrSkipSetDest]
  | .noErrSkipSetDest =>
      [.subImm 0x48#64 .rdi,
       .mov .rsp .rsi,
       .movImm 9#64 .rcx,
       .repMovsq,
       .lea (.based .rdi (-0x48#64)) .rsp,
       .pop .rcx,
       .pop .rsi,
       .pop .rdi,
       .cmpMem 0#64 (.based .rsp 0#64),
       .jcc .z .errRetStateBad,
       .testl CS_MASK (.based .rsp 0x10#64),
       .jcc .nz .errRetStateBad,
       .testl FLAGS_MASK (.based .rsp 0x18#64),
       .jcc .nz .errRetStateBad,
       .testl SS_MASK (.based .rsp 0x28#64),
       .jcc .nz .errRetStateBad,
       .ret]
  | .noErrLenBad => [.jmp .noErrLenNormal]

/-- What the hardware pushes, the error code only for some vectors. -/
structure Frame where
  errorCode : Option Word
  rip : Word
  cs : Word
  rflags : Word
  rsp : Word
  ss : Word

def Frame.words (f : Frame) : List Word :=
  f.errorCode.toList ++ [f.rip, f.cs, f.rflags, f.rsp, f.ss]

/-- The frame of a fault that looks as if it had come from user mode. -/
def Frame.asUser (f : Frame) : Frame :=
  { f with
    errorCode := f.errorCode.map (· ||| ERRCODE_PF_USER.setWidth 64)
    cs := USER_CS
    ss := USER_SS }

/-- The hardware switches to the stack that ends at `top` and pushes the frame. -/
def deliver (top : Word) (f : Frame) (m : Machine) : Machine :=
  { m with
    regs := { m.regs with rsp := top - BitVec.ofNat 64 (8 * f.words.length) }
    mem := storeWords m.mem (top - BitVec.ofNat 64 (8 * f.words.length)) f.words }

end SymbiOS.Relocation
