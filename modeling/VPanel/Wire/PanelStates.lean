import VPanel.Library.ObjectLayout

/-!
# Packets as the headers declare them

Every platform sends the common header followed by its own state.  The
declarations keep the order, the integer types and the packing pragmas of
the header files; which bytes they stand for depends on the compiler.
-/

namespace VPanel.Wire

open ObjectLayout

/-- `panel_type_t` of `common.c`. -/
inductive PanelType
  | pdp1170 | vax | netbsdx64 | macos | linuxx64
  deriving DecidableEq

def PanelType.flag : PanelType → ℕ
  | .pdp1170 => 1
  | .vax => 2
  | .netbsdx64 => 3
  | .macos => 4
  | .linuxx64 => 5

theorem PanelType.flag_lt (t : PanelType) : t.flag < 2 ^ 32 := by
  cases t <;> decide

inductive HeaderField
  | ppByteCount | ppByteFlags
  deriving DecidableEq

def panelPacketHeader (A : Abi) : ObjType HeaderField :=
  A.packedStruct [A.int .ppByteCount .uint16, A.int .ppByteFlags .uint32]

/-- Members of a packet: those of the header and those of the state. -/
abbrev PacketField (ι : Type) := HeaderField ⊕ ι

def packetParts {ι : Type} (A : Abi) (state : ObjType ι) : List (ObjType (PacketField ι)) :=
  [(panelPacketHeader A).rename .inl, state.rename .inr]

/-! ## PDP-11 -/

inductive PdpField
  | psAddress | psData | psPsw | psMser | psCpuErr | psMmr0 | psMmr3
  deriving DecidableEq

structure PdpPanelState where
  psAddress : BitVec 32
  psData : BitVec 16
  psPsw : BitVec 16
  psMser : BitVec 16
  psCpuErr : BitVec 16
  psMmr0 : BitVec 16
  psMmr3 : BitVec 16

def PdpPanelState.members (s : PdpPanelState) : PdpField → ℕ
  | .psAddress => s.psAddress.toNat
  | .psData => s.psData.toNat
  | .psPsw => s.psPsw.toNat
  | .psMser => s.psMser.toNat
  | .psCpuErr => s.psCpuErr.toNat
  | .psMmr0 => s.psMmr0.toNat
  | .psMmr3 => s.psMmr3.toNat

def pdpPanelState (A : Abi) : ObjType PdpField :=
  A.struct [A.int .psAddress .long, A.int .psData .short, A.int .psPsw .short,
    A.int .psMser .short, A.int .psCpuErr .short, A.int .psMmr0 .short, A.int .psMmr3 .short]

def pdpPanelPacket (A : Abi) : ObjType (PacketField PdpField) :=
  A.struct (packetParts A (pdpPanelState A))

/-! ## NetBSD x64 -/

inductive ClockReg
  | cfRdi | cfRsi | cfRdx | cfRcx | cfR8 | cfR9 | cfR10 | cfR11 | cfR12 | cfR13 | cfR14 | cfR15
  | cfRbp | cfRbx | cfRax | cfGs | cfFs | cfEs | cfDs | cfTrapno | cfErr | cfRip | cfCs
  | cfRflags | cfRsp | cfSs
  deriving DecidableEq

structure Netbsdx64PanelState where
  psFrame : ClockReg → BitVec 64

def Netbsdx64PanelState.members (s : Netbsdx64PanelState) (r : ClockReg) : ℕ :=
  (s.psFrame r).toNat

def clockframe (A : Abi) : ObjType ClockReg :=
  A.packedStruct [A.int .cfRdi .uint64, A.int .cfRsi .uint64, A.int .cfRdx .uint64,
    A.int .cfRcx .uint64, A.int .cfR8 .uint64, A.int .cfR9 .uint64, A.int .cfR10 .uint64,
    A.int .cfR11 .uint64, A.int .cfR12 .uint64, A.int .cfR13 .uint64, A.int .cfR14 .uint64,
    A.int .cfR15 .uint64, A.int .cfRbp .uint64, A.int .cfRbx .uint64, A.int .cfRax .uint64,
    A.int .cfGs .uint64, A.int .cfFs .uint64, A.int .cfEs .uint64, A.int .cfDs .uint64,
    A.int .cfTrapno .uint64, A.int .cfErr .uint64, A.int .cfRip .uint64, A.int .cfCs .uint64,
    A.int .cfRflags .uint64, A.int .cfRsp .uint64, A.int .cfSs .uint64]

def netbsdx64PanelState (A : Abi) : ObjType ClockReg := A.packedStruct [clockframe A]

def netbsdx64PanelPacket (A : Abi) : ObjType (PacketField ClockReg) :=
  A.packedStruct (packetParts A (netbsdx64PanelState A))

/-! ## NetBSD VAX -/

inductive VaxField
  | psAddress | psData
  deriving DecidableEq

structure VaxPanelState where
  psAddress : BitVec 32
  psData : BitVec 32

def VaxPanelState.members (s : VaxPanelState) : VaxField → ℕ
  | .psAddress => s.psAddress.toNat
  | .psData => s.psData.toNat

def vaxPanelState (A : Abi) : ObjType VaxField :=
  A.packedStruct [A.int .psAddress .uint32, A.int .psData .uint32]

/-- The packet struct stands outside the packing pragma. -/
def vaxPanelPacket (A : Abi) : ObjType (PacketField VaxField) :=
  A.struct (packetParts A (vaxPanelState A))

/-! ## macOS -/

inductive MacosField
  | pc | sp | fp | lr | x0 | x1
  | cpuUsage | memoryUsage | loadAverage | threadCount | architecture | timestamp
  deriving DecidableEq

structure MacosPanelState where
  pc : BitVec 64
  sp : BitVec 64
  fp : BitVec 64
  lr : BitVec 64
  x0 : BitVec 64
  x1 : BitVec 64
  cpuUsage : BitVec 32
  memoryUsage : BitVec 32
  loadAverage : BitVec 32
  threadCount : BitVec 32
  architecture : BitVec 32
  timestamp : BitVec 32

def MacosPanelState.members (s : MacosPanelState) : MacosField → ℕ
  | .pc => s.pc.toNat
  | .sp => s.sp.toNat
  | .fp => s.fp.toNat
  | .lr => s.lr.toNat
  | .x0 => s.x0.toNat
  | .x1 => s.x1.toNat
  | .cpuUsage => s.cpuUsage.toNat
  | .memoryUsage => s.memoryUsage.toNat
  | .loadAverage => s.loadAverage.toNat
  | .threadCount => s.threadCount.toNat
  | .architecture => s.architecture.toNat
  | .timestamp => s.timestamp.toNat

def macosPanelState (A : Abi) : ObjType MacosField :=
  A.struct [A.int .pc .uint64, A.int .sp .uint64, A.int .fp .uint64, A.int .lr .uint64,
    A.int .x0 .uint64, A.int .x1 .uint64, A.int .cpuUsage .uint32, A.int .memoryUsage .uint32,
    A.int .loadAverage .uint32, A.int .threadCount .uint32, A.int .architecture .uint32,
    A.int .timestamp .uint32]

def macosPanelPacket (A : Abi) : ObjType (PacketField MacosField) :=
  A.struct (packetParts A (macosPanelState A))

/-! ## Linux x64 -/

inductive PtReg
  | r15 | r14 | r13 | r12 | rbp | rbx | r11 | r10 | r9 | r8 | rax | rcx | rdx | rsi | rdi
  | origRax | rip | cs | eflags | rsp | ss
  deriving DecidableEq

structure Linuxx64PanelState where
  psRegs : PtReg → BitVec 64

def Linuxx64PanelState.members (s : Linuxx64PanelState) (r : PtReg) : ℕ := (s.psRegs r).toNat

def ptRegs (A : Abi) : ObjType PtReg :=
  A.struct [A.int .r15 .uint64, A.int .r14 .uint64, A.int .r13 .uint64, A.int .r12 .uint64,
    A.int .rbp .uint64, A.int .rbx .uint64, A.int .r11 .uint64, A.int .r10 .uint64,
    A.int .r9 .uint64, A.int .r8 .uint64, A.int .rax .uint64, A.int .rcx .uint64,
    A.int .rdx .uint64, A.int .rsi .uint64, A.int .rdi .uint64, A.int .origRax .uint64,
    A.int .rip .uint64, A.int .cs .uint64, A.int .eflags .uint64, A.int .rsp .uint64,
    A.int .ss .uint64]

def linuxx64PanelState (A : Abi) : ObjType PtReg := A.struct [ptRegs A]

def linuxx64PanelPacket (A : Abi) : ObjType (PacketField PtReg) :=
  A.struct (packetParts A (linuxx64PanelState A))

/-! ## Sizes on a 64-bit host -/

@[simp] theorem size_panelPacketHeader_lp64 : (panelPacketHeader .lp64).size = 6 := rfl

@[simp] theorem size_pdpPanelPacket_lp64 : (pdpPanelPacket .lp64).size = 32 := rfl

@[simp] theorem size_vaxPanelPacket_lp64 : (vaxPanelPacket .lp64).size = 14 := rfl

@[simp] theorem size_netbsdx64PanelPacket_lp64 : (netbsdx64PanelPacket .lp64).size = 214 := rfl

@[simp] theorem size_macosPanelPacket_lp64 : (macosPanelPacket .lp64).size = 80 := rfl

@[simp] theorem size_linuxx64PanelPacket_lp64 : (linuxx64PanelPacket .lp64).size = 176 := rfl

end VPanel.Wire
