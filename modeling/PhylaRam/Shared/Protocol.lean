import PhylaRam.Shared.Interfaces

/-!
# The driver protocol

The control codes and records of `shared/phylaram.h`, exchanged between the command line
tool and the driver. The sizes are those its static assertions fix.
-/

namespace PhylaRam

/-- `CTL_CODE` with `FILE_DEVICE_UNKNOWN` and `FILE_READ_ACCESS`. -/
def ctlCode (function method : UInt32) : UInt32 :=
  ((0x22 : UInt32) <<< 16) ||| ((1 : UInt32) <<< 14) ||| (function <<< 2) ||| method

def methodBuffered : UInt32 := 0
def methodOutDirect : UInt32 := 2

def ioctlPhylaQueryInfo : UInt32 := ctlCode 0x800 methodBuffered
def ioctlPhylaGetRanges : UInt32 := ctlCode 0x801 methodBuffered
def ioctlPhylaReadRun : UInt32 := ctlCode 0x802 methodOutDirect
def ioctlPhylaEndSession : UInt32 := ctlCode 0x803 methodBuffered
def ioctlPhylaQueryHints : UInt32 := ctlCode 0x804 methodBuffered

structure PhylaMemoryRun where
  baseAddress : UInt64
  numberOfBytes : UInt64
deriving DecidableEq, Repr

structure PhylaQueryInfo where
  version : UInt32
  runCount : UInt32
  totalBytes : UInt64
  highestPhysicalEnd : UInt64
deriving DecidableEq, Repr

structure PhylaReadRequest where
  runIndex : UInt32
  length : UInt32
  offsetWithinRun : UInt64
deriving DecidableEq, Repr

structure PhylaReadResult where
  version : UInt32
  headerSize : UInt32
  physicalAddress : UInt64
  requestedLength : UInt32
  bytesCopied : UInt32
  copyStatus : Int32
  reserved : UInt32 := 0
deriving DecidableEq, Repr

structure PhylaEndResult where
  version : UInt32
  topologyChanged : UInt32
  currentRunCount : UInt32
  reserved : UInt32
deriving DecidableEq, Repr

structure PhylaKernelHints where
  version : UInt32
  hypervisorPresent : UInt32
  majorVersion : UInt32
  minorVersion : UInt32
  buildNumber : UInt32
  numberOfProcessors : UInt32
  reserved : UInt32
  reserved2 : UInt32
  directoryTableBase : UInt64
  kpcrAddress : UInt64
  kernelBase : UInt64
  kernelSize : UInt64
deriving DecidableEq, Repr

def sizeofMemoryRun : UInt64 := 16
def sizeofQueryInfo : UInt64 := 24
def sizeofReadRequest : UInt64 := 16
def sizeofReadResult : UInt32 := 32
def sizeofEndResult : UInt64 := 16
def sizeofKernelHints : UInt64 := 64

end PhylaRam
