import PhylaRam.Library.Program

/-!
# Interfaces shared by the engine, its collaborators and their tests

This module follows `shared/interfaces.hpp` and the constants of
`shared/phylaram.h`. An abstract C++ class becomes a record of methods over an
arbitrary state type, so a statement about every `IDeviceSession δ` and every
`δ` covers every implementation and every sequence of replies.

Wide strings are lists of UTF-16 code units: unpaired surrogates are legal
`wchar_t` values. Byte buffers and narrow strings are lists of bytes. Fixed-width
integers keep their width; `long` is the 32-bit type of the Windows ABI.
-/

namespace PhylaRam

abbrev Byte := UInt8

/-- A `std::wstring`: UTF-16 code units, not necessarily well formed. -/
abbrev WString := List UInt16

/-- A wide string literal. -/
def wide (text : String) : WString := text.toList.map fun c => c.val.toUInt16

/-- A `std::string`: a sequence of bytes. -/
abbrev NString := List Byte

/-- A narrow string literal. -/
def narrow (text : String) : NString := text.toList.map fun c => c.val.toUInt8

def uint64Max : UInt64 := 0xFFFFFFFFFFFFFFFF

def phylaProtocolVersion : UInt32 := 2

def phylaMaxTransfer : UInt32 := 16 * 1024 * 1024

def phylaPageSize : UInt32 := 4096

structure MemoryRun where
  driverIndex : UInt32
  base : UInt64
  length : UInt64
deriving DecidableEq, Repr

structure ReadResult where
  physicalAddress : UInt64
  requested : UInt32
  copied : UInt32
  copyStatus : Int32
  data : List Byte
deriving DecidableEq, Repr

structure UnreadableSpan where
  start : UInt64
  length : UInt64
  status : Int32
deriving DecidableEq, Repr

structure KernelHints where
  available : Bool := false
  hypervisorPresent : Bool := false
  majorVersion : UInt32 := 0
  minorVersion : UInt32 := 0
  buildNumber : UInt32 := 0
  numberOfProcessors : UInt32 := 0
  directoryTableBase : UInt64 := 0
  kpcrAddress : UInt64 := 0
  kernelBase : UInt64 := 0
  kernelSize : UInt64 := 0
deriving DecidableEq, Repr

structure AcquisitionSummary where
  completed : Bool := false
  topologyChanged : Bool := false
  logicalSize : UInt64 := 0
  physicalBytes : UInt64 := 0
  acquiredBytes : UInt64 := 0
  unreadableBytes : UInt64 := 0
  sha256 : NString := []
  hints : KernelHints := {}
  ranges : List MemoryRun := []
  unreadable : List UnreadableSpan := []
deriving DecidableEq

/-- What `Query` stores through its reference parameters. -/
structure Topology where
  highestEnd : UInt64
  totalBytes : UInt64
  runs : List MemoryRun
deriving DecidableEq, Repr

/-- `IDeviceSession`. `none` is a call that returned false; `queryHints` also
says what it left in its reference parameter in that case. -/
structure IDeviceSession (δ : Type) where
  openSession : δ → Bool × δ
  close : δ → δ
  query : δ → Option Topology × δ
  queryHints : δ → (Bool × KernelHints) × δ
  read : UInt32 → UInt64 → UInt32 → δ → Option ReadResult × δ
  endSession : δ → Option Bool × δ
  lastError : δ → UInt32

inductive OutputFormat
  | raw
  | zdmp
  | e01
deriving DecidableEq, Repr

structure EvidenceMetadata where
  caseNumber : WString := []
  evidenceNumber : WString := []
  examiner : WString := []
  description : WString := []
  notes : WString := []
deriving DecidableEq, Repr

/-- `IRawWriter`. `preflightAndOpen` takes the staging path, the logical size and
the expected physical bytes; `writeAt` takes an offset and a buffer. -/
structure IRawWriter (ω : Type) where
  configure : List MemoryRun → KernelHints → EvidenceMetadata → ω → ω
  preflightAndOpen : WString → UInt64 → UInt64 → ω → Bool × ω
  writeAt : UInt64 → List Byte → ω → Bool × ω
  flushAndClose : ω → Bool × ω
  close : ω → ω
  isSparse : ω → Bool
  lastError : ω → UInt32

/-- `IHasher`. `finish` yields the digest in hexadecimal. -/
structure IHasher (η : Type) where
  initializeHasher : η → Bool × η
  update : List Byte → η → Bool × η
  updateZeros : UInt64 → η → Bool × η
  finish : η → Option NString × η
  reset : η → η

end PhylaRam
