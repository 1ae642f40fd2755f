import PhylaRam.Library.Packed
import PhylaRam.Writer.Basic

/-!
# The crash-dump writer

This module follows `cli/zdmp_writer.cpp` and the packed structures of its header. A
dump is a 4096-byte header followed by the runs one after the other, so the place of a
byte in the file depends on the configured runs.
-/

namespace PhylaRam

open Program Packed

structure PhysicalMemoryRun64 where
  basePage : UInt64 := 0
  pageCount : UInt64 := 0
deriving DecidableEq, Repr

def PhysicalMemoryRun64.bytes (run : PhysicalMemoryRun64) : List Byte :=
  u64 run.basePage ++ u64 run.pageCount

/-- The fields of `DumpHeader64` that are not reserved. -/
structure DumpHeader64 where
  signature : UInt32 := 0x45474150
  validDump : UInt32 := 0x34365544
  majorVersion : UInt32 := 15
  minorVersion : UInt32 := 22631
  directoryTableBase : UInt64 := 0
  pfnDataBase : UInt64 := 0
  psLoadedModuleList : UInt64 := 0
  psActiveProcessHead : UInt64 := 0
  machineImageType : UInt32 := 0x8664
  numberProcessors : UInt32 := 1
  bugCheckCode : UInt32 := 0x161
  bugCheckParameter1 : UInt64 := 0
  bugCheckParameter2 : UInt64 := 0
  bugCheckParameter3 : UInt64 := 0
  bugCheckParameter4 : UInt64 := 0
  versionUser : NString := narrow "PhylaRAM 0.1.0-alpha"
  kdDebuggerDataBlock : UInt64 := 0
  numberOfRuns : UInt32 := 0
  numberOfPages : UInt64 := 0
  runs : List PhysicalMemoryRun64 := []
  dumpType : UInt32 := 1
deriving DecidableEq, Repr

namespace DumpHeader64

/-- The header in memory: 4096 bytes. -/
def bytes (h : DumpHeader64) : List Byte :=
  u32 h.signature ++ u32 h.validDump ++ u32 h.majorVersion ++ u32 h.minorVersion ++
  u64 h.directoryTableBase ++ u64 h.pfnDataBase ++ u64 h.psLoadedModuleList ++
  u64 h.psActiveProcessHead ++
  u32 h.machineImageType ++ u32 h.numberProcessors ++ u32 h.bugCheckCode ++
  u64 h.bugCheckParameter1 ++ u64 h.bugCheckParameter2 ++ u64 h.bugCheckParameter3 ++
  u64 h.bugCheckParameter4 ++
  array 32 h.versionUser ++ u64 h.kdDebuggerDataBlock ++ zeros 124 ++
  u32 h.numberOfRuns ++ zeros 4 ++ u64 h.numberOfPages ++
  array 512 (h.runs.flatMap PhysicalMemoryRun64.bytes) ++ zeros 3192 ++
  u32 h.dumpType ++ zeros 116

theorem length_bytes (h : DumpHeader64) : h.bytes.length = 4096 := by
  unfold bytes
  simp only [List.length_append, length_u32, length_u64, length_zeros, length_array]

end DumpHeader64

structure ZdmpMembers where
  runs : List MemoryRun := []
  runFileOffsets : List UInt64 := []
  hints : KernelHints := {}
  metadata : EvidenceMetadata := {}
  totalPhysicalBytes : UInt64 := 0
deriving DecidableEq, Repr

abbrev ZdmpWriter := WriterState ZdmpMembers

namespace ZdmpWriter

def headerBytes : UInt64 := 4096

/-- Where each run begins when the first begins at `offset`. -/
def fileOffsets : UInt64 → List MemoryRun → List UInt64
  | _, [] => []
  | offset, run :: runs => offset :: fileOffsets (offset + run.length) runs

def configure (runs : List MemoryRun) (hints : KernelHints) (metadata : EvidenceMetadata)
    (m : ZdmpMembers) : ZdmpMembers :=
  { m with
    runs := runs
    hints := hints
    metadata := metadata
    runFileOffsets := fileOffsets headerBytes runs }

def header (m : ZdmpMembers) (expectedPhysicalBytes : UInt64) : DumpHeader64 where
  minorVersion := if m.hints.buildNumber ≠ 0 then m.hints.buildNumber else 22631
  directoryTableBase := m.hints.directoryTableBase
  numberProcessors := if m.hints.numberOfProcessors ≠ 0 then m.hints.numberOfProcessors else 1
  psLoadedModuleList := if m.hints.kernelBase ≠ 0 then m.hints.kernelBase else 0
  numberOfRuns := UInt32.ofNat (min m.runs.length 32)
  numberOfPages := expectedPhysicalBytes / 4096
  runs := (m.runs.take 32).map fun run => ⟨run.base / 4096, run.length / 4096⟩

/-- `file_.Reset(CreateFileW(..))` with `CREATE_ALWAYS`. -/
def createStaging (partialPath : WString) : WriterM ZdmpMembers Unit := do
  let file ← win32 (createFileW partialPath .createAlways)
  resetFile file
  if file.isSome then pure () else refuseWithLastError

def preflightAndOpen (partialPath : WString) (_logicalSize expectedPhysicalBytes : UInt64) :
    WriterM ZdmpMembers Unit := do
  setMembers fun m => { m with totalPhysicalBytes := expectedPhysicalBytes }
  createStaging partialPath
  let s ← get
  writeExactly (header s.1.members expectedPhysicalBytes).bytes

/-- The place of a physical address: the first run that contains it decides. -/
def calculateFileOffset (m : ZdmpMembers) (physicalAddress : UInt64) : UInt64 :=
  match (m.runs.zip m.runFileOffsets).find? fun (run, _) =>
      run.base ≤ physicalAddress && physicalAddress < run.base + run.length with
  | some (run, offset) => offset + (physicalAddress - run.base)
  | none => headerBytes

def maxDword : Nat := 0xFFFFFFFF

/-- `while (remaining > 0)`: every `WriteFile` must be complete. -/
def writeAll (data : List Byte) : WriterM ZdmpMembers Unit :=
  if data = [] then pure ()
  else do
    writeExactly (data.take maxDword)
    writeAll (data.drop maxDword)
termination_by data.length
decreasing_by
  rw [List.length_drop]
  have := List.length_pos_iff.mpr ‹data ≠ []›
  have : maxDword = 0xFFFFFFFF := rfl
  omega

def writeAt (offset : UInt64) (data : List Byte) : WriterM ZdmpMembers Unit := do
  let s ← get
  if s.1.file.isNone ∨ data = [] then throw ()
  else do
    let moved ← seekFile (calculateFileOffset s.1.members offset)
    if moved then writeAll data else refuseWithLastError

def close : WriterM ZdmpMembers Unit := resetFile none

def flushAndClose : WriterM ZdmpMembers Unit := do
  let s ← get
  if s.1.file.isNone then pure ()
  else do
    let flushed ← flushFile
    if flushed then close
    else do
      modify fun s => ({ s.1 with lastError := s.2.lastError }, s.2)
      close
      throw ()

end ZdmpWriter

def zdmpWriter : IRawWriter (ZdmpWriter × World) where
  configure runs hints metadata s :=
    ({ s.1 with members := ZdmpWriter.configure runs hints metadata s.1.members }, s.2)
  preflightAndOpen path logicalSize expected :=
    (ZdmpWriter.preflightAndOpen path logicalSize expected).method
  writeAt offset data := (ZdmpWriter.writeAt offset data).method
  flushAndClose := ZdmpWriter.flushAndClose.method
  close s := (ZdmpWriter.close.method s).2
  isSparse _ := false
  lastError s := s.1.lastError

end PhylaRam
