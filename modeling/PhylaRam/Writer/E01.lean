import PhylaRam.Library.Packed
import PhylaRam.Writer.Basic

/-!
# The E01 container writer

This module follows `cli/e01_writer.cpp` and the packed structures of its header. The
container is a chain of sections; the acquired bytes go into 64 KiB chunks, each
followed by its Adler-32, in the order in which they are written. The section offsets
that the class records but never reads are left out.
-/

namespace PhylaRam

open Program Packed

/-- The Adler-32 of a buffer; `s1` and `s2` are the two halves of the sum. -/
def calculateAdler32 (data : List Byte) : UInt32 :=
  let (s1, s2) := data.foldl
    (fun (s1, s2) byte =>
      let s1 := (s1 + byte.toUInt32) % 65521
      (s1, (s2 + s1) % 65521))
    ((1 : UInt32), (0 : UInt32))
  (s2 <<< 16) ||| s1

/-- `EwfFileHeader` with its default values: 13 bytes. -/
def ewfFileHeader : List Byte :=
  [0x45, 0x56, 0x46, 0x09, 0x0D, 0x0A, 0xFF, 0x00] ++ [0x01] ++ u16 1 ++ u16 0

theorem length_ewfFileHeader : ewfFileHeader.length = 13 := rfl

/-- The first 72 bytes of an `EwfSectionHeader`. -/
def sectionHeaderBody (type : NString) (nextOffset sectionSize : UInt64) : List Byte :=
  array 16 type ++ u64 nextOffset ++ u64 sectionSize ++ zeros 40

/-- An `EwfSectionHeader` with its checksum: 76 bytes. -/
def ewfSectionHeader (type : NString) (nextOffset sectionSize : UInt64) : List Byte :=
  sectionHeaderBody type nextOffset sectionSize ++
    u32 (calculateAdler32 (sectionHeaderBody type nextOffset sectionSize))

def sectionHeaderBytes : UInt64 := 76

theorem length_ewfSectionHeader (type : NString) (nextOffset sectionSize : UInt64) :
    (ewfSectionHeader type nextOffset sectionSize).length = 76 := by
  simp [ewfSectionHeader, sectionHeaderBody]

/-- An `EwfVolumeSection`: 992 bytes. -/
def ewfVolumeSection (chunkCount : UInt32) (sectorCount : UInt64) : List Byte :=
  u32 1 ++ u32 0 ++ u32 chunkCount ++ u32 128 ++ u32 512 ++ u64 sectorCount ++ zeros 8 ++
    zeros 16 ++ zeros 940

theorem length_ewfVolumeSection (chunkCount : UInt32) (sectorCount : UInt64) :
    (ewfVolumeSection chunkCount sectorCount).length = 992 := by
  simp [ewfVolumeSection]

structure E01Members where
  runs : List MemoryRun := []
  hints : KernelHints := {}
  metadata : EvidenceMetadata := {}
  totalPhysicalBytes : UInt64 := 0
  currentFileOffset : UInt64 := 0
  /-- The bytes of `chunkBuffer_` in use. -/
  chunkBuffer : List Byte := []
  chunkTableOffsets : List UInt32 := []
  sectorsSectionOffset : UInt64 := 0
deriving DecidableEq, Repr

abbrev E01Writer := WriterState E01Members

namespace E01Writer

def kChunkSize : Nat := 65536

def toUtf8 (text : WString) : NString :=
  text.map fun wc => if wc < 0x80 then wc.toUInt8 else 0x3F

def configure (runs : List MemoryRun) (hints : KernelHints) (metadata : EvidenceMetadata)
    (m : E01Members) : E01Members :=
  { m with runs := runs, hints := hints, metadata := metadata }

/-- One line of the header section. -/
def metaLine (key : String) (value : WString) (fallback : String) : NString :=
  narrow key ++ narrow "\t" ++ (if value.isEmpty then narrow fallback else toUtf8 value) ++
    narrow "\n"

def metaString (metadata : EvidenceMetadata) : NString :=
  metaLine "case_number" metadata.caseNumber "CASE-001" ++
  metaLine "evidence_number" metadata.evidenceNumber "EV-001" ++
  metaLine "examiner_name" metadata.examiner "PhylaRAM Forensic Examiner" ++
  metaLine "description" metadata.description "Physical Memory Image" ++
  metaLine "notes" metadata.notes "Captured via PhylaRAM (byte-accurate provenance)" ++
  narrow "system_date\t2026-08-24 00:00:00\n" ++
  narrow "acquisition_date\t2026-08-24 00:00:00\n" ++
  narrow "compression_type\tbest\n"

/-- A complete `WriteFile`, after which `currentFileOffset_` is advanced. -/
def emit (data : List Byte) : WriterM E01Members Unit := do
  writeExactly data
  setMembers fun m =>
    { m with currentFileOffset := m.currentFileOffset + UInt64.ofNat data.length }

/-- A section whose data is followed by its Adler-32. -/
def writeSection (type : String) (data : List Byte) (totalSectionSize : UInt64) :
    WriterM E01Members Unit := do
  let s ← get
  emit (ewfSectionHeader (narrow type) (s.1.members.currentFileOffset + totalSectionSize)
    totalSectionSize)
  emit data
  emit (u32 (calculateAdler32 data))

def writeHeaderSection : WriterM E01Members Unit := do
  let s ← get
  let metaStr := metaString s.1.members.metadata
  writeSection "header" metaStr (sectionHeaderBytes + UInt64.ofNat metaStr.length + 4)

def volumeSection (totalPhysicalBytes : UInt64) : List Byte :=
  ewfVolumeSection ((totalPhysicalBytes + 65536 - 1) / 65536).toUInt32 (totalPhysicalBytes / 512)

def writeVolumeSection : WriterM E01Members Unit := do
  let s ← get
  writeSection "volume" (volumeSection s.1.members.totalPhysicalBytes)
    (sectionHeaderBytes + 992 + 4)
  setMembers fun m => { m with sectorsSectionOffset := m.currentFileOffset }

/-- `file_.Reset(CreateFileW(..))` with `CREATE_ALWAYS`. -/
def createStaging (partialPath : WString) : WriterM E01Members Unit := do
  let file ← win32 (createFileW partialPath .createAlways)
  resetFile file
  if file.isSome then pure () else refuseWithLastError

/-- The writes of `PreflightAndOpen`. -/
def writePreamble : WriterM E01Members Unit := do
  setMembers fun m => { m with currentFileOffset := 0 }
  emit ewfFileHeader
  writeHeaderSection
  writeVolumeSection
  emit (ewfSectionHeader (narrow "sectors") 0 sectionHeaderBytes)

def preflightAndOpen (partialPath : WString) (_logicalSize expectedPhysicalBytes : UInt64) :
    WriterM E01Members Unit := do
  setMembers fun m =>
    { m with
      totalPhysicalBytes := expectedPhysicalBytes
      chunkBuffer := []
      chunkTableOffsets := [] }
  createStaging partialPath
  writePreamble

def flushActiveChunk : WriterM E01Members Unit := do
  let s ← get
  if s.1.members.chunkBuffer = [] then pure ()
  else do
    let chunk := array kChunkSize s.1.members.chunkBuffer
    setMembers fun m =>
      { m with
        chunkTableOffsets := m.chunkTableOffsets ++
          [(m.currentFileOffset - m.sectorsSectionOffset).toUInt32] }
    emit chunk
    emit (u32 (calculateAdler32 chunk))
    setMembers fun m => { m with chunkBuffer := [] }

/-- One turn of the loop of `WriteAt`: fill the buffer, and flush it when it is full. -/
def fillBuffer (part : List Byte) : WriterM E01Members Unit := do
  setMembers fun m => { m with chunkBuffer := m.chunkBuffer ++ part }
  let s ← get
  if s.1.members.chunkBuffer.length = kChunkSize then flushActiveChunk else pure ()

/-- `while (remaining > 0)`. Only the first turn can find the buffer full, so there are at
most as many turns as bytes and one. -/
def fillBuffers : Nat → List Byte → WriterM E01Members Unit
  | 0, _ => pure ()
  | turns + 1, data =>
      if data = [] then pure ()
      else do
        let s ← get
        let space := kChunkSize - s.1.members.chunkBuffer.length
        fillBuffer (data.take space)
        fillBuffers turns (data.drop space)

def writeAt (_offset : UInt64) (data : List Byte) : WriterM E01Members Unit := do
  let s ← get
  if s.1.file.isNone ∨ data = [] then throw () else fillBuffers (data.length + 1) data

def tableBytes (offsets : List UInt32) : List Byte := offsets.flatMap u32

def writeTableSection : WriterM E01Members Unit := do
  let s ← get
  let table := tableBytes s.1.members.chunkTableOffsets
  let totalSectionSize := sectionHeaderBytes + UInt64.ofNat table.length + 4
  emit (ewfSectionHeader (narrow "table") (s.1.members.currentFileOffset + totalSectionSize)
    totalSectionSize)
  if table = [] then pure () else emit table
  emit (u32 (calculateAdler32 table))

def writeHashSection : WriterM E01Members Unit := do
  let s ← get
  let totalSectionSize := sectionHeaderBytes + 36
  emit (ewfSectionHeader (narrow "hash") (s.1.members.currentFileOffset + totalSectionSize)
    totalSectionSize)
  emit (zeros 36)

def writeDoneSection : WriterM E01Members Unit :=
  emit (ewfSectionHeader (narrow "done") 0 sectionHeaderBytes)

/-- The sectors header rewritten in place; the results of the three calls are ignored. -/
def updateSectorsHeader : WriterM E01Members Unit := do
  let m := (← get).1.members
  let _ ← seekFile m.sectorsSectionOffset
  let _ ← writeOnce (ewfSectionHeader (narrow "sectors") m.currentFileOffset
    (m.currentFileOffset - m.sectorsSectionOffset))
  let _ ← seekFile m.currentFileOffset
  pure ()

def writeTrailer : WriterM E01Members Unit := do
  flushActiveChunk
  updateSectorsHeader
  writeTableSection
  writeHashSection
  writeDoneSection
  let flushed ← flushFile
  if flushed then pure () else refuseWithLastError

def close : WriterM E01Members Unit := resetFile none

/-- Every failure of `FlushAndClose` closes the file before it returns false. -/
def flushAndClose : WriterM E01Members Unit := do
  let s ← get
  if s.1.file.isNone then pure ()
  else do
    tryCatch writeTrailer fun _ => do
      close
      throw ()
    close

end E01Writer

def e01Writer : IRawWriter (E01Writer × World) where
  configure runs hints metadata s :=
    ({ s.1 with members := E01Writer.configure runs hints metadata s.1.members }, s.2)
  preflightAndOpen path logicalSize expected :=
    (E01Writer.preflightAndOpen path logicalSize expected).method
  writeAt offset data := (E01Writer.writeAt offset data).method
  flushAndClose := E01Writer.flushAndClose.method
  close s := (E01Writer.close.method s).2
  isSparse _ := false
  lastError s := s.1.lastError

end PhylaRam
