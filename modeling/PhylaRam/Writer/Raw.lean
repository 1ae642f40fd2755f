import PhylaRam.Writer.Basic

/-!
# The RAW image writer

This module follows `cli/raw_writer.cpp`. A RAW image is a file of the logical size
whose byte at a physical address is the byte of memory at that address. Its volume
is asked for sparse support and free space before the file is created.
-/

namespace PhylaRam

open Program

structure RawMembers where
  logicalSize : UInt64 := 0
  sparse : Bool := false
deriving DecidableEq, Repr

abbrev RawWriter := WriterState RawMembers

namespace RawWriter

def kDiskHeadroomBytes : UInt64 := 64 * 1024 * 1024

def kWriteChunkBytes : Nat := 16 * 1024 * 1024

def kMaxFatFileBytes : UInt64 := 0xFFFFFFFF

def maxPath : Nat := 260

/-- `std::numeric_limits<LONGLONG>::max()`. -/
def longlongMax : UInt64 := 0x7FFFFFFFFFFFFFFF

def fileSupportsSparseFiles : UInt32 := 0x40

def backslash : UInt16 := 0x5C

/-- `path.find(L'\\', start)`. -/
def findBackslash (path : WString) (start : Nat) : Option Nat :=
  ((path.drop start).findIdx? (· == backslash)).map (start + ·)

def resolveVolumeRoot (path : WString) (w : World) : Option WString × World :=
  if path.take 2 = [backslash, backslash] then
    match findBackslash path 2 with
    | none => (none, w)
    | some serverEnd =>
        let root :=
          match findBackslash path (serverEnd + 1) with
          | none => path ++ [backslash]
          | some shareEnd => path.take (shareEnd + 1)
        -- `wcsncpy_s` reports the truncation of a longer name
        if root.length ≤ maxPath then (some root, w) else (none, w)
  else getVolumePathNameW path w

/-- `RawWriter::Close`, which is also what the destructor does. -/
def close : WriterM RawMembers Unit := do
  resetFile none
  setMembers fun _ => {}

/-- `lastError_ = GetLastError(); Close(); DeleteFileW(partialPath); return false;` -/
def discardStaging (partialPath : WString) : WriterM RawMembers Unit := do
  modify fun s => ({ s.1 with lastError := s.2.lastError }, s.2)
  close
  let _ ← win32 (deleteFileW partialPath)
  throw ()

/-- The volume of the image: its root directory. -/
def findVolume (partialPath : WString) : WriterM RawMembers WString := do
  match ← win32 (resolveVolumeRoot partialPath) with
  | some volumeRoot => pure volumeRoot
  | none =>
      let lastError := (← get).2.lastError
      refuse (if lastError = errorSuccess then errorInvalidName else lastError)

/-- The checks of the volume, which yield whether it supports sparse files. -/
def checkVolume (volumeRoot : WString) (logicalSize expectedPhysicalBytes : UInt64) :
    WriterM RawMembers Bool := do
  match ← win32 (getVolumeInformationW volumeRoot) with
  | none => refuseWithLastError
  | some (fileSystemFlags, fileSystem) =>
      let supportsSparse := fileSystemFlags &&& fileSupportsSparseFiles != 0
      if (fileSystem = wide "FAT32" ∨ fileSystem = wide "FAT") ∧ logicalSize > kMaxFatFileBytes then
        refuse errorFileSystemLimitation
      else
        let payloadBytes := if supportsSparse then expectedPhysicalBytes else logicalSize
        if payloadBytes > uint64Max - kDiskHeadroomBytes then refuse errorArithmeticOverflow
        else
          match ← win32 (getDiskFreeSpaceExW volumeRoot) with
          | none => refuseWithLastError
          | some freeBytesAvailable =>
              if freeBytesAvailable < payloadBytes + kDiskHeadroomBytes then refuse errorDiskFull
              else pure supportsSparse

/-- `FSCTL_SET_SPARSE` where the volume supports it. -/
def makeSparse (partialPath : WString) (supportsSparse : Bool) : WriterM RawMembers Unit :=
  if supportsSparse then do
    let done ← onFile false fun file w =>
      (((setSparse file w).1.isSome, file), (setSparse file w).2)
    if done then setMembers fun m => { m with sparse := true } else discardStaging partialPath
  else pure ()

/-- `SetFilePointerEx` and `SetEndOfFile`. -/
def setSize (partialPath : WString) (logicalSize : UInt64) : WriterM RawMembers Unit := do
  let moved ← seekFile logicalSize
  let ended ← if moved then endFile else pure false
  if ended then setMembers fun m => { m with logicalSize := logicalSize }
  else discardStaging partialPath

/-- `CreateFileW` with `CREATE_NEW`. -/
def createStaging (partialPath : WString) : WriterM RawMembers Unit := do
  let file ← win32 (createFileW partialPath .createNew)
  resetFile file
  if file.isSome then pure () else refuseWithLastError

def preflightAndOpen (partialPath : WString) (logicalSize expectedPhysicalBytes : UInt64) :
    WriterM RawMembers Unit := do
  close
  modify fun s => ({ s.1 with lastError := errorSuccess }, s.2)
  if partialPath = [] ∨ logicalSize = 0 ∨ logicalSize > longlongMax ∨
      expectedPhysicalBytes > logicalSize then
    refuse errorInvalidParameter
  else do
    let volumeRoot ← findVolume partialPath
    let supportsSparse ← checkVolume volumeRoot logicalSize expectedPhysicalBytes
    createStaging partialPath
    makeSparse partialPath supportsSparse
    setSize partialPath logicalSize

/-- The positioned write itself. -/
def writeData (offset : UInt64) (data : List Byte) : WriterM RawMembers Unit := do
  let moved ← seekFile offset
  let written ← if moved then onFile false fun file => writeLoop kWriteChunkBytes file data
    else pure false
  if written then pure () else refuseWithLastError

def writeAt (offset : UInt64) (data : List Byte) : WriterM RawMembers Unit := do
  let s ← get
  if s.1.file.isNone then refuse errorInvalidHandle
  else if offset > s.1.members.logicalSize ∨
      data.length > (s.1.members.logicalSize - offset).toNat then
    refuse errorInvalidParameter
  else writeData offset data

/-- `file_.Reset(); logicalSize_ = 0;` -/
def release : WriterM RawMembers Unit := do
  resetFile none
  setMembers fun m => { m with logicalSize := 0 }

def flushAndClose : WriterM RawMembers Unit := do
  let s ← get
  if s.1.file.isNone then refuse errorInvalidHandle
  else do
    let flushed ← flushFile
    if flushed then release
    else do
      modify fun s => ({ s.1 with lastError := s.2.lastError }, s.2)
      release
      throw ()

end RawWriter

def rawWriter : IRawWriter (RawWriter × World) where
  configure _ _ _ s := s
  preflightAndOpen path logicalSize expected :=
    (RawWriter.preflightAndOpen path logicalSize expected).method
  writeAt offset data := (RawWriter.writeAt offset data).method
  flushAndClose := RawWriter.flushAndClose.method
  close s := (RawWriter.close.method s).2
  isSparse s := s.1.members.sparse
  lastError s := s.1.lastError

end PhylaRam
