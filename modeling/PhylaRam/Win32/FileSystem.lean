import PhylaRam.Library.History
import PhylaRam.Library.Image
import PhylaRam.Shared.Interfaces
import Mathlib.Logic.Function.Basic

/-!
# The file system as the program sees it

The file-related calls of the Win32 API act on a `World`: the files by name, the
last-error value, and an oracle that decides what the environment does at each call.
A call may fail with any error, `WriteFile` may be short, and other processes may
create files just before any call. They never open or change an existing file; all
handles of the program are exclusive (`dwShareMode` is 0).

A successful call changes the files by at most one `Effect`. The world keeps the
history of all effects with the files before each of them, which is an observation
and never read by the program. A note marks a milestone of the program in that history.
-/

namespace PhylaRam

def errorSuccess : UInt32 := 0
def errorFileNotFound : UInt32 := 2
def errorInvalidHandle : UInt32 := 6
def errorInvalidData : UInt32 := 13
def errorSharingViolation : UInt32 := 32
def errorFileExists : UInt32 := 80
def errorInvalidParameter : UInt32 := 87
def errorDiskFull : UInt32 := 112
def errorInvalidName : UInt32 := 123
def errorNegativeSeek : UInt32 := 131
def errorAlreadyExists : UInt32 := 183
def errorArithmeticOverflow : UInt32 := 534
def errorFileSystemLimitation : UInt32 := 665

/-- Who created a file: this program, or another process. -/
inductive Creator
  | capture
  | foreign
deriving DecidableEq, Repr

/-- A file. `flushed` says that nothing was written since the last flush, `opened`
that this program holds its handle. -/
structure FileNode where
  content : List Byte
  flushed : Bool
  creator : Creator
  opened : Bool
deriving DecidableEq

abbrev Files := WString → Option FileNode

/-- Points in the course of a capture that file contents alone do not show. -/
inductive Milestone
  | digest (sha256 : NString)
  | imageFlushed
deriving DecidableEq, Repr

inductive Effect
  | create (path : WString)
  | truncate (path : WString)
  | write (path : WString) (offset : Nat) (data : List Byte)
  | setEnd (path : WString) (size : Nat)
  | flush (path : WString)
  | close (path : WString)
  | delete (path : WString)
  | rename (source target : WString)
  | intrude (path : WString) (content : List Byte)
  | note (milestone : Milestone)
deriving DecidableEq

def Files.modify (path : WString) (f : FileNode → FileNode) (files : Files) : Files :=
  Function.update files path ((files path).map f)

/-- A file of the given size: shortened, or extended with zeros. -/
def resized (content : List Byte) (size : Nat) : List Byte :=
  content.take size ++ List.replicate (size - content.length) 0

def Effect.apply : Effect → Files → Files
  | .create path, files => Function.update files path (some ⟨[], false, .capture, true⟩)
  | .truncate path, files =>
      files.modify path fun node => { node with content := [], flushed := false, opened := true }
  | .write path offset data, files =>
      files.modify path fun node =>
        { node with content := Image.patch 0 node.content offset data, flushed := false }
  | .setEnd path size, files =>
      files.modify path fun node =>
        { node with content := resized node.content size, flushed := false }
  | .flush path, files => files.modify path fun node => { node with flushed := true }
  | .close path, files => files.modify path fun node => { node with opened := false }
  | .delete path, files => Function.update files path none
  | .rename source target, files =>
      Function.update (Function.update files target (files source)) source none
  | .intrude path content, files =>
      Function.update files path (some ⟨content, false, .foreign, false⟩)
  | .note _, files => files

/-- What the environment does at one call. -/
structure Choice where
  /-- Files that other processes create just before the call. -/
  intruders : List (WString × List Byte) := []
  /-- The call fails with this error. -/
  failure : Option UInt32 := none
  /-- A deletion fails with this error. -/
  deletionFailure : Option UInt32 := none
  /-- `WriteFile` accepts at most so many bytes. -/
  limit : Nat := 2 ^ 32
  volumeRoot : WString := []
  fileSystemFlags : UInt32 := 0
  fileSystemName : WString := []
  freeBytes : UInt64 := 0

structure World where
  files : History Files Effect
  lastError : UInt32 := errorSuccess
  oracle : Nat → Choice
  tick : Nat := 0

namespace World

/-- No other process creates files. -/
def Solitary (w : World) : Prop := ∀ n, (w.oracle n).intruders = []

def DeletionsSucceed (w : World) : Prop := ∀ n, (w.oracle n).deletionFailure = none

def perform (e : Effect) (w : World) : World :=
  { w with files := w.files.perform Effect.apply e }

def setLastError (error : UInt32) (w : World) : World := { w with lastError := error }

/-- Another process creates a file unless the name is taken. -/
def intrude (w : World) (file : WString × List Byte) : World :=
  if (w.files.now file.1).isSome then w else w.perform (.intrude file.1 file.2)

/-- The environment's decisions at the next call. -/
def choice (w : World) : Choice := w.oracle w.tick

/-- The world in which the next call takes effect: other processes have acted. -/
def enter (w : World) : World :=
  w.choice.intruders.foldl intrude { w with tick := w.tick + 1 }

end World

/-- An exclusive file handle with its file pointer. -/
structure Handle where
  path : WString
  position : Nat
deriving DecidableEq, Repr

inductive CreationDisposition
  | createNew
  | createAlways
deriving DecidableEq, Repr

def createFileW (path : WString) (disposition : CreationDisposition) (w : World) :
    Option Handle × World :=
  match w.choice.failure with
  | some error => (none, w.enter.setLastError error)
  | none =>
      match w.enter.files.now path, disposition with
      | none, _ => (some ⟨path, 0⟩, w.enter.perform (.create path))
      | some _, .createNew => (none, w.enter.setLastError errorFileExists)
      | some node, .createAlways =>
          if node.opened then (none, w.enter.setLastError errorSharingViolation)
          else (some ⟨path, 0⟩, (w.enter.perform (.truncate path)).setLastError errorAlreadyExists)

/-- `WriteFile` at the file pointer: the number of bytes written and the handle with the
pointer moved. -/
def writeFile (file : Handle) (data : List Byte) (w : World) : Option (Nat × Handle) × World :=
  match w.choice.failure with
  | some error => (none, w.enter.setLastError error)
  | none =>
      let written := min w.choice.limit data.length
      if written = 0 then (some (0, file), w.enter)
      else
        (some (written, { file with position := file.position + written }),
          w.enter.perform (.write file.path file.position (data.take written)))

/-- `SetFilePointerEx` from the beginning of the file; the offset is signed. -/
def setFilePointerEx (file : Handle) (offset : UInt64) (w : World) : Option Handle × World :=
  match w.choice.failure with
  | some error => (none, w.enter.setLastError error)
  | none =>
      if 2 ^ 63 ≤ offset.toNat then (none, w.enter.setLastError errorNegativeSeek)
      else (some { file with position := offset.toNat }, w.enter)

def setEndOfFile (file : Handle) (w : World) : Bool × World :=
  match w.choice.failure with
  | some error => (false, w.enter.setLastError error)
  | none => (true, w.enter.perform (.setEnd file.path file.position))

def flushFileBuffers (file : Handle) (w : World) : Bool × World :=
  match w.choice.failure with
  | some error => (false, w.enter.setLastError error)
  | none => (true, w.enter.perform (.flush file.path))

def closeHandle (file : Handle) (w : World) : World := w.perform (.close file.path)

def deleteFileW (path : WString) (w : World) : Bool × World :=
  match w.choice.deletionFailure with
  | some error => (false, w.enter.setLastError error)
  | none =>
      match w.enter.files.now path with
      | none => (false, w.enter.setLastError errorFileNotFound)
      | some node =>
          if node.opened then (false, w.enter.setLastError errorSharingViolation)
          else (true, w.enter.perform (.delete path))

/-- `MoveFileExW` with `MOVEFILE_WRITE_THROUGH` only: an existing target is kept. -/
def moveFileExW (source target : WString) (w : World) : Bool × World :=
  match w.choice.failure with
  | some error => (false, w.enter.setLastError error)
  | none =>
      match w.enter.files.now source, w.enter.files.now target with
      | none, _ => (false, w.enter.setLastError errorFileNotFound)
      | some node, existing =>
          if node.opened then (false, w.enter.setLastError errorSharingViolation)
          else if existing.isSome then (false, w.enter.setLastError errorAlreadyExists)
          else (true, w.enter.perform (.rename source target))

/-- `GetFileAttributesW`, of which only the success is used. -/
def getFileAttributesW (path : WString) (w : World) : Bool × World :=
  match w.choice.failure with
  | some error => (false, w.enter.setLastError error)
  | none =>
      match w.enter.files.now path with
      | none => (false, w.enter.setLastError errorFileNotFound)
      | some _ => (true, w.enter)

/-- A call that reports a value of the environment and leaves the files alone. -/
def askEnvironment {α : Type} (answer : Choice → α) (w : World) : Option α × World :=
  match w.choice.failure with
  | some error => (none, w.enter.setLastError error)
  | none => (some (answer w.choice), w.enter)

/-- `DeviceIoControl` with `FSCTL_SET_SPARSE`. -/
def setSparse (_file : Handle) : World → Option Unit × World := askEnvironment fun _ => ()

def getVolumePathNameW (_path : WString) : World → Option WString × World :=
  askEnvironment Choice.volumeRoot

/-- `GetVolumeInformationW`: the file-system flags and name. -/
def getVolumeInformationW (_root : WString) : World → Option (UInt32 × WString) × World :=
  askEnvironment fun choice => (choice.fileSystemFlags, choice.fileSystemName)

def getDiskFreeSpaceExW (_root : WString) : World → Option UInt64 × World :=
  askEnvironment Choice.freeBytes

end PhylaRam
