import PhylaRam.Shared.Interfaces
import PhylaRam.Win32.FileSystem

/-!
# The calls behind a start of the driver

The environment decides about every call that starts or stops the driver: whether it fails, with
which error, what it answers and how long it takes. A failing call sets the last error, which a
successful one leaves as it is. Every call leaves an event.
-/

namespace PhylaRam

/-- An error that `GetLastError` returns after a call that failed. -/
structure Win32Error where
  code : UInt32
  nonzero : code ≠ errorSuccess

inductive ServiceCall
  | findResource
  | loadResource
  | lockResource
  | convertSecurityDescriptor
  | getSecurityDescriptorDacl
  | setNamedSecurityInfo (path : WString)
  | createDirectory (path : WString)
  | getFileAttributes (path : WString)
  | genRandom
  | createFile (path : WString)
  /-- So many bytes have been written if the call succeeds. -/
  | writeFile (written : Nat)
  | flushFile
  | deleteFile (path : WString)
  | openManager
  | openService
  | queryStatus
  | stopService
  | deleteService
  | createService
  | startService
deriving DecidableEq, Repr

/-- A file or a service comes into being by this call. -/
def ServiceCall.creates : ServiceCall → Bool
  | .createFile _ | .createService => true
  | _ => false

def fileAttributeDirectory : UInt32 := 0x10

/-- What the environment does at one call. -/
structure ServiceChoice where
  failure : Option Win32Error := none
  /-- `dwCurrentState` of a query. -/
  state : UInt32 := 1
  /-- The milliseconds that the call takes. -/
  duration : Nat := 0
  /-- The answer of `GetFileAttributesW`. -/
  attributes : UInt32 := fileAttributeDirectory
  /-- The answer of `BCryptGenRandom`. -/
  randomBytes : Fin 16 → Byte := fun _ => 0
  /-- The bytes that `WriteFile` writes, if it is asked to write as many. -/
  written : Nat := 2 ^ 32 - 1

structure ServiceEvent where
  call : ServiceCall
  failure : Option UInt32
  state : UInt32
deriving DecidableEq, Repr

structure ServiceWorld where
  oracle : Nat → ServiceChoice
  lastError : UInt32 := errorSuccess
  tick : Nat := 0
  /-- `std::chrono::steady_clock`, in milliseconds. -/
  clock : Nat := 0
  events : List ServiceEvent := []
  /-- `SizeofResource` of the embedded driver. -/
  resourceSize : UInt32 := 4096
  /-- The variables of the process; one that is not set reads as empty. -/
  programData : WString := wide "C:\\ProgramData"
  systemRoot : WString := wide "C:\\Windows"

namespace ServiceWorld

def choice (w : ServiceWorld) : ServiceChoice := w.oracle w.tick

/-- The event of the next call. -/
def event (call : ServiceCall) (w : ServiceWorld) : ServiceEvent :=
  ⟨call, w.choice.failure.map Win32Error.code, w.choice.state⟩

/-- The world after the next call. -/
def after (call : ServiceCall) (w : ServiceWorld) : ServiceWorld :=
  { w with
    tick := w.tick + 1
    clock := w.clock + w.choice.duration
    lastError := match w.choice.failure with
      | some error => error.code
      | none => w.lastError
    events := w.events ++ [w.event call] }

/-- `std::this_thread::sleep_for` takes at least as long as it is asked to. -/
def sleep (milliseconds : Nat) (w : ServiceWorld) : ServiceWorld :=
  { w with tick := w.tick + 1, clock := w.clock + milliseconds + w.choice.duration }

end ServiceWorld

/-- A call that returns a flag or a handle. -/
def serviceCall (call : ServiceCall) (w : ServiceWorld) : Bool × ServiceWorld :=
  (w.choice.failure.isNone, w.after call)

end PhylaRam
