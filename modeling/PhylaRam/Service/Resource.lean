import PhylaRam.Service.World

/-!
# The embedded driver

This module follows `cli/driver_resource.cpp`. The driver that the executable carries is written to
a new file with a random name, in a directory that only administrators and the system can
change. Handles and descriptors are released whatever the result, so their release is left out.
-/

namespace PhylaRam

/-- The extraction stops at the first call that fails. -/
abbrev Extraction := EStateM Unit ServiceWorld

namespace DriverResource

def attempt (call : ServiceCall) : Extraction Bool := modifyGet (serviceCall call)

def refuseIf (c : Prop) [Decidable c] : Extraction Unit := if c then throw () else pure ()

def demand (call : ServiceCall) : Extraction Unit := do
  let succeeded ← attempt call
  refuseIf ¬succeeded

def maxPath : Nat := 260

/-- `INVALID_FILE_ATTRIBUTES` -/
def invalidFileAttributes : UInt32 := 0xFFFFFFFF

def getFileAttributes (path : WString) : Extraction UInt32 := do
  let answer := (← get).choice.attributes
  let succeeded ← attempt (.getFileAttributes path)
  pure (if succeeded then answer else invalidFileAttributes)

/-- The descriptor has a DACL, as `kProtectedAdminDacl` names one. -/
def applyProtectedAdminDacl (path : WString) : Extraction Unit := do
  demand .convertSecurityDescriptor
  demand .getSecurityDescriptorDacl
  demand (.setNamedSecurityInfo path)

def createSecureDirectory (directoryPath : WString) : Extraction Unit := do
  demand .convertSecurityDescriptor
  let created ← attempt (.createDirectory directoryPath)
  let createError := (← get).lastError
  refuseIf (¬created ∧ createError ≠ errorAlreadyExists)
  let fileAttributes ← getFileAttributes directoryPath
  refuseIf (fileAttributes = invalidFileAttributes ∨ fileAttributes &&& fileAttributeDirectory = 0)
  applyProtectedAdminDacl directoryPath

/-- `GetEnvironmentVariableW` with a buffer of `MAX_PATH` characters: a value that does not fit is
answered with the size that it needs. -/
def variableLength (value : WString) : Nat :=
  if value.length < maxPath then value.length else value.length + 1

def baseDirectory : Extraction WString := do
  let w ← get
  if 0 < variableLength w.programData ∧ variableLength w.programData ≤ maxPath then
    pure (w.programData ++ wide "\\PhylaRAM")
  else if variableLength w.systemRoot = 0 ∨ maxPath < variableLength w.systemRoot then throw ()
  else pure (w.systemRoot ++ wide "\\Temp\\PhylaRAM")

def resolveExtractionDirectory : Extraction WString := do
  let baseDirectory ← baseDirectory
  createSecureDirectory baseDirectory
  createSecureDirectory (baseDirectory ++ wide "\\Temp")
  pure (baseDirectory ++ wide "\\Temp")

/-- `std::hex << std::setw(2) << std::setfill(L'0')` -/
def hexByte (byte : Byte) : WString :=
  [(Nat.digitChar (byte.toNat / 16)).val.toUInt16, (Nat.digitChar (byte.toNat % 16)).val.toUInt16]

def driverPath (directory : WString) (randomBytes : Fin 16 → Byte) : WString :=
  directory ++ wide "\\phylaram_drv_" ++ (List.ofFn randomBytes).flatMap hexByte ++ wide ".sys"

theorem driverPath_ne_nil (directory : WString) (randomBytes : Fin 16 → Byte) :
    driverPath directory randomBytes ≠ [] :=
  List.append_ne_nil_of_right_ne_nil _ (by decide)

def generateUnpredictableDriverPath : Extraction { path : WString // path ≠ [] } := do
  let directory ← resolveExtractionDirectory
  let randomBytes := (← get).choice.randomBytes
  demand .genRandom
  pure ⟨driverPath directory randomBytes, driverPath_ne_nil directory randomBytes⟩

/-- The bytes of the resource, of which only the number matters here. -/
def lockDriver : Extraction Nat := do
  demand .findResource
  demand .loadResource
  let resourceSize := (← get).resourceSize
  demand .lockResource
  refuseIf (resourceSize = 0)
  pure resourceSize.toNat

/-- The one attempt to delete a file that could not be written. Its result is ignored. -/
def discard (path : WString) : Extraction Unit := do
  let _ ← attempt (.deleteFile path)
  throw ()

def writeFile (remaining : Nat) : Extraction (Bool × Nat) := do
  let written := min (← get).choice.written remaining
  let succeeded ← attempt (.writeFile written)
  pure (succeeded, written)

/-- `while (remaining != 0)` -/
def writeLoop (path : WString) (remaining : Nat) : Extraction Unit :=
  if remaining = 0 then pure ()
  else do
    let (succeeded, written) ← writeFile remaining
    if ¬succeeded ∨ written = 0 then discard path else writeLoop path (remaining - written)
termination_by remaining
decreasing_by omega

def extractEmbeddedDriver : Extraction { path : WString // path ≠ [] } := do
  let resourceSize ← lockDriver
  let path ← generateUnpredictableDriverPath
  demand .convertSecurityDescriptor
  demand (.createFile path)
  writeLoop path resourceSize
  let flushed ← attempt .flushFile
  if ¬flushed then discard path
  pure path

end DriverResource

end PhylaRam
