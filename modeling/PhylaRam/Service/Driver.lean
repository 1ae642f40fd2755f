import PhylaRam.Service.Resource

/-!
# The driver service

This module follows `cli/driver_service.cpp`. Handles are closed after the result of a function
has been determined, so their closing is left out, and so are the texts that the functions
report.
-/

namespace PhylaRam

def serviceStopped : UInt32 := 1

def serviceRunning : UInt32 := 4

def errorServiceAlreadyRunning : UInt32 := 1056

def errorServiceDoesNotExist : UInt32 := 1060

def errorServiceNotActive : UInt32 := 1062

def errorServiceMarkedForDelete : UInt32 := 1072

def errorAccessDenied : UInt32 := 5

def queryServiceStatusEx (w : ServiceWorld) : Option UInt32 × ServiceWorld :=
  (if w.choice.failure.isNone then some w.choice.state else none, w.after .queryStatus)

namespace DriverService

def kServiceTransitionTimeoutMs : Nat := 5000

def kServicePollInterval : Nat := 50

def kDeleteFileAttempts : Nat := 50

def kDeleteFileRetryInterval : Nat := 100

/-- `while (now() < deadline)` -/
def waitLoop (desiredState : UInt32) (deadline : Nat) (w : ServiceWorld) : Bool × ServiceWorld :=
  if w.clock < deadline then
    match (queryServiceStatusEx w).1 with
    | none => (false, (queryServiceStatusEx w).2)
    | some state =>
        if state = desiredState then (true, (queryServiceStatusEx w).2)
        else waitLoop desiredState deadline ((queryServiceStatusEx w).2.sleep kServicePollInterval)
  else (false, w)
termination_by deadline - w.clock
decreasing_by
  show deadline - (w.clock + w.choice.duration + 50 + _) < _
  omega

def waitForServiceState (desiredState : UInt32) (timeoutMilliseconds : Nat) (w : ServiceWorld) :
    Bool × ServiceWorld :=
  -- time may pass before the first look at the clock
  waitLoop desiredState (w.clock + timeoutMilliseconds) (w.sleep 0)

def stopServiceIfRunning (w : ServiceWorld) : Bool × ServiceWorld :=
  match queryServiceStatusEx w with
  | (none, w) => (false, w)
  | (some state, w) =>
      if state = serviceStopped then (true, w)
      else
        match serviceCall .stopService w with
        | (true, w) => waitForServiceState serviceStopped kServiceTransitionTimeoutMs w
        | (false, w) =>
            if w.lastError ≠ errorServiceNotActive then (false, w)
            else waitForServiceState serviceStopped kServiceTransitionTimeoutMs w

/-- The attempts that are left to see the service disappear. -/
def waitUntilServiceIsDeleted : Nat → ServiceWorld → Bool × ServiceWorld
  | 0, w => (false, w)
  | attempts + 1, w =>
      match serviceCall .openService w with
      | (false, w) => (w.lastError == errorServiceDoesNotExist, w)
      | (true, w) => waitUntilServiceIsDeleted attempts (w.sleep kDeleteFileRetryInterval)

def removeExistingService (w : ServiceWorld) : Bool × ServiceWorld :=
  match serviceCall .openService w with
  | (false, w) => (w.lastError == errorServiceDoesNotExist, w)
  | (true, w) =>
      match stopServiceIfRunning w with
      | (false, w) => (false, w)
      | (true, w) =>
          match serviceCall .deleteService w with
          | (true, w) => waitUntilServiceIsDeleted 50 w
          | (false, w) =>
              if w.lastError ≠ errorServiceMarkedForDelete then (false, w)
              else waitUntilServiceIsDeleted 50 w

def bestEffortDeleteService (w : ServiceWorld) : ServiceWorld :=
  (serviceCall .deleteService (stopServiceIfRunning w).2).2

/-- `DeleteFileW` until it succeeds or fails for a lasting reason. -/
def deleteLoop (path : WString) : Nat → ServiceWorld → UInt32 × ServiceWorld
  | 0, w => (w.lastError, w)
  | attempts + 1, w =>
      match serviceCall (.deleteFile path) w with
      | (true, w) => (errorSuccess, w)
      | (false, w) =>
          if w.lastError = errorFileNotFound then (errorSuccess, w)
          else if w.lastError ≠ errorSharingViolation ∧ w.lastError ≠ errorAccessDenied then
            (w.lastError, w)
          else deleteLoop path attempts (w.sleep kDeleteFileRetryInterval)

def deleteExtractedDriver (path : WString) (w : ServiceWorld) : UInt32 × ServiceWorld :=
  if path = [] then (errorSuccess, w) else deleteLoop path kDeleteFileAttempts w

def installAndStartDriver (w : ServiceWorld) : Bool × ServiceWorld :=
  match serviceCall .openManager w with
  | (false, w) => (false, w)
  | (true, w) =>
      match removeExistingService w with
      | (false, w) => (false, w)
      | (true, w) =>
          match serviceCall .createService w with
          | (false, w) => (false, w)
          | (true, w) =>
              match serviceCall .startService w with
              | (false, w) =>
                  if w.lastError ≠ errorServiceAlreadyRunning then (false, bestEffortDeleteService w)
                  else awaitRunning w
              | (true, w) => awaitRunning w
where
  awaitRunning (w : ServiceWorld) : Bool × ServiceWorld :=
    match waitForServiceState serviceRunning kServiceTransitionTimeoutMs w with
    | (true, w) => (true, w)
    | (false, w) => (false, bestEffortDeleteService w)

def stopAndDeleteDriver (w : ServiceWorld) : UInt32 × ServiceWorld :=
  match serviceCall .openManager w with
  | (false, w) => (w.lastError, w)
  | (true, w) =>
      match serviceCall .openService w with
      | (false, w) =>
          (if w.lastError = errorServiceDoesNotExist then errorSuccess else w.lastError, w)
      | (true, w) =>
          match stopServiceIfRunning w with
          | (false, w) => (w.lastError, w)
          | (true, w) =>
              match serviceCall .deleteService w with
              | (true, w) => (errorSuccess, w)
              | (false, w) =>
                  if w.lastError ≠ errorServiceMarkedForDelete then (w.lastError, w)
                  else (errorSuccess, w)

end DriverService

/-- A started service has an extracted driver. -/
structure DriverRuntime where
  extractedDriverPath : WString := []
  serviceStarted : Bool := false
  extracted : serviceStarted = true → extractedDriverPath ≠ [] := by decide

namespace DriverRuntime

open DriverService

/-- A runtime that has started nothing yet. -/
def idle : DriverRuntime := {}

def start (runtime : DriverRuntime) (w : ServiceWorld) : (Bool × DriverRuntime) × ServiceWorld :=
  if runtime.serviceStarted = true ∨ runtime.extractedDriverPath ≠ [] then ((false, runtime), w)
  else
    match DriverResource.extractEmbeddedDriver w with
    | .error _ w => ((false, runtime), w)
    | .ok path w =>
        match installAndStartDriver w with
        | (false, w) => ((false, runtime), (deleteExtractedDriver path w).2)
        | (true, w) => ((true, ⟨path, true, fun _ => path.property⟩), w)

def stop (runtime : DriverRuntime) (w : ServiceWorld) : (UInt32 × DriverRuntime) × ServiceWorld :=
  let (firstError, w) :=
    if runtime.serviceStarted then stopAndDeleteDriver w else (errorSuccess, w)
  let (fileError, w) := deleteExtractedDriver runtime.extractedDriverPath w
  ((if firstError ≠ errorSuccess then firstError else fileError, {}), w)

end DriverRuntime

end PhylaRam
