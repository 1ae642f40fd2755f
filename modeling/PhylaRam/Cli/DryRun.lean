import PhylaRam.Cli.Capture
import PhylaRam.Device.Inspection

/-!
# The dry run of the command line

`runDryRun` follows the function of that name in `cli/main.cpp`. What it prints on its standard
output is a report for a program (`--json`) or for a reader. Either form is printed only when the
table has been asked for, the session has been ended and the driver has been removed, and then it
is about the table that the driver had frozen. No memory is read.
-/

namespace PhylaRam

open Program DeviceSession
open Json (quoted Denotes)

variable {δ κ : Type}

namespace CommandLine

open Map (line block number hex64)

end CommandLine

/-! ### The report -/

namespace Map

open CommandLine Verify

end Map

/-! ### What a dry run tells -/

open CommandLine

section DryRun

variable {machine : Machine} {json : Bool} {h : History Driver DriverEvent}

end DryRun

theorem errorServiceDoesNotExist_ne : errorServiceDoesNotExist ≠ errorSuccess := by decide

/-- No service of that name is left from before, and every call succeeds. -/
def obedientDriver : ServiceWorld where
  oracle n :=
    if n = 21 then { failure := some ⟨errorServiceDoesNotExist, errorServiceDoesNotExist_ne⟩ }
    else if n = 25 then { state := serviceRunning }
    else {}

/-- A machine that loses a range while it is being asked. -/
def shrinkingMachine : Machine where
  kernel n := idleKernel (some (if n < 4 then [⟨0x3000, 0x1000⟩, ⟨0x1000, 0x1800⟩]
    else [⟨0x1000, 0x1800⟩]))
  openFailure _ := none
  dosError _ := errorInvalidData

def newConsole : Console DeviceSession Unit :=
  ⟨obedientDriver, { smallHost with device := {} }, 0⟩

end PhylaRam
