import PhylaRam.Verify.Text

/-!
# The schema of the map

This module follows `tools/phylaram-verify/src/schema.rs`. Turning a JSON text into
a `MapFile` is left to a parameter of the verifier.
-/

namespace PhylaRam.Verify

/-- What all three hexadecimal fields are parsed by. -/
def parseHex (bits : Nat) (s : Str) : Except ParseIntError Nat :=
  fromStrRadix16 bits ((s.trimStartMatches '0' 'x').trimStartMatches '0' 'X')

structure RangeEntry where
  driverRun : UInt32
  start : Str
  length : UInt64
deriving DecidableEq, Repr

def RangeEntry.parseStart (range : RangeEntry) : Except ParseIntError UInt64 :=
  UInt64.ofNat <$> parseHex 64 range.start

structure UnreadableEntry where
  start : Str
  length : UInt64
  ntstatus : Str
deriving DecidableEq, Repr

def UnreadableEntry.parseStart (span : UnreadableEntry) : Except ParseIntError UInt64 :=
  UInt64.ofNat <$> parseHex 64 span.start

def UnreadableEntry.parseNtstatus (span : UnreadableEntry) : Except ParseIntError UInt32 :=
  UInt32.ofNat <$> parseHex 32 span.ntstatus

structure KernelHintsMap where
  hypervisorPresent : Bool := false
  directoryTableBase : Option Str := none
  kpcrAddress : Option Str := none
  kernelBase : Option Str := none
  kernelSize : Option UInt64 := none
  majorVersion : Option UInt32 := none
  minorVersion : Option UInt32 := none
  buildNumber : Option UInt32 := none
  processors : Option UInt32 := none
deriving DecidableEq, Repr

structure MapFile where
  producer : Str
  producerVersion : Str
  schema : Str
  status : Str
  logicalSize : UInt64
  physicalBytes : UInt64
  acquiredBytes : UInt64
  unreadableBytes : UInt64
  topologyChanged : Bool
  sha256 : Str
  kernelHints : Option KernelHintsMap := none
  ranges : List RangeEntry
  unreadable : List UnreadableEntry
deriving DecidableEq, Repr

end PhylaRam.Verify
