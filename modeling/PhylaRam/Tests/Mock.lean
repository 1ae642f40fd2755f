import PhylaRam.Acquire.Basic

/-!
# The stand-ins of the mock acquisition test

This module follows the classes of `tests/test_mock_acquire.cpp`. They are the
smallest collaborators under which the engine runs to its end. A `std::map` is the
list of its entries in the order of the keys.
-/

namespace PhylaRam

structure MockDeviceSession where
  mockHighestEnd : UInt64 := 0x40000000
  mockTotalBytes : UInt64 := 0
  mockRuns : List MemoryRun := []
  injectedPageErrors : List (UInt64 × Int32) := []
  mutateTopologyAtEnd : Bool := false
deriving DecidableEq, Repr

/-- The first injected error inside the request, as the loop over the map finds it. -/
def MockDeviceSession.firstError (device : MockDeviceSession) (phys : UInt64)
    (length : UInt32) : Option (UInt64 × Int32) :=
  device.injectedPageErrors.foldl
    (fun first entry =>
      if phys ≤ entry.1 && entry.1 < phys + length.toUInt64 then
        match first with
        | none => some entry
        | some earlier => if entry.1 < earlier.1 then some entry else some earlier
      else first)
    none

def MockDeviceSession.read (device : MockDeviceSession) (runIndex : UInt32) (offset : UInt64)
    (length : UInt32) : Option ReadResult :=
  match device.mockRuns[runIndex.toNat]? with
  | none => none
  | some run =>
      if offset + length.toUInt64 > run.length then none
      else
        let phys := run.base + offset
        match device.firstError phys length with
        | none =>
            some ⟨phys, length, length, 0, List.replicate length.toNat 0x55⟩
        | some (firstErrorPage, status) =>
            let copied := (firstErrorPage - phys).toUInt32
            some ⟨phys, length, copied, status, List.replicate copied.toNat 0x55⟩

def mockDeviceSession : IDeviceSession MockDeviceSession where
  openSession device := (true, device)
  close device := device
  query device := (some ⟨device.mockHighestEnd, device.mockTotalBytes, device.mockRuns⟩, device)
  queryHints device :=
    ((true, { available := true, directoryTableBase := 0x1AA000,
              kernelBase := 0xFFFFF80100000000 }), device)
  read runIndex offset length device := (device.read runIndex offset length, device)
  endSession device := (some device.mutateTopologyAtEnd, device)
  lastError _ := 0

structure MockRawWriter where
  writes : List (UInt64 × List Byte) := []
  configuredLogicalSize : UInt64 := 0
deriving DecidableEq, Repr

def mockRawWriter : IRawWriter MockRawWriter where
  configure _ _ _ writer := writer
  preflightAndOpen _ logicalSize _ writer :=
    (true, { writer with configuredLogicalSize := logicalSize })
  writeAt offset data writer :=
    (true, { writer with
      writes := (offset, data) :: writer.writes.filter fun write => write.1 != offset })
  flushAndClose writer := (true, writer)
  close writer := writer
  isSparse _ := true
  lastError _ := 0

structure MockHasher where
  totalHashed : UInt64 := 0
deriving DecidableEq, Repr

def mockHasher : IHasher MockHasher where
  initializeHasher _ := (true, { totalHashed := 0 })
  update data hasher := (true, { totalHashed := hasher.totalHashed + UInt64.ofNat data.length })
  updateZeros length hasher := (true, { totalHashed := hasher.totalHashed + length })
  finish hasher := (some (narrow "MOCK_SHA256_PASSED"), hasher)
  reset _ := { totalHashed := 0 }

/-- No thread sets the flag and no transfer has to wait. -/
def quietEnvironment : Environment Unit where
  cancelled k := (false, k)
  waits _ _ _ := 0

def mockCollaborators : Collaborators MockDeviceSession MockRawWriter MockHasher Unit where
  device := mockDeviceSession
  writer := mockRawWriter
  hasher := mockHasher
  environment := quietEnvironment
  config := {}

/-- A run that begins inside one page and ends inside the next, which is unreadable. -/
def mockFaultyPage : MockDeviceSession where
  mockHighestEnd := 0x2008
  mockTotalBytes := 16
  mockRuns := [⟨0, 0x1FF8, 16⟩]
  injectedPageErrors := [(0x2000, -1073741819)]

/-- Two pages with a page between them, of which one cannot be read. -/
def mockUnreadablePage (page : UInt64) : MockDeviceSession where
  mockHighestEnd := 0x4000
  mockTotalBytes := 0x2000
  mockRuns := [⟨0, 0x1000, 0x1000⟩, ⟨1, 0x3000, 0x1000⟩]
  injectedPageErrors := [(page, -1073741819)]

def twoPages : Topology := ⟨0x4000, 0x2000, [⟨0, 0x1000, 0x1000⟩, ⟨1, 0x3000, 0x1000⟩]⟩

end PhylaRam
