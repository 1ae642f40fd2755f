import PhylaRam.Converter.Zdmp
import PhylaRam.Evidence.MapText
import PhylaRam.Tests.Mock
import PhylaRam.Writer.Raw
import PhylaRam.Writer.ZdmpFile

/-!
# Live and converted crash dumps

The writer of the capture and the converter place the field `VersionUser` differently: the
packed `DumpHeader64` has it at 0x5C and the converter at 0x60. The run tables differ by eight
bytes in the same way. So a converted dump is never the dump of a live capture.
-/

namespace PhylaRam

open Program Interval Packed Image Converter
open Json (Denotes)

/-- Where the header in memory has the version. -/
theorem DumpHeader64.versionUser_at (h : DumpHeader64) :
    HasAt h.bytes 0x5C (array 32 h.versionUser) := by
  have whole : HasAt h.bytes 0 h.bytes := .start _
  have fields := whole.front.front.front.front.front.front.front.front.front
  have version := (HasAt.append_iff.mp fields).2
  simp only [List.length_append, length_u32, length_u64] at version
  exact version

/-- The dump of the live capture is what the converter makes of the image and the map, with
some version of Python and into some file. -/
def DumpsAgree (live : World) (dumpPath : WString) (offline : World) (rawPath mapPath : WString) :
    Prop :=
  ∃ dump files text mapData py, live.content dumpPath = some dump ∧
    offline.content rawPath = some files.raw ∧ offline.content mapPath = some (Map.ascii text) ∧
    Denotes text (.value (.object mapData)) ∧
    convertToZdmp py files (loadedMembers mapData) = some dump

/-- The first character of the version is not where the converter leaves a zero. -/
theorem dumpHeader_ne {py : Python} {files : OpenFiles} {dump : List Byte} {mapData : Dict}
    {h : DumpHeader64}
    (version : h.versionUser = narrow "PhylaRAM 0.1.0-alpha") (live : dump.take 4096 = h.bytes) :
    convertToZdmp py files mapData ≠ some dump := by
  intro converted
  obtain ⟨hints, -, rest⟩ := Option.bind_eq_some_iff.mp converted
  obtain ⟨ranges, -, rest⟩ := Option.bind_eq_some_iff.mp rest
  obtain ⟨header, packed, copied⟩ := Option.bind_eq_some_iff.mp rest
  obtain ⟨body, rfl⟩ := prefix_of_foldlM copied
  have unversioned := dumpHeader_unversioned py hints ranges header packed
  rw [← unversioned.length, List.take_left] at live
  have zero := unversioned.version 0x5C (by decide) (by decide)
  have there := h.versionUser_at
  rw [← live, version] at there
  obtain ⟨tail, split⟩ := there
  have letter : header[0x5C]? = some 0x50 := by
    have first : (header.drop 0x5C)[0]? = some 0x50 := by
      rw [← split, List.getElem?_append_left (by rw [length_array]; decide)]
      decide
    rwa [List.getElem?_drop] at first
  rw [view, List.getD_eq_getElem?_getD, letter] at zero
  exact absurd zero (by decide)

/-- A captured dump is not a converted one. -/
theorem DumpFile.not_agree {runs : List MemoryRun} {path rawPath mapPath : WString}
    {m : ZdmpMembers} {expected : UInt64} {calls : List Call} {s : ZdmpWriter × World}
    {offline : World} (h : DumpFile runs path m (ZdmpWriter.header m expected).bytes calls s) :
    ¬DumpsAgree (zdmpWriter.flushAndClose s).2.2 path offline rawPath mapPath := by
  obtain ⟨node, present, header, -⟩ := h.node
  rintro ⟨dump, files, text, mapData, py, live, -, -, -, converted⟩
  have content := zdmp_flushAndClose_content h.file present
  obtain rfl := Option.some.inj (content.symm.trans live)
  exact dumpHeader_ne rfl header converted

section Live

variable {δ η κ : Type}

/-- After a completed live capture no image and no map convert to its dump. -/
theorem live_and_converted_dumps_differ (device : IDeviceSession δ) (hasher : IHasher η)
    (environment : Environment κ) (config : AcquisitionConfig) (d : δ) (h : η) (k : κ)
    (topology : Topology) (asked : (device.query d).1 = some topology) (valid : topology.Valid)
    (aligned : ∀ run ∈ topology.runs, run.PageAligned) (path : WString) (hints : KernelHints)
    (metadata : EvidenceMetadata) (s : ZdmpWriter × World)
    (opened : (zdmpWriter.preflightAndOpen path topology.highestEnd topology.totalBytes
      (zdmpWriter.configure topology.runs hints metadata s)).1 = true)
    (offline : World) (rawPath mapPath : WString) :
    let C : Collaborators δ (ZdmpWriter × World) η κ :=
      ⟨device, zdmpWriter, hasher, environment, config⟩
    let run := acquire C (.start d (zdmpWriter.preflightAndOpen path topology.highestEnd
      topology.totalBytes (zdmpWriter.configure topology.runs hints metadata s)).2 h k)
    returned run = true →
      ¬DumpsAgree (zdmpWriter.flushAndClose (final run).writer).2.2 path offline rawPath mapPath := by
  intro C run completed
  obtain ⟨m, captured⟩ := zdmp_captured_dump device hasher environment config d h k asked valid
    aligned opened completed
  exact captured.not_agree

end Live

/-! ### Two captures of the same pages -/

def capturedHints : KernelHints where
  available := true
  buildNumber := 22631
  numberOfProcessors := 4
  directoryTableBase := 0x1AA000
  kernelBase := 0xFFFFF80100000000

/-- An empty NTFS volume on which every call succeeds. -/
def emptyVolume : World where
  files := ⟨fun _ => none, []⟩
  oracle _ :=
    { limit := 2 ^ 32 - 1
      volumeRoot := wide "C:"
      fileSystemName := wide "NTFS"
      fileSystemFlags := RawWriter.fileSupportsSparseFiles
      freeBytes := 0x10000000000 }

/-- The injected error lies outside the two pages. -/
def readablePages : MockDeviceSession := mockUnreadablePage 0

def liveOpened : Bool × (ZdmpWriter × World) :=
  zdmpWriter.preflightAndOpen (wide "a.dmp") twoPages.highestEnd twoPages.totalBytes
    (zdmpWriter.configure twoPages.runs capturedHints {} ({ members := {} }, emptyVolume))

def liveRun :
    EStateM.Result StopCause (AcquireState MockDeviceSession (ZdmpWriter × World) MockHasher Unit)
      Unit :=
  acquire ⟨mockDeviceSession, zdmpWriter, mockHasher, quietEnvironment, {}⟩
    (.start readablePages liveOpened.2 {} ())

/-- The world with the closed dump. -/
def liveWorld : World := (zdmpWriter.flushAndClose (final liveRun).writer).2.2

def rawOpened : Bool × (RawWriter × World) :=
  rawWriter.preflightAndOpen (wide "a.raw") twoPages.highestEnd twoPages.totalBytes
    ({ members := {} }, emptyVolume)

def rawRun :
    EStateM.Result StopCause (AcquireState MockDeviceSession (RawWriter × World) MockHasher Unit)
      Unit :=
  acquire ⟨mockDeviceSession, rawWriter, mockHasher, quietEnvironment, {}⟩
    (.start readablePages rawOpened.2 {} ())

/-- The summary after the digest of the image has been added. -/
def rawSummary : AcquisitionSummary :=
  { (final rawRun).summary with
    sha256 := narrow "c79d691f5ec0e77348bd69f4433ccd0706399fbef55cd90992b1a7135dcb1854"
    hints := capturedHints }

/-- The closed image and its map. -/
def mappedWorld : Bool × World :=
  writeMapJson (wide "a.raw.map.json") rawSummary
    (rawWriter.flushAndClose (final rawRun).writer).2.2

/-- Both captures succeed and nothing is unreadable, and yet the files differ. -/
theorem two_page_dumps_differ :
    returned liveRun = true ∧ (zdmpWriter.flushAndClose (final liveRun).writer).1 = true ∧
      returned rawRun = true ∧ (rawWriter.flushAndClose (final rawRun).writer).1 = true ∧
      rawSummary.unreadable = [] ∧ mappedWorld.1 = true ∧
      ¬DumpsAgree liveWorld (wide "a.dmp") mappedWorld.2 (wide "a.raw")
        (wide "a.raw.map.json") := by
  have captured : returned liveRun = true := by decide +kernel
  obtain ⟨m, dump⟩ := zdmp_captured_dump mockDeviceSession mockHasher quietEnvironment {}
    readablePages {} () rfl twoPages_valid (by decide) 
    (show liveOpened.1 = true by decide +kernel) captured
  exact ⟨captured, by decide +kernel, by decide +kernel, by decide +kernel, by decide +kernel,
    by decide +kernel, dump.not_agree⟩

theorem live_and_converted_dumps_differ_two_pages :
    ¬DumpsAgree liveWorld (wide "a.dmp") mappedWorld.2 (wide "a.raw") (wide "a.raw.map.json") :=
  live_and_converted_dumps_differ mockDeviceSession mockHasher quietEnvironment {} readablePages {}
    () twoPages rfl twoPages_valid (by decide) (wide "a.dmp") capturedHints {} _
    (show liveOpened.1 = true by decide +kernel) mappedWorld.2 (wide "a.raw")
    (wide "a.raw.map.json") (show returned liveRun = true by decide +kernel)

end PhylaRam
