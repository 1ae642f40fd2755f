import PhylaRam.Evidence.Files
import PhylaRam.Evidence.MapText
import PhylaRam.Evidence.Transaction
import PhylaRam.Verify.HexFields
import PhylaRam.Verify.Verifier
import PhylaRam.Writer.RawImage

/-!
# The map that is written is the map that is read

The verifier's schema reads a map from the text of a summary that records the summary field
by field. What `WriteMapJson` puts into the file is such a text.
-/

namespace PhylaRam

open Json (Denotes Value)
open Map

namespace Verify

/-! ### Hexadecimal numbers -/

theorem toDigit_upperDigit {d : Nat} (small : d < 16) : toDigit (upperDigit d) = some d := by
  interval_cases d <;> decide

variable {bits : Nat} {ds : List Nat}

theorem readsAs_upperDigits (small : ∀ d ∈ ds, d < 16) : ReadsAs (ds.map upperDigit) ds := by
  rw [ReadsAs, List.map_map]
  exact List.map_congr_left fun d member => toDigit_upperDigit (small d member)

/-- One prefix, no sign and the digits are a spelling. -/
theorem parseHex_digits (nonempty : ds ≠ []) (small : ∀ d ∈ ds, d < 16)
    (fits : Numeral.value 16 ds < 2 ^ bits) :
    parseHex bits ('0' :: 'x' :: ds.map upperDigit) = .ok (Numeral.value 16 ds) :=
  parseHex_eq_ok.mpr ⟨1, 0, false, ds, ⟨_, rfl, readsAs_upperDigits small⟩,
    List.length_pos_iff.mpr nonempty, rfl, fits⟩

theorem parseHex_hex64 (value : UInt64) : parseHex 64 (hex64 value) = .ok value.toNat := by
  have number : Numeral.value 16 (Numeral.digits 16 value.toNat) = value.toNat :=
    Numeral.value_digits
  have fits : Numeral.value 16 (Numeral.digits 16 value.toNat) < 2 ^ 64 :=
    number.symm ▸ value.toNat_lt
  have parsed := parseHex_digits Numeral.digits_ne_nil (digits_small value.toNat) fits
  rwa [number] at parsed

/-- The padding counts for nothing. -/
theorem parseHex_hex32 (value : UInt32) : parseHex 32 (hex32 value) = .ok value.toNat := by
  have text (k : Nat) : List.replicate k '0' ++ upperHex value.toNat =
      (List.replicate k 0 ++ Numeral.digits 16 value.toNat).map upperDigit := by
    rw [List.map_append, List.map_replicate]
    rfl
  have number (k : Nat) :
      Numeral.value 16 (List.replicate k 0 ++ Numeral.digits 16 value.toNat) = value.toNat :=
    (Numeral.value_zeros k).trans Numeral.value_digits
  rw [hex32, text, parseHex_digits, number]
  · exact fun none => Numeral.digits_ne_nil (List.append_eq_nil_iff.mp none).2
  · intro d found
    cases List.mem_append.mp found with
    | inl padding =>
        rw [List.eq_of_mem_replicate padding]
        decide
    | inr digit => exact digits_small _ d digit
  · rw [number]
    exact value.toNat_lt

/-! ### The map that is read -/

def RangeEntry.written (range : MemoryRun) : RangeEntry where
  driverRun := range.driverIndex
  start := hex64 range.base
  length := range.length

def UnreadableEntry.written (span : UnreadableSpan) : UnreadableEntry where
  start := hex64 span.start
  length := span.length
  ntstatus := hex32 span.status.toUInt32

def KernelHintsMap.written (hints : KernelHints) : KernelHintsMap where
  hypervisorPresent := hints.hypervisorPresent
  directoryTableBase := some (hex64 hints.directoryTableBase)
  kpcrAddress := some (hex64 hints.kpcrAddress)
  kernelBase := some (hex64 hints.kernelBase)
  kernelSize := some hints.kernelSize
  majorVersion := some hints.majorVersion
  minorVersion := some hints.minorVersion
  buildNumber := some hints.buildNumber
  processors := some hints.numberOfProcessors

/-- The map file that a summary becomes. -/
def MapFile.written (summary : AcquisitionSummary) : MapFile where
  producer := str "PhylaRAM"
  producerVersion := str "0.1.0-alpha"
  schema := str "phylaram-map-2"
  status := statusText summary
  logicalSize := summary.logicalSize
  physicalBytes := summary.physicalBytes
  acquiredBytes := summary.acquiredBytes
  unreadableBytes := summary.unreadableBytes
  topologyChanged := summary.topologyChanged
  sha256 := chars summary.sha256
  kernelHints := if summary.hints.available then some (.written summary.hints) else none
  ranges := summary.ranges.map .written
  unreadable := summary.unreadable.map .written

theorem RangeEntry.ofJson_written (range : MemoryRun) :
    RangeEntry.ofJson (.object (rangeMembers range)) = some (.written range) := by
  have once : ((rangeMembers range).map Prod.fst).Nodup :=
    show [str "driver_run", str "start", str "length"].Nodup by decide +kernel
  refine bind_eq rfl ?_
  refine bind_eq (required_eq once 0 rfl (readU32_number _)) ?_
  refine bind_eq (required_eq once 1 rfl (readString_string _)) ?_
  exact bind_eq (required_eq once 2 rfl (readU64_number _)) rfl

theorem UnreadableEntry.ofJson_written (span : UnreadableSpan) :
    UnreadableEntry.ofJson (.object (spanMembers span)) = some (.written span) := by
  have once : ((spanMembers span).map Prod.fst).Nodup :=
    show [str "start", str "length", str "ntstatus"].Nodup by decide +kernel
  refine bind_eq rfl ?_
  refine bind_eq (required_eq once 0 rfl (readString_string _)) ?_
  refine bind_eq (required_eq once 1 rfl (readU64_number _)) ?_
  exact bind_eq (required_eq once 2 rfl (readString_string _)) rfl

theorem KernelHintsMap.ofJson_written (hints : KernelHints) :
    KernelHintsMap.ofJson (.object (hintsMembers hints)) = some (.written hints) := by
  have once : ((hintsMembers hints).map Prod.fst).Nodup :=
    show [str "hypervisor_present", str "directory_table_base", str "kpcr_address",
      str "kernel_base", str "kernel_size", str "major_version", str "minor_version",
      str "build_number", str "processors"].Nodup by decide +kernel
  refine bind_eq rfl ?_
  refine bind_eq (defaulted_eq once 0 rfl (readBool_bool _)) ?_
  refine bind_eq (defaulted_eq once 1 rfl (readOption_string _)) ?_
  refine bind_eq (defaulted_eq once 2 rfl (readOption_string _)) ?_
  refine bind_eq (defaulted_eq once 3 rfl (readOption_string _)) ?_
  refine bind_eq (defaulted_eq once 4 rfl (readOption_number64 _)) ?_
  refine bind_eq (defaulted_eq once 5 rfl (readOption_number32 _)) ?_
  refine bind_eq (defaulted_eq once 6 rfl (readOption_number32 _)) ?_
  refine bind_eq (defaulted_eq once 7 rfl (readOption_number32 _)) ?_
  exact bind_eq (defaulted_eq once 8 rfl (readOption_number32 _)) rfl

/-- With hints and without, no key occurs twice. -/
theorem mapMembers_once (summary : AcquisitionSummary) :
    ((mapMembers summary).map Prod.fst).Nodup := by
  unfold mapMembers
  split
  · show [str "producer", str "producer_version", str "schema", str "status", str "logical_size",
      str "physical_bytes", str "acquired_bytes", str "unreadable_bytes", str "topology_changed",
      str "sha256", str "kernel_hints", str "ranges", str "unreadable"].Nodup
    decide +kernel
  · show [str "producer", str "producer_version", str "schema", str "status", str "logical_size",
      str "physical_bytes", str "acquired_bytes", str "unreadable_bytes", str "topology_changed",
      str "sha256", str "ranges", str "unreadable"].Nodup
    decide +kernel

/-- The three fields after the digest, whose places depend on the hints. -/
theorem mapMembers_lists (summary : AcquisitionSummary) :
    defaulted (mapMembers summary) "kernel_hints" none (readOption KernelHintsMap.ofJson) =
        some (MapFile.written summary).kernelHints ∧
      required (mapMembers summary) "ranges" (readVec RangeEntry.ofJson) =
        some (MapFile.written summary).ranges ∧
      required (mapMembers summary) "unreadable" (readVec UnreadableEntry.ofJson) =
        some (MapFile.written summary).unreadable := by
  have once := mapMembers_once summary
  have ranges := readVec_map RangeEntry.ofJson_written summary.ranges
  have spans := readVec_map UnreadableEntry.ofJson_written summary.unreadable
  cases available : summary.hints.available with
  | true =>
      simp only [mapMembers, MapFile.written, available, if_true] at once ⊢
      have hints := congrArg (Option.map some) (KernelHintsMap.ofJson_written summary.hints)
      exact ⟨defaulted_eq once 10 rfl hints, required_eq once 11 rfl ranges,
        required_eq once 12 rfl spans⟩
  | false =>
      simp only [mapMembers, MapFile.written, available] at once ⊢
      refine ⟨defaulted_absent ?_, required_eq once 10 rfl ranges, required_eq once 11 rfl spans⟩
      show str "kernel_hints" ∉ [str "producer", str "producer_version", str "schema",
        str "status", str "logical_size", str "physical_bytes", str "acquired_bytes",
        str "unreadable_bytes", str "topology_changed", str "sha256", str "ranges",
        str "unreadable"]
      decide +kernel

theorem MapFile.ofJson_written (summary : AcquisitionSummary) :
    MapFile.ofJson (.object (mapMembers summary)) = some (.written summary) := by
  have once := mapMembers_once summary
  obtain ⟨hints, ranges, spans⟩ := mapMembers_lists summary
  refine bind_eq rfl ?_
  refine bind_eq (required_eq once 0 rfl (readString_string _)) ?_
  refine bind_eq (required_eq once 1 rfl (readString_string _)) ?_
  refine bind_eq (required_eq once 2 rfl (readString_string _)) ?_
  refine bind_eq (required_eq once 3 rfl (readString_string _)) ?_
  refine bind_eq (required_eq once 4 rfl (readU64_number _)) ?_
  refine bind_eq (required_eq once 5 rfl (readU64_number _)) ?_
  refine bind_eq (required_eq once 6 rfl (readU64_number _)) ?_
  refine bind_eq (required_eq once 7 rfl (readU64_number _)) ?_
  refine bind_eq (required_eq once 8 rfl (readBool_bool _)) ?_
  refine bind_eq (required_eq once 9 rfl (readString_string _)) ?_
  refine bind_eq hints ?_
  refine bind_eq ranges ?_
  exact bind_eq spans rfl

/-! ### What a map file records -/

/-- An address that the map spells in hexadecimal. -/
def Spells (text : Option Str) (address : UInt64) : Prop :=
  ∃ s, text = some s ∧ parseHex 64 s = .ok address.toNat

structure RecordsHints (hints : KernelHints) (map : KernelHintsMap) : Prop where
  hypervisorPresent : map.hypervisorPresent = hints.hypervisorPresent
  directoryTableBase : Spells map.directoryTableBase hints.directoryTableBase
  kpcrAddress : Spells map.kpcrAddress hints.kpcrAddress
  kernelBase : Spells map.kernelBase hints.kernelBase
  kernelSize : map.kernelSize = some hints.kernelSize
  majorVersion : map.majorVersion = some hints.majorVersion
  minorVersion : map.minorVersion = some hints.minorVersion
  buildNumber : map.buildNumber = some hints.buildNumber
  processors : map.processors = some hints.numberOfProcessors

/-- Every field of the map that stems from the summary has its value, and the lists have its
order. The status of a span is read as the unsigned number with its bits. -/
structure Records (summary : AcquisitionSummary) (map : MapFile) : Prop where
  logicalSize : map.logicalSize = summary.logicalSize
  physicalBytes : map.physicalBytes = summary.physicalBytes
  acquiredBytes : map.acquiredBytes = summary.acquiredBytes
  unreadableBytes : map.unreadableBytes = summary.unreadableBytes
  topologyChanged : map.topologyChanged = summary.topologyChanged
  sha256 : Str.bytes map.sha256 = summary.sha256
  hints : summary.hints.available = true →
    ∃ hints, map.kernelHints = some hints ∧ RecordsHints summary.hints hints
  noHints : summary.hints.available = false → map.kernelHints = none
  ranges : map.ranges.map (fun range => (range.driverRun, range.parseStart, range.length)) =
    summary.ranges.map fun range => (range.driverIndex, .ok range.base, range.length)
  unreadable :
    map.unreadable.map (fun span => (span.parseStart, span.length, span.parseNtstatus)) =
      summary.unreadable.map fun span => (.ok span.start, span.length, .ok span.status.toUInt32)

theorem records_hints_written (hints : KernelHints) :
    RecordsHints hints (KernelHintsMap.written hints) where
  hypervisorPresent := rfl
  directoryTableBase := ⟨_, rfl, parseHex_hex64 _⟩
  kpcrAddress := ⟨_, rfl, parseHex_hex64 _⟩
  kernelBase := ⟨_, rfl, parseHex_hex64 _⟩
  kernelSize := rfl
  majorVersion := rfl
  minorVersion := rfl
  buildNumber := rfl
  processors := rfl

theorem parseStart_hex64 (value : UInt64) :
    UInt64.ofNat <$> parseHex 64 (hex64 value) = .ok value :=
  parseHex_word64.mpr (parseHex_hex64 value)

theorem parseNtstatus_hex32 (value : UInt32) :
    UInt32.ofNat <$> parseHex 32 (hex32 value) = .ok value :=
  parseHex_word32.mpr (parseHex_hex32 value)

theorem records_written {summary : AcquisitionSummary}
    (hex : Map.isSha256Hex summary.sha256 = true) :
    Records summary (.written summary) where
  logicalSize := rfl
  physicalBytes := rfl
  acquiredBytes := rfl
  unreadableBytes := rfl
  topologyChanged := rfl
  sha256 := (bytes_eq_ascii (printable_sha256 hex).1.ascii).trans (printable_sha256 hex).2
  hints available := ⟨_, if_pos available, records_hints_written summary.hints⟩
  noHints missing := if_neg (by rw [missing]; decide)
  ranges := by
    refine (List.map_map ..).trans (List.map_congr_left fun range _ => ?_)
    show (range.driverIndex, UInt64.ofNat <$> parseHex 64 (hex64 range.base), range.length) = _
    rw [parseStart_hex64]
  unreadable := by
    refine (List.map_map ..).trans (List.map_congr_left fun span _ => ?_)
    show (UInt64.ofNat <$> parseHex 64 (hex64 span.start), span.length,
      UInt32.ofNat <$> parseHex 32 (hex32 span.status.toUInt32)) = _
    rw [parseStart_hex64, parseNtstatus_hex32]

/-- The writer and the verifier derive the same status. -/
theorem validateStatus_written {JsonError : Type} (summary : AcquisitionSummary) :
    (validateStatus (.written summary) : Except (VerificationError JsonError) Unit) = .ok () := by
  have same : (MapFile.written summary).status =
      if (MapFile.written summary).topologyChanged = true ∨
        (MapFile.written summary).unreadableBytes ≠ 0 then str "incomplete"
      else str "complete" := by
    show statusText summary = if summary.topologyChanged = true ∨ summary.unreadableBytes ≠ 0
      then str "incomplete" else str "complete"
    simp only [statusText, or_comm (a := summary.unreadableBytes ≠ 0)]
    rfl
  rw [validateStatus, if_neg (not_not.mpr same)]
  rfl

theorem status_written (summary : AcquisitionSummary) :
    (MapFile.written summary).status = str "incomplete" ↔
      publishedStatus summary = .incomplete := by
  have different : str "complete" ≠ str "incomplete" := by decide +kernel
  show statusText summary = str "incomplete" ↔ _
  simp only [statusText, publishedStatus, or_comm (a := summary.unreadableBytes ≠ 0)]
  split
  · exact iff_of_true rfl rfl
  · exact iff_of_false different (by decide)

end Verify

/-- The text denotes a JSON value that the schema reads as this map. -/
def Decodes (text : List Char) (map : Verify.MapFile) : Prop :=
  ∃ value, Denotes text (.value value) ∧ Verify.MapFile.ofJson value = some map

/-- The text of a summary that `WriteMapJson` accepts. -/
theorem mapText_decodes {summary : AcquisitionSummary} (accepted : acceptable summary = true) :
    ascii (mapText summary) = Verify.Str.bytes (mapText summary) ∧
      Decodes (mapText summary) (.written summary) := by
  have hex : isSha256Hex summary.sha256 = true := by
    simp only [Map.acceptable, Bool.and_eq_true] at accepted
    exact accepted.1.1.1.2
  have printed := prints_mapText hex
  exact ⟨(bytes_eq_ascii printed.ascii).symm, _, printed.denotes,
    Verify.MapFile.ofJson_written summary⟩

/-- `WriteMapJson` writes a text that is read back as a map of the summary, with the status
that the capture reports. -/
theorem writeMapJson_round_trip (path : WString) (summary : AcquisitionSummary) (w : World)
    (accepted : (writeMapJson path summary w).1 = true) :
    ∃ text map, (writeMapJson path summary w).2.content path = some (Verify.Str.bytes text) ∧
      Decodes text map ∧ Verify.Records summary map ∧
      (Verify.validateStatus map : Except (Verify.VerificationError Unit) Unit) = .ok () ∧
      (map.status = Verify.str "incomplete" ↔ publishedStatus summary = .incomplete) := by
  rw [writeMapJson] at accepted ⊢
  split at accepted
  · next acceptable =>
      rw [if_pos acceptable]
      have hex : isSha256Hex summary.sha256 = true := by
        simp only [Map.acceptable, Bool.and_eq_true] at acceptable
        exact acceptable.1.1.1.2
      have node := (writeAtomicString_spec path (ascii (mapText summary)) w).node accepted
      obtain ⟨encoded, decodes⟩ := mapText_decodes acceptable
      refine ⟨mapText summary, .written summary, ?_, decodes, Verify.records_written hex,
        Verify.validateStatus_written summary, Verify.status_written summary⟩
      rw [World.content, node, ← encoded]
      rfl
  · cases accepted

/-- Two touching spans with the extreme values of every field. -/
def extremeSummary : AcquisitionSummary where
  completed := true
  topologyChanged := true
  logicalSize := 0xFFFFFFFFFFFFFFFF
  physicalBytes := 0xFFFFFFFFFFFFFFFF
  acquiredBytes := 1
  unreadableBytes := 0xFFFFFFFFFFFFFFFE
  sha256 := List.replicate 64 0x41
  hints := { available := true, kernelBase := 0xFFFFF80000000000, buildNumber := 0xFFFFFFFF }
  ranges := [⟨0xFFFFFFFF, 0, 0xFFFFFFFFFFFFFFFF⟩]
  unreadable := [⟨1, 1, -1073741819⟩, ⟨2, 0xFFFFFFFFFFFFFFFD, -1⟩]

theorem writeMapJson_round_trip_extreme :
    ∃ text map, (writeMapJson (wide "a.map.json") extremeSummary
        { files := ⟨fun _ => none, []⟩, oracle := fun _ => { limit := 100 } }).2.content
          (wide "a.map.json") = some (Verify.Str.bytes text) ∧
      Decodes text map ∧ Verify.Records extremeSummary map ∧
      (Verify.validateStatus map : Except (Verify.VerificationError Unit) Unit) = .ok () ∧
      (map.status = Verify.str "incomplete" ↔ publishedStatus extremeSummary = .incomplete) :=
  writeMapJson_round_trip (wide "a.map.json") extremeSummary _ (by decide +kernel)

end PhylaRam
