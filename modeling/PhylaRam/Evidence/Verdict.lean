import PhylaRam.Acquire.Replies
import PhylaRam.Evidence.RawBundle
import PhylaRam.Verify.Bundle

/-!
# The verdict on a published bundle

Capture and verifier were written independently. Of a published RAW bundle every check of
`verify_bundle` holds but one: `AddUnreadable` joins equal failures across the boundary of two
touching runs, and the verifier wants each span inside one run. Where no two runs touch, the
verifier accepts whatever was published; where they do, the replies for the two bytes at the
boundary decide.
-/

namespace PhylaRam

open Interval Image

namespace Verify

variable {JsonError Path : Type} {sha256 : List Byte → List Byte}
  {fromStr : Str → Except JsonError MapFile} {reads : Nat → Nat} {disk : Disk Path}
  {rawPath mapPath : Path} {shaPath : Option Path} {raw : List Byte} {map : MapFile}
  {rs ss : List (Piece UInt32)}

variable (JsonError) in
/-- What remains of a good bundle if its spans may lie anywhere. -/
structure Presentable (sha256 : List Byte → List Byte) (raw : List Byte) (map : MapFile)
    (rs ss : List (Piece UInt32)) : Prop where
  producer : map.producer = str "PhylaRAM"
  schema : map.schema = str "phylaram-map-2"
  size : raw.length = map.logicalSize.toNat
  ranges : GoodRanges map rs
  spans : List.Forall₂ UnreadableEntry.Denotes map.unreadable ss
  increasing : Increasing ss
  unreadableBytes : total ss = map.unreadableBytes.toNat
  zero : ∀ n ∈ cells ss, raw[n]? = some 0
  accounted : map.acquiredBytes.toNat + map.unreadableBytes.toNat = map.physicalBytes.toNat
  status : (validateStatus map : Except (VerificationError JsonError) Unit) = .ok ()
  digest : NamesDigest sha256 raw map.sha256

theorem UnreadableEntry.denotes_unique :
    Relator.RightUnique UnreadableEntry.Denotes := by
  rintro span p q ⟨start, status, parsed, read, rfl⟩ ⟨start', status', parsed', read', rfl⟩
  obtain rfl := Except.ok.inj (parsed.symm.trans parsed')
  obtain rfl := Except.ok.inj (read.symm.trans read')
  rfl

theorem RangeEntry.denotes_unique : Relator.RightUnique RangeEntry.Denotes := by
  rintro range p q ⟨start, parsed, rfl⟩ ⟨start', parsed', rfl⟩
  obtain rfl := Except.ok.inj (parsed.symm.trans parsed')
  rfl

/-- The verdict depends on the containment of the spans only. -/
theorem verifyBundle_presentable
    (presentable : Presentable JsonError sha256 raw map rs ss)
    {mapText : Str} (rawFile : disk rawPath = some raw)
    (mapFile : disk mapPath = some (Str.bytes mapText)) (parsed : fromStr mapText = .ok map)
    (sidecar : ∀ path ∈ shaPath, ∃ text, disk path = some (Str.bytes text) ∧
      GoodSidecar sha256 raw text) (map' : MapFile) :
    verifyBundle sha256 fromStr reads disk rawPath mapPath shaPath = .ok map' ↔
      map' = map ∧ ∀ s ∈ ss, ∃ r ∈ rs, r.start ≤ s.start ∧ s.stop ≤ r.stop := by
  simp only [verifyBundle, Disk.read, Checked.ite_throw_eq_ok, Checked.bind_eq_ok,
    Checked.mapErr_eq_ok, Checked.okOr_eq_ok, Checked.pure_eq_ok, Disk.readToString_eq_ok, ne_eq,
    not_not, validateRanges_eq_ok]
  have good := presentable.ranges
  obtain ⟨ordered, nonempty⟩ := increasing_iff.mp presentable.increasing
  constructor
  · rintro ⟨mapText', mapFile', _, parsed', -, -, -, raw', -, -, _, ⟨rs', good', rfl⟩, _, spans, _,
      -, -, -, -, -, -, -, -, -, rfl⟩
    have again := Disk.readToString_eq_ok.mpr mapFile'
    obtain rfl := Except.ok.inj (again.symm.trans (Disk.readToString_eq_ok.mpr mapFile))
    obtain rfl := Except.ok.inj (parsed'.symm.trans parsed)
    obtain ⟨ss', denoted, contained, -⟩ :=
      (validateUnreadableSpans_eq_ok fun r => good'.stop_lt).mp spans
    obtain rfl := UnreadableEntry.denotes_unique.forall₂ denoted presentable.spans
    obtain rfl := RangeEntry.denotes_unique.forall₂ good'.denoted good.denoted
    exact ⟨rfl, contained.within⟩
  · rintro ⟨same, within⟩
    subst map'
    have contained : Contained rs ss := ⟨ordered, nonempty, within⟩
    obtain ⟨hex, digest⟩ := namesDigest_iff.mpr presentable.digest
    have sum : checkedAdd map.acquiredBytes map.unreadableBytes = some map.physicalBytes :=
      checkedAdd_eq_some.mpr presentable.accounted
    refine ⟨mapText, mapFile, map, parsed, presentable.producer, ?_, by simp [hex], raw, rawFile,
      presentable.size, _, ⟨rs, good, rfl⟩, (), ?_, _, sum, rfl, (), presentable.status, (), ?_,
      ?_, (), ?_, rfl⟩
    · rintro ⟨-, other⟩
      exact other presentable.schema
    · exact (validateUnreadableSpans_eq_ok fun r => good.stop_lt).mpr
        ⟨ss, presentable.spans, contained, presentable.unreadableBytes⟩
    · exact (verifyUnreadableRepresentation_eq_ok presentable.spans fun s hs =>
        presentable.size ▸ good.span_stop_le contained hs).mpr presentable.zero
    · rw [calculateLogicalRawSha256_eq sha256 presentable.size, digest]
      decide
    · rw [calculateLogicalRawSha256_eq sha256 presentable.size]
      exact validateSidecarFile_eq_ok.mpr sidecar

/-! ### The texts of a bundle -/

/-- Both sides spell a digest alike. -/
theorem chars_hexText (digest : List Byte) : Map.chars (Sha256.hexText digest) = hexEncode digest := by
  have table : ∀ d : Fin 16,
      Char.ofNat (Nat.digitChar d.val).val.toUInt8.toNat = Nat.digitChar d.val := by decide
  rw [Map.chars, Sha256.hexText, hexEncode, List.map_flatMap]
  refine List.flatMap_congr fun b _ => ?_
  have small := b.toNat_lt
  have high := table ⟨b.toNat / 16, by omega⟩
  have low := table ⟨b.toNat % 16, by omega⟩
  rw [List.map_cons, List.map_singleton, high, low]

theorem bytes_chars {hash : NString} (hex : Map.isSha256Hex hash = true) :
    Str.bytes (Map.chars hash) = hash := by
  obtain ⟨printable, back⟩ := Map.printable_sha256 hex
  exact (Map.bytes_eq_ascii printable.ascii).trans back

/-- The digest that a summary names is that of the image. -/
theorem namesDigest_chars {hash : NString} (hex : Map.isSha256Hex hash = true)
    (digest : hash = Sha256.hexText (sha256 raw)) : NamesDigest sha256 raw (Map.chars hash) := by
  refine namesDigest_iff.mp ⟨?_, ?_⟩
  · rw [isSha256Hex, Str.len, bytes_chars hex]
    exact hex
  · rw [digest, chars_hexText, Str.eqIgnoreAsciiCase_iff]

theorem narrowUtf8_bytes (value : WString) : ∃ text, Map.narrowUtf8 value = Str.bytes text := by
  rw [Map.narrowUtf8]
  split
  · exact ⟨[], rfl⟩
  · split
    · exact ⟨[], rfl⟩
    · next chars _ =>
        dsimp only
        split
        · exact ⟨[], rfl⟩
        · exact ⟨chars, rfl⟩

theorem IsHexDigit.solid {c : Char} (digit : IsHexDigit c) : Str.isWhitespace c = false := by
  have table : ∀ n : Fin 128, (toDigit (Char.ofNat n.val)).isSome = true →
      Str.isWhitespace (Char.ofNat n.val) = false := by decide
  have small := digit.ascii
  have entry := table ⟨c.toNat, by omega⟩
  rw [Char.ofNat_toNat] at entry
  exact entry digit

/-- The sidecar begins with the digest. -/
theorem sidecarText_good {hash : NString} (hex : Map.isSha256Hex hash = true)
    (named : NamesDigest sha256 raw (Map.chars hash)) (name : WString) :
    ∃ text, sidecarText (Map.narrowUtf8 name) hash = Str.bytes text ∧
      GoodSidecar sha256 raw text := by
  obtain ⟨fileName, encoded⟩ := narrowUtf8_bytes name
  refine ⟨Map.chars hash ++ (' ' :: ' ' :: (fileName ++ ['\n'])), ?_, _,
    ⟨[], ' ' :: ' ' :: (fileName ++ ['\n']), rfl, by simp, ?_, fun c member =>
      (named.hex c member).solid, by simp; decide⟩, named⟩
  · have rest : Str.bytes (' ' :: ' ' :: (fileName ++ ['\n'])) =
        narrow "  " ++ (Str.bytes fileName ++ narrow "\n") := by
      rw [Str.bytes, List.flatMap_cons, List.flatMap_cons, List.flatMap_append]
      rfl
    have all : Str.bytes (Map.chars hash ++ (' ' :: ' ' :: (fileName ++ ['\n']))) =
        Str.bytes (Map.chars hash) ++ Str.bytes (' ' :: ' ' :: (fileName ++ ['\n'])) :=
      List.flatMap_append
    rw [sidecarText, encoded, all, bytes_chars hex, rest, List.append_assoc, List.append_assoc]
  · intro none
    have length := named.length
    rw [show Map.chars hash = [] from none] at length
    cases length

/-! ### The accounts of a bundle -/

theorem goodRanges_written {summary : AcquisitionSummary}
    (valid : (⟨summary.logicalSize, summary.physicalBytes, summary.ranges⟩ : Topology).Valid)
    (indices : (summary.ranges.map fun run => run.driverIndex.toNat).Perm
      (List.range summary.ranges.length)) :
    GoodRanges (.written summary) (runIntervals summary.ranges) := by
  have lengths : ∀ p ∈ runIntervals summary.ranges, 0 < p.length := by
    intro p member
    obtain ⟨run, among, rfl⟩ := List.mem_map.mp member
    exact (valid.runs run among).nonempty
  refine {
    denoted := ?_
    some := fun none => valid.nonempty (List.map_eq_nil_iff.mp none)
    increasing := increasing_iff.mpr ⟨valid.ordered, lengths⟩
    greatestEnd := ⟨?_, ?_⟩
    driverRuns := ?_
    physicalBytes := valid.ordered.card_cells.trans valid.totalBytes }
  · refine List.forall₂_map_left_iff.mpr (List.forall₂_map_right_iff.mpr ?_)
    exact List.forall₂_same.mpr fun run _ => ⟨run.base, parseStart_hex64 run.base, rfl⟩
  · obtain ⟨run, member, stop⟩ := valid.highestEnd_mem
    exact ⟨run.interval, List.mem_map_of_mem member, stop⟩
  · rintro n ⟨p, member, rfl⟩
    obtain ⟨run, among, rfl⟩ := List.mem_map.mp member
    exact valid.highestEnd_le run among
  · rw [runIntervals, List.map_map, List.length_map]
    exact indices

/-- The status of a span as the map has it. -/
def spanPieces (summary : AcquisitionSummary) : List (Piece UInt32) :=
  (spanIntervals summary.unreadable).map (Piece.map Int32.toUInt32)

theorem denotes_spanPieces (summary : AcquisitionSummary) :
    List.Forall₂ UnreadableEntry.Denotes (MapFile.written summary).unreadable
      (spanPieces summary) := by
  rw [spanPieces, spanIntervals, List.map_map]
  refine List.forall₂_map_left_iff.mpr (List.forall₂_map_right_iff.mpr ?_)
  exact List.forall₂_same.mpr fun span _ => ⟨span.start, span.status.toUInt32,
    parseStart_hex64 span.start, parseNtstatus_hex32 span.status.toUInt32, rfl⟩

end Verify

/-! ### Published bundles -/

/-- Every span lies in one run. -/
def SpansWithin (summary : AcquisitionSummary) : Prop :=
  ∀ span ∈ summary.unreadable, ∃ run ∈ summary.ranges, run.interval.start ≤ span.interval.start ∧
    span.interval.stop ≤ run.interval.stop

instance (summary : AcquisitionSummary) : Decidable (SpansWithin summary) :=
  List.decidableBAll (fun span : UnreadableSpan => ∃ run ∈ summary.ranges,
    run.interval.start ≤ span.interval.start ∧ span.interval.stop ≤ run.interval.stop)
    summary.unreadable

section Raw

variable {κ : Type} {machine : Machine} {sha256 : List Byte → List Byte}
  {environment : Environment κ} {config : AcquisitionConfig} {paths : EvidencePaths}
  {table : List PhysicalMemoryRange} {topology : Topology}
  {s a m : TransactionState DeviceSession κ RawMembers} {digest : NString} {u : World}

theorem Sourced.indices {μ : Type}
    {C : Collaborators DeviceSession (WriterState μ × World) Sha256 κ}
    {s m : TransactionState DeviceSession κ μ}
    (sourced : Sourced C sha256 table topology s m digest) :
    (m.summary.ranges.map fun run => run.driverIndex.toNat).Perm
      (List.range m.summary.ranges.length) := by
  have count : m.summary.ranges.length = table.length := by
    rw [sourced.ranges, sourced.describes.perm.length_eq, numbered, List.length_mapIdx]
  rw [count]
  exact sourced.exactly.indices

theorem Made.hex {μ : Type} {C : Collaborators DeviceSession (WriterState μ × World) Sha256 κ}
    {a m : TransactionState DeviceSession κ μ} (made : Made C paths topology a m digest u) :
    Map.isSha256Hex digest = true := by
  have accepted := made.acceptable
  simp only [Map.acceptable, Bool.and_eq_true] at accepted
  exact accepted.1.1.1.2

/-- A published RAW image and its map are presentable. -/
theorem Made.presentable (JsonError : Type)
    (made : Made (hostCapture machine rawWriter sha256 environment config) paths topology a m
      digest u)
    (sourced : Sourced (hostCapture machine rawWriter sha256 environment config) sha256 table
      topology (openedState (hostCapture machine rawWriter sha256 environment config) paths topology
        a) m digest) :
    Verify.Presentable JsonError sha256
      (upTo (imageOf m.calls) topology.highestEnd.toNat)
      (.written { m.summary with sha256 := digest }) (runIntervals m.summary.ranges)
      (Verify.spanPieces m.summary) := by
  have bundle := made.rawBundle sourced
  have parts := sourced.partitioned
  have valid : (⟨m.summary.logicalSize, m.summary.physicalBytes, m.summary.ranges⟩ :
      Topology).Valid := by
    rw [sourced.logicalSize, sourced.physicalBytes, sourced.ranges]
    exact sourced.valid
  have increasing : Increasing (spanIntervals m.summary.unreadable) := {
    nonempty := by
      intro p member
      obtain ⟨span, among, rfl⟩ := List.mem_map.mp member
      exact Piece.cells_nonempty.mpr (parts.spans_nonempty span among)
    increasing := List.pairwise_map.mpr parts.spans_increasing
    disjoint := List.pairwise_map.mpr parts.spans_disjoint }
  exact {
    producer := rfl
    schema := rfl
    size := bundle.size
    ranges := Verify.goodRanges_written valid sourced.indices
    spans := Verify.denotes_spanPieces { m.summary with sha256 := digest }
    increasing := (increasing_map _).mpr increasing
    unreadableBytes := by
      rw [Verify.spanPieces, total_map, total, spanIntervals, List.map_map]
      exact parts.unreadableBytes.symm
    zero := fun n member => by
      rw [Verify.spanPieces, cells_map] at member
      exact (bundle.missing n member).2
    accounted := parts.physicalBytes
    status := Verify.validateStatus_written _
    digest := Verify.namesDigest_chars made.hex bundle.digest }

/-- The verdict on the bundle of a capture. -/
theorem Made.verified_iff {JsonError : Type}
    (made : Made (hostCapture machine rawWriter sha256 environment config) paths topology a m
      digest u)
    (sourced : Sourced (hostCapture machine rawWriter sha256 environment config) sha256 table
      topology (openedState (hostCapture machine rawWriter sha256 environment config) paths topology
        a) m digest)
    {fromStr : Verify.Str → Except JsonError Verify.MapFile}
    (parses : ∀ text map, Decodes text map → fromStr text = .ok map) (reads : Nat → Nat)
    {shaPath : Option WString} (beside : ∀ path ∈ shaPath, path = paths.hashFinal)
    (map : Verify.MapFile) :
    Verify.verifyBundle sha256 fromStr reads u.content paths.rawFinal paths.mapFinal shaPath =
        .ok map ↔
      map = .written { m.summary with sha256 := digest } ∧ SpansWithin m.summary := by
  have presentable := made.presentable JsonError sourced
  have bundle := made.rawBundle sourced
  obtain ⟨text, mapFile, decodes⟩ := bundle.documented.map
  rw [Verify.verifyBundle_presentable presentable bundle.image mapFile (parses _ _ decodes)]
  · refine and_congr_right fun _ => ?_
    rw [Verify.spanPieces, spanIntervals, List.map_map, List.forall_mem_map]
    refine forall₂_congr fun span _ => ⟨?_, ?_⟩
    · rintro ⟨r, member, within⟩
      obtain ⟨run, among, rfl⟩ := List.mem_map.mp member
      exact ⟨run, among, within⟩
    · rintro ⟨run, among, within⟩
      exact ⟨run.interval, List.mem_map_of_mem among, within⟩
  · intro path member
    rw [beside path member, bundle.documented.sidecar]
    obtain ⟨text, encoded, good⟩ := Verify.sidecarText_good made.hex presentable.digest
      (Path.filename paths.rawFinal)
    exact ⟨text, congrArg some encoded, good⟩

end Raw

/-- No two ranges of the table touch. -/
def Separated (table : List PhysicalMemoryRange) : Prop :=
  ∀ a ∈ table, ∀ b ∈ table,
    a.baseAddress.toNat + a.numberOfBytes.toNat ≠ b.baseAddress.toNat

theorem Sourced.spansWithin {κ μ : Type}
    {C : Collaborators DeviceSession (WriterState μ × World) Sha256 κ}
    {sha256 : List Byte → List Byte} {table : List PhysicalMemoryRange} {topology : Topology}
    {s m : TransactionState DeviceSession κ μ} {digest : NString}
    (sourced : Sourced C sha256 table topology s m digest) (separated : Separated table) :
    SpansWithin m.summary := by
  have parts := sourced.partitioned
  have apart : ∀ p ∈ runIntervals topology.runs, ∀ q ∈ runIntervals topology.runs,
      p.stop ≠ q.start := by
    intro p member q member'
    obtain ⟨run, among, rfl⟩ := List.mem_map.mp member
    obtain ⟨run', among', rfl⟩ := List.mem_map.mp member'
    exact separated _ (sourced.describes.mem_range.mpr ⟨run, among, rfl⟩) _
      (sourced.describes.mem_range.mpr ⟨run', among', rfl⟩)
  intro span member
  have covered : span.interval.cells ⊆ cells (runIntervals topology.runs) := by
    intro n inside
    rw [← parts.union]
    exact Finset.mem_union_right _ (mem_cells.mpr ⟨_, List.mem_map_of_mem member, inside⟩)
  obtain ⟨piece, among, within⟩ := sourced.valid.ordered.exists_within apart
    (parts.spans_nonempty span member) covered
  obtain ⟨run, listed, rfl⟩ := List.mem_map.mp among
  exact ⟨run, sourced.ranges ▸ listed, within⟩

/-- Where two ranges of the table touch, the device has not withheld the bytes on both sides of
the boundary with one status. -/
def Unjoined (table : List PhysicalMemoryRange) (replies : List ReadResult) : Prop :=
  ∀ a ∈ table, ∀ b ∈ table,
    a.baseAddress.toNat + a.numberOfBytes.toNat = b.baseAddress.toNat → ∀ status,
      ¬(Withheld replies (b.baseAddress.toNat - 1) status ∧
        Withheld replies b.baseAddress.toNat status)

section Boundaries

variable {κ μ : Type} {C : Collaborators DeviceSession (WriterState μ × World) Sha256 κ}
  {sha256 : List Byte → List Byte} {table : List PhysicalMemoryRange} {topology : Topology}
  {s m : TransactionState DeviceSession κ μ} {digest : NString}

/-- The spans of the summary have a status where the last reply withholds the byte with it. -/
theorem Sourced.labels_iff (sourced : Sourced C sha256 table topology s m digest) {n : Nat}
    (inside : n ∈ cells (runIntervals topology.runs)) (status : Int32) :
    Labels (spanIntervals m.summary.unreadable) n status ↔
      Withheld (deviceReplies m.calls) n status := by
  obtain ⟨last, changed, completed⟩ := sourced.completed
  obtain ⟨accounts, -, -⟩ := completed.accounts sourced.calls
  have spans : spanIntervals m.summary.unreadable = coalesce (lostPieces last.calls) := by
    rw [completed.final]
    exact accounts.spans
  have lost : lostPieces m.calls = lostPieces last.calls := by
    rw [lostPieces, completed.fragments]
    rfl
  rw [spans, labels_coalesce, ← lost]
  exact completed.withheld sourced.calls sourced.valid.ordered inside status

theorem Sourced.normal (sourced : Sourced C sha256 table topology s m digest) :
    Normal (spanIntervals m.summary.unreadable) := by
  obtain ⟨last, changed, completed⟩ := sourced.completed
  obtain ⟨accounts, nonempty, tiles⟩ := completed.accounts sourced.calls
  have spans : spanIntervals m.summary.unreadable = coalesce (lostPieces last.calls) := by
    rw [completed.final]
    exact accounts.spans
  rw [spans]
  refine normal_coalesce (tiles.ordered sourced.valid.ordered).select fun p member => ?_
  obtain ⟨q, among, -, -, length⟩ := mem_select.mp member
  exact length ▸ nonempty q among

/-- No span crosses a boundary if and only if no equal failures meet there. -/
theorem Sourced.spansWithin_iff (sourced : Sourced C sha256 table topology s m digest) :
    SpansWithin m.summary ↔ Unjoined table (deviceReplies m.calls) := by
  have parts := sourced.partitioned
  have covered : cells (spanIntervals m.summary.unreadable) ⊆ cells (runIntervals topology.runs) :=
    fun n inside => parts.union ▸ Finset.mem_union_right _ inside
  have nonempty : ∀ p ∈ runIntervals topology.runs, 0 < p.length := by
    intro p member
    obtain ⟨run, among, rfl⟩ := List.mem_map.mp member
    exact (sourced.valid.runs run among).nonempty
  have within := sourced.normal.within_iff sourced.valid.ordered nonempty covered
  have pieces : SpansWithin m.summary ↔ ∀ p ∈ spanIntervals m.summary.unreadable,
      ∃ q ∈ runIntervals topology.runs, q.start ≤ p.start ∧ p.stop ≤ q.stop := by
    rw [SpansWithin, sourced.ranges, spanIntervals, List.forall_mem_map]
    refine forall₂_congr fun span _ => ⟨?_, ?_⟩
    · rintro ⟨run, member, ends⟩
      exact ⟨_, List.mem_map_of_mem member, ends⟩
    · rintro ⟨_, member, ends⟩
      obtain ⟨run, among, rfl⟩ := List.mem_map.mp member
      exact ⟨run, among, ends⟩
  rw [pieces, within]
  -- Both bytes at a boundary are memory, so the spans have them as the replies do.
  have sides : ∀ run ∈ topology.runs, ∀ run' ∈ topology.runs,
      run.interval.stop = run'.interval.start → ∀ status,
      (Labels (spanIntervals m.summary.unreadable) (run.interval.stop - 1) status ∧
        Labels (spanIntervals m.summary.unreadable) run'.interval.start status ↔
      Withheld (deviceReplies m.calls) (run'.base.toNat - 1) status ∧
        Withheld (deviceReplies m.calls) run'.base.toNat status) := by
    intro run member run' member' touch status
    have some := (sourced.valid.runs run member).nonempty
    have some' := (sourced.valid.runs run' member').nonempty
    have stop : run.interval.stop = run.base.toNat + run.length.toNat := rfl
    have start' : run'.interval.start = run'.base.toNat := rfl
    have stop' : run'.interval.stop = run'.base.toNat + run'.length.toNat := rfl
    have start : run.interval.start = run.base.toNat := rfl
    rw [sourced.labels_iff (mem_cells.mpr ⟨_, List.mem_map_of_mem member,
        Piece.mem_cells.mpr ⟨by omega, by omega⟩⟩),
      sourced.labels_iff (mem_cells.mpr ⟨_, List.mem_map_of_mem member',
        Piece.mem_cells.mpr ⟨by omega, by omega⟩⟩), touch]
    rfl
  constructor
  · intro apart a among b among' touch status
    obtain ⟨run, member, rfl⟩ := sourced.describes.mem_range.mp among
    obtain ⟨run', member', rfl⟩ := sourced.describes.mem_range.mp among'
    exact fun both => apart _ (List.mem_map_of_mem member) _ (List.mem_map_of_mem member') touch
      status ((sides run member run' member' touch status).mpr both)
  · intro apart q among r among' touch status
    obtain ⟨run, member, rfl⟩ := List.mem_map.mp among
    obtain ⟨run', member', rfl⟩ := List.mem_map.mp among'
    exact fun both => apart _ (sourced.describes.mem_range.mpr ⟨run, member, rfl⟩) _
      (sourced.describes.mem_range.mpr ⟨run', member', rfl⟩) touch status
      ((sides run member run' member' touch status).mp both)

end Boundaries

/-- The replies of the device to a capture with the RAW writer. -/
def captureReplies {κ : Type} (machine : Machine) (environment : Environment κ)
    (sha256 : List Byte → List Byte) (config : AcquisitionConfig) (outputPath : WString)
    (host : Host DeviceSession κ) : List ReadResult :=
  deviceReplies (captureWith (hostCapture machine rawWriter sha256 environment config)
    (buildEvidencePaths outputPath) (host.start {})).2.calls

section Capture

variable {κ JsonError : Type} {machine : Machine} (delivers : machine.Delivers)
  (environment : Environment κ) (sha256 : List Byte → List Byte) (config : AcquisitionConfig)
  (outputPath : WString) (host : Host DeviceSession κ)
  (opened : (deviceSession machine).openSession {} = (true, host.device))
  (format : outputFormat outputPath config.format = .raw)
  (finalized : (captureEvidenceToFile (deviceSession machine) environment sha256 config outputPath
    host).1.hasFinalizedBundle = true)
  (fromStr : Verify.Str → Except JsonError Verify.MapFile)
  (parses : ∀ text map, Decodes text map → fromStr text = .ok map) (reads : Nat → Nat)
  (shaPath : Option WString)
  (beside : ∀ path ∈ shaPath, path = (buildEvidencePaths outputPath).hashFinal)
include delivers opened format finalized parses beside

/-- The verifier accepts a published RAW bundle exactly if no recorded span crosses the boundary
of two runs, and then it returns the map of the capture. -/
theorem capture_verified_iff (map : Verify.MapFile) :
    let outcome := captureEvidenceToFile (deviceSession machine) environment sha256 config
      outputPath host
    Verify.verifyBundle sha256 fromStr reads outcome.2.world.content
        (buildEvidencePaths outputPath).rawFinal (buildEvidencePaths outputPath).mapFinal shaPath =
        .ok map ↔
      map = .written outcome.1.summary ∧ SpansWithin outcome.1.summary := by
  intro outcome
  obtain ⟨topology, a, m, digest, published⟩ :=
    capture_published delivers environment sha256 config outputPath host opened format finalized
  rw [published.summary]
  exact published.made.verified_iff published.sourced parses reads beside map

/-- Of a machine whose ranges do not touch, the verifier accepts every published RAW bundle. -/
theorem capture_verified (separated : Separated (capturedTable host.device.driver)) :
    let outcome := captureEvidenceToFile (deviceSession machine) environment sha256 config
      outputPath host
    Verify.verifyBundle sha256 fromStr reads outcome.2.world.content
        (buildEvidencePaths outputPath).rawFinal (buildEvidencePaths outputPath).mapFinal shaPath =
      .ok (.written outcome.1.summary) := by
  intro outcome
  obtain ⟨topology, a, m, digest, published⟩ :=
    capture_published delivers environment sha256 config outputPath host opened format finalized
  have sourced := published.sourced
  rw [published.summary, published.made.verified_iff sourced parses reads beside]
  exact ⟨rfl, sourced.spansWithin separated⟩

end Capture

section Accepted

variable {κ JsonError : Type} {machine : Machine} (delivers : machine.Delivers)
  (environment : Environment κ) (sha256 : List Byte → List Byte) (config : AcquisitionConfig)
  (outputPath : WString) (host : Host DeviceSession κ)
  (opened : (deviceSession machine).openSession {} = (true, host.device))
  (format : outputFormat outputPath config.format = .raw)
  (fromStr : Verify.Str → Except JsonError Verify.MapFile)
  (parses : ∀ text map, Decodes text map → fromStr text = .ok map) (reads : Nat → Nat)
include delivers opened format parses

/-- The verdict on the three files, from the spans of the summary. -/
theorem capture_accepted_iff_spansWithin (finished :
    (captureEvidenceToFile (deviceSession machine) environment sha256 config outputPath
      host).1.status = .complete ∨
    (captureEvidenceToFile (deviceSession machine) environment sha256 config outputPath
      host).1.status = .incomplete) :
    (∃ map, Verify.verifyBundle sha256 fromStr reads
        (captureEvidenceToFile (deviceSession machine) environment sha256 config outputPath
          host).2.world.content
        (buildEvidencePaths outputPath).rawFinal (buildEvidencePaths outputPath).mapFinal
        (some (buildEvidencePaths outputPath).hashFinal) = .ok map) ↔
      SpansWithin (captureEvidenceToFile (deviceSession machine) environment sha256 config
        outputPath host).1.summary := by
  obtain ⟨topology, a, m, digest, published⟩ := capture_published delivers environment sha256
    config outputPath host opened format (hasFinalizedBundle_iff.mpr finished)
  have beside : ∀ path ∈ some (buildEvidencePaths outputPath).hashFinal,
      path = (buildEvidencePaths outputPath).hashFinal := by simp
  have verdict := published.made.verified_iff published.sourced parses reads beside
  rw [published.summary]
  constructor
  · rintro ⟨map, accepted⟩
    exact ((verdict map).mp accepted).2
  · exact fun within => ⟨_, (verdict _).mpr ⟨rfl, within⟩⟩

/-- Of a capture that reports `Complete` or `Incomplete` the verifier accepts the three files if
and only if no equal failures meet at the boundary of two ranges. -/
theorem capture_accepted_iff (finished :
    (captureEvidenceToFile (deviceSession machine) environment sha256 config outputPath
      host).1.status = .complete ∨
    (captureEvidenceToFile (deviceSession machine) environment sha256 config outputPath
      host).1.status = .incomplete) :
    let outcome := captureEvidenceToFile (deviceSession machine) environment sha256 config
      outputPath host
    (∃ map, Verify.verifyBundle sha256 fromStr reads outcome.2.world.content
        (buildEvidencePaths outputPath).rawFinal (buildEvidencePaths outputPath).mapFinal
        (some (buildEvidencePaths outputPath).hashFinal) = .ok map) ↔
      Unjoined (capturedTable host.device.driver)
        (captureReplies machine environment sha256 config outputPath host) := by
  intro outcome
  obtain ⟨topology, a, m, digest, published⟩ := capture_published delivers environment sha256
    config outputPath host opened format (hasFinalizedBundle_iff.mpr finished)
  have replies : captureReplies machine environment sha256 config outputPath host =
      deviceReplies m.calls := congrArg deviceReplies published.calls
  have spans := capture_accepted_iff_spansWithin delivers environment sha256 config outputPath
    host opened format fromStr parses reads finished
  rw [published.summary] at spans
  rw [replies, ← published.sourced.spansWithin_iff]
  exact spans

end Accepted

/-- A JSON parser. -/
def readMap (text : Verify.Str) : Except Unit Verify.MapFile :=
  Checked.okOr ((Json.parse text).bind Verify.MapFile.ofJson) ()

theorem readMap_parses {text : Verify.Str} {map : Verify.MapFile} (decodes : Decodes text map) :
    readMap text = .ok map := by
  obtain ⟨value, denotes, read⟩ := decodes
  rw [readMap, denotes.parse, Option.bind_some, read]
  rfl

/-- A machine with two ranges that touch where nothing can be read. -/
def touchingMachine : Machine where
  kernel _ :=
    { irql := 0
      ranges := some [⟨0x18, 8⟩, ⟨0x10, 8⟩]
      copyMemory := fun _ _ => ⟨[], 0, 0xC0000005⟩
      hints := ⟨0, 0, 0, 0, 0, 0, 0, 0, 0, 0, 0, 0⟩ }
  openFailure _ := none
  dosError _ := errorInvalidData

theorem touchingMachine_delivers : touchingMachine.Delivers :=
  ⟨fun _ => rfl, fun _ _ _ => Nat.zero_le _, fun _ _ _ => rfl⟩

def touchingHost : Host DeviceSession Unit :=
  { hesitantHost with device := ((deviceSession touchingMachine).openSession {}).2 }

/-- A capture of this machine succeeds with one span across both ranges, and the verifier rejects
what it publishes. -/
theorem capture_verified_iff_touching :
    (Verify.verifyBundle (fun _ => List.replicate 32 0x5A) readMap id
      (captureEvidenceToFile (deviceSession touchingMachine) quietEnvironment
        (fun _ => List.replicate 32 0x5A) {} (wide "a.raw") touchingHost).2.world.content
      (buildEvidencePaths (wide "a.raw")).rawFinal (buildEvidencePaths (wide "a.raw")).mapFinal
      none).toBool = false := by
  have run : (captureEvidenceToFile (deviceSession touchingMachine) quietEnvironment
        (fun _ => List.replicate 32 0x5A) {} (wide "a.raw")
        touchingHost).1.hasFinalizedBundle = true ∧
      ¬SpansWithin (captureEvidenceToFile (deviceSession touchingMachine) quietEnvironment
        (fun _ => List.replicate 32 0x5A) {} (wide "a.raw") touchingHost).1.summary := by
    decide +kernel
  obtain ⟨finalized, crosses⟩ := run
  have verdict := capture_verified_iff touchingMachine_delivers quietEnvironment
    (fun _ => List.replicate 32 0x5A) {} (wide "a.raw") touchingHost rfl (by decide) finalized
    readMap (fun _ _ => readMap_parses) id none (by simp)
  dsimp only at verdict
  cases accepted : Verify.verifyBundle (fun _ => List.replicate 32 0x5A) readMap id
      (captureEvidenceToFile (deviceSession touchingMachine) quietEnvironment
        (fun _ => List.replicate 32 0x5A) {} (wide "a.raw") touchingHost).2.world.content
      (buildEvidencePaths (wide "a.raw")).rawFinal (buildEvidencePaths (wide "a.raw")).mapFinal
      none with
  | error _ => rfl
  | ok map => exact (crosses ((verdict map).mp accepted).2).elim

/-- A machine with two pages that touch, of which no byte can be read. -/
def abuttingMachine (status : UInt64 → NtStatus) : Machine where
  kernel _ :=
    { irql := 0
      ranges := some [⟨0x2000, 0x1000⟩, ⟨0x1000, 0x1000⟩]
      copyMemory := fun address _ => ⟨[], 0, status address⟩
      hints := ⟨0, 0, 0, 0, 0, 0, 0, 0, 0, 0, 0, 0⟩ }
  openFailure _ := none
  dosError _ := errorInvalidData

theorem abuttingMachine_delivers (status : UInt64 → NtStatus) :
    (abuttingMachine status).Delivers :=
  ⟨fun _ => rfl, fun _ _ _ => Nat.zero_le _, fun _ _ _ => rfl⟩

def abuttingHost (status : UInt64 → NtStatus) : Host DeviceSession Unit :=
  { hesitantHost with device := ((deviceSession (abuttingMachine status)).openSession {}).2 }

/-- The pages fail with different codes. -/
def differing (address : UInt64) : NtStatus := if address < 0x2000 then 0xC0000005 else 0xC0000022

theorem capture_accepted_iff_differing :
    let outcome := captureEvidenceToFile (deviceSession (abuttingMachine differing))
      quietEnvironment (fun _ => List.replicate 32 0x5A) {} (wide "a.raw") (abuttingHost differing)
    ((∃ map, Verify.verifyBundle (fun _ => List.replicate 32 0x5A) readMap id
        outcome.2.world.content (buildEvidencePaths (wide "a.raw")).rawFinal
        (buildEvidencePaths (wide "a.raw")).mapFinal
        (some (buildEvidencePaths (wide "a.raw")).hashFinal) = .ok map) ↔
      Unjoined (capturedTable (abuttingHost differing).device.driver)
        (captureReplies (abuttingMachine differing) quietEnvironment
          (fun _ => List.replicate 32 0x5A) {} (wide "a.raw") (abuttingHost differing))) :=
  capture_accepted_iff (abuttingMachine_delivers differing) quietEnvironment _ {} (wide "a.raw")
    (abuttingHost differing) rfl (by decide) readMap (fun _ _ => readMap_parses) id
    (.inr (by decide +kernel))

/-- Both pages fail with one code. The capture reports `Incomplete`, and the verifier rejects the
three files that it has published. -/
theorem capture_rejected_one_status :
    let outcome := captureEvidenceToFile (deviceSession (abuttingMachine fun _ => 0xC0000005))
      quietEnvironment (fun _ => List.replicate 32 0x5A) {} (wide "a.raw")
      (abuttingHost fun _ => 0xC0000005)
    outcome.1.status = .incomplete ∧
      ¬∃ map, Verify.verifyBundle (fun _ => List.replicate 32 0x5A) readMap id
        outcome.2.world.content (buildEvidencePaths (wide "a.raw")).rawFinal
        (buildEvidencePaths (wide "a.raw")).mapFinal
        (some (buildEvidencePaths (wide "a.raw")).hashFinal) = .ok map := by
  have incomplete : (captureEvidenceToFile (deviceSession (abuttingMachine fun _ => 0xC0000005))
      quietEnvironment (fun _ => List.replicate 32 0x5A) {} (wide "a.raw")
      (abuttingHost fun _ => 0xC0000005)).1.status = .incomplete := by decide +kernel
  have ranges : (captureEvidenceToFile (deviceSession (abuttingMachine fun _ => 0xC0000005))
      quietEnvironment (fun _ => List.replicate 32 0x5A) {} (wide "a.raw")
      (abuttingHost fun _ => 0xC0000005)).1.summary.ranges =
      [⟨1, 0x1000, 0x1000⟩, ⟨0, 0x2000, 0x1000⟩] := by decide +kernel
  have spans : (captureEvidenceToFile (deviceSession (abuttingMachine fun _ => 0xC0000005))
      quietEnvironment (fun _ => List.replicate 32 0x5A) {} (wide "a.raw")
      (abuttingHost fun _ => 0xC0000005)).1.summary.unreadable =
      [⟨0x1000, 0x2000, (0xC0000005 : UInt32).toInt32⟩] := by decide +kernel
  refine ⟨incomplete, fun accepted => ?_⟩
  have within := (capture_accepted_iff_spansWithin (abuttingMachine_delivers fun _ => 0xC0000005)
    quietEnvironment (fun _ => List.replicate 32 0x5A) {} (wide "a.raw")
    (abuttingHost fun _ => 0xC0000005) rfl (by decide) readMap (fun _ _ => readMap_parses) id
    (.inr incomplete)).mp accepted
  rw [SpansWithin, ranges, spans] at within
  revert within
  decide

/-- The verifier accepts the capture of a machine whose ranges lie apart, sidecar included. -/
theorem capture_verified_short_copies :
    Verify.verifyBundle (fun _ => List.replicate 32 0x5A) readMap id
      (captureEvidenceToFile (deviceSession hesitantMachine) quietEnvironment
        (fun _ => List.replicate 32 0x5A) {} (wide "a.raw") hesitantHost).2.world.content
      (buildEvidencePaths (wide "a.raw")).rawFinal (buildEvidencePaths (wide "a.raw")).mapFinal
      (some (buildEvidencePaths (wide "a.raw")).hashFinal) =
    .ok (.written (captureEvidenceToFile (deviceSession hesitantMachine) quietEnvironment
      (fun _ => List.replicate 32 0x5A) {} (wide "a.raw") hesitantHost).1.summary) := by
  have separated : Separated (capturedTable hesitantHost.device.driver) := by
    unfold Separated
    decide +kernel
  exact capture_verified hesitantMachine_delivers quietEnvironment
    (fun _ => List.replicate 32 0x5A) {} (wide "a.raw") hesitantHost rfl (by decide)
    (by decide +kernel) readMap (fun _ _ => readMap_parses) id _ (by simp) separated

end PhylaRam
