import Mathlib.Data.Finset.Insert
import Mathlib.Data.Finset.Dedup
import PhylaRam.Verify.Schema
import PhylaRam.Verify.Hash

/-!
# The offline verifier

This module follows `tools/phylaram-verify/src/verifier.rs`, check by check and in
its order. The loops over ranges and spans carry the local variables of the source
in a record. `JsonError` is whatever the JSON parser reports.
-/

namespace PhylaRam.Verify

def zeroCheckChunkBytes : Nat := 1024 * 1024

inductive VerificationError (JsonError : Type)
  | io (error : IoError)
  | json (error : JsonError)
  | parseInt (error : ParseIntError)
  | invalidProducer (producer : Str)
  | invalidSchema (schema : Str)
  | invalidStatus (status : Str)
  | invalidHashEncoding (hash : Str)
  | sizeMismatch (expected : UInt64) (actual : Nat)
  | zeroLengthRange (index : Nat)
  | rangeArithmeticOverflow (index : Nat)
  | rangeBeyondLogicalSize (index : Nat) (stop logicalSize : UInt64)
  | rangeOverlap (previousEnd nextStart : UInt64)
  | highestPhysicalEndMismatch (expected actual : UInt64)
  | duplicateDriverRun (run : UInt32)
  | driverRunDomainMismatch
  | physicalSumOverflow
  | physicalSumMismatch (expected actual : UInt64)
  | accountingOverflow
  | accountingMismatch (physical accounted : UInt64)
  | invalidUnreadableSpan (index : Nat) (start length : UInt64)
  | unreadableArithmeticOverflow (index : Nat)
  | unreadableOverlap (previousEnd nextStart : UInt64)
  | unreadableOutsidePhysicalRun (index : Nat) (start stop : UInt64)
  | unreadableSumOverflow
  | unreadableSumMismatch (expected actual : UInt64)
  | unreadableRepresentationMismatch (start offset : UInt64)
  | hashMismatch (expected actual : Str)
  | sidecarMismatch (sidecar computed : Str)
deriving DecidableEq, Repr

structure ParsedRange where
  start : UInt64
  stop : UInt64
deriving DecidableEq, Repr

def isAsciiHexdigit (b : Byte) : Bool :=
  (0x30 ≤ b && b ≤ 0x39) || (0x41 ≤ b && b ≤ 0x46) || (0x61 ≤ b && b ≤ 0x66)

def isSha256Hex (value : Str) : Bool := value.len == 64 && value.bytes.all isAsciiHexdigit

section Checks

variable {JsonError : Type}

/-- The local variables of `validate_ranges`. -/
structure RangeScan where
  parsed : List ParsedRange := []
  seenDriverRuns : Finset UInt32 := ∅
  previousEnd : UInt64 := 0
  physicalSum : UInt64 := 0
  highestEnd : UInt64 := 0

/-- One iteration of the loop of `validate_ranges`. -/
def validateRange (map : MapFile) (index : Nat) (range : RangeEntry) (s : RangeScan) :
    Except (VerificationError JsonError) RangeScan := do
  if range.length = 0 then throw (.zeroLengthRange index)
  if range.driverRun ∈ s.seenDriverRuns then throw (.duplicateDriverRun range.driverRun)
  let start ← Checked.mapErr .parseInt range.parseStart
  let stop ← Checked.okOr (checkedAdd start range.length) (.rangeArithmeticOverflow index)
  if map.logicalSize < stop then throw (.rangeBeyondLogicalSize index stop map.logicalSize)
  if index ≠ 0 ∧ start < s.previousEnd then throw (.rangeOverlap s.previousEnd start)
  let physicalSum ← Checked.okOr (checkedAdd s.physicalSum range.length) .physicalSumOverflow
  return { parsed := s.parsed ++ [⟨start, stop⟩]
           seenDriverRuns := insert range.driverRun s.seenDriverRuns
           previousEnd := stop
           physicalSum := physicalSum
           highestEnd := max s.highestEnd stop }

def validateRanges (map : MapFile) : Except (VerificationError JsonError) (List ParsedRange) := do
  if map.ranges.isEmpty then throw .driverRunDomainMismatch
  let s ← Checked.forEnumerated (validateRange map) 0 map.ranges {}
  if s.physicalSum ≠ map.physicalBytes then
    throw (.physicalSumMismatch map.physicalBytes s.physicalSum)
  if s.highestEnd ≠ map.logicalSize then
    throw (.highestPhysicalEndMismatch s.highestEnd map.logicalSize)
  let expectedRuns ← Checked.okOr ((List.range map.ranges.length).mapM u32TryFrom)
    .driverRunDomainMismatch
  if s.seenDriverRuns ≠ expectedRuns.toFinset then throw .driverRunDomainMismatch
  return s.parsed

def spanIsContainedInRange (start stop : UInt64) (ranges : List ParsedRange) : Bool :=
  ranges.any fun range => start ≥ range.start && stop ≤ range.stop

/-- The local variables of `validate_unreadable_spans`. -/
structure SpanScan where
  previousEnd : UInt64 := 0
  unreadableSum : UInt64 := 0

/-- One iteration of the loop of `validate_unreadable_spans`. -/
def validateSpan (ranges : List ParsedRange) (index : Nat) (span : UnreadableEntry) (s : SpanScan) :
    Except (VerificationError JsonError) SpanScan := do
  let start ← Checked.mapErr .parseInt span.parseStart
  let _ntstatus ← Checked.mapErr .parseInt span.parseNtstatus
  if span.length = 0 then throw (.invalidUnreadableSpan index start span.length)
  let stop ← Checked.okOr (checkedAdd start span.length) (.unreadableArithmeticOverflow index)
  if index ≠ 0 ∧ start < s.previousEnd then throw (.unreadableOverlap s.previousEnd start)
  if !spanIsContainedInRange start stop ranges then
    throw (.unreadableOutsidePhysicalRun index start stop)
  let unreadableSum ← Checked.okOr (checkedAdd s.unreadableSum span.length) .unreadableSumOverflow
  return { previousEnd := stop, unreadableSum := unreadableSum }

def validateUnreadableSpans (map : MapFile) (ranges : List ParsedRange) :
    Except (VerificationError JsonError) Unit := do
  let s ← Checked.forEnumerated (validateSpan ranges) 0 map.unreadable {}
  if s.unreadableSum ≠ map.unreadableBytes then
    throw (.unreadableSumMismatch map.unreadableBytes s.unreadableSum)

/-- `read_exact` at a position of the file. -/
def readExact (raw : List Byte) (position requested : Nat) : Except IoError (List Byte) :=
  if position + requested ≤ raw.length then .ok ((raw.drop position).take requested)
  else .error .unexpectedEof

/-- The loop over one span of `verify_unreadable_representation`. -/
def verifyZeros (raw : List Byte) (start remaining relativeOffset : UInt64) :
    Except (VerificationError JsonError) Unit :=
  if left : remaining ≠ 0 then do
    let requested := min remaining (.ofNat zeroCheckChunkBytes)
    let buffer ← Checked.mapErr .io
      (readExact raw (start.toNat + relativeOffset.toNat) requested.toNat)
    match buffer.findIdx? (· ≠ 0) with
    | some nonZero =>
        throw (.unreadableRepresentationMismatch start (relativeOffset + .ofNat nonZero))
    | none => verifyZeros raw start (remaining - requested) (relativeOffset + requested)
  else return ()
termination_by remaining.toNat
decreasing_by exact chunk_progress (by decide) (Word.pos_iff.mp left)

def verifyUnreadableRepresentation (raw : List Byte) :
    List UnreadableEntry → Except (VerificationError JsonError) Unit
  | [] => return ()
  | span :: rest => do
      let start ← Checked.mapErr .parseInt span.parseStart
      verifyZeros raw start span.length 0
      verifyUnreadableRepresentation raw rest

def validateStatus (map : MapFile) : Except (VerificationError JsonError) Unit := do
  let expected := if map.topologyChanged ∨ map.unreadableBytes ≠ 0 then str "incomplete"
    else str "complete"
  if map.status ≠ expected then throw (.invalidStatus map.status)

def validateSidecar (sidecarContent computedHash : Str) :
    Except (VerificationError JsonError) Unit := do
  let sidecarHash := (sidecarContent.firstWord.getD []).trim
  if !isSha256Hex sidecarHash || !computedHash.eqIgnoreAsciiCase sidecarHash then
    throw (.sidecarMismatch sidecarHash computedHash)

end Checks

variable {JsonError Path : Type}

/-- The check of a sidecar if its path was given. -/
def validateSidecarFile (disk : Disk Path) (shaPath : Option Path) (computedHash : Str) :
    Except (VerificationError JsonError) Unit :=
  match shaPath with
  | some sidecarPath => do
      let sidecarContent ← Checked.mapErr .io (disk.readToString sidecarPath)
      validateSidecar sidecarContent computedHash
  | none => return ()

/-- `verify_bundle`. The hash function and the JSON parser are those of the libraries
it is built with; `reads` is the luck of its `read` calls. -/
def verifyBundle (sha256 : List Byte → List Byte) (fromStr : Str → Except JsonError MapFile)
    (reads : Nat → Nat) (disk : Disk Path) (rawPath mapPath : Path) (shaPath : Option Path) :
    Except (VerificationError JsonError) MapFile := do
  let mapData ← Checked.mapErr .io (disk.readToString mapPath)
  let map ← Checked.mapErr .json (fromStr mapData)
  if map.producer ≠ str "PhylaRAM" then throw (.invalidProducer map.producer)
  if map.schema ≠ str "phylaram-map-1" ∧ map.schema ≠ str "phylaram-map-2" then
    throw (.invalidSchema map.schema)
  if !isSha256Hex map.sha256 then throw (.invalidHashEncoding map.sha256)
  let raw ← Checked.mapErr .io (disk.read rawPath)
  if raw.length ≠ map.logicalSize.toNat then throw (.sizeMismatch map.logicalSize raw.length)
  let ranges ← validateRanges map
  validateUnreadableSpans map ranges
  let accounted ← Checked.okOr (checkedAdd map.acquiredBytes map.unreadableBytes)
    .accountingOverflow
  if accounted ≠ map.physicalBytes then throw (.accountingMismatch map.physicalBytes accounted)
  validateStatus map
  verifyUnreadableRepresentation raw map.unreadable
  let computedHash := calculateLogicalRawSha256 sha256 reads raw map.logicalSize
  if !computedHash.eqIgnoreAsciiCase map.sha256 then
    throw (.hashMismatch map.sha256 computedHash)
  validateSidecarFile disk shaPath computedHash
  return map

end PhylaRam.Verify
