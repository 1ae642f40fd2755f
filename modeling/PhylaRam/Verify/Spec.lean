import Mathlib.Order.Bounds.Defs
import PhylaRam.Library.Interval
import PhylaRam.Verify.Verifier

/-!
# What a good bundle is

The contract of `docs/MAP_SCHEMA.md` in terms of sets of addresses and exact
integers, without the loops, chunks and overflow checks of the verifier. A range
or span denotes an interval, labelled with its driver run or its NTSTATUS.
-/

namespace PhylaRam.Verify

open Interval (Piece cells)

def RangeEntry.Denotes (range : RangeEntry) (r : Piece UInt32) : Prop :=
  ∃ start, range.parseStart = .ok start ∧ r = ⟨start.toNat, range.length.toNat, range.driverRun⟩

def UnreadableEntry.Denotes (span : UnreadableEntry) (s : Piece UInt32) : Prop :=
  ∃ start status, span.parseStart = .ok start ∧ span.parseNtstatus = .ok status ∧
    s = ⟨start.toNat, span.length.toNat, status⟩

structure GoodRanges (map : MapFile) (ranges : List (Piece UInt32)) : Prop where
  denoted : List.Forall₂ RangeEntry.Denotes map.ranges ranges
  some : ranges ≠ []
  increasing : Interval.Increasing ranges
  greatestEnd : IsGreatest {n | ∃ r ∈ ranges, r.stop = n} map.logicalSize.toNat
  driverRuns : (ranges.map fun r => r.label.toNat).Perm (List.range ranges.length)
  physicalBytes : (cells ranges).card = map.physicalBytes.toNat

structure GoodSpans (raw : List Byte) (map : MapFile) (ranges spans : List (Piece UInt32)) :
    Prop where
  denoted : List.Forall₂ UnreadableEntry.Denotes map.unreadable spans
  increasing : Interval.Increasing spans
  within : ∀ s ∈ spans, ∃ r ∈ ranges, s.cells ⊆ r.cells
  unreadableBytes : (cells spans).card = map.unreadableBytes.toNat
  zero : ∀ n ∈ cells spans, raw[n]? = some 0

def IsHexDigit (c : Char) : Prop := (toDigit c).isSome = true

/-- 64 hexadecimal digits in either case that spell the digest of the data. -/
structure NamesDigest (sha256 : List Byte → List Byte) (raw : List Byte) (hash : Str) : Prop where
  length : hash.length = 64
  hex : ∀ c ∈ hash, IsHexDigit c
  digest : (hexEncode (sha256 raw)).map Char.toLower = hash.map Char.toLower

structure GoodBundle (sha256 : List Byte → List Byte) (raw : List Byte) (map : MapFile)
    (ranges spans : List (Piece UInt32)) : Prop where
  producer : map.producer = str "PhylaRAM"
  schema : map.schema = str "phylaram-map-1" ∨ map.schema = str "phylaram-map-2"
  size : raw.length = map.logicalSize.toNat
  goodRanges : GoodRanges map ranges
  goodSpans : GoodSpans raw map ranges spans
  acquiredBytes : (cells ranges \ cells spans).card = map.acquiredBytes.toNat
  status : map.status = if map.topologyChanged = true ∨ (cells spans).Nonempty
    then str "incomplete" else str "complete"
  sha256 : NamesDigest sha256 raw map.sha256

/-- The first maximal stretch of a text without white space. -/
def IsFirstWord (text word : Str) : Prop :=
  ∃ before after, text = before ++ word ++ after ∧ (∀ c ∈ before, Str.isWhitespace c = true) ∧
    word ≠ [] ∧ (∀ c ∈ word, Str.isWhitespace c = false) ∧
    ∀ c ∈ after.head?, Str.isWhitespace c = true

def GoodSidecar (sha256 : List Byte → List Byte) (raw : List Byte) (text : Str) : Prop :=
  ∃ word, IsFirstWord text word ∧ NamesDigest sha256 raw word

end PhylaRam.Verify
