import PhylaRam.Verify.Rules

/-!
# The verifier accepts the good bundles

The checks of `verify_bundle` one after another are equivalent to the contract: the
local comparisons of neighbours to disjointness, the checked sums to cardinalities,
the chunked scans to statements about every byte, and no overflow check ever
rejects a good bundle.
-/

namespace PhylaRam.Verify

open Interval (Piece cells total)

variable {JsonError Path : Type}

theorem namesDigest_iff {sha256 : List Byte → List Byte} {raw : List Byte} {hash : Str} :
    isSha256Hex hash = true ∧ (hexEncode (sha256 raw)).eqIgnoreAsciiCase hash = true ↔
      NamesDigest sha256 raw hash := by
  rw [isSha256Hex_iff, Str.eqIgnoreAsciiCase_iff]
  constructor
  · rintro ⟨⟨length, hex⟩, digest⟩
    exact ⟨length, hex, digest⟩
  · rintro ⟨length, hex, digest⟩
    exact ⟨⟨length, hex⟩, digest⟩

theorem validateSidecarFile_eq_ok {sha256 : List Byte → List Byte} {raw : List Byte}
    {disk : Disk Path} {shaPath : Option Path} {u : Unit} :
    (validateSidecarFile disk shaPath (hexEncode (sha256 raw)) :
        Except (VerificationError JsonError) Unit) = .ok u ↔
      ∀ path ∈ shaPath, ∃ text, disk path = some (Str.bytes text) ∧
        GoodSidecar sha256 raw text := by
  cases shaPath with
  | none => simp [validateSidecarFile]
  | some path =>
      simp only [validateSidecarFile, Checked.bind_eq_ok, Checked.mapErr_eq_ok,
        Disk.readToString_eq_ok, validateSidecar_eq_ok, namesDigest_iff, Option.mem_some_iff,
        forall_eq', GoodSidecar]

section Geometry

variable {map : MapFile} {rs ss : List (Piece UInt32)}

theorem GoodRanges.ordered (good : GoodRanges map rs) : Interval.Ordered rs :=
  (Interval.increasing_iff.mp good.increasing).1

theorem GoodRanges.stop_le (good : GoodRanges map rs) {r : Piece UInt32} (hr : r ∈ rs) :
    r.stop ≤ map.logicalSize.toNat := good.greatestEnd.2 ⟨r, hr, rfl⟩

theorem GoodRanges.stop_lt (good : GoodRanges map rs) {r : Piece UInt32} (hr : r ∈ rs) :
    r.stop < 2 ^ 64 := Nat.lt_of_le_of_lt (good.stop_le hr) (UInt64.toNat_lt _)

theorem GoodRanges.span_stop_le (good : GoodRanges map rs) (contained : Contained rs ss)
    {s : Piece UInt32} (hs : s ∈ ss) : s.stop ≤ map.logicalSize.toNat := by
  obtain ⟨r, hr, -, within⟩ := contained.within s hs
  exact Nat.le_trans within (good.stop_le hr)

theorem Contained.cells_subset (contained : Contained rs ss) : cells ss ⊆ cells rs := by
  intro n hn
  obtain ⟨s, hs, inside⟩ := Interval.mem_cells.mp hn
  obtain ⟨r, hr, within⟩ := contained.within s hs
  exact Interval.mem_cells.mpr ⟨r, hr, (Piece.cells_subset_iff (contained.nonempty s hs)).mpr
    within inside⟩

/-- What the loop over the spans and the scan of the file establish makes the spans good. -/
theorem goodSpans_iff {raw : List Byte} :
    GoodSpans raw map rs ss ↔ List.Forall₂ UnreadableEntry.Denotes map.unreadable ss ∧
      Contained rs ss ∧ total ss = map.unreadableBytes.toNat ∧
      ∀ n ∈ cells ss, raw[n]? = some 0 := by
  constructor
  · intro good
    obtain ⟨ordered, nonempty⟩ := Interval.increasing_iff.mp good.increasing
    refine ⟨good.denoted, ⟨ordered, nonempty, fun s hs => ?_⟩, ?_, good.zero⟩
    · obtain ⟨r, hr, within⟩ := good.within s hs
      exact ⟨r, hr, (Piece.cells_subset_iff (nonempty s hs)).mp within⟩
    · rw [← ordered.card_cells, good.unreadableBytes]
  · rintro ⟨denoted, contained, sum, zero⟩
    refine ⟨denoted, Interval.increasing_iff.mpr ⟨contained.ordered, contained.nonempty⟩,
      fun s hs => ?_, ?_, zero⟩
    · obtain ⟨r, hr, within⟩ := contained.within s hs
      exact ⟨r, hr, (Piece.cells_subset_iff (contained.nonempty s hs)).mpr within⟩
    · rw [contained.ordered.card_cells, sum]

/-- The byte accounts agree exactly if the acquired bytes are those outside the spans. -/
theorem accounted_iff (good : GoodRanges map rs) (contained : Contained rs ss)
    (sum : total ss = map.unreadableBytes.toNat) :
    (∃ accounted, checkedAdd map.acquiredBytes map.unreadableBytes = some accounted ∧
      accounted = map.physicalBytes) ↔
    (cells rs \ cells ss).card = map.acquiredBytes.toNat := by
  have split := Finset.card_sdiff_add_card_eq_card contained.cells_subset
  rw [contained.ordered.card_cells, sum, good.physicalBytes] at split
  simp only [checkedAdd_eq_some, exists_eq_right]
  omega

end Geometry

/-- `verify_bundle` accepts a bundle and returns its map exactly if the map is what the
map file says, the RAW image and the map are good, and so is the sidecar if there is one. -/
theorem verifyBundle_accepts (sha256 : List Byte → List Byte)
    (fromStr : Str → Except JsonError MapFile) (reads : Nat → Nat) (disk : Disk Path)
    (rawPath mapPath : Path) (shaPath : Option Path) (map : MapFile) :
    verifyBundle sha256 fromStr reads disk rawPath mapPath shaPath = .ok map ↔
      ∃ raw mapText, disk rawPath = some raw ∧ disk mapPath = some (Str.bytes mapText) ∧
        fromStr mapText = .ok map ∧ (∃ ranges spans, GoodBundle sha256 raw map ranges spans) ∧
        ∀ path ∈ shaPath, ∃ text, disk path = some (Str.bytes text) ∧
          GoodSidecar sha256 raw text := by
  simp only [verifyBundle, Disk.read, Checked.ite_throw_eq_ok, Checked.bind_eq_ok,
    Checked.mapErr_eq_ok, Checked.okOr_eq_ok, Checked.pure_eq_ok, Disk.readToString_eq_ok, ne_eq,
    not_not, validateRanges_eq_ok]
  constructor
  · rintro ⟨mapText, mapFile, _, parsed, producer, schema, hex, raw, rawFile, size, _,
      ⟨rs, good, rfl⟩, _, spans, _, sum, rfl, _, status, _, zeros, digest, _, sidecar, rfl⟩
    obtain ⟨ss, denoted, contained, count⟩ :=
      (validateUnreadableSpans_eq_ok fun r => good.stop_lt).mp spans
    have zero := (verifyUnreadableRepresentation_eq_ok denoted fun s hs =>
      size ▸ good.span_stop_le contained hs).mp zeros
    have goodSpans := goodSpans_iff.mpr ⟨denoted, contained, count, zero⟩
    rw [calculateLogicalRawSha256_eq sha256 size] at digest sidecar
    refine ⟨raw, mapText, rawFile, mapFile, parsed, ⟨rs, ss, producer, ?_, size, good, goodSpans,
      (accounted_iff good contained count).mp ⟨_, sum, rfl⟩,
      (validateStatus_eq_ok goodSpans.unreadableBytes).mp status, ?_⟩,
      validateSidecarFile_eq_ok.mp sidecar⟩
    · exact Classical.or_iff_not_imp_left.mpr fun other => not_not.mp fun neither =>
        schema ⟨other, neither⟩
    · exact namesDigest_iff.mp ⟨by simpa using hex, by simpa using digest⟩
  · rintro ⟨raw, mapText, rawFile, mapFile, parsed, ⟨rs, ss, bundle⟩, sidecar⟩
    have good := bundle.goodRanges
    obtain ⟨denoted, contained, count, zero⟩ := goodSpans_iff.mp bundle.goodSpans
    obtain ⟨hex, digest⟩ := namesDigest_iff.mpr bundle.sha256
    obtain ⟨_, sum, rfl⟩ := (accounted_iff good contained count).mpr bundle.acquiredBytes
    refine ⟨mapText, mapFile, map, parsed, bundle.producer, ?_, by simp [hex], raw, rawFile,
      bundle.size, _, ⟨rs, good, rfl⟩, (), ?_, _, sum, rfl, (), ?_, (), ?_, ?_, (), ?_, rfl⟩
    · rintro ⟨first, second⟩
      exact bundle.schema.elim first second
    · exact (validateUnreadableSpans_eq_ok fun r => good.stop_lt).mpr
        ⟨ss, denoted, contained, count⟩
    · exact (validateStatus_eq_ok bundle.goodSpans.unreadableBytes).mpr bundle.status
    · exact (verifyUnreadableRepresentation_eq_ok denoted fun s hs =>
        bundle.size ▸ good.span_stop_le contained hs).mpr zero
    · rw [calculateLogicalRawSha256_eq sha256 bundle.size, digest]
      decide
    · rw [calculateLogicalRawSha256_eq sha256 bundle.size]
      exact validateSidecarFile_eq_ok.mpr sidecar

end PhylaRam.Verify
