import Mathlib.Algebra.Order.BigOperators.Group.List
import PhylaRam.Converter.Zdmp

/-!
# Ranges beyond the end of the image

`read` returns fewer bytes than it was asked for at the end of the image, and the copy loop
then stops without an error. So the dump has its ranges in the right place exactly if the image
contains each of them. When the output is the RAW file, it has been emptied before the first
read, and no range is copied from it.
-/

namespace PhylaRam.Converter

open Packed Image

variable {py : Python} {files : OpenFiles} {raw header : List Byte} {output : Output}
  {ranges : List Range} {range : Range}

/-- From another file the loop copies what the image has of the range. -/
theorem copyLoop_other (apart : files.output = .other) (written : List Byte)
    (position remaining : Nat) :
    copyLoop files written position remaining =
      written ++ (files.raw.drop position).take remaining := by
  have image (written : List Byte) : files.image written = files.raw := by
    rw [OpenFiles.image, apart]
  induction written, position, remaining using copyLoop.induct files with
  | case1 written position => rw [copyLoop, dif_pos rfl, List.take_zero, List.append_nil]
  | case2 written position remaining more data ended =>
      have positive : 0 < min remaining copyChunk := by
        rw [copyChunk]
        omega
      have nothing : files.raw.drop position = [] := by
        rw [← image written]
        rcases List.take_eq_nil_iff.mp ended with zero | nothing
        · omega
        · exact nothing
      rw [copyLoop, dif_neg more, nothing, List.take_nil, List.append_nil]
      exact if_pos ended
  | case3 written position remaining more data some ih =>
      have taken : data = (files.raw.drop position).take data.length := by
        rw [← image written]
        exact List.prefix_iff_eq_take.mp (List.take_prefix _ _)
      have fits : data.length ≤ remaining := by
        show (List.take _ _).length ≤ _
        rw [List.length_take]
        omega
      rw [copyLoop, dif_neg more]
      show (if data = [] then written else copyLoop files (written ++ data) _ _) = _
      rw [if_neg some, ih, ← List.drop_drop, List.append_assoc]
      refine congrArg (written ++ ·) ?_
      calc data ++ ((files.raw.drop position).drop data.length).take (remaining - data.length)
          = (files.raw.drop position).take data.length ++
              ((files.raw.drop position).drop data.length).take (remaining - data.length) :=
            congrArg (· ++ _) taken
        _ = (files.raw.drop position).take (data.length + (remaining - data.length)) :=
            List.take_add.symm
        _ = (files.raw.drop position).take remaining := by rw [Nat.add_sub_of_le fits]

/-- Nothing is read back from the emptied file while the output stays in its buffer. -/
theorem copyLoop_emptied (same : files.output = .same) (buffered : ∀ n, files.flushed n = 0)
    (written : List Byte) (position remaining : Nat) :
    copyLoop files written position remaining = written := by
  have nothing : read (files.image written) position (min remaining copyChunk) = [] := by
    rw [read, OpenFiles.image, same]
    simp only [buffered, List.take_zero, List.drop_nil, List.take_nil]
  rw [copyLoop]
  split
  · rfl
  · exact if_pos nothing

/-- The image contains the range; an empty range may lie anywhere. -/
def Inside (raw : List Byte) (range : Range) : Prop :=
  0 ≤ range.length ∧ (0 < range.length → range.start + range.length ≤ raw.length)

/-- What the conversion can still copy in full: from the RAW file itself, which it has emptied,
only nothing. -/
def Readable (raw : List Byte) : Output → Range → Prop
  | .other, range => Inside raw range
  | .same, range => range.length = 0

/-- The conversion gets as far as the end: the numbers of the map can be read and fit into the
header, and the file pointer can be moved to each range. -/
structure Convertible (py : Python) (raw : List Byte) (mapData : Dict) (ranges : List Range) :
    Prop where
  parsed : rangesOf py raw mapData = some ranges
  header : ∃ hints header, hintsOf mapData = some hints ∧ dumpHeader py hints ranges = some header
  seekable : ∀ range ∈ ranges, seekable range.start = true

/-- A dump in which every range is in its place: it starts behind the header and the ranges
before it, and has the bytes of the image at the physical offsets of the range. -/
structure Placed (raw : List Byte) (ranges : List Range) (content : List Byte) : Prop where
  length : (content.length : Int) = 4096 + totalLength ranges
  bytes : ∀ before range after, ranges = before ++ range :: after →
    ∃ bytes, (bytes.length : Int) = range.length ∧ HasAt raw range.start.toNat bytes ∧
      HasAt content (4096 + totalLength before).toNat bytes

/-- The conversion fails, or it places the ranges, however its output is buffered. -/
def NeverMislabels (py : Python) (raw : List Byte) (output : Output) (mapData : Dict) : Prop :=
  ∀ flushed content ranges, convertToZdmp py ⟨raw, output, flushed⟩ mapData = some content →
    rangesOf py raw mapData = some ranges → Placed raw ranges content

/-- All ranges are copied if and only if the file pointer can be moved to each of them. -/
theorem foldlM_copyRange {part : Range → List Byte}
    (copies : ∀ range ∈ ranges, ∀ written, copyLoop files written range.start.toNat
      range.length.toNat = written ++ part range) (written content : List Byte) :
    ranges.foldlM (copyRange files) written = some content ↔
      (∀ range ∈ ranges, seekable range.start = true) ∧
        content = written ++ ranges.flatMap part := by
  induction ranges generalizing written with
  | nil =>
      rw [List.foldlM_nil, List.flatMap_nil, List.append_nil]
      exact ⟨fun h => ⟨by simp, (Option.some.inj h).symm⟩, fun h => congrArg some h.2.symm⟩
  | cons range ranges ih =>
      obtain ⟨first, later⟩ := List.forall_mem_cons.mp copies
      rw [List.foldlM_cons, copyRange, seek, List.forall_mem_cons]
      by_cases here : seekable range.start = true
      · rw [if_pos here, List.flatMap_cons, ← List.append_assoc, ← first]
        exact (ih later _).trans (and_congr_left fun _ => (and_iff_right here).symm)
      · rw [if_neg here]
        exact ⟨fun h => (nomatch h), fun h => (here h.1.1).elim⟩

/-- The dump of a conversion that gets to its end. -/
theorem Convertible.converts {mapData : Dict} (files : OpenFiles) (part : Range → List Byte)
    (h : Convertible py files.raw mapData ranges)
    (copies : ∀ range ∈ ranges, ∀ written, copyLoop files written range.start.toNat
      range.length.toNat = written ++ part range) :
    ∃ header, header.length = 4096 ∧
      convertToZdmp py files mapData = some (header ++ ranges.flatMap part) := by
  obtain ⟨hints, header, found, packed⟩ := h.header
  refine ⟨header, (dumpHeader_unversioned py hints ranges header packed).length, ?_⟩
  rw [convertToZdmp, found, h.parsed]
  show (dumpHeader py hints ranges >>= _) = _
  rw [packed]
  exact (foldlM_copyRange copies header _).mpr ⟨h.seekable, rfl⟩

theorem seekable_of_foldlM {written content : List Byte}
    (copied : ranges.foldlM (copyRange files) written = some content) :
    ∀ range ∈ ranges, seekable range.start = true := by
  induction ranges generalizing written with
  | nil => simp
  | cons range ranges ih =>
      obtain ⟨next, first, later⟩ := Option.bind_eq_some_iff.mp copied
      obtain ⟨position, moved, -⟩ := Option.bind_eq_some_iff.mp first
      refine List.forall_mem_cons.mpr ⟨?_, ih later⟩
      rw [seek] at moved
      split at moved
      · assumption
      · cases moved

theorem convertible_of_some {mapData : Dict} {content : List Byte}
    (converted : convertToZdmp py files mapData = some content)
    (parsed : rangesOf py files.raw mapData = some ranges) :
    Convertible py files.raw mapData ranges := by
  obtain ⟨hints, found, rest⟩ := Option.bind_eq_some_iff.mp converted
  obtain ⟨ranges', parsed', rest⟩ := Option.bind_eq_some_iff.mp rest
  obtain ⟨header, packed, copied⟩ := Option.bind_eq_some_iff.mp rest
  obtain rfl := Option.some.inj (parsed.symm.trans parsed')
  exact ⟨parsed, ⟨hints, header, found, packed⟩, seekable_of_foldlM copied⟩

/-! ### Ranges in their places -/

theorem Inside.length_bytes (h : Inside raw range) (reachable : seekable range.start = true) :
    ((range.bytes raw).length : Int) = range.length := by
  obtain ⟨positive, inside⟩ := h
  simp only [seekable, Bool.and_eq_true, decide_eq_true_eq] at reachable
  rw [Range.bytes, List.length_take, List.length_drop]
  omega

theorem length_flatMap_bytes (inside : ∀ range ∈ ranges, Inside raw range)
    (reachable : ∀ range ∈ ranges, seekable range.start = true) :
    ((ranges.flatMap (Range.bytes raw)).length : Int) = totalLength ranges := by
  induction ranges with
  | nil => rfl
  | cons range ranges ih =>
      obtain ⟨here, inside⟩ := List.forall_mem_cons.mp inside
      obtain ⟨near, reachable⟩ := List.forall_mem_cons.mp reachable
      rw [List.flatMap_cons, List.length_append, totalLength, List.map_cons, List.sum_cons,
        ← totalLength, ← ih inside reachable, ← here.length_bytes near]
      exact Int.natCast_add _ _

/-- Where the image contains every range, each one is in its place. -/
theorem placed_of_inside (size : header.length = 4096)
    (inside : ∀ range ∈ ranges, Inside raw range)
    (reachable : ∀ range ∈ ranges, seekable range.start = true) :
    Placed raw ranges (header ++ ranges.flatMap (Range.bytes raw)) := by
  refine ⟨?_, ?_⟩
  · rw [List.length_append, Int.natCast_add, length_flatMap_bytes inside reachable, size]
    rfl
  · rintro before range after rfl
    have member : range ∈ before ++ range :: after := by simp
    have earlier : ((before.flatMap (Range.bytes raw)).length : Int) = _ := length_flatMap_bytes
      (fun r among => inside r (List.mem_append_left _ among))
      fun r among => reachable r (List.mem_append_left _ among)
    refine ⟨range.bytes raw, (inside range member).length_bytes (reachable range member),
      List.take_prefix _ _, ?_⟩
    have place : (4096 + totalLength before).toNat =
        (header ++ before.flatMap (Range.bytes raw)).length := by
      rw [List.length_append, size]
      omega
    rw [place, List.flatMap_append, List.flatMap_cons, ← List.append_assoc]
    exact (HasAt.append_iff.mp (HasAt.after _ _)).1

/-- A range in its place is inside the image. -/
theorem Placed.inside {content : List Byte} (h : Placed raw ranges content)
    (member : range ∈ ranges) (reachable : seekable range.start = true) : Inside raw range := by
  obtain ⟨before, after, split⟩ := List.append_of_mem member
  obtain ⟨bytes, length, there, -⟩ := h.bytes before range after split
  simp only [seekable, Bool.and_eq_true, decide_eq_true_eq] at reachable
  have fits := there.length_le
  rw [List.length_drop] at fits
  exact ⟨by omega, fun positive => by omega⟩

/-- Ranges of no length are in their places in a dump that is only a header. -/
theorem placed_of_empty (size : header.length = 4096) (empty : ∀ range ∈ ranges, range.length = 0) :
    Placed raw ranges header := by
  have none {some : List Range} (part : ∀ range ∈ some, range ∈ ranges) : totalLength some = 0 :=
    List.sum_eq_zero fun length member => by
      obtain ⟨range, among, rfl⟩ := List.mem_map.mp member
      exact empty range (part range among)
  refine ⟨?_, ?_⟩
  · rw [size, none fun _ member => member]
    rfl
  · rintro before range after rfl
    exact ⟨[], (empty range (by simp)).symm, List.nil_prefix, List.nil_prefix⟩

/-- A header alone has room for empty ranges only. -/
theorem Placed.empty (h : Placed raw ranges header) (size : header.length = 4096)
    (member : range ∈ ranges) : range.length = 0 := by
  have positive : ∀ length ∈ ranges.map Range.length, 0 ≤ length := by
    intro length listed
    obtain ⟨other, among, rfl⟩ := List.mem_map.mp listed
    obtain ⟨before, after, split⟩ := List.append_of_mem among
    obtain ⟨bytes, whole, -⟩ := h.bytes before other after split
    rw [← whole]
    exact Int.natCast_nonneg _
  have none : totalLength ranges = 0 := by
    have whole := h.length
    omega
  have part := List.single_le_sum positive _ (List.mem_map_of_mem member)
  have least := positive _ (List.mem_map_of_mem member)
  have sum : (ranges.map Range.length).sum = 0 := none
  omega

/-- The conversion never mislabels an image if and only if, whenever it gets to its end, every
range can be read in full. -/
theorem convert_never_mislabels_iff (py : Python) (raw : List Byte) (output : Output)
    (mapData : Dict) :
    NeverMislabels py raw output mapData ↔
      ∀ ranges, Convertible py raw mapData ranges → ∀ range ∈ ranges, Readable raw output range := by
  constructor
  · intro honest ranges convertible range member
    cases output with
    | other =>
        obtain ⟨header, -, converted⟩ := Convertible.converts
          ⟨raw, .other, fun n => n⟩ (Range.bytes raw) convertible
          fun range _ written => copyLoop_other rfl written _ _
        exact (honest _ _ _ converted convertible.parsed).inside member
          (convertible.seekable range member)
    | same =>
        -- The header stays in the buffer, and nothing follows it.
        obtain ⟨header, size, converted⟩ := Convertible.converts
          ⟨raw, .same, fun _ => 0⟩ (fun _ => []) convertible
          fun range _ written => (copyLoop_emptied rfl (fun _ => rfl) written _ _).trans
            (List.append_nil written).symm
        have placed := honest _ _ _ converted convertible.parsed
        exact placed.empty (by simp [size]) member
  · intro readable flushed content ranges converted parsed
    have convertible := convertible_of_some converted parsed
    have inside := readable ranges convertible
    cases output with
    | other =>
        obtain ⟨header, size, converted'⟩ := convertible.converts ⟨raw, .other, flushed⟩
          (Range.bytes raw) fun range _ written => copyLoop_other rfl written _ _
        obtain rfl := Option.some.inj (converted.symm.trans converted')
        exact placed_of_inside size inside convertible.seekable
    | same =>
        obtain ⟨header, size, converted'⟩ := convertible.converts ⟨raw, .same, flushed⟩ (fun _ => [])
          fun range member written => by
            rw [inside range member, Int.toNat_zero, copyLoop, dif_pos rfl, List.append_nil]
        obtain rfl := Option.some.inj (converted.symm.trans converted')
        exact placed_of_empty (by simp [size]) inside

/-- A map of two pages for an image of one byte. -/
def truncatedMap : Dict :=
  [("ranges".toList, .list [
    .dict [("start".toList, .str "0x0".toList), ("length".toList, .int 4096)],
    .dict [("start".toList, .str "0x0".toList), ("length".toList, .int 1)]])]

/-- The map of an image of one byte. -/
def wholeMap : Dict :=
  [("ranges".toList, .list [
    .dict [("start".toList, .str "0x0".toList), ("length".toList, .int 1)]])]

/-- The page is cut off after one byte, and the next range follows directly; and an image that is
its own output loses its byte. -/
theorem convert_mislabels_truncated :
    (convertToZdmp python311 ⟨[7], .other, fun n => n⟩ truncatedMap).map List.length =
        some 4098 ∧
      ¬NeverMislabels python311 [7] .other truncatedMap ∧
      (convertToZdmp python311 ⟨[7], .same, fun _ => 0⟩ wholeMap).map List.length = some 4096 ∧
      ¬NeverMislabels python311 [7] .same wholeMap := by
  have size : (convertToZdmp python311 ⟨[7], .other, fun n => n⟩ truncatedMap).map List.length =
      some 4098 := by decide +kernel
  have size' : (convertToZdmp python311 ⟨[7], .same, fun _ => 0⟩ wholeMap).map List.length =
      some 4096 := by decide +kernel
  refine ⟨size, fun honest => ?_, size', fun honest => ?_⟩
  · obtain ⟨content, converted, length⟩ := Option.map_eq_some_iff.mp size
    have placed := honest _ content _ converted
      (show _ = some [⟨0, 4096⟩, ⟨0, 1⟩] by decide +kernel)
    have whole := placed.length
    rw [length] at whole
    exact absurd whole (by decide)
  · obtain ⟨content, converted, length⟩ := Option.map_eq_some_iff.mp size'
    have placed := honest _ content _ converted (show _ = some [⟨0, 1⟩] by decide +kernel)
    have whole := placed.length
    rw [length] at whole
    exact absurd whole (by decide)

end PhylaRam.Converter
