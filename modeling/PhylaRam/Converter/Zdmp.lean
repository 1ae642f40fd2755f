import PhylaRam.Converter.Python

/-!
# The conversion to a crash dump

`convert_to_zdmp` of `tools/phylaram_convert.py`: a header of 4096 bytes and the bytes of the
ranges one after the other. A range that the image does not contain completely is copied as
far as the image goes, so everything behind it moves. If the output is the RAW file itself,
the copy reads what has been written before.
-/

namespace PhylaRam.Converter

open Packed Image

/-- The `<QQ` of a range in the run table. -/
def packRun (header : List Byte) (offset : Nat) (range : Range) : Option (List Byte) := do
  let header ← packIntoQ header offset (range.start / 4096)
  packIntoQ header (offset + 8) (range.length / 4096)

/-- `for i in range(num_runs)` -/
def packRuns : List Byte → Nat → List Range → Option (List Byte)
  | header, _, [] => some header
  | header, offset, range :: ranges => do
      let header ← packRun header offset range
      packRuns header (offset + 16) ranges

def versionStr : List Byte := narrow "PhylaRAM 0.1.0-alpha" ++ [0]

def dumpHeader (py : Python) (hints : Dict) (ranges : List Range) : Option (List Byte) := do
  let numRuns := min ranges.length 32
  let header ← packIntoI (zeros 4096) 0x0000 0x45474150
  let header ← packIntoI header 0x0004 0x34365544
  let header ← packIntoI header 0x0008 15
  let buildNumber ← index (get "build_number" (.int 22631) hints)
  let header ← packIntoI header 0x000C buildNumber
  let dtb ← toInt py 16 (get "directory_table_base" (.str "0x0".toList) hints)
  let header ← packIntoQ header 0x0010 dtb
  let kbase ← toInt py 16 (get "kernel_base" (.str "0x0".toList) hints)
  let header ← packIntoQ header 0x0020 kbase
  let header ← packIntoI header 0x0030 0x8664
  let numCpus ← index (get "processors" (.int 1) hints)
  let header ← packIntoI header 0x0034 numCpus
  let header ← packIntoI header 0x0038 0x161
  let header := patch 0 header 0x0060 versionStr
  let header ← packIntoI header 0x00F8 numRuns
  let header ← packIntoI header 0x00FC 0
  let header ← packIntoQ header 0x0100 (totalLength ranges / 4096)
  let header ← packRuns header 0x0108 (ranges.take 32)
  packIntoI header 0x0F88 1

def copyChunk : Nat := 1024 * 1024

/-- `while remaining > 0`, until the image ends; the result is all that has been written. -/
def copyLoop (files : OpenFiles) (written : List Byte) (position remaining : Nat) : List Byte :=
  if ended : remaining = 0 then written
  else
    let data := read (files.image written) position (min remaining copyChunk)
    if data = [] then written
    else copyLoop files (written ++ data) (position + data.length) (remaining - data.length)
termination_by remaining
decreasing_by
  exact Nat.sub_lt (Nat.pos_of_ne_zero ended) (List.length_pos_iff.mpr ‹data ≠ []›)

/-- Nothing is copied for a range whose length is not positive. -/
def copyRange (files : OpenFiles) (written : List Byte) (range : Range) : Option (List Byte) := do
  let position ← seek range.start
  some (copyLoop files written position range.length.toNat)

/-- The hints are a dictionary, or nothing can be looked up in them. -/
def hintsOf (mapData : Dict) : Option Dict :=
  match get "kernel_hints" (.dict []) mapData with
  | .dict hints => some hints
  | _ => none

/-- The content of the file that `convert_to_zdmp` writes when it succeeds. -/
def convertToZdmp (py : Python) (files : OpenFiles) (mapData : Dict) : Option (List Byte) := do
  let hints ← hintsOf mapData
  let ranges ← rangesOf py files.raw mapData
  let header ← dumpHeader py hints ranges
  ranges.foldlM (copyRange files) header

/-! ### The header -/

/-- The header has its size, and nothing has been written to the first four bytes of the field
`VersionUser` of `DumpHeader64`. -/
structure Unversioned (header : List Byte) : Prop where
  length : header.length = 4096
  version : ∀ n, 0x5C ≤ n → n < 0x60 → view 0 header n = 0

/-- What holds of the result if there is one. -/
def Yields {α : Type} (P : α → Prop) (x : Option α) : Prop := ∀ a, x = some a → P a

section Header

variable {α : Type} {P : α → Prop} {header data : List Byte} {offset : Nat} {value : Int}

theorem Yields.bind {β : Type} {x : Option β} {f : β → Option α} (next : ∀ b, Yields P (f b)) :
    Yields P (x >>= f) := by
  intro a h
  obtain ⟨b, -, h⟩ := Option.bind_eq_some_iff.mp h
  exact next b a h

theorem Unversioned.patch (h : Unversioned header) (fits : offset + data.length ≤ 4096)
    (apart : offset + data.length ≤ 0x5C ∨ 0x60 ≤ offset) :
    Unversioned (patch 0 header offset data) := by
  refine ⟨?_, fun n low high => ?_⟩
  · rw [length_patch, h.length, Nat.max_eq_left fits]
  · rw [view_patch]
    rcases apart with before | behind
    · rw [overlay_of_ge (by omega), h.version n low high]
    · rw [overlay_of_lt (by omega), h.version n low high]

theorem Unversioned.packIntoI (h : Unversioned header) (fits : offset + 4 ≤ 4096)
    (apart : offset + 4 ≤ 0x5C ∨ 0x60 ≤ offset) :
    Yields Unversioned (packIntoI header offset value) := by
  intro header' packed
  obtain ⟨bytes, fields, rfl⟩ := Option.map_eq_some_iff.mp packed
  obtain ⟨-, -, rfl⟩ := packI_eq_some fields
  exact h.patch (by rwa [length_u32]) (by rwa [length_u32])

theorem Unversioned.packIntoQ (h : Unversioned header) (fits : offset + 8 ≤ 4096)
    (apart : offset + 8 ≤ 0x5C ∨ 0x60 ≤ offset) :
    Yields Unversioned (packIntoQ header offset value) := by
  intro header' packed
  obtain ⟨bytes, fields, rfl⟩ := Option.map_eq_some_iff.mp packed
  obtain ⟨-, -, rfl⟩ := packQ_eq_some fields
  exact h.patch (by rwa [length_u64]) (by rwa [length_u64])

/-- The next step of the function. -/
theorem Yields.then {x : Option (List Byte)} {f : List Byte → Option (List Byte)}
    (first : Yields Unversioned x) (next : ∀ header, Unversioned header → Yields Unversioned (f header)) :
    Yields Unversioned (x >>= f) := by
  intro a h
  obtain ⟨header, done, h⟩ := Option.bind_eq_some_iff.mp h
  exact next header (first header done) a h

theorem Unversioned.packRuns (ranges : List Range) (h : Unversioned header) (behind : 0x60 ≤ offset)
    (fits : offset + 16 * ranges.length ≤ 4096) :
    Yields Unversioned (packRuns header offset ranges) := by
  induction ranges generalizing header offset with
  | nil =>
      intro header' same
      obtain rfl := Option.some.inj same
      exact h
  | cons range ranges ih =>
      rw [List.length_cons] at fits
      refine .then (.then (h.packIntoQ (by omega) (.inr behind)) fun header h => ?_) fun header h => ?_
      · exact h.packIntoQ (by omega) (.inr (by omega))
      · exact ih h (by omega) (by omega)

/-- The converter writes its version four bytes behind the field of the header. -/
theorem dumpHeader_unversioned (py : Python) (hints : Dict) (ranges : List Range) :
    Yields Unversioned (dumpHeader py hints ranges) := by
  have blank : Unversioned (zeros 4096) := by
    refine ⟨length_zeros _, fun n _ high => ?_⟩
    rw [view_of_lt 0 (by rw [length_zeros]; omega)]
    exact List.getElem_replicate _
  have few : (ranges.take 32).length ≤ 32 := List.length_take_le _ _
  rw [dumpHeader]
  refine .then (blank.packIntoI (by decide) (by decide)) fun _ h => ?_
  refine .then (h.packIntoI (by decide) (by decide)) fun _ h => ?_
  refine .then (h.packIntoI (by decide) (by decide)) fun _ h => .bind fun _ => ?_
  refine .then (h.packIntoI (by decide) (by decide)) fun _ h => .bind fun _ => ?_
  refine .then (h.packIntoQ (by decide) (by decide)) fun _ h => .bind fun _ => ?_
  refine .then (h.packIntoQ (by decide) (by decide)) fun _ h => ?_
  refine .then (h.packIntoI (by decide) (by decide)) fun _ h => .bind fun _ => ?_
  refine .then (h.packIntoI (by decide) (by decide)) fun _ h => ?_
  refine .then (h.packIntoI (by decide) (by decide)) fun _ h => ?_
  have h : Unversioned (patch 0 _ 0x60 versionStr) := h.patch (by decide) (by decide)
  refine .then (h.packIntoI (by decide) (by decide)) fun _ h => ?_
  refine .then (h.packIntoI (by decide) (by decide)) fun _ h => ?_
  refine .then (h.packIntoQ (by decide) (by decide)) fun _ h => ?_
  refine .then (h.packRuns _ (by decide) (by omega)) fun _ h => ?_
  exact h.packIntoI (by decide) (by decide)

end Header

/-! ### The copies -/

section Copies

variable {files : OpenFiles} {written content : List Byte} {ranges : List Range}

/-- The loop only appends. -/
theorem prefix_copyLoop (files : OpenFiles) (written : List Byte) (position remaining : Nat) :
    written <+: copyLoop files written position remaining := by
  induction written, position, remaining using copyLoop.induct files with
  | case1 written position => rw [copyLoop, dif_pos rfl]
  | case2 written position remaining more data ended =>
      rw [copyLoop, dif_neg more]
      exact (if_pos ended).symm ▸ List.prefix_refl written
  | case3 written position remaining more data some ih =>
      rw [copyLoop, dif_neg more]
      exact (if_neg some).symm ▸ (List.prefix_append written data).trans ih

theorem prefix_of_foldlM (copied : ranges.foldlM (copyRange files) written = some content) :
    written <+: content := by
  induction ranges generalizing written with
  | nil => exact Option.some.inj copied ▸ List.prefix_refl written
  | cons range ranges ih =>
      obtain ⟨next, first, later⟩ := Option.bind_eq_some_iff.mp copied
      obtain ⟨position, -, copy⟩ := Option.bind_eq_some_iff.mp first
      obtain rfl := Option.some.inj copy
      exact (prefix_copyLoop files written _ _).trans (ih later)

end Copies

end PhylaRam.Converter
