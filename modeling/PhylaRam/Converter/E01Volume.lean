import PhylaRam.Converter.E01
import PhylaRam.Writer.E01Layout

/-!
# The volume section of a converted container

The converter leaves the field `BytesPerSector` out of its volume section, so every field behind
it is read four bytes early. A reader that uses the layout of `EwfVolumeSection` never finds the
number of sectors.
-/

namespace PhylaRam.Converter

open Packed Image

variable {py : Python} {files : OpenFiles} {raw content : List Byte} {ranges : List Range}
  {mapData : Dict} {hashlib : Hashlib}
  {case examiner : Text} {type : String} {next size : Int}

/-- A container that gives the image back: its volume section counts the sectors and the chunks,
its table locates each chunk, and the chunks are the ranges one after the other. -/
structure PreservesMedia (raw : List Byte) (ranges : List Range) (content : List Byte)
    (chunkCount : UInt32) (sectorCount sectors : UInt64) (chunks : List (List Byte))
    (entries : List UInt32) : Prop where
  layout : E01Layout content chunkCount sectorCount sectors chunks entries
  sectorCount : (sectorCount.toNat : Int) = totalLength ranges / 512
  chunkCount : chunkCount.toNat = entries.length
  table : entries.length = chunks.length
  stored : ∀ (k : Nat) (entry : UInt32) (chunk : List Byte), entries[k]? = some entry →
    chunks[k]? = some chunk → HasAt content (sectors.toNat + entry.toNat) (storedChunk chunk)
  media : chunks.flatten.take (totalLength ranges).toNat = ranges.flatMap (Range.bytes raw)

theorem sectionHdr_eq_some {bytes : List Byte} (h : sectionHdr type next size = some bytes) :
    ∃ n s : UInt64, next = n.toNat ∧ bytes = ewfSectionHeader (narrow type) n s := by
  obtain ⟨first, packed, h⟩ := Option.bind_eq_some_iff.mp h
  obtain ⟨second, packed', h⟩ := Option.bind_eq_some_iff.mp h
  obtain ⟨positive, small, rfl⟩ := packQ_eq_some packed
  obtain ⟨-, -, rfl⟩ := packQ_eq_some packed'
  refine ⟨_, _, ?_, (Option.some.inj h).symm⟩
  have exact : (UInt64.ofNat next.toNat).toNat = next.toNat :=
    UInt64.toNat_ofNat_of_lt' (show _ < 2 ^ 64 by omega)
  rw [exact, Int.toNat_of_nonneg positive]

/-- The fields of the converted volume section. -/
def volumeFields (totalChunks : UInt32) (sectors : UInt64) : List Byte :=
  u32 1 ++ u32 0 ++ u32 totalChunks ++ u32 128 ++ u64 sectors ++ zeros 968

theorem length_volumeFields (totalChunks : UInt32) (sectors : UInt64) :
    (volumeFields totalChunks sectors).length = 992 := by
  simp [volumeFields]

theorem volData_eq_some {totalChunks sectors : Int} {bytes : List Byte}
    (h : volData totalChunks sectors = some bytes) :
    ∃ (c : UInt32) (x : UInt64), sectors = x.toNat ∧ bytes = volumeFields c x := by
  have h : (do
      let count ← packI totalChunks
      let last ← packQ sectors
      some (u32 1 ++ u32 0 ++ count ++ u32 128 ++ last ++ zeros 968)) = some bytes := h
  obtain ⟨count, counted, h⟩ := Option.bind_eq_some_iff.mp h
  obtain ⟨last, sector, h⟩ := Option.bind_eq_some_iff.mp h
  obtain ⟨-, -, rfl⟩ := packI_eq_some counted
  obtain ⟨positive, small, rfl⟩ := packQ_eq_some sector
  refine ⟨_, _, ?_, (Option.some.inj h).symm⟩
  have exact : (UInt64.ofNat sectors.toNat).toNat = sectors.toNat :=
    UInt64.toNat_ofNat_of_lt' (show _ < 2 ^ 64 by omega)
  rw [exact, Int.toNat_of_nonneg positive]

/-- `BytesPerSector` is the low half of the number of sectors and `SectorCount` is its high half,
so they are not 512 and the number. -/
theorem volumeFields_ne {chunkCount c : UInt32} {x : UInt64} :
    ewfVolumeSection chunkCount x ≠ volumeFields c x := by
  intro same
  have shape : ewfVolumeSection chunkCount x =
      (u32 1 ++ u32 0 ++ u32 chunkCount ++ u32 128) ++ (u32 512 ++ (u64 x ++ zeros 964)) := by
    simp only [ewfVolumeSection, zeros, List.append_assoc, List.replicate_append_replicate]
  have shape' : volumeFields c x = (u32 1 ++ u32 0 ++ u32 c ++ u32 128) ++ (u64 x ++ zeros 968) := by
    simp only [volumeFields, List.append_assoc]
  rw [shape, shape'] at same
  obtain ⟨-, tails⟩ := List.append_inj same (by simp)
  have byte (i : Nat) : (u32 512 ++ (u64 x ++ zeros 964))[i]? = (u64 x ++ zeros 968)[i]? := by
    rw [tails]
  have at1 := byte 1
  have at5 := byte 5
  have at9 := byte 9
  rw [List.getElem?_append_left (by simp), List.getElem?_append_left (by simp)] at at1
  rw [List.getElem?_append_right (by simp), List.getElem?_append_left (by simp),
    List.getElem?_append_left (by simp)] at at5
  rw [List.getElem?_append_right (by simp), List.getElem?_append_left (by simp),
    List.getElem?_append_right (by simp)] at at9
  have zero : (zeros 968)[9 - (u64 x).length]? = some 0 := by
    rw [length_u64]
    rfl
  have two : (u32 512)[1]? = some 2 := by decide
  have chain := two.symm.trans (at1.trans (at5.trans (at9.trans zero)))
  exact absurd (Option.some.inj chain) (by decide)

/-- Where the converter puts its volume section. -/
theorem converted_volume (parsed : rangesOf py files.raw mapData = some ranges)
    (converted : convertToE01 py hashlib files mapData case examiner = some content) :
    ∃ (next size n s : UInt64) (c : UInt32) (x : UInt64), totalLength ranges / 512 = x.toNat ∧
      HasAt content 13 (ewfSectionHeader (narrow "header") next size) ∧
      HasAt content next.toNat (ewfSectionHeader (narrow "volume") n s ++ volumeFields c x) := by
  obtain ⟨ranges', parsed', converted⟩ := Option.bind_eq_some_iff.mp converted
  obtain rfl := Option.some.inj (parsed.symm.trans parsed')
  obtain ⟨hdrSec, headed, converted⟩ := Option.bind_eq_some_iff.mp converted
  obtain ⟨volume, described, converted⟩ := Option.bind_eq_some_iff.mp converted
  obtain ⟨volSec, second, converted⟩ := Option.bind_eq_some_iff.mp converted
  obtain ⟨chunks, -, converted⟩ := Option.bind_eq_some_iff.mp converted
  obtain ⟨sectorsSec, -, converted⟩ := Option.bind_eq_some_iff.mp converted
  obtain ⟨table, -, converted⟩ := Option.bind_eq_some_iff.mp converted
  obtain ⟨tblSec, -, converted⟩ := Option.bind_eq_some_iff.mp converted
  obtain ⟨hashSec, -, converted⟩ := Option.bind_eq_some_iff.mp converted
  obtain ⟨doneSec, -, converted⟩ := Option.bind_eq_some_iff.mp converted
  obtain ⟨next, size, place, rfl⟩ := sectionHdr_eq_some headed
  obtain ⟨n, s, -, rfl⟩ := sectionHdr_eq_some second
  obtain ⟨c, x, count, rfl⟩ := volData_eq_some described
  obtain rfl := Option.some.inj converted
  have header : HasAt (fileHdr ++ (ewfSectionHeader (narrow "header") next size ++
      metaStr case examiner ++ u32 (calculateAdler32 (metaStr case examiner)))) 13
      (ewfSectionHeader (narrow "header") next size) :=
    (((HasAt.start _).left _).left _).right fileHdr
  have volume : HasAt (ewfSectionHeader (narrow "volume") n s ++ volumeFields c x ++
      u32 (calculateAdler32 (volumeFields c x))) 0
      (ewfSectionHeader (narrow "volume") n s ++ volumeFields c x) := (HasAt.start _).left _
  have behind := volume.right (fileHdr ++ (ewfSectionHeader (narrow "header") next size ++
    metaStr case examiner ++ u32 (calculateAdler32 (metaStr case examiner))))
  have start : (fileHdr ++ (ewfSectionHeader (narrow "header") next size ++
      metaStr case examiner ++ u32 (calculateAdler32 (metaStr case examiner)))).length + 0 =
        next.toNat := by
    rw [← Int.ofNat_inj.mp place]
    simp only [List.length_append, length_ewfSectionHeader, length_u32]
    show 13 + _ + 0 = _
    omega
  rw [start] at behind
  exact ⟨next, size, n, s, c, x, count, ((((header.left _).left _).left _).left _).left _,
    (((behind.left _).left _).left _).left _⟩

theorem not_preservesMedia {chunkCount : UInt32} {sectorCount sectors : UInt64}
    {chunks : List (List Byte)} {entries : List UInt32}
    (parsed : rangesOf py files.raw mapData = some ranges)
    (converted : convertToE01 py hashlib files mapData case examiner = some content) :
    ¬PreservesMedia files.raw ranges content chunkCount sectorCount sectors chunks entries := by
  intro preserves
  obtain ⟨next, size, n, s, c, x, count, header, volume⟩ := converted_volume parsed converted
  obtain ⟨place, size', size'', header', volume'⟩ := preserves.layout.volume
  obtain ⟨rfl, -⟩ := ewfSectionHeader_inj (header.unique header' (by
    rw [length_ewfSectionHeader, length_ewfSectionHeader]))
  have same := volume.unique volume' (by
    rw [List.length_append, List.length_append, length_ewfSectionHeader, length_ewfSectionHeader,
      length_volumeFields, length_ewfVolumeSection])
  obtain ⟨-, fields⟩ := List.append_inj same (by
    rw [length_ewfSectionHeader, length_ewfSectionHeader])
  have number := preserves.sectorCount
  rw [count] at number
  obtain rfl : sectorCount = x := UInt64.toNat_inj.mp (Int.ofNat_inj.mp number)
  exact volumeFields_ne fields.symm

/-- The conversion finishes and preserves the media. -/
def ConversionPreserves (py : Python) (hashlib : Hashlib) (files : OpenFiles) (mapData : Dict)
    (case examiner : Text) : Prop :=
  ∃ ranges content chunkCount sectorCount sectors chunks entries,
    rangesOf py files.raw mapData = some ranges ∧
    convertToE01 py hashlib files mapData case examiner = some content ∧
    PreservesMedia files.raw ranges content chunkCount sectorCount sectors chunks entries

/-- No conversion gives the image back. -/
theorem e01_conversion_never_preserves (py : Python) (hashlib : Hashlib) (files : OpenFiles)
    (mapData : Dict) (case examiner : Text) :
    ¬ConversionPreserves py hashlib files mapData case examiner := by
  rintro ⟨ranges, content, _, _, _, _, _, parsed, converted, preserves⟩
  exact not_preservesMedia parsed converted preserves

/-- The digest of one chunk of zeros. -/
def zeroChunkHashlib : Hashlib where
  md5 _ := [0xFC, 0xD6, 0xBC, 0xB5, 0x6C, 0x16, 0x89, 0xFC, 0xEF, 0x28, 0xB5, 0x7C, 0x22, 0x47,
    0x5B, 0xAD]
  digestSize _ := rfl

/-- The map of one page at address zero. -/
def onePageMap : Dict :=
  [("ranges".toList, .list [
    .dict [("start".toList, .str "0x0".toList), ("length".toList, .int 4096)]])]

theorem e01_conversion_loses_page :
    ¬ConversionPreserves python311 zeroChunkHashlib ⟨zeros 4096, .other, fun n => n⟩ onePageMap
      "CASE-001".toList "PhylaRAM Examiner".toList := by
  rintro ⟨ranges, content, _, _, _, _, _, parsed, converted, preserves⟩
  exact not_preservesMedia parsed converted preserves

end PhylaRam.Converter
