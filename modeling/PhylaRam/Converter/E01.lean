import PhylaRam.Converter.Python
import PhylaRam.Writer.E01

/-!
# The conversion to an E01 container

`convert_to_e01` of `tools/phylaram_convert.py`. The file is given as the concatenation of what
is written, with the header of the sectors section as it is after it has been rewritten. While
the chunks are copied its place is held by a header of the type alone, which is what is read
there when the output is the RAW file itself. The digest comes from `hashlib`; the SHA-256 that
the function also computes goes nowhere.
-/

namespace PhylaRam.Converter

open Packed

/-- `hashlib.md5`: a digest has 16 bytes. -/
structure Hashlib where
  md5 : List Byte → List Byte
  digestSize : ∀ data, (md5 data).length = 16

def utf8 (text : Text) : List Byte := text.flatMap String.utf8EncodeChar

def fileHdr : List Byte :=
  [0x45, 0x56, 0x46, 0x09, 0x0D, 0x0A, 0xFF, 0x00, 0x01, 0x00, 0x00, 0x00, 0x00]

def metaStr (case examiner : Text) : List Byte :=
  utf8 ("case_number\t".toList ++ case ++
    "\nevidence_number\tEV-01\nexaminer_name\t".toList ++ examiner ++
    ("\ndescription\tPhysical Memory Image (E01)\n" ++
      "notes\tConverted via PhylaRAM\n" ++
      "system_date\t2026-08-24 00:00:00\n" ++
      "acquisition_date\t2026-08-24 00:00:00\n" ++
      "compression_type\tbest\n").toList)

/-- A section header of 76 bytes with its checksum: the type, `<QQ` at 16 and `<I` at 72. -/
def sectionHdr (type : String) (next size : Int) : Option (List Byte) := do
  let next ← packQ next
  let size ← packQ size
  let body := array 16 (narrow type) ++ next ++ size ++ zeros 40
  some (body ++ u32 (calculateAdler32 body))

/-- `<IIIIQ` in 992 bytes. -/
def volData (totalChunks sectors : Int) : Option (List Byte) := do
  let mediaType ← packI 1
  let unknown ← packI 0
  let totalChunks ← packI totalChunks
  let sectorsPerChunk ← packI 128
  let sectors ← packQ sectors
  some (mediaType ++ unknown ++ totalChunks ++ sectorsPerChunk ++ sectors ++ zeros 968)

def chunkSize : Nat := 65536

/-- The chunks as they are stored. -/
def storedChunks (chunks : List (List Byte)) : List Byte :=
  chunks.flatMap fun buf => buf ++ u32 (calculateAdler32 buf)

/-- `while rem > 0`: the last chunk of a range is padded, and so is what the image has not. -/
def chunkLoop (files : OpenFiles) (written : List Byte) (position rem : Nat) : List (List Byte) :=
  if ended : rem = 0 then []
  else
    let readSz := min rem chunkSize
    let data := read (files.image written) position readSz
    let buf := array chunkSize data
    buf :: chunkLoop files (written ++ buf ++ u32 (calculateAdler32 buf)) (position + data.length)
      (rem - readSz)
termination_by rem
decreasing_by
  have positive : 0 < min rem chunkSize := by
    rw [chunkSize]
    omega
  exact Nat.sub_lt (Nat.pos_of_ne_zero ended) positive

/-- `for r in ranges` -/
def rangeChunks (files : OpenFiles) (written : List Byte) :
    List Range → Option (List (List Byte))
  | [] => some []
  | range :: ranges => do
      let position ← seek range.start
      let chunks := chunkLoop files written position range.length.toNat
      let later ← rangeChunks files (written ++ storedChunks chunks) ranges
      some (chunks ++ later)

/-- `out_f.tell() - sectors_sec_offset` before each chunk, for the first one at `offset`. -/
def chunkOffsets : Nat → List (List Byte) → List Nat
  | _, [] => []
  | offset, buf :: rest => offset :: chunkOffsets (offset + buf.length + 4) rest

/-- The content of the file that `convert_to_e01` writes when it succeeds. -/
def convertToE01 (py : Python) (hashlib : Hashlib) (files : OpenFiles) (mapData : Dict)
    (case examiner : Text) : Option (List Byte) := do
  let ranges ← rangesOf py files.raw mapData
  let totalPhysicalBytes := totalLength ranges
  let totalChunks := (totalPhysicalBytes + chunkSize - 1) / chunkSize
  let header := metaStr case examiner
  let hdrSecSize := 76 + header.length + 4
  let hdrSec ← sectionHdr "header" (13 + hdrSecSize : Nat) hdrSecSize
  let volData ← volData totalChunks (totalPhysicalBytes / 512)
  let volSecSize := 76 + 992 + 4
  let volSecOffset := 13 + hdrSecSize
  let volSec ← sectionHdr "volume" (volSecOffset + volSecSize : Nat) volSecSize
  let sectorsSecOffset := volSecOffset + volSecSize
  let chunks ← rangeChunks files
    (fileHdr ++ (hdrSec ++ header ++ u32 (calculateAdler32 header)) ++
      (volSec ++ volData ++ u32 (calculateAdler32 volData)) ++ array 76 (narrow "sectors")) ranges
  let endOfSectors := sectorsSecOffset + 76 + (storedChunks chunks).length
  let sectorsSec ← sectionHdr "sectors" endOfSectors (endOfSectors - sectorsSecOffset : Nat)
  let tblData := (← (chunkOffsets 76 chunks).mapM fun (off : Nat) => packI off).flatten
  let tblSecSize := 76 + tblData.length + 4
  let tblSec ← sectionHdr "table" (endOfSectors + tblSecSize : Nat) tblSecSize
  let hashSecSize := 76 + 36
  let hashSec ← sectionHdr "hash" (endOfSectors + tblSecSize + hashSecSize : Nat) hashSecSize
  let hashData := hashlib.md5 chunks.flatten ++ zeros 20
  let doneSec ← sectionHdr "done" 0 76
  some (fileHdr ++ (hdrSec ++ header ++ u32 (calculateAdler32 header)) ++
    (volSec ++ volData ++ u32 (calculateAdler32 volData)) ++
    (sectorsSec ++ storedChunks chunks) ++
    (tblSec ++ tblData ++ u32 (calculateAdler32 tblData)) ++ (hashSec ++ hashData) ++ doneSec)

end PhylaRam.Converter
