import PhylaRam.Library.JsonWriter
import PhylaRam.Writer.Basic

/-!
# The provenance map and the SHA-256 sidecar

This module follows `cli/map.cpp`. The text of the map is a list of characters, which
`ascii` turns into the bytes of the `std::string`. Both files are written by
`writeAtomicString`, which leaves a flushed file or none.
-/

namespace PhylaRam

open Json (quoted member separated)

namespace Map

def kWriteChunkBytes : Nat := 1024 * 1024

def intMax : Nat := 0x7FFFFFFF

/-! ### UTF-8 -/

def isHighSurrogate (c : UInt16) : Bool := 0xD800 ≤ c && c ≤ 0xDBFF

def isLowSurrogate (c : UInt16) : Bool := 0xDC00 ≤ c && c ≤ 0xDFFF

/-- The scalar value of a surrogate pair. -/
def pair (high low : UInt16) : Char :=
  Char.ofNat (0x10000 + (high.toNat - 0xD800) * 0x400 + (low.toNat - 0xDC00))

/-- UTF-16 with `WC_ERR_INVALID_CHARS`: an unpaired surrogate is an error. -/
def decodeUtf16 : WString → Option (List Char)
  | [] => some []
  | [c] =>
      if isHighSurrogate c || isLowSurrogate c then none else some [Char.ofNat c.toNat]
  | c :: d :: rest =>
      if isHighSurrogate c && isLowSurrogate d then (decodeUtf16 rest).map (pair c d :: ·)
      else if isHighSurrogate c || isLowSurrogate c then none
      else (decodeUtf16 (d :: rest)).map (Char.ofNat c.toNat :: ·)

/-- `NarrowUtf8`: an empty string where the conversion fails. -/
def narrowUtf8 (value : WString) : NString :=
  if value = [] ∨ intMax < value.length then []
  else
    match decodeUtf16 value with
    | none => []
    | some chars =>
        let output := chars.flatMap String.utf8EncodeChar
        if intMax < output.length then [] else output

/-! ### The text of the map -/

/-- The bytes of a text of characters below 256. -/
def ascii (text : List Char) : NString := text.map fun c => c.val.toUInt8

/-- The characters of a `std::string`. -/
def chars (s : NString) : List Char := s.map fun b => Char.ofNat b.toNat

def upperDigit (d : Nat) : Char := (Nat.digitChar d).toUpper

/-- A number with `std::hex` and `std::uppercase`. -/
def upperHex (n : Nat) : List Char := (Numeral.digits 16 n).map upperDigit

def hex64 (value : UInt64) : List Char := '0' :: 'x' :: upperHex value.toNat

/-- The number is padded to `std::setw(8)` with zeros. -/
def hex32 (value : UInt32) : List Char :=
  '0' :: 'x' :: (List.replicate (8 - (upperHex value.toNat).length) '0' ++ upperHex value.toNat)

def isXDigit (b : Byte) : Bool :=
  (0x30 ≤ b && b ≤ 0x39) || (0x41 ≤ b && b ≤ 0x46) || (0x61 ≤ b && b ≤ 0x66)

def isSha256Hex (value : NString) : Bool := value.length == 64 && value.all isXDigit

/-- What `WriteMapJson` asks of a summary before it writes anything. -/
def acceptable (summary : AcquisitionSummary) : Bool :=
  summary.completed && isSha256Hex summary.sha256 && !summary.ranges.isEmpty &&
    summary.acquiredBytes ≤ uint64Max - summary.unreadableBytes &&
    summary.acquiredBytes + summary.unreadableBytes == summary.physicalBytes

/-- A member on a line of its own. -/
def line (indent : Nat) (key : String) (value : List Char) : List Char :=
  List.replicate indent ' ' ++ member key.toList value

/-- Entries on lines of their own between brackets. -/
def block (first last : Char) (indent : Nat) (entries : List (List Char)) : List Char :=
  first :: '\n' :: (separated ['\n'] ['\n'] entries ++ List.replicate indent ' ' ++ [last])

/-- An object on one line. -/
def row (members : List (List Char)) : List Char :=
  List.replicate 4 ' ' ++ '{' :: (separated [' '] [] members ++ ['}'])

def number (n : Nat) : List Char := Json.decimal n

def statusText (summary : AcquisitionSummary) : List Char :=
  if summary.unreadableBytes ≠ 0 ∨ summary.topologyChanged = true then "incomplete".toList
  else "complete".toList

def hintsText (hints : KernelHints) : List Char :=
  block '{' '}' 2 [
    line 4 "hypervisor_present" (Json.boolText hints.hypervisorPresent),
    line 4 "directory_table_base" (quoted (hex64 hints.directoryTableBase)),
    line 4 "kpcr_address" (quoted (hex64 hints.kpcrAddress)),
    line 4 "kernel_base" (quoted (hex64 hints.kernelBase)),
    line 4 "kernel_size" (number hints.kernelSize.toNat),
    line 4 "major_version" (number hints.majorVersion.toNat),
    line 4 "minor_version" (number hints.minorVersion.toNat),
    line 4 "build_number" (number hints.buildNumber.toNat),
    line 4 "processors" (number hints.numberOfProcessors.toNat)]

def rangeText (range : MemoryRun) : List Char :=
  row [
    line 0 "driver_run" (number range.driverIndex.toNat),
    line 0 "start" (quoted (hex64 range.base)),
    line 0 "length" (number range.length.toNat)]

/-- The status is cast to `uint32_t`. -/
def spanText (span : UnreadableSpan) : List Char :=
  row [
    line 0 "start" (quoted (hex64 span.start)),
    line 0 "length" (number span.length.toNat),
    line 0 "ntstatus" (quoted (hex32 span.status.toUInt32))]

def mapLines (summary : AcquisitionSummary) : List (List Char) :=
  [
    line 2 "producer" (quoted "PhylaRAM".toList),
    line 2 "producer_version" (quoted "0.1.0-alpha".toList),
    line 2 "schema" (quoted "phylaram-map-2".toList),
    line 2 "status" (quoted (statusText summary)),
    line 2 "logical_size" (number summary.logicalSize.toNat),
    line 2 "physical_bytes" (number summary.physicalBytes.toNat),
    line 2 "acquired_bytes" (number summary.acquiredBytes.toNat),
    line 2 "unreadable_bytes" (number summary.unreadableBytes.toNat),
    line 2 "topology_changed" (Json.boolText summary.topologyChanged),
    line 2 "sha256" (quoted (chars summary.sha256))] ++
  (if summary.hints.available then [line 2 "kernel_hints" (hintsText summary.hints)] else []) ++ [
    line 2 "ranges" (block '[' ']' 2 (summary.ranges.map rangeText)),
    line 2 "unreadable" (block '[' ']' 2 (summary.unreadable.map spanText))]

def mapText (summary : AcquisitionSummary) : List Char :=
  block '{' '}' 0 (mapLines summary) ++ ['\n']

/-! ### The files -/

/-- `file.Reset(); DeleteFileW(targetPath); return false;` -/
def abandon (targetPath : WString) (file : Handle) (w : World) : Bool × World :=
  (false, (deleteFileW targetPath (closeHandle file w)).2)

/-- A new file with the content, flushed and closed, or none. -/
def writeAtomicString (targetPath : WString) (content : NString) (w : World) : Bool × World :=
  match createFileW targetPath .createNew w with
  | (none, w) => (false, w)
  | (some file, w) =>
      match writeLoop kWriteChunkBytes file content w with
      | ((false, file), w) => abandon targetPath file w
      | ((true, file), w) =>
          match flushFileBuffers file w with
          | (false, w) => abandon targetPath file w
          | (true, w) => (true, closeHandle file w)

end Map

open Map

def writeMapJson (path : WString) (summary : AcquisitionSummary) (w : World) : Bool × World :=
  if acceptable summary then writeAtomicString path (ascii (mapText summary)) w else (false, w)

def sidecarText (fileName sha256 : NString) : NString :=
  sha256 ++ narrow "  " ++ fileName ++ narrow "\n"

def writeSha256Sidecar (path rawFileName : WString) (sha256 : NString) (w : World) :
    Bool × World :=
  if isSha256Hex sha256 && !(narrowUtf8 rawFileName).isEmpty then
    writeAtomicString path (sidecarText (narrowUtf8 rawFileName) sha256) w
  else (false, w)

def promoteStagingFile (stagingPath finalPath : WString) (w : World) : Bool × World :=
  moveFileExW stagingPath finalPath w

end PhylaRam
