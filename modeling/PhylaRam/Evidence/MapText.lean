import Mathlib.Tactic.IntervalCases
import PhylaRam.Evidence.Map
import PhylaRam.Verify.Json

/-!
# The text of the map

`mapText` denotes a JSON object with the members of `mapMembers`. All its characters are
ASCII, so that its bytes are those of the same text in UTF-8. Both facts are proved together,
line by line.
-/

namespace PhylaRam

open Json (Plain Denotes Value quoted member separated)

/-! ### The value that the text denotes -/

namespace Map

open Verify (Str str Members)

def rangeMembers (range : MemoryRun) : Members := [
  (str "driver_run", .number range.driverIndex.toNat),
  (str "start", .string (hex64 range.base)),
  (str "length", .number range.length.toNat)]

def spanMembers (span : UnreadableSpan) : Members := [
  (str "start", .string (hex64 span.start)),
  (str "length", .number span.length.toNat),
  (str "ntstatus", .string (hex32 span.status.toUInt32))]

def hintsMembers (hints : KernelHints) : Members := [
  (str "hypervisor_present", .bool hints.hypervisorPresent),
  (str "directory_table_base", .string (hex64 hints.directoryTableBase)),
  (str "kpcr_address", .string (hex64 hints.kpcrAddress)),
  (str "kernel_base", .string (hex64 hints.kernelBase)),
  (str "kernel_size", .number hints.kernelSize.toNat),
  (str "major_version", .number hints.majorVersion.toNat),
  (str "minor_version", .number hints.minorVersion.toNat),
  (str "build_number", .number hints.buildNumber.toNat),
  (str "processors", .number hints.numberOfProcessors.toNat)]

def mapMembers (summary : AcquisitionSummary) : Members := [
  (str "producer", .string (str "PhylaRAM")),
  (str "producer_version", .string (str "0.1.0-alpha")),
  (str "schema", .string (str "phylaram-map-2")),
  (str "status", .string (statusText summary)),
  (str "logical_size", .number summary.logicalSize.toNat),
  (str "physical_bytes", .number summary.physicalBytes.toNat),
  (str "acquired_bytes", .number summary.acquiredBytes.toNat),
  (str "unreadable_bytes", .number summary.unreadableBytes.toNat),
  (str "topology_changed", .bool summary.topologyChanged),
  (str "sha256", .string (chars summary.sha256))] ++
  (if summary.hints.available then [(str "kernel_hints", .object (hintsMembers summary.hints))]
    else []) ++ [
  (str "ranges", .array (summary.ranges.map fun range => .object (rangeMembers range))),
  (str "unreadable", .array (summary.unreadable.map fun span => .object (spanMembers span)))]

theorem digits_small (n : Nat) : ∀ d ∈ Numeral.digits 16 n, d < 16 :=
  fun _ member => Numeral.digits_lt (by decide) member

/-! ### ASCII texts -/

def IsAscii (text : List Char) : Prop := ∀ c ∈ text, c.toNat ≤ 127

instance (text : List Char) : Decidable (IsAscii text) :=
  List.decidableBAll (fun c : Char => c.toNat ≤ 127) text

/-- For such a text UTF-8 is the identity. -/
theorem bytes_eq_ascii {text : List Char} (small : IsAscii text) : Str.bytes text = ascii text := by
  induction text with
  | nil => rfl
  | cons c rest ih =>
      obtain ⟨first, later⟩ := List.forall_mem_cons.mp small
      rw [Str.bytes_cons, Str.utf8EncodeChar_ascii first, ih later]
      rfl

/-- An ASCII text that denotes a node. -/
structure Prints (text : List Char) (node : Json.Node) : Prop where
  denotes : Denotes text node
  ascii : IsAscii text

/-- A text that a string contains as it is. -/
structure Printable (text : List Char) : Prop where
  plain : Plain text
  ascii : IsAscii text

/-- Each entry prints its member. -/
def Writes (entries : List (List Char)) (ms : Members) : Prop :=
  List.Forall₂ (fun entry m => Prints entry (.members [m])) entries ms

section Texts

variable {indent : Nat} {key : String} {text text' : List Char} {v : Value}
  {entries entries' : List (List Char)} {ms ms' : Members} {vs : List Value}

theorem isAscii_append (first : IsAscii text) (second : IsAscii text') : IsAscii (text ++ text') :=
  List.forall_mem_append.mpr ⟨first, second⟩

theorem isAscii_cons {c : Char} (first : c.toNat ≤ 127) (rest : IsAscii text) :
    IsAscii (c :: text) := List.forall_mem_cons.mpr ⟨first, rest⟩

theorem isAscii_spaces (count : Nat) : IsAscii (List.replicate count ' ') := by
  intro c member
  rw [List.eq_of_mem_replicate member]
  decide

theorem isAscii_quoted (inside : IsAscii text) : IsAscii (quoted text) :=
  isAscii_cons (by decide) (isAscii_append inside (by decide))

theorem isAscii_separated {gap tail : List Char} (gapAscii : IsAscii gap) (tailAscii : IsAscii tail)
    (each : ∀ entry ∈ entries, IsAscii entry) : IsAscii (separated gap tail entries) := by
  induction entries with
  | nil => exact fun _ member => nomatch member
  | cons entry rest ih =>
      obtain ⟨first, later⟩ := List.forall_mem_cons.mp each
      cases rest with
      | nil => exact isAscii_append first tailAscii
      | cons =>
          exact isAscii_append first
            (isAscii_cons (by decide) (isAscii_append gapAscii (ih later)))

/-- The texts on the left of a relation of printed texts are ASCII. -/
theorem isAscii_entries {α : Type} {node : α → Json.Node} {as : List α}
    (each : List.Forall₂ (fun entry a => Prints entry (node a)) entries as) :
    ∀ entry ∈ entries, IsAscii entry := by
  induction each with
  | nil => exact fun _ member => nomatch member
  | cons first _ ih => exact List.forall_mem_cons.mpr ⟨first.ascii, ih⟩

/-! ### The layout -/

/-- A line and the entries after it. -/
theorem writes_cons (h : Prints text (.value v)) (rest : Writes entries ms)
    (name : Plain key.toList ∧ IsAscii key.toList := by decide +kernel) :
    Writes (line indent key text :: entries) ((str key, v) :: ms) := by
  have padded := (Json.denotes_member name.1 h.denotes).pad (Json.blank_spaces indent)
    Json.blank_nil
  rw [List.append_nil] at padded
  refine .cons ⟨padded, isAscii_append (isAscii_spaces indent) ?_⟩ rest
  exact isAscii_append (isAscii_quoted name.2)
    (isAscii_cons (by decide) (isAscii_cons (by decide) h.ascii))

theorem writes_append (first : Writes entries ms) (second : Writes entries' ms') :
    Writes (entries ++ entries') (ms ++ ms') := List.rel_append first second

theorem Writes.denotes (each : Writes entries ms) :
    List.Forall₂ (fun entry m => Denotes entry (.members [m])) entries ms :=
  each.imp fun _ _ h => h.denotes

theorem blank_newline : Json.Blank ['\n'] := by decide

theorem isAscii_block {first last : Char} (opens : first.toNat ≤ 127) (closes : last.toNat ≤ 127)
    (each : ∀ entry ∈ entries, IsAscii entry) : IsAscii (block first last indent entries) :=
  isAscii_cons opens (isAscii_cons (by decide)
    (isAscii_append (isAscii_append (isAscii_separated (by decide) (by decide) each)
      (isAscii_spaces indent)) (isAscii_cons closes (by decide))))

/-- The inside of a block, with the line end before it and the indentation after it. -/
theorem prints_object_block (each : Writes entries ms) :
    Prints (block '{' '}' indent entries) (.value (.object ms)) := by
  have inside := (Json.denotes_members blank_newline blank_newline each.denotes).pad blank_newline
    (Json.blank_spaces indent)
  have closed := Denotes.object inside
  rw [List.append_assoc ['\n'], List.singleton_append] at closed
  exact ⟨closed, isAscii_block (by decide) (by decide) (isAscii_entries each)⟩

theorem prints_array_block
    (each : List.Forall₂ (fun entry v => Prints entry (.value v)) entries vs) :
    Prints (block '[' ']' indent entries) (.value (.array vs)) := by
  have items : List.Forall₂ (fun entry v => Denotes entry (.value v)) entries vs :=
    each.imp fun _ _ h => h.denotes
  have inside := (Json.denotes_items blank_newline blank_newline items).pad blank_newline
    (Json.blank_spaces indent)
  have closed := Denotes.array inside
  rw [List.append_assoc ['\n'], List.singleton_append] at closed
  exact ⟨closed, isAscii_block (by decide) (by decide) (isAscii_entries each)⟩

theorem prints_row (each : Writes entries ms) : Prints (row entries) (.value (.object ms)) := by
  have inside := Json.denotes_members (Json.blank_spaces 1) Json.blank_nil each.denotes
  have padded := (Denotes.object inside).pad (Json.blank_spaces 4) Json.blank_nil
  rw [List.append_nil] at padded
  exact ⟨padded, isAscii_append (isAscii_spaces 4) (isAscii_cons (by decide)
    (isAscii_append (isAscii_separated (by decide) (by decide) (isAscii_entries each))
      (by decide)))⟩

/-- Rows that each print their value. -/
theorem prints_rows {α : Type} {rowText : α → List Char} {value : α → Value}
    (each : ∀ a, Prints (rowText a) (.value (value a))) (rows : List α) :
    Prints (block '[' ']' indent (rows.map rowText)) (.value (.array (rows.map value))) := by
  refine prints_array_block ?_
  rw [List.forall₂_map_left_iff, List.forall₂_map_right_iff]
  exact List.forall₂_same.mpr fun a _ => each a

/-! ### The values -/

theorem prints_number (n : Nat) : Prints (number n) (.value (.number n)) := by
  refine ⟨.number n, fun c member => ?_⟩
  obtain ⟨d, digit, rfl⟩ := List.mem_map.mp member
  have small : d < 10 := Numeral.digits_lt (by decide) digit
  interval_cases d <;> decide

theorem prints_bool (b : Bool) : Prints (Json.boolText b) (.value (.bool b)) := by
  refine ⟨.bool b, ?_⟩
  cases b <;> decide

theorem prints_string (inside : Printable text) : Prints (quoted text) (.value (.string text)) :=
  ⟨.string inside.plain, isAscii_quoted inside.ascii⟩

theorem printable_append (first : Printable text) (second : Printable text') :
    Printable (text ++ text') :=
  ⟨List.forall_mem_append.mpr ⟨first.plain, second.plain⟩, isAscii_append first.ascii second.ascii⟩

theorem printable_upperHex (n : Nat) : Printable (upperHex n) := by
  constructor <;> intro c member <;> obtain ⟨d, digit, rfl⟩ := List.mem_map.mp member <;>
    have small := digits_small n d digit <;> interval_cases d <;> decide

theorem printable_hex64 (value : UInt64) : Printable (hex64 value) :=
  printable_append ⟨(by decide : Plain ['0', 'x']), by decide⟩ (printable_upperHex _)

theorem printable_hex32 (value : UInt32) : Printable (hex32 value) := by
  have zeros (count : Nat) : Printable (List.replicate count '0') := by
    constructor <;> intro c member <;> rw [List.eq_of_mem_replicate member] <;> decide
  exact printable_append ⟨(by decide : Plain ['0', 'x']), by decide⟩
    (printable_append (zeros _) (printable_upperHex _))

theorem printable_statusText (summary : AcquisitionSummary) : Printable (statusText summary) := by
  unfold statusText
  split <;> constructor <;> decide +kernel

/-- A digest consists of ASCII characters that need no escape. -/
theorem printable_sha256 {sha256 : NString} (hex : isSha256Hex sha256 = true) :
    Printable (chars sha256) ∧ ascii (chars sha256) = sha256 := by
  have table : ∀ n : Fin 256, isXDigit (.ofNat n) = true →
      Json.isPlain (Char.ofNat (UInt8.ofNat n).toNat) = true ∧
        (Char.ofNat (UInt8.ofNat n).toNat).toNat ≤ 127 ∧
        (Char.ofNat (UInt8.ofNat n).toNat).val.toUInt8 = .ofNat n := by decide +kernel
  have each : ∀ b ∈ sha256, Json.isPlain (Char.ofNat b.toNat) = true ∧
      (Char.ofNat b.toNat).toNat ≤ 127 ∧ (Char.ofNat b.toNat).val.toUInt8 = b := by
    intro b member
    rw [isSha256Hex, Bool.and_eq_true, List.all_eq_true] at hex
    have small := table ⟨b.toNat, b.toNat_lt⟩
    rw [UInt8.ofNat_toNat] at small
    exact small (hex.2 b member)
  constructor
  · constructor <;> intro c member <;> obtain ⟨b, found, rfl⟩ := List.mem_map.mp member
    · exact (each b found).1
    · exact (each b found).2.1
  · rw [ascii, chars, List.map_map]
    exact (List.map_congr_left fun b member => (each b member).2.2).trans (List.map_id _)

/-! ### The whole text -/

theorem prints_rangeText (range : MemoryRun) :
    Prints (rangeText range) (.value (.object (rangeMembers range))) :=
  prints_row <|
    writes_cons (prints_number _) <|
    writes_cons (prints_string (printable_hex64 _)) <|
    writes_cons (prints_number _) .nil

theorem prints_spanText (span : UnreadableSpan) :
    Prints (spanText span) (.value (.object (spanMembers span))) :=
  prints_row <|
    writes_cons (prints_string (printable_hex64 _)) <|
    writes_cons (prints_number _) <|
    writes_cons (prints_string (printable_hex32 _)) .nil

theorem prints_hintsText (hints : KernelHints) :
    Prints (hintsText hints) (.value (.object (hintsMembers hints))) :=
  prints_object_block <|
    writes_cons (prints_bool _) <|
    writes_cons (prints_string (printable_hex64 _)) <|
    writes_cons (prints_string (printable_hex64 _)) <|
    writes_cons (prints_string (printable_hex64 _)) <|
    writes_cons (prints_number _) <|
    writes_cons (prints_number _) <|
    writes_cons (prints_number _) <|
    writes_cons (prints_number _) <|
    writes_cons (prints_number _) .nil

theorem writes_mapLines {summary : AcquisitionSummary} (hex : isSha256Hex summary.sha256 = true) :
    Writes (mapLines summary) (mapMembers summary) := by
  have fixed {text : String} (inside : Plain (str text) ∧ IsAscii (str text)) :
      Prints (quoted text.toList) (.value (.string (str text))) :=
    prints_string ⟨inside.1, inside.2⟩
  refine writes_append (writes_append ?_ ?_) ?_
  · exact writes_cons (fixed (by decide +kernel)) <|
      writes_cons (fixed (by decide +kernel)) <|
      writes_cons (fixed (by decide +kernel)) <|
      writes_cons (prints_string (printable_statusText _)) <|
      writes_cons (prints_number _) <|
      writes_cons (prints_number _) <|
      writes_cons (prints_number _) <|
      writes_cons (prints_number _) <|
      writes_cons (prints_bool _) <|
      writes_cons (prints_string (printable_sha256 hex).1) .nil
  · split
    · exact writes_cons (prints_hintsText _) .nil
    · exact .nil
  · exact writes_cons (prints_rows prints_rangeText summary.ranges) <|
      writes_cons (prints_rows prints_spanText summary.unreadable) .nil

/-- The text of a map prints its members. -/
theorem prints_mapText {summary : AcquisitionSummary} (hex : isSha256Hex summary.sha256 = true) :
    Prints (mapText summary) (.value (.object (mapMembers summary))) := by
  have object : Prints (block '{' '}' 0 (mapLines summary)) _ :=
    prints_object_block (writes_mapLines hex)
  exact ⟨object.denotes.pad Json.blank_nil blank_newline, isAscii_append object.ascii (by decide)⟩

end Texts

end Map

end PhylaRam
