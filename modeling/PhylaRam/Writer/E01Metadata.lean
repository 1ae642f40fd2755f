import PhylaRam.Library.Fields
import PhylaRam.Writer.E01Image

/-!
# The case metadata of the container

The header section is a text of lines, each with a key and a value on the two sides of a
tab. `ToUtf8` writes a question mark for every character beyond ASCII, and a line feed in a
field ends its line early. A record can be read back, and told from every other record, if its
texts have none of these three.
-/

namespace PhylaRam

open Program Packed Fields

namespace E01Writer

/-- The keys of the header section that the operator supplies. -/
def metaFields : List (String × (EvidenceMetadata → WString)) :=
  [("case_number", fun metadata => metadata.caseNumber),
   ("evidence_number", fun metadata => metadata.evidenceNumber),
   ("examiner_name", fun metadata => metadata.examiner),
   ("description", fun metadata => metadata.description),
   ("notes", fun metadata => metadata.notes)]

/-- No field is left to its default. -/
def Filled (metadata : EvidenceMetadata) : Prop :=
  ∀ field ∈ metaFields, field.2 metadata ≠ []

theorem eq_of_metaFields {metadata other : EvidenceMetadata}
    (same : ∀ (k : Nat) (small : k < metaFields.length),
      metaFields[k].2 other = metaFields[k].2 metadata) : other = metadata := by
  cases metadata
  cases other
  rw [EvidenceMetadata.mk.injEq]
  exact ⟨same 0 (by decide), same 1 (by decide), same 2 (by decide), same 3 (by decide),
    same 4 (by decide)⟩

/-- ASCII without line feeds, and without the question mark that stands for all other
characters. -/
def PlainText (text : WString) : Prop := ∀ wc ∈ text, wc < 0x80 ∧ wc ≠ 0x0A ∧ wc ≠ 0x3F

/-- The section that `WriteHeaderSection` writes at an offset of the file. -/
def headerSection (metadata : EvidenceMetadata) (offset : UInt64) : List Byte :=
  sectionBytes "header" offset (metaString metadata)
    (sectionHeaderBytes + UInt64.ofNat (metaString metadata).length + 4)

/-- The text between the header and the checksum of a section. -/
def sectionText (header : List Byte) : NString := (header.drop 76).take (header.length - 80)

def headerFields (header : List Byte) : List (NString × NString) :=
  fieldsOf 0x0A 0x09 (sectionText header)

/-- A value determines the text of a field: it is the encoding of that text and of no other. -/
def Determines (value : NString) (text : WString) : Prop :=
  ∀ other, toUtf8 other = value ↔ other = text

/-- Each key occurs once, with a value that determines the text of its field, and the section
is that of no other record. -/
structure Recovered (header : List Byte) (metadata : EvidenceMetadata) : Prop where
  once : ∀ field ∈ metaFields, ∃ value,
    (headerFields header).filter (fun entry => entry.1 == narrow field.1) =
      [(narrow field.1, value)] ∧
    Determines value (field.2 metadata)
  unique : ∀ other offset, Filled other → headerSection other offset = header → other = metadata

/-- The lines of the header section. -/
def metaPairs (metadata : EvidenceMetadata) : List (NString × NString) :=
  metaFields.map (fun field => (narrow field.1, toUtf8 (field.2 metadata))) ++
    [(narrow "system_date", narrow "2026-08-24 00:00:00"),
     (narrow "acquisition_date", narrow "2026-08-24 00:00:00"),
     (narrow "compression_type", narrow "best")]

theorem metaLine_eq {value : WString} (some : value ≠ []) (key fallback : String) :
    metaLine key value fallback = narrow key ++ 0x09 :: (toUtf8 value ++ [0x0A]) := by
  have given : value.isEmpty = false := List.isEmpty_eq_false_iff.mpr some
  rw [metaLine, given, List.append_assoc, List.append_assoc]
  rfl

theorem metaString_eq {metadata : EvidenceMetadata} (filled : Filled metadata) :
    metaString metadata = written 0x0A 0x09 (metaPairs metadata) := by
  have given (k : Nat) (h : k < metaFields.length) := filled _ (List.getElem_mem h)
  have case_number : metadata.caseNumber ≠ [] := given 0 (by decide)
  have evidence_number : metadata.evidenceNumber ≠ [] := given 1 (by decide)
  have examiner_name : metadata.examiner ≠ [] := given 2 (by decide)
  have description : metadata.description ≠ [] := given 3 (by decide)
  have notes : metadata.notes ≠ [] := given 4 (by decide)
  rw [metaString, metaLine_eq case_number, metaLine_eq evidence_number, metaLine_eq examiner_name,
    metaLine_eq description, metaLine_eq notes]
  simp only [written, metaPairs, metaFields, List.map_cons, List.map_nil, List.cons_append,
    List.nil_append, List.flatMap_cons, List.flatMap_nil, List.append_nil, List.append_assoc]
  rfl

/-- The keys in the order of their lines. -/
def metaKeys : List NString :=
  ["case_number", "evidence_number", "examiner_name", "description", "notes", "system_date",
    "acquisition_date", "compression_type"].map narrow

theorem map_fst_metaPairs (metadata : EvidenceMetadata) :
    (metaPairs metadata).map Prod.fst = metaKeys := rfl

theorem metaPairs_named (metadata : EvidenceMetadata) :
    Named (0x0A : Byte) 0x09 (metaPairs metadata) := by
  have clean : ∀ key ∈ metaKeys, 0x0A ∉ key ∧ 0x09 ∉ key := by decide +kernel
  have key {pair : NString × NString} (member : pair ∈ metaPairs metadata) : pair.1 ∈ metaKeys :=
    List.mem_map_of_mem member
  exact ⟨by decide, fun _ member => (clean _ (key member)).1, fun _ member => (clean _ (key member)).2⟩

theorem mem_metaPairs {metadata : EvidenceMetadata} {field : String × (EvidenceMetadata → WString)}
    (member : field ∈ metaFields) :
    (narrow field.1, toUtf8 (field.2 metadata)) ∈ metaPairs metadata :=
  List.mem_append_left _ (List.mem_map_of_mem member)

/-! ### The encoding of one field -/

theorem toUInt16_toUInt8 {wc : UInt16} (ascii : wc < 0x80) : wc.toUInt8.toUInt16 = wc := by
  rw [UInt16.lt_iff_toNat_lt] at ascii
  have small : wc.toNat < 256 := Nat.lt_trans ascii (by decide)
  rw [← UInt16.toNat_inj, UInt8.toNat_toUInt16, UInt16.toNat_toUInt8, Nat.mod_eq_of_lt small]

/-- The byte for one character. -/
theorem toUtf8_append_cons (front back : WString) (wc : UInt16) :
    toUtf8 (front ++ wc :: back) =
      toUtf8 front ++ (if wc < 0x80 then wc.toUInt8 else 0x3F) :: toUtf8 back := by
  rw [toUtf8, List.map_append, List.map_cons]
  rfl

/-- Only one character is encoded as a byte other than the question mark. -/
theorem encoded_injective {wc other : UInt16} (ascii : wc < 0x80) (known : wc ≠ 0x3F)
    (same : (if other < 0x80 then other.toUInt8 else 0x3F) = wc.toUInt8) : other = wc := by
  split at same
  · next small =>
      have widened := congrArg UInt8.toUInt16 same
      rwa [toUInt16_toUInt8 small, toUInt16_toUInt8 ascii] at widened
  · have widened := congrArg UInt8.toUInt16 same
    rw [toUInt16_toUInt8 ascii] at widened
    exact absurd widened.symm known

theorem newline_notMem_toUtf8 {text : WString} : 0x0A ∉ toUtf8 text ↔ 0x0A ∉ text := by
  refine not_congr ⟨fun member => ?_, fun member => List.mem_map.mpr ⟨0x0A, member, rfl⟩⟩
  obtain ⟨wc, among, feed⟩ := List.mem_map.mp member
  obtain rfl : wc = 0x0A := encoded_injective (by decide) (by decide) feed
  exact among

/-- A text can be told from all others by its encoding if it is ASCII without question
marks. -/
theorem determines_toUtf8_iff {text : WString} :
    Determines (toUtf8 text) text ↔ ∀ wc ∈ text, wc < 0x80 ∧ wc ≠ 0x3F := by
  constructor
  · intro determines wc member
    by_contra lost
    obtain ⟨front, back, rfl⟩ := List.append_of_mem member
    -- Another character beyond ASCII in the place of `wc` changes nothing.
    obtain ⟨other, beyond, different⟩ : ∃ other : UInt16, ¬other < 0x80 ∧ other ≠ wc := by
      by_cases accent : wc = 0xE9
      · exact ⟨0xFC, by decide, accent ▸ by decide⟩
      · exact ⟨0xE9, by decide, fun same => accent same.symm⟩
    have mark : (if wc < 0x80 then wc.toUInt8 else 0x3F) = (0x3F : Byte) := by
      split
      · next ascii =>
          obtain rfl := not_not.mp fun known => lost ⟨ascii, known⟩
          rfl
      · rfl
    have same := (determines (front ++ other :: back)).mp (by
      rw [toUtf8_append_cons, toUtf8_append_cons, mark, if_neg beyond])
    exact different (List.cons.inj (List.append_cancel_left same)).1
  · intro plain other
    refine ⟨fun same => ?_, fun same => same ▸ rfl⟩
    induction text generalizing other with
    | nil => exact List.map_eq_nil_iff.mp same
    | cons wc text ih =>
        cases other with
        | nil => cases same
        | cons first rest =>
            obtain ⟨ascii, known⟩ := plain wc List.mem_cons_self
            have encoded : wc.toUInt8 = if wc < 0x80 then wc.toUInt8 else 0x3F :=
              (if_pos ascii).symm
            obtain ⟨byte, later⟩ := List.cons.inj same
            replace byte := byte.trans encoded.symm
            rw [encoded_injective ascii known byte,
              ih (fun wc member => plain wc (List.mem_cons_of_mem _ member)) rest later]

theorem plainText_iff {text : WString} :
    PlainText text ↔ 0x0A ∉ text ∧ Determines (toUtf8 text) text := by
  rw [determines_toUtf8_iff]
  constructor
  · intro plain
    exact ⟨fun member => (plain _ member).2.1 rfl, fun wc member =>
      ⟨(plain wc member).1, (plain wc member).2.2⟩⟩
  · rintro ⟨oneLine, known⟩ wc member
    exact ⟨(known wc member).1, fun feed => oneLine (feed ▸ member), (known wc member).2⟩

/-! ### The header section -/

theorem metaPairs_oneLine {metadata : EvidenceMetadata}
    (oneLine : ∀ field ∈ metaFields, 0x0A ∉ field.2 metadata) :
    ∀ pair ∈ metaPairs metadata, 0x0A ∉ pair.2 := by
  intro pair among
  cases List.mem_append.mp among with
  | inl given =>
      obtain ⟨field, listed, rfl⟩ := List.mem_map.mp given
      exact newline_notMem_toUtf8.mpr (oneLine field listed)
  | inr fixed =>
      clear among
      revert pair
      decide +kernel

theorem sectionText_headerSection (metadata : EvidenceMetadata) (offset : UInt64) :
    sectionText (headerSection metadata offset) = metaString metadata := by
  rw [sectionText, headerSection, length_sectionBytes, sectionBytes, List.append_assoc,
    List.drop_append_of_le_length, List.drop_of_length_le, List.nil_append, Nat.add_sub_cancel,
    List.take_left]
  · rw [length_ewfSectionHeader]
  · rw [length_ewfSectionHeader]

/-- No other record has the same texts in its lines. -/
theorem metaPairs_injective {metadata other : EvidenceMetadata} (filled : Filled metadata)
    (filled' : Filled other) (oneLine : ∀ field ∈ metaFields, 0x0A ∉ field.2 metadata)
    (same : metaString other = metaString metadata) : metaPairs other = metaPairs metadata := by
  rw [metaString_eq filled, metaString_eq filled'] at same
  exact written_injective (metaPairs_named metadata) (metaPairs_named other) rfl
    (metaPairs_oneLine oneLine) same

/-- A record of plain texts is the only one with its header section. -/
theorem eq_of_headerSection {metadata other : EvidenceMetadata} (filled : Filled metadata)
    (filled' : Filled other) (plain : ∀ field ∈ metaFields, PlainText (field.2 metadata))
    {offset offset' : UInt64}
    (same : headerSection other offset' = headerSection metadata offset) : other = metadata := by
  have text := congrArg sectionText same
  rw [sectionText_headerSection, sectionText_headerSection] at text
  have pairs := metaPairs_injective filled filled'
    (fun field member => (plainText_iff.mp (plain field member)).1) text
  have encoded := List.map_inj_left.mp (List.append_cancel_right pairs)
  have equal : ∀ field ∈ metaFields, field.2 other = field.2 metadata := fun field member =>
    ((plainText_iff.mp (plain field member)).2 _).mp (Prod.mk.inj (encoded field member)).2
  exact eq_of_metaFields fun k small => equal _ (List.getElem_mem small)

/-- The header section gives a record back exactly if its texts are plain. -/
theorem recovered_iff {metadata : EvidenceMetadata} (filled : Filled metadata)
    (offset : UInt64) :
    Recovered (headerSection metadata offset) metadata ↔
      ∀ field ∈ metaFields, PlainText (field.2 metadata) := by
  have fields : headerFields (headerSection metadata offset) =
      fieldsOf 0x0A 0x09 (written 0x0A 0x09 (metaPairs metadata)) := by
    rw [headerFields, sectionText_headerSection, metaString_eq filled]
  constructor
  · intro recovered field member
    obtain ⟨value, once, determines⟩ := recovered.once field member
    have first := mem_fieldsOf_written (metaPairs_named metadata) (mem_metaPairs member)
    have kept := List.mem_filter (p := fun entry => entry.1 == narrow field.1).mpr
      ⟨first, beq_self_eq_true _⟩
    rw [← fields, once, List.mem_singleton, Prod.mk.injEq] at kept
    obtain rfl : toUtf8 (field.2 metadata) = value := (determines _).mpr rfl
    -- The value read is that of the first line, so the whole text is on that line.
    refine plainText_iff.mpr ⟨newline_notMem_toUtf8.mp fun feed => ?_, determines⟩
    have other := List.mem_takeWhile_imp (kept.2.symm ▸ feed)
    exact absurd other (by decide)
  · intro plain
    have oneLine : ∀ field ∈ metaFields, 0x0A ∉ field.2 metadata := fun field member =>
      (plainText_iff.mp (plain field member)).1
    refine ⟨fun field member => ?_, fun other offset' filled' same =>
      eq_of_headerSection filled filled' plain same⟩
    refine ⟨toUtf8 (field.2 metadata), ?_, (plainText_iff.mp (plain field member)).2⟩
    rw [fields, fieldsOf_written (metaPairs_named metadata) (metaPairs_oneLine oneLine)]
    refine filter_member ?_ (List.mem_append_left _ (mem_metaPairs member))
    rw [List.map_append, map_fst_metaPairs]
    decide +kernel

end E01Writer

/-! ### The section in the file -/

section Written

variable {path : WString} {content : List Byte} {m : E01Members} {s : E01Writer × World}

/-- A header section that is written gives the metadata back, and tells it from every other
record, exactly if all five texts are plain. -/
theorem e01_metadata_recovered_iff (file : E01File path content m s)
    (filled : E01Writer.Filled m.metadata)
    (wrote : returned (E01Writer.writeHeaderSection s) = true) :
    let header := E01Writer.headerSection m.metadata (UInt64.ofNat content.length)
    E01File path (content ++ header) m (final (E01Writer.writeHeaderSection s)) ∧
      (E01Writer.Recovered header m.metadata ↔
        ∀ field ∈ E01Writer.metaFields, E01Writer.PlainText (field.2 m.metadata)) := by
  have written : WP E01Writer.writeHeaderSection
      (fun _ t => E01File path (content ++ E01Writer.headerSection m.metadata
        (UInt64.ofNat content.length)) m t) (fun _ _ => True) s := by
    rw [E01Writer.writeHeaderSection, WP.bind_iff, WP.get_iff, file.members]
    refine (file.writeSection "header" (E01Writer.metaString_ne_nil m.metadata) _).mono ?_
      fun _ _ _ => trivial
    exact fun _ t h => h.2
  obtain ⟨_, _, h⟩ := written.of_returned wrote
  exact ⟨h, E01Writer.recovered_iff filled _⟩

end Written

def sampleMetadata (caseNumber notes : WString) : EvidenceMetadata where
  caseNumber := caseNumber
  evidenceNumber := wide "EV-7"
  examiner := wide "Examiner"
  description := wide "Memory\tof a server"
  notes := notes

theorem sampleMetadata_filled {caseNumber notes : WString} (case_number : caseNumber ≠ [])
    (some : notes ≠ []) : E01Writer.Filled (sampleMetadata caseNumber notes) := by
  rintro field (_ | ⟨_, _ | ⟨_, _ | ⟨_, _ | ⟨_, _ | ⟨_, none⟩⟩⟩⟩⟩)
  · exact case_number
  · exact List.cons_ne_nil _ _
  · exact List.cons_ne_nil _ _
  · exact List.cons_ne_nil _ _
  · exact some
  · cases none

/-- An empty container that has just been created. -/
def emptyContainer (m : E01Members) : E01Writer × World :=
  ({ file := some ⟨wide "a.E01.partial", 0⟩, members := m },
    { files := ⟨fun _ => some ⟨[], false, .capture, true⟩, []⟩, oracle := fun _ => { limit := 2 ^ 32 - 1 } })

def plainSample : E01Members := { metadata := sampleMetadata (wide "C-1") (wide "none") }

theorem plainSample_filled : E01Writer.Filled plainSample.metadata :=
  sampleMetadata_filled (by decide) (by decide)

theorem plainSample_file :
    E01File (wide "a.E01.partial") [] plainSample (emptyContainer plainSample) :=
  ⟨rfl, rfl, ⟨_, rfl, rfl⟩, fun _ => ⟨rfl, rfl⟩⟩

theorem e01_metadata_recovered_sample :
    let header := E01Writer.headerSection plainSample.metadata 0
    E01File (wide "a.E01.partial") ([] ++ header) plainSample
        (final (E01Writer.writeHeaderSection (emptyContainer plainSample))) ∧
      (E01Writer.Recovered header plainSample.metadata ↔
        ∀ field ∈ E01Writer.metaFields, E01Writer.PlainText (field.2 plainSample.metadata)) :=
  e01_metadata_recovered_iff plainSample_file plainSample_filled (by decide +kernel)

/-- Two case numbers beyond ASCII, and a question mark, become the same header section, so that
no reading of the value tells them apart; and a line feed in the notes adds a second case
number. -/
theorem e01_metadata_lost :
    (¬∃ decoder : NString → WString, ∀ metadata, E01Writer.Filled metadata → ∀ offset,
      ∀ field ∈ E01Writer.metaFields, ∃ value,
        (E01Writer.headerFields (E01Writer.headerSection metadata offset)).filter
            (fun entry => entry.1 == narrow field.1) = [(narrow field.1, value)] ∧
          decoder value = field.2 metadata) ∧
    E01Writer.headerSection (sampleMetadata [0xE9] (wide "none")) 13 =
      E01Writer.headerSection (sampleMetadata [0x3F] (wide "none")) 13 ∧
    (E01Writer.headerFields (E01Writer.headerSection
      (sampleMetadata (wide "C-1") (wide "x\ncase_number\tC-2")) 13)).filter
        (fun entry => entry.1 == narrow "case_number") =
      [(narrow "case_number", narrow "C-1"), (narrow "case_number", narrow "C-2")] := by
  refine ⟨?_, by decide +kernel, by decide +kernel⟩
  rintro ⟨decoder, decodes⟩
  have filled (wc : UInt16) : E01Writer.Filled (sampleMetadata [wc] (wide "none")) :=
    sampleMetadata_filled (List.cons_ne_nil _ _) (by decide)
  have first : ("case_number", fun metadata : EvidenceMetadata => metadata.caseNumber) ∈
      E01Writer.metaFields := List.mem_cons_self
  obtain ⟨value, once, reads⟩ := decodes _ (filled 0xE9) 13 _ first
  obtain ⟨value', once', reads'⟩ := decodes _ (filled 0xFC) 13 _ first
  have same : E01Writer.headerSection (sampleMetadata [0xE9] (wide "none")) 13 =
      E01Writer.headerSection (sampleMetadata [0xFC] (wide "none")) 13 := by decide +kernel
  rw [same, once'] at once
  cases once
  have letters : ([0xE9] : WString) = [0xFC] := reads.symm.trans reads'
  exact absurd letters (by decide)

end PhylaRam
