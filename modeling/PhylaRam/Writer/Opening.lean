import PhylaRam.Writer.E01Finalization
import PhylaRam.Writer.Tending

/-!
# What an opening demands

`PreflightAndOpen` of the ZDMP and of the E01 writer creates the staging file and writes the start
of the image. Where nothing else disturbs it, its result is decided by the replies to these calls.
-/

namespace PhylaRam

open Program

/-- The `CreateFileW` that comes next succeeds, and so do the writes behind it. -/
def Begins (demands : List Demand) (w : World) : Prop :=
  w.choice.failure = none ∧ Granted w.oracle (w.tick + 1) demands

/-- The file is created, but one of the writes behind it does not succeed in full. -/
def BeginsInVain (demands : List Demand) (w : World) : Prop :=
  w.choice.failure = none ∧ ¬Granted w.oracle (w.tick + 1) demands

section Creation

variable {μ : Type} {path : WString} {s : WriterState μ × World} (alone : s.2.Solitary)
  (absent : s.2.files.now path = none)

include alone absent

/-- Where nothing disturbs the capture, a missing file is created if the environment lets it. -/
theorem createFileW_created (granted : s.2.choice.failure = none) :
    createFileW path .createAlways s.2 = (some ⟨path, 0⟩, s.2.enter.perform (.create path)) := by
  have kept : s.2.enter.files.now path = none :=
    (congrFun (Waits.files_eq s.2.enter_runs alone) path).trans absent
  rcases createFileW_cases path .createAlways s.2 with ⟨error, -, failed | present⟩ | ⟨-, -, h⟩ |
    ⟨-, -, node, present, -, -⟩
  · cases granted.symm.trans failed
  · exact absurd kept present
  · exact h
  · cases kept.symm.trans present

theorem createFileW_isSome_iff :
    (createFileW path .createAlways s.2).1.isSome = true ↔ s.2.choice.failure = none := by
  constructor
  · intro created
    rcases createFileW_cases path .createAlways s.2 with ⟨error, h, -⟩ | ⟨fine, -, -⟩ | ⟨fine, -, -⟩
    · rw [h] at created
      cases created
    · exact fine
    · exact fine
  · intro granted
    rw [createFileW_created alone absent granted]
    rfl

/-- Once the staging file has been created, the program behind it has it as an empty tape. -/
theorem createAlways_holding (unmanned : s.1.file = none) :
    WP (do
      let file ← win32 (createFileW path .createAlways)
      resetFile file
      if file.isSome then pure () else refuseWithLastError : WriterM μ Unit)
      (fun _ t => s.2.choice.failure = none ∧ Holding path ⟨[], 0, s.1.members⟩ t ∧ Elapsed 1 s t)
      (fun _ _ => s.2.choice.failure ≠ none) s := by
  have created := createFileW_isSome_iff alone absent
  rw [WP.bind_iff, win32_wp, WP.bind_iff, resetFile_wp, WP.ite_iff]
  refine ⟨fun some => ?_, fun none granted => none (created.mpr granted)⟩
  have granted := created.mp some
  rw [createFileW_created alone absent granted, WP.pure_iff, closedWorld_of_none unmanned]
  refine ⟨granted, ⟨rfl, rfl, ?_⟩, s.2.enter_oracle, s.2.enter_tick⟩
  rw [World.content, World.perform_files, Effect.apply, Function.update_self]
  rfl

/-- The start of the image follows on the creation. -/
theorem createAlways_performs {x : WriterM μ Unit} {demands : List Demand} {tape : Tape μ}
    (unmanned : s.1.file = none) (performs : Performs path ⟨[], 0, s.1.members⟩ demands x tape) :
    WP (do
      (do
        let file ← win32 (createFileW path .createAlways)
        resetFile file
        if file.isSome then pure () else refuseWithLastError : WriterM μ Unit)
      x) (fun _ _ => Begins demands s.2) (fun _ _ => ¬Begins demands s.2) s := by
  rw [WP.bind_iff]
  refine (createAlways_holding alone absent unmanned).mono ?_ fun _ _ failed begins =>
    failed begins.1
  rintro - t ⟨created, held, elapsed⟩
  have place : Granted t.2.oracle t.2.tick demands ↔
      Granted s.2.oracle (s.2.tick + 1) demands := by rw [elapsed.oracle, elapsed.tick]
  refine (performs t held).mono ?_ fun _ _ refused begins => refused (place.mpr begins.2)
  rintro - u ⟨granted, -⟩
  exact ⟨created, place.mp granted⟩

/-- A `PreflightAndOpen` that leaves the file whenever it was created fails and leaves it where the
file is created in vain. -/
theorem beginsInVain_iff {demands : List Demand} {result : Bool × (WriterState μ × World)}
    (decided : result.1 = true ↔ Begins demands s.2)
    (leaves : result.1 = false → (result.2.2.files.now path = none ↔
      ¬(createFileW path .createAlways s.2).1.isSome = true)) :
    BeginsInVain demands s.2 ↔ result.1 = false ∧ result.2.2.files.now path ≠ none := by
  have created := createFileW_isSome_iff alone absent
  rw [BeginsInVain]
  constructor
  · rintro ⟨granted, unmet⟩
    have failed : result.1 = false :=
      Bool.eq_false_of_not_eq_true fun done => unmet (decided.mp done).2
    exact ⟨failed, fun gone => (leaves failed).mp gone (created.mpr granted)⟩
  · rintro ⟨failed, present⟩
    have granted := created.mp (not_not.mp (mt (leaves failed).mpr present))
    refine ⟨granted, fun met => ?_⟩
    cases failed.symm.trans (decided.mpr ⟨granted, met⟩)

end Creation

/-! ### The two writers -/

namespace ZdmpWriter

/-- The header is written with one call. -/
def headerDemands : List Demand := [.write 4096]

theorem preflightAndOpen_returned {path : WString} {s : ZdmpWriter × World}
    (alone : s.2.Solitary) (unmanned : s.1.file = none) (absent : s.2.files.now path = none)
    (logicalSize expected : UInt64) :
    returned (preflightAndOpen path logicalSize expected s) = true ↔ Begins headerDemands s.2 := by
  have nonempty (m : ZdmpMembers) : (header m expected).bytes ≠ [] := by
    rw [← List.length_pos_iff, DumpHeader64.length_bytes]
    decide
  have written (m : ZdmpMembers) : ∃ tape', Performs path ⟨[], 0, m⟩ headerDemands
      (do
        let s ← get
        writeExactly (header s.1.members expected).bytes) tape' := by
    have written : Performs path ⟨[], 0, m⟩ _ _ _ := .writeExactly (nonempty m)
    rw [DumpHeader64.length_bytes] at written
    exact ⟨_, .get fun t same => by
      rw [same]
      exact written⟩
  obtain ⟨_, written⟩ := written { s.1.members with totalPhysicalBytes := expected }
  refine WP.returned_iff ?_
  rw [preflightAndOpen, WP.bind_iff, setMembers_wp]
  refine createAlways_performs ?_ ?_ ?_ written
  · exact alone
  · exact absent
  · exact unmanned

end ZdmpWriter

namespace E01Writer

variable {path : WString}

/-- The writes of the file header, of the three sections and of the header of the fourth. -/
def preambleDemands (metadata : EvidenceMetadata) : List Demand :=
  [.write 13] ++ ([.write 76, .write (metaString metadata).length, .write 4] ++
    ([.write 76, .write 992, .write 4] ++ [.write 76]))

theorem section_performs (path : WString) (tape : Tape E01Members) (type : String) {data : List Byte} {length : Nat}
    (size : data.length = length) (positive : 0 < length) (total : UInt64) :
    ∃ content position, Performs path tape [.write 76, .write length, .write 4]
      (writeSection type data total)
      ⟨content, position, advanced 4 (advanced length (advanced 76 tape.members))⟩ := by
  obtain ⟨content₁, position₁, header⟩ := header_performs path tape (narrow type)
    (tape.members.currentFileOffset + total) total
  obtain ⟨content₂, position₂, body⟩ := emit_performs path
    ⟨content₁, position₁, advanced 76 tape.members⟩ size positive
  obtain ⟨content₃, position₃, checksum⟩ := checksum_performs path
    ⟨content₂, position₂, advanced length (advanced 76 tape.members)⟩ (calculateAdler32 data)
  have whole := header.bind (body.bind checksum)
  exact ⟨content₃, position₃, .get fun s same => by
    rw [same]
    exact whole⟩

theorem metaString_positive (metadata : EvidenceMetadata) : 0 < (metaString metadata).length := by
  rw [metaString, List.length_append]
  exact Nat.lt_of_lt_of_le (by decide) (Nat.le_add_left _ _)

theorem headerSection_performs (path : WString) (content : List Byte) (position : Nat)
    (m : E01Members) :
    ∃ content' position' m', Performs path ⟨content, position, m⟩
      [.write 76, .write (metaString m.metadata).length, .write 4] writeHeaderSection
      ⟨content', position', m'⟩ := by
  obtain ⟨content', position', written⟩ := section_performs path ⟨content, position, m⟩ "header"
    (rfl : (metaString m.metadata).length = _) (metaString_positive _)
    (sectionHeaderBytes + UInt64.ofNat (metaString m.metadata).length + 4)
  exact ⟨content', position', _, .get fun s same => by
    rw [same]
    exact written⟩

theorem volumeSection_performs (path : WString) (content : List Byte) (position : Nat)
    (m : E01Members) :
    ∃ content' position' m', Performs path ⟨content, position, m⟩
      [.write 76, .write 992, .write 4] writeVolumeSection ⟨content', position', m'⟩ := by
  obtain ⟨content', position', written⟩ := section_performs path ⟨content, position, m⟩ "volume"
    (length_ewfVolumeSection _ _ : (volumeSection m.totalPhysicalBytes).length = 992)
    (by decide) (sectionHeaderBytes + 992 + 4)
  have marked := written.bind (.setMembers fun m : E01Members =>
    { m with sectorsSectionOffset := m.currentFileOffset })
  exact ⟨content', position', _, .get fun s same => by
    rw [same]
    exact marked⟩

theorem preamble_performs (path : WString) (content : List Byte) (position : Nat)
    (m : E01Members) :
    ∃ tape', Performs path ⟨content, position, m⟩ (preambleDemands m.metadata) writePreamble
      tape' := by
  have start : Performs path ⟨content, position, m⟩ []
      (setMembers fun m => { m with currentFileOffset := 0 })
      ⟨content, position, { m with currentFileOffset := 0 }⟩ := .setMembers _
  obtain ⟨content₁, position₁, file⟩ := emit_performs path
    ⟨content, position, { m with currentFileOffset := 0 }⟩ length_ewfFileHeader (by decide)
  obtain ⟨content₂, position₂, m₂, header⟩ := headerSection_performs path content₁ position₁
    (advanced 13 { m with currentFileOffset := 0 })
  obtain ⟨content₃, position₃, m₃, volume⟩ := volumeSection_performs path content₂ position₂ m₂
  obtain ⟨content₄, position₄, sectors⟩ := header_performs path ⟨content₃, position₃, m₃⟩
    (narrow "sectors") 0 sectionHeaderBytes
  exact ⟨_, start.bind (file.bind (header.bind (volume.bind sectors)))⟩

theorem preflightAndOpen_returned {s : E01Writer × World} (alone : s.2.Solitary)
    (unmanned : s.1.file = none) (absent : s.2.files.now path = none)
    (logicalSize expected : UInt64) :
    returned (preflightAndOpen path logicalSize expected s) = true ↔
      Begins (preambleDemands s.1.members.metadata) s.2 := by
  obtain ⟨_, written⟩ := preamble_performs path [] 0 { s.1.members with
    totalPhysicalBytes := expected
    chunkBuffer := []
    chunkTableOffsets := [] }
  refine WP.returned_iff ?_
  rw [preflightAndOpen, WP.bind_iff, setMembers_wp]
  refine createAlways_performs ?_ ?_ ?_ written
  · exact alone
  · exact absent
  · exact unmanned

end E01Writer

end PhylaRam
