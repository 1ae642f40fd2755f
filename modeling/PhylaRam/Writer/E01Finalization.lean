import PhylaRam.Writer.E01Layout
import PhylaRam.Writer.Granted

/-!
# What a successful finalization has established

`FlushAndClose` checks every call but three: the two seeks and the write that put the final
header of the sectors section in place. Its result depends on the checked calls only, so it
is truthful exactly in the environments that grant these three calls whenever they grant the
others.
-/

namespace PhylaRam

open Program Packed

namespace E01Writer

variable {path : WString} {tape tape' : Tape E01Members} {data : List Byte} {m : E01Members}

/-! ### The demands of each part -/

/-- The members after so many bytes have been written. -/
def advanced (length : Nat) (m : E01Members) : E01Members :=
  { m with currentFileOffset := m.currentFileOffset + UInt64.ofNat length }

/-- The members after the position of the next chunk has been recorded. -/
def recorded (m : E01Members) : E01Members :=
  { m with
    chunkTableOffsets := m.chunkTableOffsets ++
      [(m.currentFileOffset - m.sectorsSectionOffset).toUInt32] }

/-- A chunk and its checksum, if the buffer is not empty. -/
def chunkDemands (m : E01Members) : List Demand :=
  if m.chunkBuffer = [] then [] else [.write kChunkSize, .write 4]

/-- The members after the last chunk has been written. -/
def flushed (m : E01Members) : E01Members :=
  if m.chunkBuffer = [] then m
  else { advanced 4 (advanced kChunkSize (recorded m)) with chunkBuffer := [] }

/-- The calls that put the sectors header in place, whose results are ignored. -/
def headerDemands (m : E01Members) : List Demand :=
  [.seek m.sectorsSectionOffset, .write 76, .seek m.currentFileOffset]

/-- A header, the table if there is one, and a checksum. -/
def tableDemands (m : E01Members) : List Demand :=
  [.write 76] ++ ((if tableBytes m.chunkTableOffsets = [] then []
    else [.write (tableBytes m.chunkTableOffsets).length]) ++ [.write 4])

/-- The table, hash and done sections and the final flush. -/
def trailerDemands (m : E01Members) : List Demand :=
  tableDemands m ++ ([.write 76, .write 36] ++ ([.write 76] ++ [.flush]))

theorem emit_performs (path : WString) (tape : Tape E01Members) {length : Nat} (size : data.length = length)
    (positive : 0 < length) :
    ∃ content position, Performs path tape [.write length] (emit data)
      ⟨content, position, advanced length tape.members⟩ := by
  subst size
  exact ⟨_, _, (Performs.writeExactly (List.length_pos_iff.mp positive)).bind (.setMembers _)⟩

theorem header_performs (path : WString) (tape : Tape E01Members) (type : NString) (next size : UInt64) :
    ∃ content position, Performs path tape [.write 76] (emit (ewfSectionHeader type next size))
      ⟨content, position, advanced 76 tape.members⟩ :=
  emit_performs path tape (length_ewfSectionHeader _ _ _) (by decide)

theorem checksum_performs (path : WString) (tape : Tape E01Members) (value : UInt32) :
    ∃ content position, Performs path tape [.write 4] (emit (u32 value))
      ⟨content, position, advanced 4 tape.members⟩ :=
  emit_performs path tape (length_u32 _) (by decide)

theorem flushActiveChunk_performs (path : WString) (tape : Tape E01Members) :
    ∃ content position, Performs path tape (chunkDemands tape.members) flushActiveChunk
      ⟨content, position, flushed tape.members⟩ := by
  by_cases none : tape.members.chunkBuffer = []
  · refine ⟨tape.content, tape.position, .get fun s same => ?_⟩
    rw [same, if_pos none, chunkDemands, flushed, if_pos none, if_pos none]
    exact .nothing
  · obtain ⟨content, position, members⟩ := tape
    obtain ⟨content₁, position₁, stored⟩ := emit_performs path
      ⟨content, position, recorded members⟩ (length_array kChunkSize members.chunkBuffer)
      (by decide)
    obtain ⟨content₂, position₂, checked⟩ := checksum_performs path
      ⟨content₁, position₁, advanced kChunkSize (recorded members)⟩
      (calculateAdler32 (array kChunkSize members.chunkBuffer))
    have start : Performs path ⟨content, position, members⟩ [] (setMembers recorded)
        ⟨content, position, recorded members⟩ := .setMembers _
    have emptied : Performs path
        ⟨content₂, position₂, advanced 4 (advanced kChunkSize (recorded members))⟩ []
        (setMembers fun m => { m with chunkBuffer := [] })
        ⟨content₂, position₂,
          { advanced 4 (advanced kChunkSize (recorded members)) with chunkBuffer := [] }⟩ :=
      .setMembers _
    have whole := start.bind (stored.bind (checked.bind emptied))
    refine ⟨content₂, position₂, .get fun s same => ?_⟩
    rw [same, if_neg none, chunkDemands, flushed, if_neg none, if_neg none]
    exact whole

theorem table_performs (path : WString) (tape : Tape E01Members) :
    ∃ tape', Performs path tape (tableDemands tape.members) writeTableSection tape' := by
  obtain ⟨content, position, members⟩ := tape
  obtain ⟨content₁, position₁, header⟩ := header_performs path
    ⟨content, position, members⟩ (narrow "table")
    (members.currentFileOffset +
      (sectionHeaderBytes + UInt64.ofNat (tableBytes members.chunkTableOffsets).length + 4))
    (sectionHeaderBytes + UInt64.ofNat (tableBytes members.chunkTableOffsets).length + 4)
  by_cases none : tableBytes members.chunkTableOffsets = []
  · obtain ⟨content₂, position₂, checksum⟩ := checksum_performs path
      ⟨content₁, position₁, advanced 76 members⟩
      (calculateAdler32 (tableBytes members.chunkTableOffsets))
    have whole := header.bind (Performs.nothing.bind checksum)
    exact ⟨_, .get fun s same => by
      rw [same, tableDemands, if_pos none]
      dsimp only
      rw [if_pos none]
      exact whole⟩
  · obtain ⟨content₂, position₂, body⟩ := emit_performs path
      ⟨content₁, position₁, advanced 76 members⟩
      (rfl : (tableBytes members.chunkTableOffsets).length = _) (List.length_pos_iff.mpr none)
    obtain ⟨content₃, position₃, checksum⟩ := checksum_performs path
      ⟨content₂, position₂, advanced _ (advanced 76 members)⟩
      (calculateAdler32 (tableBytes members.chunkTableOffsets))
    have whole := header.bind (body.bind checksum)
    exact ⟨_, .get fun s same => by
      rw [same, tableDemands, if_neg none]
      dsimp only
      rw [if_neg none]
      exact whole⟩

theorem hash_performs (path : WString) (tape : Tape E01Members) :
    ∃ tape', Performs path tape [.write 76, .write 36] writeHashSection tape' := by
  obtain ⟨content, position, members⟩ := tape
  obtain ⟨content₁, position₁, header⟩ := header_performs path
    ⟨content, position, members⟩ (narrow "hash")
    (members.currentFileOffset + (sectionHeaderBytes + 36)) (sectionHeaderBytes + 36)
  obtain ⟨content₂, position₂, body⟩ := emit_performs path
    ⟨content₁, position₁, advanced 76 members⟩ (length_zeros 36) (by decide)
  have whole := header.bind body
  exact ⟨_, .get fun s same => by
    rw [same]
    exact whole⟩

/-- What follows the sectors section. -/
theorem trailer_performs (path : WString) (tape : Tape E01Members) :
    ∃ tape', Performs path tape (trailerDemands tape.members)
      (do
        writeTableSection
        writeHashSection
        writeDoneSection
        let flushed ← flushFile
        if flushed then pure () else refuseWithLastError) tape' := by
  obtain ⟨tape₁, table⟩ := table_performs path tape
  obtain ⟨tape₂, hash⟩ := hash_performs path tape₁
  obtain ⟨content, position, done⟩ := header_performs path tape₂ (narrow "done") 0
    sectionHeaderBytes
  exact ⟨_, table.bind (hash.bind (done.bind .flushFile))⟩

/-! ### The three calls whose results are ignored -/

/-- The rewritten header of the sectors section. -/
def sectorsHeader (m : E01Members) : List Byte :=
  ewfSectionHeader (narrow "sectors") m.currentFileOffset
    (m.currentFileOffset - m.sectorsSectionOffset)

theorem length_sectorsHeader (m : E01Members) : (sectorsHeader m).length = 76 :=
  length_ewfSectionHeader _ _ _

theorem sectorsHeader_ne_nil (m : E01Members) : sectorsHeader m ≠ [] := by
  rw [← List.length_pos_iff, length_sectorsHeader]
  decide

/-- The file with its rewritten sectors header. -/
def headed (tape : Tape E01Members) : Tape E01Members :=
  ⟨Image.patch 0 tape.content tape.members.sectorsSectionOffset.toNat
      (sectorsHeader tape.members),
    tape.members.currentFileOffset.toNat, tape.members⟩

section Header

variable {s : E01Writer × World} (h : Holding path tape s)

include h

/-- Whatever becomes of the three calls, `FlushAndClose` goes on. -/
theorem updateSectorsHeader_proceeds :
    WP updateSectorsHeader
      (fun _ t => Elapsed 3 s t ∧
        ∃ content position, Holding path ⟨content, position, tape.members⟩ t)
      (fun _ _ => False) s := by
  rw [updateSectorsHeader, WP.bind_iff, WP.get_iff, h.members, WP.bind_iff]
  refine (seekFile_holding h _).mono ?_ fun _ _ no => no.elim
  rintro - t ⟨first, ⟨position₁, moved⟩, -⟩
  rw [WP.bind_iff]
  refine (writeOnce_holding moved (sectorsHeader_ne_nil _)).mono ?_ fun _ _ no => no.elim
  rintro - u ⟨second, -, ⟨content₂, position₂, altered⟩, -⟩
  rw [WP.bind_iff]
  refine (seekFile_holding altered _).mono ?_ fun _ _ no => no.elim
  rintro - v ⟨third, ⟨position₃, returned⟩, -⟩
  exact ⟨(first.trans second).trans third, content₂, position₃, returned⟩

theorem updateSectorsHeader_granted
    (granted : Granted s.2.oracle s.2.tick (headerDemands tape.members)) :
    WP updateSectorsHeader (fun _ t => Holding path (headed tape) t) (fun _ _ => False) s := by
  obtain ⟨sought, complete, restored, -⟩ := granted
  rw [updateSectorsHeader, WP.bind_iff, WP.get_iff, h.members, WP.bind_iff]
  refine (seekFile_holding h _).mono ?_ fun _ _ no => no.elim
  rintro - t ⟨first, -, moved⟩
  rw [WP.bind_iff]
  refine (writeOnce_holding (moved sought) (sectorsHeader_ne_nil _)).mono ?_ fun _ _ no => no.elim
  rintro - u ⟨second, -, -, rewritten⟩
  have choice₁ : t.2.choice = s.2.oracle (s.2.tick + 1) := by
    rw [World.choice, first.oracle, first.tick]
  have held := rewritten (by rwa [choice₁, length_sectorsHeader])
  rw [WP.bind_iff]
  refine (seekFile_holding held _).mono ?_ fun _ _ no => no.elim
  rintro - v ⟨-, -, returned⟩
  have both := first.trans second
  have choice₂ : u.2.choice = s.2.oracle (s.2.tick + 2) := by
    rw [World.choice, both.oracle, both.tick]
  exact returned (by rwa [choice₂])

theorem updateSectorsHeader_holding :
    WP updateSectorsHeader
      (fun _ t => Elapsed 3 s t ∧
        (∃ content position, Holding path ⟨content, position, tape.members⟩ t) ∧
        (Granted s.2.oracle s.2.tick (headerDemands tape.members) → Holding path (headed tape) t))
      (fun _ _ => False) s := by
  by_cases granted : Granted s.2.oracle s.2.tick (headerDemands tape.members)
  · refine ((updateSectorsHeader_proceeds h).and (updateSectorsHeader_granted h granted)).mono ?_
      fun _ _ no => no.1
    rintro - t ⟨⟨elapsed, some⟩, held⟩
    exact ⟨elapsed, some, fun _ => held⟩
  · refine (updateSectorsHeader_proceeds h).mono ?_ fun _ _ no => no
    rintro - t ⟨elapsed, some⟩
    exact ⟨elapsed, some, fun yes => (granted yes).elim⟩

end Header

/-! ### The whole of `FlushAndClose` -/

/-- The calls whose results `FlushAndClose` checks succeed in full. -/
def CheckedCallsSucceed (s : E01Writer × World) : Prop :=
  let m := s.1.members
  let chunk := chunkDemands m
  Granted s.2.oracle s.2.tick chunk ∧
    Granted s.2.oracle (s.2.tick + chunk.length + 3) (trailerDemands (flushed m))

/-- So do the two `SetFilePointerEx` and the `WriteFile` around the sectors header. -/
def SectorsHeaderSucceeds (s : E01Writer × World) : Prop :=
  Granted s.2.oracle (s.2.tick + (chunkDemands s.1.members).length)
    (headerDemands (flushed s.1.members))

/-- All operations of `FlushAndClose` in their order. -/
def finalDemands (m : E01Members) : List Demand :=
  chunkDemands m ++ (headerDemands (flushed m) ++ trailerDemands (flushed m))

theorem granted_finalDemands (s : E01Writer × World) :
    Granted s.2.oracle s.2.tick (finalDemands s.1.members) ↔
      CheckedCallsSucceed s ∧ SectorsHeaderSucceeds s := by
  rw [finalDemands, granted_append, granted_append, CheckedCallsSucceed, SectorsHeaderSucceeds]
  show _ ∧ _ ∧ Granted _ (_ + 3) _ ↔ (_ ∧ _) ∧ _
  constructor
  · rintro ⟨chunk, header, trailer⟩
    exact ⟨⟨chunk, trailer⟩, header⟩
  · rintro ⟨⟨chunk, trailer⟩, header⟩
    exact ⟨chunk, header, trailer⟩

/-- The program returns exactly where its checked calls succeed; where the other calls succeed
as well, it leaves one tape. -/
theorem writeTrailer_holding (path : WString) (tape : Tape E01Members) :
    ∃ tape', ∀ s, Holding path tape s →
      WP writeTrailer
        (fun _ t => CheckedCallsSucceed s ∧ (SectorsHeaderSucceeds s → Holding path tape' t))
        (fun _ _ => ¬CheckedCallsSucceed s) s := by
  obtain ⟨content₁, position₁, chunk⟩ := flushActiveChunk_performs path tape
  obtain ⟨tape', trailer⟩ := trailer_performs path
    (headed ⟨content₁, position₁, flushed tape.members⟩)
  refine ⟨tape', fun s h => ?_⟩
  rw [CheckedCallsSucceed, SectorsHeaderSucceeds, h.members, writeTrailer, WP.bind_iff]
  refine (chunk s h).mono ?_ fun _ t no checked => no checked.1
  rintro - t ⟨granted, held, elapsed⟩
  rw [WP.bind_iff]
  refine (updateSectorsHeader_holding held).mono ?_ fun _ _ no => no.elim
  rintro - u ⟨elapsed', ⟨content₂, position₂, held'⟩, header⟩
  have both := elapsed.trans elapsed'
  have place : Granted u.2.oracle u.2.tick (trailerDemands (flushed tape.members)) ↔
      Granted s.2.oracle (s.2.tick + (chunkDemands tape.members).length + 3)
        (trailerDemands (flushed tape.members)) := by
    rw [both.oracle, both.tick, Nat.add_assoc]
  by_cases succeeds : Granted s.2.oracle (s.2.tick + (chunkDemands tape.members).length)
      (headerDemands (flushed tape.members))
  · have held' := header (by rwa [elapsed.oracle, elapsed.tick])
    refine (trailer u held').mono ?_ fun _ _ no checked => no (place.mpr checked.2)
    rintro - v ⟨finished, last, -⟩
    exact ⟨⟨granted, place.mp finished⟩, fun _ => last⟩
  · obtain ⟨_, other⟩ := trailer_performs path
      ⟨content₂, position₂, flushed tape.members⟩
    refine (other u held').mono ?_ fun _ _ no checked => no (place.mpr checked.2)
    rintro - v ⟨finished, -, -⟩
    exact ⟨⟨granted, place.mp finished⟩, fun yes => (succeeds yes).elim⟩

theorem flushAndClose_holding (path : WString) (tape : Tape E01Members) :
    ∃ content, ∀ s, Holding path tape s →
      WP flushAndClose
        (fun _ t => CheckedCallsSucceed s ∧
          (SectorsHeaderSucceeds s → t.2.content path = some content))
        (fun _ _ => ¬CheckedCallsSucceed s) s := by
  obtain ⟨tape', trailer⟩ := writeTrailer_holding path tape
  refine ⟨tape'.content, fun s h => ?_⟩
  rw [flushAndClose, WP.bind_iff, WP.get_iff, h.file, Option.isNone_some,
    if_neg Bool.false_ne_true, WP.bind_iff, WP.tryCatch_iff]
  refine (trailer s h).mono ?_ ?_
  · rintro - t ⟨checked, last⟩
    rw [close, resetFile_wp]
    refine ⟨checked, fun succeeds => ?_⟩
    obtain ⟨node, present, same⟩ := Option.map_eq_some_iff.mp (last succeeds).content
    obtain ⟨node', present', unchanged⟩ := closedWorld_content t.1 present
    exact Option.map_eq_some_iff.mpr ⟨node', present', unchanged.trans same⟩
  · rintro - t unchecked
    rw [WP.bind_iff, close, resetFile_wp, WP.throw_iff]
    exact unchecked

/-- The result of `FlushAndClose` depends on the checked calls only. -/
theorem flushAndClose_returned {s : E01Writer × World} (h : Holding path tape s) :
    returned (flushAndClose s) = true ↔ CheckedCallsSucceed s := by
  obtain ⟨_, run⟩ := flushAndClose_holding path tape
  exact ((run s h).mono (fun _ _ checked => checked.1) fun _ _ unchecked => unchecked).returned_iff

end E01Writer

open E01Writer

/-- The result of `FlushAndClose` is truthful: success means that every operation was carried
out in full, and that the closed file is the one of any run in which no operation fails. -/
def FinalizationTruthful (path : WString) (s : E01Writer × World) : Prop :=
  let t := e01Writer.flushAndClose s
  t.1 = true → Granted s.2.oracle s.2.tick (finalDemands s.1.members) ∧
    ∀ oracle, Granted oracle s.2.tick (finalDemands s.1.members) →
      (e01Writer.flushAndClose (s.1, { s.2 with oracle := oracle })).2.2.content path =
        t.2.2.content path

theorem FinalizationTruthful.sectorsHeader {path : WString} {s : E01Writer × World}
    (truthful : FinalizationTruthful path s) (closed : (e01Writer.flushAndClose s).1 = true) :
    SectorsHeaderSucceeds s :=
  ((granted_finalDemands s).mp (truthful closed).1).2

theorem e01_finalization_truthful_iff (s : E01Writer × World) (path : WString)
    (position : Nat) (opened : s.1.file = some ⟨path, position⟩) (content : List Byte)
    (present : s.2.content path = some content) :
    FinalizationTruthful path s ↔ (CheckedCallsSucceed s → SectorsHeaderSucceeds s) := by
  have held : Holding path ⟨content, position, s.1.members⟩ s := ⟨opened, rfl, present⟩
  constructor
  · intro truthful checked
    exact truthful.sectorsHeader ((flushAndClose_returned held).mpr checked)
  · intro header closed
    have checked := (flushAndClose_returned held).mp closed
    refine ⟨(granted_finalDemands s).mpr ⟨checked, header checked⟩, fun oracle granted => ?_⟩
    obtain ⟨content', run⟩ := flushAndClose_holding path
      ⟨content, position, s.1.members⟩
    have held' : Holding path ⟨content, position, s.1.members⟩
      (s.1, { s.2 with oracle := oracle }) := ⟨opened, rfl, present⟩
    have granted' := (granted_finalDemands (s.1, { s.2 with oracle := oracle })).mp granted
    have fine := (run _ held').of_returned ((flushAndClose_returned held').mpr granted'.1)
    have real := (run s held).of_returned closed
    obtain ⟨_, -, -, fine⟩ := fine
    obtain ⟨_, -, -, real⟩ := real
    exact (fine granted'.2).trans (real (header checked)).symm

/-- An open container without data. -/
def openContainer : E01Writer × World :=
  (e01Writer.preflightAndOpen (wide "a.E01.partial") 1 1 newContainer).2

theorem e01_finalization_truthful_iff_open :
    FinalizationTruthful (wide "a.E01.partial") openContainer ↔
      (CheckedCallsSucceed openContainer → SectorsHeaderSucceeds openContainer) := by
  have opened : openContainer.1.file = some ⟨wide "a.E01.partial", 1506⟩ := by decide +kernel
  have exists' : (openContainer.2.content (wide "a.E01.partial")).isSome = true := by
    decide +kernel
  obtain ⟨content, present⟩ := Option.isSome_iff_exists.mp exists'
  exact e01_finalization_truthful_iff openContainer _ 1506 opened content present

/-- The disk is full when the header of the sectors section is rewritten. -/
def fullDisk (n : Nat) : Choice :=
  if n = openContainer.2.tick + 1 then { limit := 0, failure := some 112 }
  else openContainer.2.oracle n

def stalledContainer : E01Writer × World :=
  (openContainer.1, { openContainer.2 with oracle := fullDisk })

/-- The failed write goes unnoticed, and `NextOffset` of the sectors section is still 0. -/
theorem e01_finalization_unnoticed :
    (e01Writer.flushAndClose stalledContainer).1 = true ∧
    ((e01Writer.flushAndClose stalledContainer).2.2.content (wide "a.E01.partial")).map
      (fun content => (content.drop (1430 + 16)).take 8) = some (zeros 8) ∧
    ¬FinalizationTruthful (wide "a.E01.partial") stalledContainer := by
  have closed : (e01Writer.flushAndClose stalledContainer).1 = true := by decide +kernel
  refine ⟨closed, by decide +kernel, fun truthful => ?_⟩
  have header := truthful.sectorsHeader closed
  have failed : (stalledContainer.2.oracle (stalledContainer.2.tick +
      (chunkDemands stalledContainer.1.members).length + 1)).failure ≠ none := by decide +kernel
  exact failed header.2.1.1

end PhylaRam
