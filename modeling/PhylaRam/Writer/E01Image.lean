import PhylaRam.Library.Chunks
import PhylaRam.Writer.E01
import PhylaRam.Win32.Path

/-!
# The container of a sequence of writes

In a reliable environment every `WriteFile` of the E01 writer appends to the file. `E01File`
says which bytes have been appended so far; each operation has one rule, which names what it
appends. The rule of `WriteAt` keeps a cut of the stream into chunks, whatever the pieces
were, and the rule of `FlushAndClose` describes the whole container.
-/

namespace PhylaRam

open Program Packed Image Chunks

/-- A caller that makes these calls of `WriteAt`, one after the other. -/
def IRawWriter.writeAll {ω : Type} (writer : IRawWriter ω) (writes : List (UInt64 × List Byte))
    (s : ω) : ω :=
  writes.foldl (fun s write => (writer.writeAt write.1 write.2 s).2) s

/-- The file at `path` has been filled with `content`, and the writer stands at its end. -/
structure E01File (path : WString) (content : List Byte) (m : E01Members)
    (s : E01Writer × World) : Prop where
  file : s.1.file = some ⟨path, content.length⟩
  members : s.1.members = { m with currentFileOffset := UInt64.ofNat content.length }
  node : ∃ node, s.2.files.now path = some node ∧ node.content = content
  reliable : s.2.Reliable

namespace E01File

variable {path : WString} {content data : List Byte} {m : E01Members} {s : E01Writer × World}

/-- A change of the other members. -/
theorem change (h : E01File path content m s) {f : E01Members → E01Members}
    {m' : E01Members} (same : f { m with currentFileOffset := UInt64.ofNat content.length } =
      { m' with currentFileOffset := UInt64.ofNat content.length }) :
    E01File path content m' ({ s.1 with members := f s.1.members }, s.2) :=
  ⟨h.file, by rw [h.members, same], h.node, h.reliable⟩

/-- `WriteFile` appends its data, unless there is too much of it for one call. -/
theorem emit (h : E01File path content m s) (nonempty : data ≠ []) :
    WP (E01Writer.emit data)
      (fun _ t => data.length < 2 ^ 32 ∧ E01File path (content ++ data) m t)
      (fun _ _ => 2 ^ 32 ≤ data.length) s := by
  obtain ⟨node, present, rfl⟩ := h.node
  rw [E01Writer.emit, WP.bind_iff]
  refine writeExactly_reliable h.reliable h.file nonempty (fun short => ?_) fun long _ => long
  rw [setMembers_wp]
  refine ⟨short, ?_, ?_, ⟨_, Files.modify_self (World.enter_of_some present), patch_end 0 _ _⟩,
    h.reliable.enter.perform _⟩
  · rw [List.length_append]
  · simp only [h.members, List.length_append, UInt64.ofNat_add]

/-- A short buffer is always written. -/
theorem append (h : E01File path content m s) (nonempty : data ≠ [])
    (short : data.length < 2 ^ 32) :
    WP (E01Writer.emit data) (fun _ t => E01File path (content ++ data) m t)
      (fun _ _ => False) s :=
  (h.emit nonempty).mono (fun _ _ h => h.2) fun _ _ long => Nat.not_le_of_lt short long

end E01File

/-! ### Opening the container -/

namespace E01Writer

/-- A section whose data is followed by its Adler-32, at the given offset. -/
def sectionBytes (type : String) (offset : UInt64) (data : List Byte) (size : UInt64) :
    List Byte :=
  ewfSectionHeader (narrow type) (offset + size) size ++ data ++ u32 (calculateAdler32 data)

/-- The file header and the header section. -/
def opening (m : E01Members) : List Byte :=
  ewfFileHeader ++ sectionBytes "header" 13 (metaString m.metadata)
    (sectionHeaderBytes + UInt64.ofNat (metaString m.metadata).length + 4)

/-- Everything before the sectors section. -/
def front (m : E01Members) : List Byte :=
  opening m ++ sectionBytes "volume" (UInt64.ofNat (opening m).length)
    (volumeSection m.totalPhysicalBytes) (sectionHeaderBytes + 992 + 4)

/-- The header of a sectors section that has not been closed. -/
def openSectors : List Byte := ewfSectionHeader (narrow "sectors") 0 sectionHeaderBytes

theorem metaString_ne_nil (metadata : EvidenceMetadata) : metaString metadata ≠ [] := by
  rw [← List.length_pos_iff, metaString, List.length_append]
  exact Nat.lt_of_lt_of_le (by decide) (Nat.le_add_left _ _)

end E01Writer

section Opening

variable {path : WString} {content data : List Byte} {m : E01Members} {s : E01Writer × World}

theorem ewfSectionHeader_ne_nil (type : NString) (next size : UInt64) :
    ewfSectionHeader type next size ≠ [] := by
  rw [← List.length_pos_iff, length_ewfSectionHeader]
  decide

theorem u32_ne_nil (value : UInt32) : u32 value ≠ [] := by
  rw [← List.length_pos_iff, length_u32]
  decide

theorem E01File.writeHeader (h : E01File path content m s) (type : NString)
    (next size : UInt64) :
    WP (E01Writer.emit (ewfSectionHeader type next size))
      (fun _ t => E01File path (content ++ ewfSectionHeader type next size) m t)
      (fun _ _ => False) s :=
  h.append (ewfSectionHeader_ne_nil _ _ _) (by rw [length_ewfSectionHeader]; decide)

theorem E01File.writeChecksum (h : E01File path content m s) (value : UInt32) :
    WP (E01Writer.emit (u32 value)) (fun _ t => E01File path (content ++ u32 value) m t)
      (fun _ _ => False) s :=
  h.append (u32_ne_nil _) (by rw [length_u32]; decide)

theorem E01File.writeSection (h : E01File path content m s) (type : String)
    (nonempty : data ≠ []) (size : UInt64) :
    WP (E01Writer.writeSection type data size)
      (fun _ t => data.length < 2 ^ 32 ∧ E01File path
        (content ++ E01Writer.sectionBytes type (UInt64.ofNat content.length) data size) m t)
      (fun _ _ => True) s := by
  rw [E01Writer.writeSection, WP.bind_iff, WP.get_iff, h.members, WP.bind_iff]
  refine (h.writeHeader _ _ _).mono ?_ fun _ _ _ => trivial
  rintro - t h
  rw [WP.bind_iff]
  refine (h.emit nonempty).mono ?_ fun _ _ _ => trivial
  rintro - t ⟨short, h⟩
  refine (h.writeChecksum _).mono ?_ fun _ _ _ => trivial
  rintro - t h
  rw [List.append_assoc, List.append_assoc, ← List.append_assoc (ewfSectionHeader _ _ _)] at h
  exact ⟨short, h⟩

theorem E01Writer.length_sectionBytes (type : String) (offset : UInt64) (data : List Byte)
    (size : UInt64) : (sectionBytes type offset data size).length = data.length + 80 := by
  rw [sectionBytes, List.length_append, List.length_append, length_ewfSectionHeader, length_u32]
  omega

theorem E01Writer.length_volumeSection (total : UInt64) : (volumeSection total).length = 992 :=
  length_ewfVolumeSection _ _

theorem E01Writer.length_opening (m : E01Members) :
    (opening m).length = (metaString m.metadata).length + 93 := by
  rw [opening, List.length_append, length_sectionBytes, length_ewfFileHeader]
  omega

theorem E01Writer.length_front (m : E01Members) :
    (front m).length = (metaString m.metadata).length + 1165 := by
  rw [front, List.length_append, length_sectionBytes, length_volumeSection, length_opening]

/-- An opened container is ready for its first chunk. -/
theorem E01File.preflightAndOpen (logicalSize expected : UInt64) (reliable : s.2.Reliable) :
    let m := { s.1.members with
      totalPhysicalBytes := expected
      chunkBuffer := []
      chunkTableOffsets := [] }
    WP (E01Writer.preflightAndOpen path logicalSize expected)
      (fun _ t => (E01Writer.metaString m.metadata).length < 2 ^ 32 ∧
        E01File path (E01Writer.front m ++ E01Writer.openSectors)
          { m with sectorsSectionOffset := UInt64.ofNat (E01Writer.front m).length } t)
      (fun _ _ => True) s := by
  intro m
  rw [E01Writer.preflightAndOpen, WP.bind_iff, setMembers_wp, WP.bind_iff]
  refine createAlways_wp.mono ?_ fun _ _ _ => trivial
  rintro - t ⟨writer, oracle, node, present, empty⟩
  rw [E01Writer.writePreamble, WP.bind_iff, setMembers_wp, WP.bind_iff]
  have created : E01File path [] m ({ t.1 with
      members := { t.1.members with currentFileOffset := 0 } }, t.2) := by
    rw [writer]
    exact ⟨rfl, rfl, ⟨node, present, empty⟩, reliable.of_oracle oracle⟩
  refine (created.append (by decide) (by decide)).mono ?_ fun _ _ _ => trivial
  rintro - t h
  rw [List.nil_append] at h
  rw [WP.bind_iff, E01Writer.writeHeaderSection, WP.bind_iff, WP.get_iff, h.members]
  refine (h.writeSection "header" (E01Writer.metaString_ne_nil m.metadata) _).mono ?_
    fun _ _ _ => trivial
  rintro - t ⟨short, h⟩
  have h : E01File path (E01Writer.opening m) m t := h
  rw [WP.bind_iff, E01Writer.writeVolumeSection, WP.bind_iff, WP.get_iff, h.members, WP.bind_iff]
  have volume : E01Writer.volumeSection m.totalPhysicalBytes ≠ [] := by
    rw [← List.length_pos_iff, E01Writer.length_volumeSection]
    decide
  refine (h.writeSection "volume" volume _).mono ?_ fun _ _ _ => trivial
  rintro - t ⟨-, h⟩
  rw [setMembers_wp]
  have h : E01File path (E01Writer.front m)
      { m with sectorsSectionOffset := UInt64.ofNat (E01Writer.front m).length }
      ({ t.1 with
        members := { t.1.members with sectorsSectionOffset := t.1.members.currentFileOffset } },
        t.2) := h.change (f := fun m => { m with sectorsSectionOffset := m.currentFileOffset }) rfl
  exact (h.writeHeader _ _ _).mono (fun _ _ h => ⟨short, h⟩) fun _ _ _ => trivial

end Opening

/-! ### The stream of chunks -/

/-- A chunk as the file has it: its bytes and their checksum. -/
def storedChunk (chunk : List Byte) : List Byte := chunk ++ u32 (calculateAdler32 chunk)

/-- From the start of the sectors section to the chunk with that number. -/
def chunkDistance (k : Nat) : Nat := 76 + 65540 * k

/-- What the writer records for so many chunks: the low 32 bits of each distance. -/
def recordedEntries (count : Nat) : List UInt32 :=
  (List.range count).map fun k => UInt32.ofNat (chunkDistance k)

theorem recordedEntries_succ (count : Nat) :
    recordedEntries (count + 1) = recordedEntries count ++ [UInt32.ofNat (chunkDistance count)] := by
  rw [recordedEntries, List.range_succ, List.map_append]
  rfl

theorem length_storedChunk {chunks : List (List Byte)}
    (full : ∀ chunk ∈ chunks, chunk.length = 65536) :
    ∀ bytes ∈ chunks.map storedChunk, bytes.length = 65540 := by
  intro bytes among
  obtain ⟨chunk, member, rfl⟩ := List.mem_map.mp among
  rw [storedChunk, List.length_append, full chunk member, length_u32]

theorem length_flatMap_storedChunk {chunks : List (List Byte)}
    (full : ∀ chunk ∈ chunks, chunk.length = 65536) :
    (chunks.flatMap storedChunk).length = 65540 * chunks.length := by
  rw [List.flatMap, length_flatten (length_storedChunk full), List.length_map]

/-- The file while the sectors section is open. -/
def E01Writer.container (m : E01Members) (chunks : List (List Byte)) : List Byte :=
  front m ++ openSectors ++ chunks.flatMap storedChunk

theorem E01Writer.length_container {m : E01Members} {chunks : List (List Byte)}
    (full : ∀ chunk ∈ chunks, chunk.length = 65536) :
    (container m chunks).length = (front m).length + chunkDistance chunks.length := by
  rw [container, List.length_append, List.length_append, openSectors, length_ewfSectionHeader,
    length_flatMap_storedChunk full, chunkDistance, Nat.add_assoc]

/-- The members when so many chunks have been stored and `rest` waits in the buffer. -/
def E01Writer.buffering (m : E01Members) (count : Nat) (rest : List Byte) : E01Members :=
  { m with
    chunkBuffer := rest
    chunkTableOffsets := recordedEntries count
    sectorsSectionOffset := UInt64.ofNat (front m).length }

/-- The data has been cut into chunks, of which the file holds the full ones and the buffer the
rest. -/
structure E01Cut (path : WString) (m : E01Members) (data : List Byte) (chunks : List (List Byte))
    (rest : List Byte) (s : E01Writer × World) : Prop where
  split : Split 65536 data chunks rest
  file : E01File path (E01Writer.container m chunks)
    (E01Writer.buffering m chunks.length rest) s

/-- The data that the writer has accepted, in whatever pieces. -/
def E01Stream (path : WString) (m : E01Members) (data : List Byte) (s : E01Writer × World) :
    Prop :=
  ∃ chunks rest, E01Cut path m data chunks rest s

section Stream

variable {path : WString} {content data part rest : List Byte} {chunks : List (List Byte)}
  {m : E01Members} {s : E01Writer × World}

/-- A buffer that is not empty becomes a chunk, padded with zeros. -/
theorem E01File.flushActiveChunk (h : E01File path content m s) (some : m.chunkBuffer ≠ []) :
    WP E01Writer.flushActiveChunk
      (fun _ t => E01File path (content ++ storedChunk (array 65536 m.chunkBuffer))
        { m with
          chunkBuffer := []
          chunkTableOffsets := m.chunkTableOffsets ++
            [(UInt64.ofNat content.length - m.sectorsSectionOffset).toUInt32] } t)
      (fun _ _ => False) s := by
  rw [E01Writer.flushActiveChunk, WP.bind_iff, WP.get_iff, h.members, if_neg some, WP.bind_iff,
    setMembers_wp]
  have recorded : E01File path content
      { m with
        chunkTableOffsets := m.chunkTableOffsets ++
          [(UInt64.ofNat content.length - m.sectorsSectionOffset).toUInt32] } _ :=
    h.change (f := fun m => { m with
      chunkTableOffsets := m.chunkTableOffsets ++
        [(m.currentFileOffset - m.sectorsSectionOffset).toUInt32] }) rfl
  have length : (array 65536 m.chunkBuffer).length = 65536 := length_array _ _
  have filled : array 65536 m.chunkBuffer ≠ [] := by
    rw [← List.length_pos_iff, length]
    decide
  rw [WP.bind_iff]
  refine (recorded.append filled (by rw [length]; decide)).mono ?_ fun _ _ no => no
  rintro - t h
  rw [WP.bind_iff]
  refine (h.writeChecksum _).mono ?_ fun _ _ no => no
  rintro - t h
  rw [List.append_assoc] at h
  exact h.change (f := fun m => { m with chunkBuffer := [] }) rfl

/-- After full chunks the next one is recorded at its distance. -/
theorem E01File.nextChunk (h : E01File path (E01Writer.container m chunks)
      (E01Writer.buffering m chunks.length rest) s)
    (full : ∀ chunk ∈ chunks, chunk.length = 65536) (some : rest ≠ []) :
    WP E01Writer.flushActiveChunk
      (fun _ t => E01File path (E01Writer.container m (chunks ++ [array 65536 rest]))
        (E01Writer.buffering m (chunks.length + 1) []) t)
      (fun _ _ => False) s := by
  refine (h.flushActiveChunk some).mono ?_ fun _ _ no => no
  rintro - t flushed
  have distance : (UInt64.ofNat (E01Writer.container m chunks).length -
      UInt64.ofNat (E01Writer.front m).length).toUInt32 =
        UInt32.ofNat (chunkDistance chunks.length) := by
    rw [E01Writer.length_container full, UInt64.ofNat_add, UInt64.add_comm,
      UInt64.add_sub_cancel, UInt64.toUInt32_ofNat']
  have content : E01Writer.container m chunks ++ storedChunk (array 65536 rest) =
      E01Writer.container m (chunks ++ [array 65536 rest]) := by
    rw [E01Writer.container, E01Writer.container, List.flatMap_append, List.flatMap_singleton,
      List.append_assoc _ (chunks.flatMap _)]
  simp only [E01Writer.buffering, distance, content, ← recordedEntries_succ] at flushed
  exact flushed

/-- The buffer takes as much as it has room for, and is flushed when that fills it. -/
theorem E01Cut.fillBuffer (h : E01Cut path m data chunks rest s) (nonempty : part ≠ [])
    (fits : rest.length + part.length ≤ 65536) :
    WP (E01Writer.fillBuffer part) (fun _ t => E01Stream path m (data ++ part) t)
      (fun _ _ => False) s := by
  have filled : E01File path (E01Writer.container m chunks)
      (E01Writer.buffering m chunks.length (rest ++ part)) _ :=
    h.file.change (f := fun m => { m with chunkBuffer := m.chunkBuffer ++ part }) rfl
  rw [E01Writer.fillBuffer, WP.bind_iff, setMembers_wp, WP.bind_iff, WP.get_iff, filled.members]
  show WP (if (rest ++ part).length = 65536 then _ else _) _ _ _
  by_cases full : (rest ++ part).length = 65536
  · rw [if_pos full]
    have some : rest ++ part ≠ [] := List.append_ne_nil_of_right_ne_nil _ nonempty
    refine (filled.nextChunk h.split.full some).mono ?_ fun _ _ no => no
    rintro - t flushed
    have whole : array 65536 (rest ++ part) = rest ++ part := by
      rw [array_of_le full.le, full]
      exact List.append_nil _
    rw [whole] at flushed
    rw [List.length_append] at full
    refine ⟨chunks ++ [rest ++ part], [], h.split.close full, ?_⟩
    rw [List.length_append]
    exact flushed
  · rw [if_neg full]
    rw [List.length_append] at full
    exact ⟨chunks, rest ++ part, h.split.extend (by omega), filled⟩

/-- The loop of `WriteAt` stores the whole data: each turn that is not the last one takes at
least one byte. -/
theorem E01Stream.fillBuffers (h : E01Stream path m data s) {turns : Nat}
    (enough : part.length < turns) :
    WP (E01Writer.fillBuffers turns part) (fun _ t => E01Stream path m (data ++ part) t)
      (fun _ _ => False) s := by
  induction turns generalizing data part s with
  | zero => exact (Nat.not_lt_zero _ enough).elim
  | succ turns ih =>
      rw [E01Writer.fillBuffers]
      by_cases none : part = []
      · rw [if_pos none, none, List.append_nil]
        exact h
      · rw [if_neg none]
        obtain ⟨chunks, rest, cut⟩ := h
        have short := cut.split.short
        have positive := List.length_pos_iff.mpr none
        rw [WP.bind_iff, WP.get_iff, cut.file.members, WP.bind_iff]
        show WP (E01Writer.fillBuffer (part.take (65536 - rest.length))) _ _ _
        have taken : part.take (65536 - rest.length) ≠ [] := by
          rw [← List.length_pos_iff, List.length_take]
          omega
        have fits : rest.length + (part.take (65536 - rest.length)).length ≤ 65536 := by
          rw [List.length_take]
          omega
        refine (cut.fillBuffer taken fits).mono ?_ fun _ _ no => no
        rintro - t next
        have fewer : (part.drop (65536 - rest.length)).length < turns := by
          rw [List.length_drop]
          omega
        have whole := ih next fewer
        rwa [List.append_assoc, List.take_append_drop] at whole

theorem E01Stream.writeAt (h : E01Stream path m data s) (offset : UInt64) (nonempty : part ≠ []) :
    WP (E01Writer.writeAt offset part) (fun _ t => E01Stream path m (data ++ part) t)
      (fun _ _ => False) s := by
  have stream := h.fillBuffers (Nat.lt_succ_self part.length)
  obtain ⟨chunks, rest, cut⟩ := h
  have opened : ¬(s.1.file.isNone ∨ part = []) := by
    rw [cut.file.file]
    exact fun no => no.elim (fun none => by cases none) nonempty
  rw [E01Writer.writeAt, WP.bind_iff, WP.get_iff, if_neg opened]
  exact stream

/-- A sequence of calls of `WriteAt`; their pieces join. -/
theorem E01Stream.writeAll (h : E01Stream path m data s) {writes : List (UInt64 × List Byte)}
    (nonempty : ∀ write ∈ writes, write.2 ≠ []) :
    E01Stream path m (data ++ writes.flatMap Prod.snd) (e01Writer.writeAll writes s) := by
  induction writes generalizing data s with
  | nil => rwa [List.flatMap_nil, List.append_nil]
  | cons write writes ih =>
      obtain ⟨first, later⟩ := List.forall_mem_cons.mp nonempty
      have next : E01Stream path m (data ++ write.2) (e01Writer.writeAt write.1 write.2 s).2 := by
        obtain ⟨_, t, ran, stream⟩ := (h.writeAt write.1 first).returns
        show E01Stream path m _ (final (E01Writer.writeAt write.1 write.2 s))
        rwa [ran]
      have rest := ih next later
      rwa [List.append_assoc, ← List.flatMap_cons] at rest

end Stream

/-! ### Closing the container -/

section Closing

variable {path : WString} {content data rest : List Byte} {chunks : List (List Byte)}
  {m : E01Members} {s : E01Writer × World}

/-- The last chunk is padded. -/
theorem E01Cut.flush (h : E01Cut path m data chunks rest s) :
    WP E01Writer.flushActiveChunk
      (fun _ t => ∃ chunks, Padded 65536 0 data chunks ∧
        E01File path (E01Writer.container m chunks) (E01Writer.buffering m chunks.length []) t)
      (fun _ _ => False) s := by
  by_cases none : rest = []
  · subst none
    rw [E01Writer.flushActiveChunk, WP.bind_iff, WP.get_iff, h.file.members]
    exact ⟨chunks, h.split.padded_of_nil, h.file⟩
  · refine (h.file.nextChunk h.split.full none).mono ?_ fun _ _ no => no
    rintro - t flushed
    refine ⟨chunks ++ [array 65536 rest], ?_, ?_⟩
    · rw [array_of_le h.split.short.le]
      exact h.split.padded_of_rest none
    · rw [List.length_append]
      exact flushed

/-- The header of the sectors section is replaced in place. -/
theorem E01File.updateSectorsHeader {front middle : List Byte}
    (h : E01File path (front ++ middle ++ rest) m s)
    (sectors : m.sectorsSectionOffset = UInt64.ofNat front.length) (header : middle.length = 76)
    (small : (front ++ middle ++ rest).length < 2 ^ 63) :
    WP E01Writer.updateSectorsHeader
      (fun _ t => E01File path (front ++ ewfSectionHeader (narrow "sectors")
        (UInt64.ofNat (front ++ middle ++ rest).length)
        (UInt64.ofNat (front ++ middle ++ rest).length - UInt64.ofNat front.length) ++ rest) m t)
      (fun _ _ => False) s := by
  obtain ⟨node, present, whole⟩ := h.node
  have start : (UInt64.ofNat front.length).toNat = front.length := by
    rw [List.append_assoc, List.length_append] at small
    exact UInt64.toNat_ofNat_of_lt' (show _ < 2 ^ 64 by omega)
  have stop : (UInt64.ofNat (front ++ middle ++ rest).length).toNat =
      (front ++ middle ++ rest).length := UInt64.toNat_ofNat_of_lt' (show _ < 2 ^ 64 by omega)
  have inside : front.length ≤ (front ++ middle ++ rest).length := by
    rw [List.append_assoc, List.length_append]
    exact Nat.le_add_right _ _
  rw [E01Writer.updateSectorsHeader, WP.bind_iff, WP.get_iff, h.members]
  simp only [sectors]
  rw [WP.bind_iff, seekFile_reliable h.reliable h.file (by omega), WP.bind_iff,
    writeOnce_reliable h.reliable.enter rfl (ewfSectionHeader_ne_nil _ _ _)
      (by rw [length_ewfSectionHeader]; decide), WP.bind_iff,
    seekFile_reliable (h.reliable.enter.enter.perform _) rfl (by omega), WP.pure_iff, start, stop]
  have entered := World.enter_of_some (World.enter_of_some present)
  have same : ∀ next size, (front ++ ewfSectionHeader (narrow "sectors") next size ++ rest).length =
      (front ++ middle ++ rest).length := by
    intro next size
    simp only [List.length_append, length_ewfSectionHeader, header]
  refine ⟨?_, ?_, ⟨_, World.enter_of_some (Files.modify_self entered), ?_⟩,
    (h.reliable.enter.enter.perform _).enter⟩
  · rw [same]
  · rw [same]
    exact h.members
  · show patch 0 node.content front.length _ = _
    rw [whole, patch_middle 0 rest (by rw [length_ewfSectionHeader, header])]

/-- The table section, of which the entries may be too many for one `WriteFile`. -/
theorem E01File.writeTableSection (h : E01File path content m s) :
    WP E01Writer.writeTableSection
      (fun _ t => E01File path (content ++ E01Writer.sectionBytes "table"
        (UInt64.ofNat content.length) (E01Writer.tableBytes m.chunkTableOffsets)
        (sectionHeaderBytes + UInt64.ofNat (E01Writer.tableBytes m.chunkTableOffsets).length + 4))
        m t)
      (fun _ _ => 2 ^ 32 ≤ (E01Writer.tableBytes m.chunkTableOffsets).length) s := by
  rw [E01Writer.writeTableSection, WP.bind_iff, WP.get_iff, h.members]
  simp only [E01Writer.sectionBytes]
  generalize E01Writer.tableBytes m.chunkTableOffsets = table
  generalize sectionHeaderBytes + UInt64.ofNat table.length + 4 = size
  rw [WP.bind_iff]
  refine (h.writeHeader _ _ _).mono ?_ fun _ _ no => no.elim
  rintro - t h
  have checked : ∀ {t : E01Writer × World},
      E01File path (content ++ ewfSectionHeader (narrow "table")
        (UInt64.ofNat content.length + size) size ++ table) m t →
      WP (E01Writer.emit (u32 (calculateAdler32 table)))
        (fun _ t => E01File path (content ++ (ewfSectionHeader (narrow "table")
          (UInt64.ofNat content.length + size) size ++ table ++ u32 (calculateAdler32 table))) m t)
        (fun _ _ => 2 ^ 32 ≤ table.length) t := by
    intro t h
    refine (h.writeChecksum _).mono ?_ fun _ _ no => no.elim
    rintro - t h
    rwa [List.append_assoc, List.append_assoc, ← List.append_assoc (ewfSectionHeader _ _ _)] at h
  by_cases none : table = []
  · rw [if_pos none]
    apply checked
    rwa [none, List.append_nil]
  · rw [if_neg none, WP.bind_iff]
    exact (h.emit none).mono (fun _ _ h => checked h.2) fun _ _ long => long

/-- The hash section at the given offset: no hash has been computed. -/
def E01Writer.hashSection (offset : UInt64) : List Byte :=
  ewfSectionHeader (narrow "hash") (offset + (sectionHeaderBytes + 36))
    (sectionHeaderBytes + 36) ++ zeros 36

def E01Writer.doneSection : List Byte := ewfSectionHeader (narrow "done") 0 sectionHeaderBytes

theorem E01File.writeHashSection (h : E01File path content m s) :
    WP E01Writer.writeHashSection
      (fun _ t => E01File path (content ++ E01Writer.hashSection (UInt64.ofNat content.length)) m t)
      (fun _ _ => False) s := by
  rw [E01Writer.writeHashSection, WP.bind_iff, WP.get_iff, h.members, WP.bind_iff]
  refine (h.writeHeader _ _ _).mono ?_ fun _ _ no => no
  rintro - t h
  refine (h.append (by decide) (by decide)).mono ?_ fun _ _ no => no
  rintro - t h
  rw [List.append_assoc] at h
  exact h

theorem E01File.writeDoneSection (h : E01File path content m s) :
    WP E01Writer.writeDoneSection
      (fun _ t => E01File path (content ++ E01Writer.doneSection) m t) (fun _ _ => False) s :=
  h.writeHeader _ _ _

/-- The container up to the end of a closed sectors section. -/
def E01Writer.closedSectors (m : E01Members) (chunks : List (List Byte)) : List Byte :=
  front m ++ ewfSectionHeader (narrow "sectors")
    (UInt64.ofNat ((front m).length + chunkDistance chunks.length))
    (UInt64.ofNat (chunkDistance chunks.length)) ++ chunks.flatMap storedChunk

/-- The container up to the end of its table. -/
def E01Writer.closed (m : E01Members) (chunks : List (List Byte)) : List Byte :=
  closedSectors m chunks ++ sectionBytes "table"
    (UInt64.ofNat ((front m).length + chunkDistance chunks.length))
    (tableBytes (recordedEntries chunks.length))
    (sectionHeaderBytes + UInt64.ofNat (tableBytes (recordedEntries chunks.length)).length + 4)

/-- The whole container. -/
def E01Writer.finished (m : E01Members) (chunks : List (List Byte)) : List Byte :=
  closed m chunks ++ (hashSection (UInt64.ofNat (closed m chunks).length) ++ doneSection)

theorem E01Writer.length_closedSectors
    (full : ∀ chunk ∈ chunks, chunk.length = 65536) :
    (closedSectors m chunks).length = (front m).length + chunkDistance chunks.length := by
  rw [closedSectors, List.length_append, List.length_append, length_ewfSectionHeader,
    length_flatMap_storedChunk full, chunkDistance, Nat.add_assoc]

theorem E01Writer.length_tableBytes (entries : List UInt32) :
    (tableBytes entries).length = 4 * entries.length := by
  induction entries with
  | nil => rfl
  | cons entry entries ih =>
      rw [tableBytes, List.flatMap_cons, List.length_append, ← tableBytes, ih, length_u32,
        List.length_cons]
      omega

theorem length_recordedEntries (count : Nat) : (recordedEntries count).length = count := by
  rw [recordedEntries, List.length_map, List.length_range]

/-- Everything that `FlushAndClose` writes, before it closes the file. -/
theorem E01Stream.writeTrailer (h : E01Stream path m data s)
    (small : (E01Writer.front m).length + chunkDistance ((data.length + 65535) / 65536) <
      2 ^ 63) :
    WP E01Writer.writeTrailer
      (fun _ t => FileOpen path t ∧ ∃ chunks, Padded 65536 0 data chunks ∧
        t.2.content path = some (E01Writer.finished m chunks))
      (fun _ _ => 2 ^ 32 ≤ 4 * ((data.length + 65535) / 65536)) s := by
  obtain ⟨chunks, rest, cut⟩ := h
  rw [E01Writer.writeTrailer, WP.bind_iff]
  refine cut.flush.mono ?_ fun _ _ no => no.elim
  clear cut
  rintro - t ⟨chunks, padded, h⟩
  have length := E01Writer.length_container (m := m) padded.full
  rw [← padded.count] at small ⊢
  rw [WP.bind_iff]
  refine (h.updateSectorsHeader rfl (length_ewfSectionHeader _ _ _) (by
    rw [← E01Writer.container, length]; exact small)).mono ?_ fun _ _ no => no.elim
  rintro - t h
  rw [← E01Writer.container, length] at h
  have sectors : UInt64.ofNat ((E01Writer.front m).length + chunkDistance chunks.length) -
      UInt64.ofNat (E01Writer.front m).length = UInt64.ofNat (chunkDistance chunks.length) := by
    rw [UInt64.ofNat_add, UInt64.add_comm, UInt64.add_sub_cancel]
  rw [sectors] at h
  have table : (E01Writer.tableBytes (recordedEntries chunks.length)).length =
      4 * chunks.length := by
    rw [E01Writer.length_tableBytes, length_recordedEntries]
  rw [WP.bind_iff]
  refine h.writeTableSection.mono ?_ fun _ _ long => Nat.le_trans long table.le
  rw [← E01Writer.closedSectors, E01Writer.length_closedSectors padded.full]
  rintro - t h
  have h : E01File path (E01Writer.closed m chunks) (E01Writer.buffering m chunks.length []) t := h
  rw [WP.bind_iff]
  refine h.writeHashSection.mono ?_ fun _ _ no => no.elim
  rintro - t h
  rw [WP.bind_iff]
  refine h.writeDoneSection.mono ?_ fun _ _ no => no.elim
  rintro - t h
  obtain ⟨node, present, content⟩ := h.node
  rw [WP.bind_iff, flushFile_reliable h.reliable h.file, if_pos rfl, WP.pure_iff]
  refine ⟨⟨_, rfl, rfl⟩, chunks, padded, ?_⟩
  rw [World.content, World.perform_files]
  show Option.map _ (Files.modify path _ _ path) = _
  rw [Files.modify_self (World.enter_of_some present), Option.map_some, content,
    List.append_assoc]
  rfl

/-- The content of the file after `FlushAndClose`. -/
theorem E01Stream.flushAndClose (h : E01Stream path m data s)
    (small : (E01Writer.front m).length + chunkDistance ((data.length + 65535) / 65536) <
      2 ^ 63) :
    WP E01Writer.flushAndClose
      (fun _ t => ∃ chunks, Padded 65536 0 data chunks ∧
        t.2.content path = some (E01Writer.finished m chunks))
      (fun _ _ => 2 ^ 32 ≤ 4 * ((data.length + 65535) / 65536)) s := by
  have trailer := h.writeTrailer small
  obtain ⟨chunks, rest, cut⟩ := h
  rw [E01Writer.flushAndClose, WP.bind_iff, WP.get_iff,
    if_neg (by rw [cut.file.file]; exact Bool.false_ne_true), WP.bind_iff, WP.tryCatch_iff]
  refine trailer.mono ?_ fun _ _ long => long
  rintro - t ⟨-, chunks, padded, content⟩
  rw [E01Writer.close, resetFile_wp]
  refine ⟨chunks, padded, ?_⟩
  rw [World.content, Option.map_eq_some_iff] at content
  obtain ⟨node, present, content⟩ := content
  obtain ⟨node', present', same⟩ := closedWorld_content t.1 present
  rw [World.content, present', Option.map_some, same, content]

end Closing

/-! ### The size of the table -/

/-- So many entries have been recorded, wherever the file pointer is. -/
structure E01Tabled (count : Nat) (s : E01Writer × World) : Prop where
  file : ∃ file, s.1.file = some file
  table : s.1.members.chunkTableOffsets.length = count
  reliable : s.2.Reliable

namespace E01Tabled

variable {count : Nat} {data : List Byte} {s : E01Writer × World}

theorem emit (h : E01Tabled count s) (nonempty : data ≠ []) :
    WP (E01Writer.emit data) (fun _ t => data.length < 2 ^ 32 ∧ E01Tabled count t)
      (fun _ _ => True) s := by
  obtain ⟨file, opened⟩ := h.file
  rw [E01Writer.emit, WP.bind_iff]
  refine writeExactly_reliable h.reliable opened nonempty (fun short => ?_) fun _ _ => trivial
  exact ⟨short, ⟨_, rfl⟩, h.table, h.reliable.enter.perform _⟩

theorem seekFile (h : E01Tabled count s) (offset : UInt64) :
    WP (seekFile offset) (fun _ t => E01Tabled count t) (fun _ _ => True) s := by
  obtain ⟨file, opened⟩ := h.file
  exact seekFile_wp opened ⟨⟨_, rfl⟩, h.table, h.reliable.enter⟩ fun _ =>
    ⟨⟨_, rfl⟩, h.table, h.reliable.enter⟩

theorem updateSectorsHeader (h : E01Tabled count s) :
    WP E01Writer.updateSectorsHeader (fun _ t => E01Tabled count t) (fun _ _ => True) s := by
  rw [E01Writer.updateSectorsHeader, WP.bind_iff, WP.get_iff, WP.bind_iff]
  refine (h.seekFile _).mono ?_ fun _ _ _ => trivial
  rintro - t h
  obtain ⟨file, opened⟩ := h.file
  rw [WP.bind_iff, writeOnce_reliable h.reliable opened (ewfSectionHeader_ne_nil _ _ _)
    (by rw [length_ewfSectionHeader]; decide), WP.bind_iff]
  refine (E01Tabled.seekFile ?_ _).mono (fun _ _ h => h) fun _ _ _ => trivial
  exact ⟨⟨_, rfl⟩, h.table, h.reliable.enter.perform _⟩

theorem writeTableSection (h : E01Tabled count s) :
    WP E01Writer.writeTableSection (fun _ _ => 4 * count < 2 ^ 32) (fun _ _ => True) s := by
  have length : (E01Writer.tableBytes s.1.members.chunkTableOffsets).length = 4 * count := by
    rw [E01Writer.length_tableBytes, h.table]
  rw [E01Writer.writeTableSection, WP.bind_iff, WP.get_iff, WP.bind_iff]
  refine (h.emit (ewfSectionHeader_ne_nil _ _ _)).mono ?_ fun _ _ _ => trivial
  rintro - t ⟨-, h⟩
  generalize E01Writer.tableBytes s.1.members.chunkTableOffsets = table at length ⊢
  by_cases none : table = []
  · rw [if_pos none]
    refine (h.emit (u32_ne_nil _)).mono (fun _ _ _ => ?_) fun _ _ _ => trivial
    rw [none, List.length_nil] at length
    omega
  · rw [if_neg none, WP.bind_iff]
    refine (h.emit none).mono ?_ fun _ _ _ => trivial
    rintro - u ⟨short, h⟩
    exact (h.emit (u32_ne_nil _)).mono (fun _ _ _ => by omega) fun _ _ _ => trivial

end E01Tabled

/-- A container whose table has been written is of a moderate size. -/
theorem E01Stream.table_small {path : WString} {m : E01Members} {data : List Byte}
    {s : E01Writer × World} (h : E01Stream path m data s)
    (closed : (e01Writer.flushAndClose s).1 = true) :
    4 * ((data.length + 65535) / 65536) < 2 ^ 32 := by
  obtain ⟨chunks, rest, cut⟩ := h
  suffices trailer : WP E01Writer.flushAndClose
      (fun _ _ => 4 * ((data.length + 65535) / 65536) < 2 ^ 32) (fun _ _ => True) s by
    obtain ⟨_, -, small⟩ := trailer.of_returned closed
    exact small
  rw [E01Writer.flushAndClose, WP.bind_iff, WP.get_iff,
    if_neg (by rw [cut.file.file]; exact Bool.false_ne_true), WP.bind_iff, WP.tryCatch_iff,
    E01Writer.writeTrailer, WP.bind_iff]
  refine cut.flush.mono ?_ fun _ _ no => no.elim
  clear cut
  rintro - t ⟨chunks, padded, h⟩
  have tabled : E01Tabled chunks.length t :=
    ⟨⟨_, h.file⟩, by rw [h.members]; exact length_recordedEntries _, h.reliable⟩
  rw [← padded.count, WP.bind_iff]
  refine tabled.updateSectorsHeader.mono ?_ fun _ _ _ => trivial
  rintro - t tabled
  rw [WP.bind_iff]
  refine tabled.writeTableSection.mono ?_ fun _ _ _ => trivial
  intro _ _ small
  exact .always (fun _ _ => small) fun _ _ => trivial

end PhylaRam
