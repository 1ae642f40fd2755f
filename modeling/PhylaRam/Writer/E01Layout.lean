import PhylaRam.Writer.E01Image

/-!
# The sections of the container and the chunk table

A reader of the container goes from section to section. `E01Layout` says what it finds, which
the bytes of the file determine.

The table entries are 32 bits wide. An entry is the exact distance of its chunk up to the
65532nd chunk, and it has lost its upper bits from the next one on.
-/

namespace PhylaRam

open Program Packed Image Chunks

/-! ### The sections of the file -/

/-- How a reader finds the chunks and their table: from section to section, starting behind the
file header. -/
structure E01Layout (content : List Byte) (chunkCount : UInt32) (sectorCount sectors : UInt64)
    (chunks : List (List Byte)) (entries : List UInt32) : Prop where
  volume : ∃ volume size size',
    HasAt content 13 (ewfSectionHeader (narrow "header") volume size) ∧
    HasAt content volume.toNat (ewfSectionHeader (narrow "volume") sectors size' ++
      ewfVolumeSection chunkCount sectorCount)
  full : ∀ chunk ∈ chunks, chunk.length = 65536
  table : ∃ table next,
    HasAt content sectors.toNat (ewfSectionHeader (narrow "sectors") table
      (UInt64.ofNat (chunkDistance chunks.length)) ++ chunks.flatMap storedChunk) ∧
    HasAt content table.toNat (ewfSectionHeader (narrow "table") next
      (UInt64.ofNat (80 + 4 * entries.length)) ++ E01Writer.tableBytes entries)

/-- A chunk lies at its distance, followed by its checksum. -/
theorem E01Layout.chunk {content : List Byte} {chunkCount : UInt32}
    {sectorCount sectors : UInt64} {chunks : List (List Byte)} {entries : List UInt32}
    (h : E01Layout content chunkCount sectorCount sectors chunks entries) {k : Nat}
    {chunk : List Byte} (found : chunks[k]? = some chunk) :
    HasAt content (sectors.toNat + chunkDistance k) (storedChunk chunk) := by
  obtain ⟨table, next, sectors, -⟩ := h.table
  obtain ⟨-, stream⟩ := HasAt.append_iff.mp sectors
  rw [length_ewfSectionHeader] at stream
  obtain ⟨before, after, split, length⟩ := flatten_split (length_storedChunk h.full)
    (List.getElem?_map ▸ found ▸ rfl : (chunks.map storedChunk)[k]? = some (storedChunk chunk))
  rw [List.flatMap, split, List.append_assoc, HasAt.append_iff, HasAt.append_iff, length,
    Nat.add_assoc] at stream
  exact stream.2.1

/-! ### The bytes determine the layout -/

theorem ewfSectionHeader_inj {type : NString} {next next' size size' : UInt64}
    (same : ewfSectionHeader type next size = ewfSectionHeader type next' size') :
    next = next' ∧ size = size' := by
  rw [ewfSectionHeader, ewfSectionHeader] at same
  have body := (List.append_inj same (by simp [sectionHeaderBody])).1
  rw [sectionHeaderBody, sectionHeaderBody] at body
  have fields := (List.append_inj body (by simp)).1
  obtain ⟨first, second⟩ := List.append_inj fields (by simp)
  exact ⟨u64_inj (List.append_inj first rfl).2, u64_inj second⟩

theorem ewfVolumeSection_inj {chunkCount chunkCount' : UInt32} {sectorCount sectorCount' : UInt64}
    (same : ewfVolumeSection chunkCount sectorCount = ewfVolumeSection chunkCount' sectorCount') :
    chunkCount = chunkCount' ∧ sectorCount = sectorCount' := by
  rw [ewfVolumeSection, ewfVolumeSection] at same
  have nine := (List.append_inj same (by simp)).1
  have eight := (List.append_inj nine (by simp)).1
  have seven := (List.append_inj eight (by simp)).1
  obtain ⟨six, sectors⟩ := List.append_inj seven (by simp)
  have five := (List.append_inj six (by simp)).1
  have four := (List.append_inj five (by simp)).1
  exact ⟨u32_inj (List.append_inj four rfl).2, u64_inj sectors⟩

theorem storedChunks_inj {chunks chunks' : List (List Byte)}
    (full : ∀ chunk ∈ chunks, chunk.length = 65536)
    (full' : ∀ chunk ∈ chunks', chunk.length = 65536) (count : chunks.length = chunks'.length)
    (same : chunks.flatMap storedChunk = chunks'.flatMap storedChunk) : chunks = chunks' := by
  induction chunks generalizing chunks' with
  | nil => exact (List.length_eq_zero_iff.mp count.symm).symm
  | cons chunk chunks ih =>
      cases chunks' with
      | nil => cases count
      | cons chunk' chunks' =>
          obtain ⟨first, later⟩ := List.forall_mem_cons.mp full
          obtain ⟨first', later'⟩ := List.forall_mem_cons.mp full'
          rw [List.flatMap_cons, List.flatMap_cons] at same
          obtain ⟨head, tail⟩ := List.append_inj same (by
            rw [storedChunk, storedChunk, List.length_append, List.length_append, first, first',
              length_u32, length_u32])
          rw [(List.append_inj head (first.trans first'.symm)).1,
            ih later later' (Nat.succ.inj count) tail]

/-- Two readers of the same bytes find the same chunks and the same counts. -/
theorem E01Layout.unique {content : List Byte} {chunkCount chunkCount' : UInt32}
    {sectorCount sectorCount' sectors sectors' : UInt64} {chunks chunks' : List (List Byte)}
    {entries entries' : List UInt32}
    (h : E01Layout content chunkCount sectorCount sectors chunks entries)
    (h' : E01Layout content chunkCount' sectorCount' sectors' chunks' entries')
    (few : chunks.length < 2 ^ 32) (few' : chunks'.length < 2 ^ 32) :
    chunkCount = chunkCount' ∧ sectorCount = sectorCount' ∧ chunks = chunks' := by
  obtain ⟨volume, size, volumeSize, header, described⟩ := h.volume
  obtain ⟨volume', size', volumeSize', header', described'⟩ := h'.volume
  obtain ⟨rfl, -⟩ := ewfSectionHeader_inj (header.unique header' (by
    rw [length_ewfSectionHeader, length_ewfSectionHeader]))
  have volumes := described.unique described' (by
    simp only [List.length_append, length_ewfSectionHeader, length_ewfVolumeSection])
  obtain ⟨first, second⟩ := List.append_inj volumes (by
    rw [length_ewfSectionHeader, length_ewfSectionHeader])
  obtain ⟨rfl, -⟩ := ewfSectionHeader_inj first
  obtain ⟨rfl, rfl⟩ := ewfVolumeSection_inj second
  obtain ⟨table, next, stream, -⟩ := h.table
  obtain ⟨table', next', stream', -⟩ := h'.table
  rw [HasAt.append_iff, length_ewfSectionHeader] at stream stream'
  obtain ⟨-, distance⟩ := ewfSectionHeader_inj (stream.1.unique stream'.1 (by
    rw [length_ewfSectionHeader, length_ewfSectionHeader]))
  have count : chunks.length = chunks'.length := by
    have exact := congrArg UInt64.toNat distance
    rw [UInt64.toNat_ofNat_of_lt' (show _ < 2 ^ 64 by rw [chunkDistance]; omega),
      UInt64.toNat_ofNat_of_lt' (show _ < 2 ^ 64 by rw [chunkDistance]; omega), chunkDistance,
      chunkDistance] at exact
    omega
  refine ⟨rfl, rfl, storedChunks_inj h.full h'.full count (stream.2.unique stream'.2 ?_)⟩
  rw [length_flatMap_storedChunk h.full, length_flatMap_storedChunk h'.full, count]

section Layout

variable {m : E01Members} {chunks : List (List Byte)}

theorem E01Writer.sectionSize (length : Nat) :
    sectionHeaderBytes + UInt64.ofNat length + 4 = UInt64.ofNat (length + 80) := by
  rw [Nat.add_comm length 80, UInt64.ofNat_add, UInt64.add_assoc, UInt64.add_comm _ 4,
    ← UInt64.add_assoc]
  rfl

theorem E01Writer.finished_layout (full : ∀ chunk ∈ chunks, chunk.length = 65536)
    (small : (front m).length + chunkDistance chunks.length < 2 ^ 63) :
    E01Layout (finished m chunks)
      ((m.totalPhysicalBytes + 65536 - 1) / 65536).toUInt32 (m.totalPhysicalBytes / 512)
      (UInt64.ofNat (front m).length) chunks (recordedEntries chunks.length) := by
  have opened := length_opening m
  have whole := length_front m
  have sectors : (UInt64.ofNat (front m).length).toNat = (front m).length :=
    UInt64.toNat_ofNat_of_lt' (show _ < 2 ^ 64 by omega)
  refine ⟨?_, full, ?_⟩
  · have volume : (13 : UInt64) + (sectionHeaderBytes +
        UInt64.ofNat (metaString m.metadata).length + 4) = UInt64.ofNat (opening m).length := by
      rw [sectionSize, opened, Nat.add_comm _ 93, Nat.add_comm _ 80, UInt64.ofNat_add,
        UInt64.ofNat_add, ← UInt64.add_assoc]
      rfl
    have next : UInt64.ofNat (opening m).length + (sectionHeaderBytes + 992 + 4) =
        UInt64.ofNat (front m).length := by
      rw [front, List.length_append, length_sectionBytes, length_volumeSection, UInt64.ofNat_add]
      rfl
    have place : (UInt64.ofNat (opening m).length).toNat = (opening m).length :=
      UInt64.toNat_ofNat_of_lt' (show _ < 2 ^ 64 by omega)
    have file : ∀ {start : Nat} {bytes : List Byte}, HasAt (front m) start bytes →
        HasAt (finished m chunks) start bytes := fun h =>
      (((h.left _).left _).left _).left _
    have header : HasAt (opening m) 13 (ewfSectionHeader (narrow "header") _ _) :=
      (((HasAt.start _).left _).left _).right ewfFileHeader
    have described : HasAt (front m) (opening m).length
        (ewfSectionHeader (narrow "volume") _ _ ++ volumeSection m.totalPhysicalBytes) :=
      ((HasAt.start _).left _).right (opening m)
    rw [volume] at header
    rw [next, ← place] at described
    exact ⟨_, _, _, file (header.left _), file described⟩
  · have place : (UInt64.ofNat ((front m).length + chunkDistance chunks.length)).toNat =
        (closedSectors m chunks).length := by
      rw [length_closedSectors full]
      exact UInt64.toNat_ofNat_of_lt' (show _ < 2 ^ 64 by omega)
    have size : sectionHeaderBytes +
        UInt64.ofNat (tableBytes (recordedEntries chunks.length)).length + 4 =
          UInt64.ofNat (80 + 4 * (recordedEntries chunks.length).length) := by
      rw [sectionSize, length_tableBytes, Nat.add_comm]
    have entries : HasAt (closed m chunks) (closedSectors m chunks).length
        (ewfSectionHeader (narrow "table") _ _ ++ tableBytes (recordedEntries chunks.length)) :=
      ((HasAt.start _).left _).right (closedSectors m chunks)
    have stored : HasAt (closedSectors m chunks) (UInt64.ofNat (front m).length).toNat
        (ewfSectionHeader (narrow "sectors")
          (UInt64.ofNat ((front m).length + chunkDistance chunks.length))
          (UInt64.ofNat (chunkDistance chunks.length)) ++ chunks.flatMap storedChunk) := by
      rw [sectors, closedSectors, List.append_assoc]
      exact HasAt.after _ _
    rw [size, ← place] at entries
    exact ⟨_, _, (stored.left _).left _, entries.left _⟩

end Layout

/-! ### The chunk table -/

/-- The data in chunks, each at the exact distance that the table gives for it. -/
structure ChunkTable (content data : List Byte) (sectors : UInt64) (chunks : List (List Byte))
    (entries : List UInt32) : Prop where
  padded : Padded 65536 0 data chunks
  count : entries.length = chunks.length
  distance : ∀ (k : Nat) (entry : UInt32), entries[k]? = some entry →
    entry.toNat = chunkDistance k
  stored : ∀ (k : Nat) (entry : UInt32) (chunk : List Byte), entries[k]? = some entry →
    chunks[k]? = some chunk → HasAt content (sectors.toNat + entry.toNat) (storedChunk chunk)

/-- The sections of the file hold the data with an exact table. -/
def HasChunkTable (content data : List Byte) : Prop :=
  ∃ chunkCount sectorCount sectors chunks entries,
    E01Layout content chunkCount sectorCount sectors chunks entries ∧
      ChunkTable content data sectors chunks entries

theorem getElem?_recordedEntries {count k : Nat} {entry : UInt32}
    (found : (recordedEntries count)[k]? = some entry) :
    k < count ∧ entry = UInt32.ofNat (chunkDistance k) := by
  obtain ⟨inside, rfl⟩ := List.getElem?_eq_some_iff.mp found
  rw [length_recordedEntries] at inside
  refine ⟨inside, ?_⟩
  simp only [recordedEntries, List.getElem_map, List.getElem_range]

/-- The distance of the 65533rd chunk does not fit into an entry. -/
theorem ChunkTable.length_le {content data : List Byte} {sectors : UInt64}
    {chunks : List (List Byte)} {entries : List UInt32}
    (h : ChunkTable content data sectors chunks entries) : data.length ≤ 65532 * 65536 := by
  by_contra long
  have count := h.padded.count
  have inside : 65532 < entries.length := by
    rw [h.count, count]
    omega
  have distance := h.distance 65532 _ (List.getElem?_eq_getElem inside)
  have small := entries[65532].toNat_lt
  rw [distance, chunkDistance] at small
  omega

/-- Up to the 65532nd chunk the entries are exact. -/
theorem E01Layout.chunkTable {content data : List Byte} {chunkCount : UInt32}
    {sectorCount sectors : UInt64} {chunks : List (List Byte)}
    (h : E01Layout content chunkCount sectorCount sectors chunks
      (recordedEntries chunks.length))
    (padded : Padded 65536 0 data chunks) (small : data.length ≤ 65532 * 65536) :
    ChunkTable content data sectors chunks (recordedEntries chunks.length) := by
  have exact : ∀ k entry, (recordedEntries chunks.length)[k]? = some entry →
      entry.toNat = chunkDistance k := by
    intro k entry found
    obtain ⟨inside, rfl⟩ := getElem?_recordedEntries found
    have count := padded.count
    refine UInt32.toNat_ofNat_of_lt' (show _ < 2 ^ 32 from ?_)
    rw [chunkDistance]
    omega
  refine ⟨padded, length_recordedEntries _, exact, fun k entry chunk recorded found => ?_⟩
  rw [exact k entry recorded]
  exact h.chunk found

section Runs

variable {path : WString} {logicalSize expected : UInt64} {s : E01Writer × World}

/-- A container that has been opened is at the beginning of its stream. -/
theorem e01_opened (reliable : s.2.Reliable)
    (opened : (e01Writer.preflightAndOpen path logicalSize expected s).1 = true) :
    ∃ m, m.totalPhysicalBytes = expected ∧ (E01Writer.front m).length < 2 ^ 33 ∧
      E01Stream path m [] (e01Writer.preflightAndOpen path logicalSize expected s).2 := by
  obtain ⟨_, -, short, file⟩ :=
    (E01File.preflightAndOpen logicalSize expected reliable).of_returned opened
  refine ⟨{ s.1.members with
    totalPhysicalBytes := expected
    chunkBuffer := []
    chunkTableOffsets := [] }, rfl, ?_, [], [], Split.nil (by decide), ?_⟩
  · rw [E01Writer.length_front]
    omega
  · rw [E01Writer.container, List.flatMap_nil, List.append_nil]
    exact file

/-- A stream of moderate size can be closed. -/
theorem E01Stream.closes {m : E01Members} {data : List Byte} (stream : E01Stream path m data s)
    (front : (E01Writer.front m).length < 2 ^ 33) (small : data.length ≤ 2 ^ 32) :
    (e01Writer.flushAndClose s).1 = true := by
  have closing := (stream.flushAndClose (by rw [chunkDistance]; omega)).mono
    (fun _ _ h => h) fun _ _ long => show False by omega
  obtain ⟨_, t, ran, -⟩ := closing.returns
  show returned (E01Writer.flushAndClose s) = true
  rw [ran]
  rfl

/-- The container that holds the writes of a caller, which may be of any size up to the limit
of the file system. -/
theorem e01_container (reliable : s.2.Reliable)
    (opened : (e01Writer.preflightAndOpen path logicalSize expected s).1 = true)
    {writes : List (UInt64 × List Byte)} (nonempty : ∀ write ∈ writes, write.2 ≠ [])
    (small : (writes.flatMap Prod.snd).length ≤ 2 ^ 32) :
    ∃ content chunkCount sectorCount sectors chunks,
      (e01Writer.flushAndClose (e01Writer.writeAll writes
        (e01Writer.preflightAndOpen path logicalSize expected s).2)).1 = true ∧
      (e01Writer.flushAndClose (e01Writer.writeAll writes
        (e01Writer.preflightAndOpen path logicalSize expected s).2)).2.2.content path =
          some content ∧
      Padded 65536 0 (writes.flatMap Prod.snd) chunks ∧
      E01Layout content chunkCount sectorCount sectors chunks
        (recordedEntries chunks.length) := by
  obtain ⟨m, -, front, stream⟩ := e01_opened reliable opened
  have stream := stream.writeAll nonempty
  rw [List.nil_append] at stream
  have closed := stream.closes front small
  obtain ⟨_, -, chunks, padded, content⟩ :=
    (stream.flushAndClose (by rw [chunkDistance]; omega)).of_returned closed
  have distance : (E01Writer.front m).length + chunkDistance chunks.length < 2 ^ 63 := by
    rw [padded.count, chunkDistance]
    omega
  exact ⟨_, _, _, _, chunks, closed, content, padded,
    E01Writer.finished_layout padded.full distance⟩

/-- After any sequence of writes the table is exact if and only if the data has at most 65532
chunks. -/
theorem e01_chunk_table_iff (path : WString) (logicalSize expected : UInt64)
    (s : E01Writer × World) (reliable : s.2.Reliable)
    (opened : (e01Writer.preflightAndOpen path logicalSize expected s).1 = true)
    (writes : List (UInt64 × List Byte)) (nonempty : ∀ write ∈ writes, write.2 ≠ []) :
    let t := e01Writer.flushAndClose (e01Writer.writeAll writes
      (e01Writer.preflightAndOpen path logicalSize expected s).2)
    (t.1 = true ∧ ∃ content, t.2.2.content path = some content ∧
      HasChunkTable content (writes.flatMap Prod.snd)) ↔
        (writes.flatMap Prod.snd).length ≤ 65532 * 65536 := by
  intro t
  constructor
  · rintro ⟨-, content, -, _, _, _, _, _, -, table⟩
    exact table.length_le
  · intro small
    obtain ⟨content, chunkCount, sectorCount, sectors, chunks, closed, holds, padded, layout⟩ :=
      e01_container reliable opened nonempty (by omega)
    exact ⟨closed, content, holds, chunkCount, sectorCount, sectors, chunks, _, layout,
      layout.chunkTable padded small⟩

end Runs

/-- A container that has been opened in an environment in which every call succeeds. -/
def newContainer : E01Writer × World :=
  ({ members := {} },
    { files := ⟨fun _ => none, []⟩
      oracle := fun _ => { limit := 2 ^ 32 - 1 } })

theorem newContainer_reliable : newContainer.2.Reliable := fun _ => ⟨rfl, rfl⟩

theorem newContainer_opened :
    (e01Writer.preflightAndOpen (wide "a.E01.partial") 1 1 newContainer).1 = true := by
  decide +kernel

/-- A case record in which every field is filled. -/
def caseRecord : EvidenceMetadata where
  caseNumber := wide "2026-017"
  evidenceNumber := wide "RAM-3"
  examiner := wide "Examiner 12"
  description := wide "Workstation, powered on"
  notes := wide "Captured before shutdown"

/-- A container for such a case, with 72 KiB of memory in two runs. -/
def caseContainer : E01Writer × World :=
  e01Writer.configure [⟨0, 0x1000, 0x11000⟩, ⟨1, 0x20000, 0x1000⟩] {} caseRecord newContainer

theorem caseContainer_reliable : caseContainer.2.Reliable := fun _ => ⟨rfl, rfl⟩

theorem caseContainer_opened :
    (e01Writer.preflightAndOpen (wide "a.E01.partial") 0x21000 0x12000 caseContainer).1 = true := by
  decide +kernel

/-- The memory of the two runs. The first write fills a chunk and begins another. -/
def caseWrites : List (UInt64 × List Byte) :=
  [(0x1000, List.replicate 0x11000 7), (0x20000, List.replicate 0x1000 9)]

theorem length_caseWrites : (caseWrites.flatMap Prod.snd).length = 0x12000 := by
  rw [caseWrites, List.flatMap_cons, List.flatMap_cons, List.flatMap_nil, List.append_nil,
    List.length_append, List.length_replicate, List.length_replicate]

theorem caseWrites_nonempty : ∀ write ∈ caseWrites, write.2 ≠ [] :=
  List.forall_mem_cons.mpr ⟨mt (List.replicate_eq_nil_iff 7).mp (by decide),
    List.forall_mem_singleton.mpr (mt (List.replicate_eq_nil_iff 9).mp (by decide))⟩

theorem e01_chunk_table_two_chunks :
    let t := e01Writer.flushAndClose (e01Writer.writeAll caseWrites
      (e01Writer.preflightAndOpen (wide "a.E01.partial") 0x21000 0x12000 caseContainer).2)
    t.1 = true ∧ ∃ content, t.2.2.content (wide "a.E01.partial") = some content ∧
      HasChunkTable content (caseWrites.flatMap Prod.snd) :=
  (e01_chunk_table_iff (wide "a.E01.partial") 0x21000 0x12000 caseContainer
    caseContainer_reliable caseContainer_opened caseWrites caseWrites_nonempty).mpr
    (by rw [length_caseWrites]; decide)

/-- After one write of 4 GiB the entry of the 65533rd chunk is 60, which is a place within the
section header. -/
theorem e01_chunk_table_four_gib :
    let data := List.replicate (2 ^ 32) (0 : Byte)
    let t := e01Writer.flushAndClose (e01Writer.writeAll [(0, data)]
      (e01Writer.preflightAndOpen (wide "a.E01.partial") 1 1 newContainer).2)
    t.1 = true ∧ ∃ content chunkCount sectorCount sectors chunks entries,
      t.2.2.content (wide "a.E01.partial") = some content ∧ Padded 65536 0 data chunks ∧
      E01Layout content chunkCount sectorCount sectors chunks entries ∧
      entries[65532]? = some 60 ∧ ¬HasChunkTable content data := by
  have length : (List.replicate (2 ^ 32) (0 : Byte)).length = 2 ^ 32 := List.length_replicate
  generalize List.replicate (2 ^ 32) (0 : Byte) = data at length
  intro written t
  have flat : [((0 : UInt64), data)].flatMap Prod.snd = data := List.append_nil data
  have nonempty : ∀ write ∈ [((0 : UInt64), data)], write.2 ≠ [] := by
    intro write member
    rw [List.mem_singleton.mp member, ← List.length_pos_iff, length]
    decide
  have container := e01_container newContainer_reliable newContainer_opened nonempty
  rw [flat] at container
  obtain ⟨content, chunkCount, sectorCount, sectors, chunks, closed, holds, padded, layout⟩ :=
    container length.le
  refine ⟨closed, content, chunkCount, sectorCount, sectors, chunks, _, holds, padded, layout,
    ?_, ?_⟩
  · have count := padded.count
    rw [length] at count
    have inside : 65532 < (recordedEntries chunks.length).length := by
      rw [length_recordedEntries, count]
      decide
    rw [List.getElem?_eq_getElem inside]
    simp only [recordedEntries, List.getElem_map, List.getElem_range]
    decide
  · rintro ⟨_, _, _, _, _, -, table⟩
    have bound := table.length_le
    rw [length] at bound
    exact absurd bound (by decide)

end PhylaRam
