import PhylaRam.Library.Word
import PhylaRam.Writer.E01Layout

/-!
# The chain of sections

A reader enters the container behind the file header and follows `NextOffset` until it is zero.
`SectionChain` lists the types that it meets. Each section of the chain ends where the next
one begins, and the last one ends with the file, so the sections cover the file without a gap.
-/

namespace PhylaRam

open Program Packed Chunks

/-- A section header lies there, and its checksum is the Adler-32 of the 72 bytes before it. -/
structure SectionAt (content : List Byte) (place : Nat) (type : String)
    (next size : UInt64) : Prop where
  body : HasAt content place (sectionHeaderBody (narrow type) next size)
  checksum : HasAt content (place + 72) (u32 (calculateAdler32 ((content.drop place).take 72)))

/-- The types of the sections that a reader meets from that place on. -/
inductive SectionChain (content : List Byte) : Nat → List String → Prop
  | last {place : Nat} {type : String} (header : SectionAt content place type 0 76)
      (stop : place + 76 = content.length) : SectionChain content place [type]
  | link {place : Nat} {type : String} {next size : UInt64} {types : List String}
      (header : SectionAt content place type next size)
      (linked : next.toNat = place + size.toNat) (whole : 76 ≤ size.toNat)
      (rest : SectionChain content next.toNat types) :
      SectionChain content place (type :: types)

/-- The sections of a container. -/
def sectionTypes : List String := ["header", "volume", "sectors", "table", "hash", "done"]

section Chain

variable {content : List Byte} {place length : Nat} {type : String} {next size : UInt64}
  {types : List String}

theorem length_sectionHeaderBody (type : NString) (next size : UInt64) :
    (sectionHeaderBody type next size).length = 72 := by
  simp [sectionHeaderBody]

theorem SectionAt.of_hasAt (h : HasAt content place (ewfSectionHeader (narrow type) next size)) :
    SectionAt content place type next size := by
  rw [ewfSectionHeader, HasAt.append_iff, length_sectionHeaderBody] at h
  have first : (content.drop place).take 72 = sectionHeaderBody (narrow type) next size := by
    rw [← length_sectionHeaderBody (narrow type) next size]
    exact (List.prefix_iff_eq_take.mp h.1).symm
  refine ⟨h.1, ?_⟩
  rw [first]
  exact h.2

/-- A section whose `NextOffset` is its offset plus its size, and the chain behind it. -/
theorem SectionChain.cons (length : Nat) (sized : size.toNat = length)
    (header : HasAt content place
      (ewfSectionHeader (narrow type) (UInt64.ofNat place + size) size))
    (small : place + length < 2 ^ 64) (whole : 76 ≤ length)
    (rest : SectionChain content (place + length) types) :
    SectionChain content place (type :: types) := by
  subst sized
  have linked : (UInt64.ofNat place + size).toNat = place + size.toNat := by
    have exact : (UInt64.ofNat place).toNat = place :=
      UInt64.toNat_ofNat_of_lt' (show _ < 2 ^ 64 by omega)
    rw [Word.toNat_add_of_lt (by rwa [exact]), exact]
  rw [← linked] at rest
  exact .link (.of_hasAt header) linked whole rest

end Chain

namespace E01Writer

variable {m : E01Members} {chunks : List (List Byte)}

theorem length_closed (full : ∀ chunk ∈ chunks, chunk.length = 65536) :
    (closed m chunks).length =
      (front m).length + chunkDistance chunks.length + (4 * chunks.length + 80) := by
  rw [closed, List.length_append, length_closedSectors full, length_sectionBytes,
    length_tableBytes, length_recordedEntries]

/-- The hash and done sections behind the table. -/
theorem hash_chain (small : (closed m chunks).length + 112 < 2 ^ 64) :
    SectionChain (finished m chunks) (closed m chunks).length ["hash", "done"] := by
  have hash : (hashSection (UInt64.ofNat (closed m chunks).length)).length = 112 := by
    rw [hashSection, List.length_append, length_ewfSectionHeader, length_zeros]
  have done : doneSection.length = 76 := length_ewfSectionHeader _ _ _
  refine .cons 112 (rfl : (sectionHeaderBytes + 36).toNat = 112)
    ((((HasAt.start _).left _).left _).right (closed m chunks)) small (by decide) ?_
  have last : HasAt (finished m chunks)
      ((closed m chunks).length + ((hashSection (UInt64.ofNat (closed m chunks).length)).length + 0))
      doneSection := ((HasAt.start _).right _).right _
  rw [hash] at last
  refine .last (.of_hasAt last) ?_
  rw [finished, List.length_append, List.length_append, hash, done]

theorem toNat_sectionSize {length : Nat} (small : length < 2 ^ 63) :
    (sectionHeaderBytes + UInt64.ofNat length + 4).toNat = length + 80 := by
  rw [sectionSize]
  exact UInt64.toNat_ofNat_of_lt' (show _ < 2 ^ 64 by omega)

section Container

variable (full : ∀ chunk ∈ chunks, chunk.length = 65536)
  (small : (front m).length + chunkDistance chunks.length < 2 ^ 63)
  (few : 4 * chunks.length < 2 ^ 32)

include full small few

theorem table_chain :
    SectionChain (finished m chunks) (closedSectors m chunks).length ["table", "hash", "done"] := by
  have table : (tableBytes (recordedEntries chunks.length)).length = 4 * chunks.length := by
    rw [length_tableBytes, length_recordedEntries]
  have place := length_closedSectors (m := m) full
  have stop := length_closed (m := m) full
  have header : HasAt (closed m chunks) (closedSectors m chunks).length
      (ewfSectionHeader (narrow "table")
        (UInt64.ofNat ((front m).length + chunkDistance chunks.length) +
          (sectionHeaderBytes +
            UInt64.ofNat (tableBytes (recordedEntries chunks.length)).length + 4))
        (sectionHeaderBytes +
          UInt64.ofNat (tableBytes (recordedEntries chunks.length)).length + 4)) :=
    (((HasAt.start _).left _).left _).right (closedSectors m chunks)
  rw [← place] at header
  refine .cons _ (toNat_sectionSize ?_) (header.left _) ?_ ?_ ?_
  · omega
  · omega
  · omega
  · rw [table, place, ← stop]
    exact hash_chain (by omega)

theorem sectors_chain :
    SectionChain (finished m chunks) (front m).length ["sectors", "table", "hash", "done"] := by
  have sized : (UInt64.ofNat (chunkDistance chunks.length)).toNat = chunkDistance chunks.length :=
    UInt64.toNat_ofNat_of_lt' (show _ < 2 ^ 64 by omega)
  have header : HasAt (closedSectors m chunks) (front m).length
      (ewfSectionHeader (narrow "sectors")
        (UInt64.ofNat ((front m).length + chunkDistance chunks.length))
        (UInt64.ofNat (chunkDistance chunks.length))) := by
    rw [closedSectors, List.append_assoc]
    exact (HasAt.append_iff.mp (HasAt.after _ _)).1
  rw [UInt64.ofNat_add] at header
  refine .cons _ sized ((header.left _).left _) ?_ ?_ ?_
  · omega
  · rw [chunkDistance]
    omega
  · rw [← length_closedSectors full]
    exact table_chain full small few

/-- The container from its file header to its end, section after section. -/
theorem finished_chain : SectionChain (finished m chunks) 13 sectionTypes := by
  have opened := length_opening m
  have place := length_front m
  have inFront : ∀ {place : Nat} {bytes : List Byte}, HasAt (front m) place bytes →
      HasAt (finished m chunks) place bytes := fun h => (((h.left _).left _).left _).left _
  have header : HasAt (opening m) 13 (ewfSectionHeader (narrow "header")
      (UInt64.ofNat 13 + (sectionHeaderBytes + UInt64.ofNat (metaString m.metadata).length + 4))
      (sectionHeaderBytes + UInt64.ofNat (metaString m.metadata).length + 4)) :=
    (((HasAt.start _).left _).left _).right ewfFileHeader
  have volume : HasAt (front m) (opening m).length (ewfSectionHeader (narrow "volume")
      (UInt64.ofNat (opening m).length + (sectionHeaderBytes + 992 + 4))
      (sectionHeaderBytes + 992 + 4)) := (((HasAt.start _).left _).left _).right (opening m)
  have behind : SectionChain (finished m chunks) (opening m).length
      ["volume", "sectors", "table", "hash", "done"] := by
    refine .cons 1072 rfl (inFront volume) ?_ ?_ ?_
    · omega
    · decide
    · rw [show (opening m).length + 1072 = (front m).length by omega]
      exact sectors_chain full small few
  refine .cons _ (toNat_sectionSize ?_) (inFront (header.left _)) ?_ ?_ ?_
  · omega
  · omega
  · omega
  · rw [show 13 + ((metaString m.metadata).length + 80) = (opening m).length by omega]
    exact behind

end Container

end E01Writer

/-- Following `NextOffset` through a closed container visits its six sections, which cover the
file. -/
theorem e01_section_chain (path : WString) (logicalSize expected : UInt64)
    (s : E01Writer × World) (reliable : s.2.Reliable)
    (opened : (e01Writer.preflightAndOpen path logicalSize expected s).1 = true)
    (writes : List (UInt64 × List Byte)) (nonempty : ∀ write ∈ writes, write.2 ≠ [])
    (closed : (e01Writer.flushAndClose (e01Writer.writeAll writes
      (e01Writer.preflightAndOpen path logicalSize expected s).2)).1 = true) :
    ∃ content, (e01Writer.flushAndClose (e01Writer.writeAll writes
        (e01Writer.preflightAndOpen path logicalSize expected s).2)).2.2.content path =
          some content ∧
      SectionChain content 13 sectionTypes := by
  obtain ⟨m, -, front, stream⟩ := e01_opened reliable opened
  have stream := stream.writeAll nonempty
  rw [List.nil_append] at stream
  have few := stream.table_small closed
  obtain ⟨_, -, chunks, padded, content⟩ :=
    (stream.flushAndClose (by rw [chunkDistance]; omega)).of_returned closed
  have distance : (E01Writer.front m).length + chunkDistance chunks.length < 2 ^ 63 := by
    rw [padded.count, chunkDistance]
    omega
  exact ⟨_, content, E01Writer.finished_chain padded.full distance (by rwa [padded.count])⟩

theorem e01_section_chain_two_chunks :
    ∃ content, (e01Writer.flushAndClose (e01Writer.writeAll caseWrites
        (e01Writer.preflightAndOpen (wide "a.E01.partial") 0x21000 0x12000
          caseContainer).2)).2.2.content (wide "a.E01.partial") = some content ∧
      SectionChain content 13 sectionTypes := by
  obtain ⟨_, _, _, _, _, closed, -⟩ := e01_container caseContainer_reliable caseContainer_opened
    caseWrites_nonempty (by rw [length_caseWrites]; decide)
  exact e01_section_chain (wide "a.E01.partial") 0x21000 0x12000 caseContainer
    caseContainer_reliable caseContainer_opened caseWrites caseWrites_nonempty closed

end PhylaRam
