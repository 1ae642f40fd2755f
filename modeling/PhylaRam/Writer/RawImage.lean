import PhylaRam.Acquire.Image
import PhylaRam.Tests.Mock
import PhylaRam.Writer.Raw

/-!
# The RAW file is the image

While its handle is open, the file of a RAW writer has the logical size and holds the
image of the writes it has accepted, whatever short writes the environment makes.
Together with the hash stream of the engine this gives the agreement of the digest
with the file.
-/

namespace PhylaRam

open Program Image

/-- The open file at `path` has `size` bytes and holds `image`. -/
structure RawFile (path : WString) (size : Nat) (image : Nat → Byte) (s : RawWriter × World) :
    Prop where
  file : FileOpen path s
  logicalSize : s.1.members.logicalSize.toNat = size
  node : ∃ node, s.2.files.now path = some node ∧ view 0 node.content = image ∧
    node.content.length = size

namespace RawFile

variable {path : WString} {size : Nat} {image : Nat → Byte} {s : RawWriter × World}

/-- The content is determined by the image. -/
theorem content (h : RawFile path size image s) :
    ∃ node, s.2.files.now path = some node ∧ node.content = upTo image size := by
  obtain ⟨node, present, view, length⟩ := h.node
  refine ⟨node, present, ?_⟩
  rw [← length]
  exact eq_upTo_of_view 0 view

theorem writeData (h : RawFile path size image s) {offset : UInt64} {data : List Byte}
    (within : offset.toNat + data.length ≤ size) :
    WP (RawWriter.writeData offset data)
      (fun _ t => RawFile path size (overlay image offset.toNat data) t) (fun _ _ => True) s := by
  obtain ⟨file, opened, rfl⟩ := h.file
  obtain ⟨node, present, view, length⟩ := h.node
  rw [RawWriter.writeData, WP.bind_iff]
  refine seekFile_wp opened ?_ fun error => ?_
  · -- the pointer is at the offset; the loop writes all of the data or fails
    rw [if_pos rfl, WP.bind_iff, onFile_wp rfl]
    have loop := writeLoop_spec RawWriter.kWriteChunkBytes ⟨file.path, offset.toNat⟩ data s.2.enter
    rw [WP.ite_iff]
    refine ⟨fun complete => ?_, fun _ => trivial⟩
    obtain ⟨node', present', content', -⟩ := loop.content complete node
      (World.enter_of_some present) (by change offset.toNat ≤ node.content.length; omega)
    refine ⟨⟨_, rfl, loop.path⟩, h.logicalSize, node', present', ?_, ?_⟩
    · rw [content', view_patch, view]
    · rw [content', length_patch, length]
      exact Nat.max_eq_left within
  · simp

/-- An accepted write is a write to the image, and lies inside it. -/
theorem writeAt (h : RawFile path size image s) (offset : UInt64) (data : List Byte) :
    WP (RawWriter.writeAt offset data)
      (fun _ t => RawFile path size (overlay image offset.toNat data) t) (fun _ _ => True) s := by
  obtain ⟨file, opened, rfl⟩ := h.file
  simp only [RawWriter.writeAt, WP.bind_iff, WP.get_iff, WP.ite_iff, refuse_wp, implies_true,
    true_and]
  intro _ accepted
  rw [not_or, gt_iff_lt, UInt64.not_lt, UInt64.le_iff_toNat_le, Nat.not_lt] at accepted
  refine h.writeData ?_
  have := Word.toNat_sub_of_le accepted.1
  have := h.logicalSize
  omega

/-- Flushing and closing the file, or failing to flush it, leaves its content. -/
theorem flushAndClose (h : RawFile path size image s) :
    ∃ node, (rawWriter.flushAndClose s).2.2.files.now path = some node ∧
      node.content = upTo image size := by
  obtain ⟨file, opened, rfl⟩ := h.file
  obtain ⟨node, present, content⟩ := h.content
  have entered := World.enter_of_some present
  refine WP.final (P := fun t : RawWriter × World =>
    ∃ node, t.2.files.now file.path = some node ∧ node.content = upTo image size) ?_
  rw [RawWriter.flushAndClose, WP.bind_iff, WP.get_iff, if_neg (by simp [opened]), WP.bind_iff,
    flushFile, onFile_wp opened]
  rcases flushFileBuffers_cases file s.2 with ⟨error, outcome⟩ | outcome <;> rw [outcome] <;>
    simp only [RawWriter.release, if_pos, Bool.false_eq_true, if_false, WP.bind_iff,
      WP.modify_iff, resetFile_wp, setMembers_wp, WP.throw_iff]
  · rw [closedWorld_of_some rfl]
    exact ⟨_, Files.modify_self entered, content⟩
  · rw [closedWorld_of_some rfl]
    exact ⟨_, Files.modify_self (Files.modify_self entered), content⟩

end RawFile

/-! ### Opening the image -/

section Preflight

variable {path : WString} {s : RawWriter × World}

/-- A step that fails discards the file, and the preflight fails with it. -/
theorem discardStaging_wp {post : Unit → RawWriter × World → Prop} :
    WP (RawWriter.discardStaging path) post (fun _ _ => True) s := trivial

/-- The queries about the volume leave the writer as it is. -/
theorem findVolume_wp (s : RawWriter × World) :
    WP (RawWriter.findVolume path) (fun _ t => t.1 = s.1) (fun _ _ => True) s := by
  rw [RawWriter.findVolume, WP.bind_iff, win32_wp]
  split
  · rfl
  · trivial

theorem checkVolume_wp (volumeRoot : WString) (logicalSize expected : UInt64)
    (s : RawWriter × World) :
    WP (RawWriter.checkVolume volumeRoot logicalSize expected) (fun _ t => t.1 = s.1)
      (fun _ _ => True) s := by
  rw [RawWriter.checkVolume, WP.bind_iff, win32_wp]
  split
  · trivial
  · simp only [WP.ite_iff, refuse_wp, implies_true, true_and, WP.bind_iff, win32_wp]
    intro _ _
    split
    · trivial
    · simp

theorem createStaging_wp (closed : s.1.file = none) :
    WP (RawWriter.createStaging path)
      (fun _ t => FileOpen path t ∧ ∃ node, t.2.files.now path = some node ∧ node.content = [])
      (fun _ _ => True) s := by
  rw [RawWriter.createStaging, WP.bind_iff, win32_wp, WP.bind_iff, resetFile_wp,
    closedWorld_of_none (by exact closed)]
  rcases createFileW_cases path .createNew s.2 with ⟨error, h, -⟩ | ⟨-, -, h⟩ | ⟨-, no, -⟩
  · rw [h]
    trivial
  · rw [h]
    exact ⟨⟨_, rfl, rfl⟩, _, Function.update_self _ _ _, rfl⟩
  · cases no

theorem makeSparse_wp {supportsSparse : Bool} (opened : FileOpen path s) {node : FileNode}
    (present : s.2.files.now path = some node) :
    WP (RawWriter.makeSparse path supportsSparse)
      (fun _ t => FileOpen path t ∧ t.2.files.now path = some node) (fun _ _ => True) s := by
  obtain ⟨file, opened, rfl⟩ := opened
  rw [RawWriter.makeSparse, WP.ite_iff]
  refine ⟨fun _ => ?_, fun _ => ⟨⟨file, opened, rfl⟩, present⟩⟩
  rw [WP.bind_iff, onFile_wp opened, setSparse]
  rcases askEnvironment_cases (fun _ => ()) s.2 with ⟨error, h⟩ | h <;> rw [h]
  · exact discardStaging_wp
  · exact ⟨⟨_, rfl, rfl⟩, World.enter_of_some present⟩

theorem setSize_wp {logicalSize : UInt64} (opened : FileOpen path s) {node : FileNode}
    (present : s.2.files.now path = some node) (empty : node.content = []) :
    WP (RawWriter.setSize path logicalSize)
      (fun _ t => RawFile path logicalSize.toNat (fun _ => 0) t) (fun _ _ => True) s := by
  obtain ⟨file, opened, rfl⟩ := opened
  rw [RawWriter.setSize, WP.bind_iff]
  refine seekFile_wp opened ?_ fun error => by simp [discardStaging_wp]
  rw [if_pos rfl, WP.bind_iff, endFile, onFile_wp rfl]
  rcases setEndOfFile_cases { file with position := logicalSize.toNat } s.2.enter with
    ⟨error, h⟩ | h <;> rw [h]
  · exact discardStaging_wp
  · refine ⟨⟨_, rfl, rfl⟩, rfl, _,
      Files.modify_self (World.enter_of_some (World.enter_of_some present)), ?_, ?_⟩
    · rw [empty]
      funext n
      simp [view, resized]
    · simp [empty, resized]

/-- A successful preflight leaves a file of zeros of the logical size. -/
theorem preflightAndOpen_wp (path : WString) (logicalSize expected : UInt64)
    (s : RawWriter × World) :
    WP (RawWriter.preflightAndOpen path logicalSize expected)
      (fun _ t => RawFile path logicalSize.toNat (fun _ => 0) t) (fun _ _ => True) s := by
  simp only [RawWriter.preflightAndOpen, RawWriter.close, WP.bind_iff, resetFile_wp, setMembers_wp,
    WP.modify_iff, WP.ite_iff, refuse_wp, implies_true, true_and]
  intro _
  refine (findVolume_wp _).mono ?_ fun _ _ _ => trivial
  rintro volumeRoot t same
  refine (checkVolume_wp volumeRoot logicalSize expected t).mono ?_ fun _ _ _ => trivial
  rintro supportsSparse u same'
  refine (createStaging_wp (by rw [same', same])).mono ?_ fun _ _ _ => trivial
  rintro - v ⟨opened, node, present, empty⟩
  refine (makeSparse_wp opened present).mono ?_ fun _ _ _ => trivial
  rintro - v' ⟨opened, present⟩
  exact setSize_wp opened present empty

end Preflight

/-! ### Agreement with the hash stream -/

theorem RawFile.content_eq {path : WString} {size : Nat} {image : Nat → Byte}
    {s : RawWriter × World} (h : RawFile path size image s) :
    s.2.content path = some (upTo image size) := by
  obtain ⟨node, present, content⟩ := h.content
  rw [World.content, present, Option.map_some, content]

section Agreement

variable {δ η κ : Type} (device : IDeviceSession δ) (hasher : IHasher η)
  (environment : Environment κ) (config : AcquisitionConfig)

/-- If `Acquire` returns true, the bytes fed to the hasher are the bytes of the RAW file,
of which there are `logicalSize`. -/
theorem acquire_hashes_raw_file (d : δ) (h : η) (k : κ) (path : WString) (expected : UInt64)
    (s : RawWriter × World) (topology : Topology) (asked : (device.query d).1 = some topology)
    (opened : (rawWriter.preflightAndOpen path topology.highestEnd expected s).1 = true) :
    let C : Collaborators δ (RawWriter × World) η κ :=
      ⟨device, rawWriter, hasher, environment, config⟩
    let run := acquire C
      (.start d (rawWriter.preflightAndOpen path topology.highestEnd expected s).2 h k)
    returned run = true →
      (hashed (final run).calls).length = (final run).summary.logicalSize.toNat ∧
      (final run).writer.2.content path = some (hashed (final run).calls) ∧
      (rawWriter.flushAndClose (final run).writer).2.2.content path =
        some (hashed (final run).calls) := by
  intro C run completed
  obtain ⟨topology', m, changed, completed⟩ := acquire_completed C completed
  obtain rfl : topology' = topology := Option.some.inj (completed.asked.symm.trans asked)
  obtain ⟨_, -, file⟩ := (preflightAndOpen_wp path topology'.highestEnd expected s).of_returned
    opened
  have streams := completed.streams rfl rfl
  have written : RawFile path topology'.highestEnd.toNat (imageOf (final run).calls)
      (final run).writer := by
    refine completed.writer_rel (R := RawFile path topology'.highestEnd.toNat)
      (fun image w offset data held _ accepted => ?_) rfl file
    obtain ⟨_, -, next⟩ := (held.writeAt offset data).of_returned accepted
    exact next
  have size : m.summary.logicalSize = topology'.highestEnd :=
    completed.traversal.sameTopology.logicalSize
  have summary : (final run).summary.logicalSize = m.summary.logicalSize := by
    rw [completed.final]
    rfl
  rw [size] at streams summary
  refine ⟨?_, ?_, ?_⟩
  · rw [streams.stream, length_upTo, summary]
  · rw [written.content_eq, streams.stream]
  · obtain ⟨node, present, content⟩ := written.flushAndClose
    rw [World.content, present, Option.map_some, content, streams.stream]

/-- An empty file system on a volume with free space, on which `WriteFile` never accepts
more than five bytes. -/
def hesitantVolume : World where
  files := ⟨fun _ => none, []⟩
  oracle _ := { limit := 5, freeBytes := 0x100000000 }

/-- The agreement survives short writes and an unreadable page. -/
theorem acquire_hashes_raw_file_short_writes :
    let opened := rawWriter.preflightAndOpen (wide "a.raw") 0x2008 16 ({ members := {} },
      hesitantVolume)
    let C : Collaborators MockDeviceSession (RawWriter × World) MockHasher Unit :=
      ⟨mockDeviceSession, rawWriter, mockHasher, quietEnvironment, {}⟩
    let run := acquire C (.start mockFaultyPage opened.2 {} ())
    (hashed (final run).calls).length = (final run).summary.logicalSize.toNat ∧
      (final run).writer.2.content (wide "a.raw") = some (hashed (final run).calls) ∧
      (rawWriter.flushAndClose (final run).writer).2.2.content (wide "a.raw") =
        some (hashed (final run).calls) :=
  acquire_hashes_raw_file mockDeviceSession mockHasher quietEnvironment {} mockFaultyPage {} ()
    (wide "a.raw") 16 ({ members := {} }, hesitantVolume) ⟨0x2008, 16, [⟨0, 0x1FF8, 16⟩]⟩ rfl
    (by decide +kernel) (by decide +kernel)

end Agreement

end PhylaRam
