import PhylaRam.Acquire.Maintain
import PhylaRam.Acquire.Success
import PhylaRam.Tests.Mock
import PhylaRam.Writer.ZdmpLayout

/-!
# What a capture writes to a crash dump

Every write of the engine lies in one run, so it is enough that the writer translates its
first address: the rest follows at consecutive places. `acquire_places` says this of every
execution of `Acquire`, complete or not.
-/

namespace PhylaRam

open Program Interval Image

/-! ### The writer's methods -/

section Methods

variable {path : WString} {data : List Byte} {s : ZdmpWriter × World}

/-- The handle of the writer, if it has one, is that of `path`. -/
def FileNamed (path : WString) (s : ZdmpWriter × World) : Prop :=
  ∀ file ∈ s.1.file, file.path = path

/-- The engine never passes so much that a write takes two calls of `WriteFile`. -/
theorem writeAll_eq (nonempty : data ≠ []) (small : data.length ≤ phylaMaxTransfer.toNat) :
    ZdmpWriter.writeAll data = writeExactly data >>= fun _ => pure () := by
  have bound : phylaMaxTransfer.toNat ≤ ZdmpWriter.maxDword := by decide
  rw [ZdmpWriter.writeAll, if_neg nonempty, List.take_of_length_le (by omega),
    List.drop_of_length_le (by omega), ZdmpWriter.writeAll, if_pos rfl]

/-- A `WriteAt` stores the data at the place of its first address, or a part of it. -/
theorem zdmp_writeAt_wp (nonempty : data ≠ []) (small : data.length ≤ phylaMaxTransfer.toNat)
    (offset : UInt64) (named : FileNamed path s) :
    let start := (ZdmpWriter.calculateFileOffset s.1.members offset).toNat
    WP (ZdmpWriter.writeAt offset data)
      (fun _ t => ∃ file, s.1.file = some file ∧
        t = ({ s.1 with file := some ⟨path, start + data.length⟩ },
          s.2.enter.enter.perform (.write path start data)))
      (fun _ t => t.1.members = s.1.members ∧ FileNamed path t ∧
        Runs (Stores path start data) s.2 t.2) s := by
  intro start
  rw [ZdmpWriter.writeAt, WP.bind_iff, WP.get_iff, WP.ite_iff]
  refine ⟨fun _ => ⟨rfl, named, .refl⟩, fun accepted => ?_⟩
  cases opened : s.1.file with
  | none => exact (accepted (.inl (by rw [opened]; rfl))).elim
  | some file =>
      obtain rfl := named file opened
      have same : ∀ position file', some { file with position := position } = some file' →
          file'.path = file.path := by
        intro position file' equal
        obtain rfl := Option.some.inj equal
        rfl
      rw [WP.bind_iff]
      refine seekFile_wp opened ?_ fun error => ?_
      · rw [if_pos rfl, writeAll_eq nonempty small, WP.bind_iff]
        apply writeExactly_wp nonempty rfl
        · exact ⟨file, rfl, rfl⟩
        · intro error position u runs
          exact ⟨rfl, same position, s.2.enter_runs.trans runs⟩
      · rw [if_neg (by decide), refuseWithLastError_wp]
        exact ⟨rfl, same file.position, s.2.failed_runs error⟩

end Methods

/-- The bytes of an accepted reply lie in the run they were read from. -/
theorem Replied.within_run {run : MemoryRun} {offset : UInt64} {requested : UInt32}
    {r : ReadResult} {calls : List Call} (h : Replied run offset requested r calls)
    (valid : run.Valid) (copied : r.copied ≠ 0) :
    r.physicalAddress.toNat ∈ run.interval.cells ∧
      r.physicalAddress.toNat + r.data.length ≤ run.interval.stop := by
  have positive := Word.pos_iff32.mp copied
  have size := h.valid.data_length
  have part := h.valid.copied_le
  have within := h.within
  have fits := valid.fits
  have address : r.physicalAddress.toNat = run.base.toNat + offset.toNat := by
    rw [h.valid.address_eq]
    exact Word.toNat_add_of_lt (by omega)
  have start : run.interval.start = run.base.toNat := rfl
  have stop : run.interval.stop = run.base.toNat + run.length.toNat := rfl
  exact ⟨Piece.mem_cells.mpr ⟨by omega, by omega⟩, by omega⟩

theorem Replied.data_small {run : MemoryRun} {offset : UInt64} {requested : UInt32}
    {r : ReadResult} {calls : List Call} (h : Replied run offset requested r calls) :
    r.data.length ≤ phylaMaxTransfer.toNat := by
  rw [h.valid.data_length]
  exact Nat.le_trans h.valid.copied_le h.bounded

/-! ### Where the bytes go -/

/-- The effect stores bytes of a call at the places of their addresses, after the header. -/
def PlacedWrite (runs : List MemoryRun) (path : WString) (calls : List Call) (e : Effect) : Prop :=
  ∃ address data skip offset bytes, .writeAt address data ∈ calls ∧
    e = .write path offset bytes ∧ bytes <+: data.drop skip ∧ 4096 ≤ offset ∧
    ∀ i < bytes.length, Place 4096 (runIntervals runs) (address.toNat + skip + i) (offset + i)

/-- The effect stores `byte` at position `k` of the file. -/
def StoresByte (path : WString) (byte : Byte) (k : Nat) (e : Effect) : Prop :=
  ∃ offset bytes, e = .write path offset bytes ∧ offset ≤ k ∧ bytes[k - offset]? = some byte

/-- The engine went on after the write: the writer has accepted it. -/
def Acquired (calls : List Call) (address : UInt64) (data : List Byte) : Prop :=
  ∃ before next after, calls = before ++ .writeAt address data :: next :: after

/-- What has happened to the file since `world`: writes of the calls at their places, among
them all bytes of the calls that satisfy `P`, and files created by others. -/
def PlacedSince (runs : List MemoryRun) (path : WString) (world : World)
    (P : UInt64 → List Byte → Prop) (calls : List Call) (u : World) : Prop :=
  ∃ more, u.files.past = world.files.past ++ more ∧
    (∀ entry ∈ more, PlacedWrite runs path calls entry.2 ∨
      ∃ other content, entry.2 = .intrude other content) ∧
    ∀ address data, P address data → ∀ i byte, data[i]? = some byte →
      ∃ k, Place 4096 (runIntervals runs) (address.toNat + i) k ∧
        ∃ entry ∈ more, StoresByte path byte k entry.2

section Placement

variable {runs : List MemoryRun} {path : WString} {world u v : World}
  {P Q : UInt64 → List Byte → Prop} {calls calls' : List Call} {address : UInt64}
  {data : List Byte} {start : Nat}

theorem PlacedWrite.mono {e : Effect} (h : PlacedWrite runs path calls e)
    (grows : ∀ address data, .writeAt address data ∈ calls → .writeAt address data ∈ calls') :
    PlacedWrite runs path calls' e := by
  obtain ⟨address, data, skip, offset, bytes, member, rest⟩ := h
  exact ⟨address, data, skip, offset, bytes, grows _ _ member, rest⟩

theorem PlacedSince.mono (h : PlacedSince runs path world P calls u)
    (grows : ∀ address data, .writeAt address data ∈ calls → .writeAt address data ∈ calls')
    (fewer : ∀ address data, Q address data → P address data) :
    PlacedSince runs path world Q calls' u := by
  obtain ⟨more, past, each, stored⟩ := h
  refine ⟨more, past, fun entry member => ?_, fun address data wanted => ?_⟩
  · exact (each entry member).imp_left fun placed => placed.mono grows
  · exact stored address data (fewer address data wanted)

/-- Bytes that follow each other in one run are stored one after the other. -/
def Consecutive (runs : List MemoryRun) (address : UInt64) (data : List Byte) (start : Nat) :
    Prop :=
  ∀ i < data.length, Place 4096 (runIntervals runs) (address.toNat + i) (start + i)

theorem Stores.placedWrite {files : Files} {e : Effect} (h : Stores path start data files e)
    (consecutive : Consecutive runs address data start) (above : 4096 ≤ start)
    (member : .writeAt address data ∈ calls) : PlacedWrite runs path calls e := by
  cases h with
  | write skip count =>
      refine ⟨address, data, skip, start + skip, _, member, rfl, List.take_prefix _ _,
        Nat.le_trans above (Nat.le_add_right _ _), fun i small => ?_⟩
      rw [List.length_take, List.length_drop] at small
      rw [Nat.add_assoc, Nat.add_assoc]
      exact consecutive (skip + i) (by omega)

/-- The effects of one `WriteAt`, of which nothing is claimed to be complete. -/
theorem PlacedSince.stores (h : PlacedSince runs path world P calls u)
    (stores : Runs (Stores path start data) u v)
    (consecutive : Consecutive runs address data start) (above : 4096 ≤ start) :
    PlacedSince runs path world P (calls ++ [.writeAt address data]) v := by
  obtain ⟨more, past, each, stored⟩ := h
  obtain ⟨new, later, allowed⟩ := stores.past
  refine ⟨more ++ new, by rw [later, past, List.append_assoc], fun entry member => ?_,
    fun address' data' wanted i byte found => ?_⟩
  · rcases List.mem_append.mp member with old | new
    · exact (each entry old).imp_left fun placed =>
        placed.mono fun _ _ among => List.mem_append_left _ among
    · rcases allowed entry new with mine | theirs
      · exact .inl (mine.placedWrite consecutive above
          (List.mem_append_right _ List.mem_cons_self))
      · obtain ⟨other, content, event, -⟩ := theirs
        exact .inr ⟨other, content, event⟩
  · obtain ⟨k, place, entry, among, stored⟩ := stored address' data' wanted i byte found
    exact ⟨k, place, entry, List.mem_append_left _ among, stored⟩

/-- A complete `WriteAt` stores all of its bytes. -/
theorem PlacedSince.complete (h : PlacedSince runs path world P calls u)
    (entered : Runs (Stores path start data) u v)
    (consecutive : Consecutive runs address data start) (above : 4096 ≤ start)
    (wanted : ∀ address' data', Q address' data' →
      P address' data' ∨ address' = address ∧ data' = data) :
    PlacedSince runs path world Q (calls ++ [.writeAt address data])
      (v.perform (.write path start data)) := by
  have whole : Stores path start data v.files.now (.write path start data) := by
    have all : Stores path start data v.files.now
        (.write path (start + 0) ((data.drop 0).take data.length)) := .write _ 0 data.length
    rwa [List.drop_zero, List.take_length] at all
  have all := h.stores (.effect entered (.inl whole)) consecutive above
  obtain ⟨more, past, each, stored⟩ := all
  have last : (v.files.now, Effect.write path start data) ∈ more := by
    obtain ⟨before, past', -⟩ := h
    obtain ⟨new, later, -⟩ := entered.past
    have shape : (v.perform (.write path start data)).files.past =
        world.files.past ++ (before ++ new ++ [(v.files.now, .write path start data)]) := by
      show v.files.past ++ [_] = _
      rw [later, past', List.append_assoc, List.append_assoc, List.append_assoc]
    rw [List.append_cancel_left (past.symm.trans shape)]
    exact List.mem_append_right _ (List.mem_singleton_self _)
  refine ⟨more, past, each, fun address' data' wants i byte found => ?_⟩
  rcases wanted address' data' wants with old | ⟨rfl, rfl⟩
  · exact stored address' data' old i byte found
  · have small : i < data'.length := (List.getElem?_eq_some_iff.mp found).1
    refine ⟨start + i, consecutive i small, _, last, start, data', rfl, Nat.le_add_right _ _, ?_⟩
    rwa [Nat.add_sub_cancel_left]

end Placement

section Capture

variable {δ η κ : Type} {device : IDeviceSession δ} {hasher : IHasher η}
  {environment : Environment κ} {config : AcquisitionConfig}

/-- The invariant of a capture: the bytes of the calls that satisfy `P` have been stored. -/
structure DumpPlaced (runs : List MemoryRun) (path : WString) (world : World)
    (m : ZdmpMembers) (P : UInt64 → List Byte → Prop) (calls : List Call)
    (s : ZdmpWriter × World) : Prop where
  members : s.1.members = m
  named : FileNamed path s
  located : ∀ address data, .writeAt address data ∈ calls →
    (ZdmpWriter.locateRun m address).isSome
  placed : PlacedSince runs path world P calls s.2

/-- The first address of a write, as the writer translates it. -/
theorem Replied.consecutive {runs : List MemoryRun} {members : ZdmpMembers} {run : MemoryRun}
    {offset : UInt64} {requested : UInt32} {r : ReadResult} {calls : List Call}
    (h : Replied run offset requested r calls) (configured : ZdmpWriter.Configured runs members)
    (fits : ZdmpWriter.Fits runs) (ordered : Ordered (runIntervals runs)) (member : run ∈ runs)
    (valid : run.Valid) (copied : r.copied ≠ 0) :
    (ZdmpWriter.locateRun members r.physicalAddress).isSome ∧
      4096 ≤ (ZdmpWriter.calculateFileOffset members r.physicalAddress).toNat ∧
      Consecutive runs r.physicalAddress r.data
        (ZdmpWriter.calculateFileOffset members r.physicalAddress).toNat := by
  obtain ⟨inside, within⟩ := h.within_run valid copied
  have among : run.interval ∈ runIntervals runs := List.mem_map_of_mem member
  obtain ⟨located, place⟩ := configured.place fits (mem_cells.mpr ⟨_, among, inside⟩)
  refine ⟨located, place.bounds.1, fun i small => ?_⟩
  exact place.shift ordered among inside (by omega)

theorem DumpPlaced.sustains {runs : List MemoryRun} {path : WString} {world : World}
    {members : ZdmpMembers} (configured : ZdmpWriter.Configured runs members)
    (fits : ZdmpWriter.Fits runs) (ordered : Ordered (runIntervals runs)) :
    WriterSustains (⟨device, zdmpWriter, hasher, environment, config⟩ :
        Collaborators δ (ZdmpWriter × World) η κ) runs
      (fun calls => DumpPlaced runs path world members
        (fun address data => .writeAt address data ∈ calls) calls)
      (fun calls => DumpPlaced runs path world members (Acquired calls) calls) := by
  refine ⟨?_, ?_, ?_, ?_⟩
  · intro calls s call other h
    have same : ∀ address data, .writeAt address data ∈ calls ++ [call] →
        .writeAt address data ∈ calls := by
      intro address data among
      refine (List.mem_append.mp among).resolve_right fun last => ?_
      exact other address data (List.mem_singleton.mp last).symm
    exact ⟨h.members, h.named, fun address data among => h.located _ _ (same _ _ among),
      h.placed.mono (fun _ _ => List.mem_append_left _) same⟩
  · intro calls s h
    refine ⟨h.members, h.named, h.located, h.placed.mono (fun _ _ => id) ?_⟩
    rintro address data ⟨before, next, after, rfl⟩
    simp
  · intro run member valid calls s offset requested r replied copied h accepted
    obtain ⟨located, above, consecutive⟩ :=
      replied.consecutive configured fits ordered member valid copied
    obtain ⟨_, -, file, -, done⟩ := (zdmp_writeAt_wp (replied.data_ne_nil copied)
      replied.data_small r.physicalAddress h.named).of_returned accepted
    have after : (zdmpWriter.writeAt r.physicalAddress r.data s).2 = _ := done
    rw [h.members] at after
    rw [after]
    refine ⟨h.members, fun file' same => ?_, fun address data among => ?_, ?_⟩
    · obtain rfl := Option.some.inj same
      rfl
    · rcases List.mem_append.mp among with old | new
      · exact h.located address data old
      · cases List.mem_singleton.mp new
        exact located
    · refine h.placed.complete (s.2.enter_runs.trans s.2.enter.enter_runs) consecutive above
        fun address data among => ?_
      refine (List.mem_append.mp among).imp_right fun new => ?_
      cases List.mem_singleton.mp new
      exact ⟨rfl, rfl⟩
  · intro run member valid calls s offset requested r replied copied h refused
    obtain ⟨located, above, consecutive⟩ :=
      replied.consecutive configured fits ordered member valid copied
    have write := zdmp_writeAt_wp (replied.data_ne_nil copied) replied.data_small
      r.physicalAddress h.named
    rw [h.members] at write
    obtain ⟨_, stopped⟩ := write.of_stopped refused
    obtain ⟨same, named, stores⟩ := stopped.2
    refine ⟨same, named, fun address data among => ?_, ?_⟩
    · rcases List.mem_append.mp among with old | new
      · exact h.located address data old
      · cases List.mem_singleton.mp new
        exact located
    · refine (h.placed.stores stores consecutive above).mono (fun _ _ => id) ?_
      -- the refused write is the last call, so the engine did not go on after it
      rintro address data ⟨before, next, after, split⟩
      have shape : calls = before ++ .writeAt address data :: (next :: after).dropLast := by
        have front := congrArg List.dropLast split
        rwa [List.dropLast_concat, List.dropLast_append_of_ne_nil (List.cons_ne_nil _ _),
          List.dropLast_cons_of_ne_nil (List.cons_ne_nil _ _)] at front
      rw [shape]
      exact List.mem_append_right _ List.mem_cons_self

/-- In every execution of `Acquire`, complete or not, every write to a crash dump stores bytes
of memory at the places of their addresses, behind the header; the bytes of an accepted write
are all stored; the fallback of `CalculateFileOffset` is not taken; and no two addresses have
the same place. -/
theorem acquire_places (device : IDeviceSession δ) (hasher : IHasher η)
    (environment : Environment κ) (config : AcquisitionConfig) (d : δ) (h : η) (k : κ)
    (topology : Topology) (asked : (device.query d).1 = some topology)
    (valid : ∀ run ∈ topology.runs, run.Valid) (ordered : Ordered (runIntervals topology.runs))
    (small : 4096 + total (runIntervals topology.runs) ≤ 2 ^ 63 - 1) (path : WString)
    (s : ZdmpWriter × World) (configured : ZdmpWriter.Configured topology.runs s.1.members)
    (named : FileNamed path s) :
    let C : Collaborators δ (ZdmpWriter × World) η κ :=
      ⟨device, zdmpWriter, hasher, environment, config⟩
    let t := final (acquire C (.start d s h k))
    PlacedSince topology.runs path s.2 (Acquired t.calls) t.calls t.writer.2 ∧
      (∀ address data, .writeAt address data ∈ t.calls →
        (ZdmpWriter.locateRun s.1.members address).isSome) ∧
      ∀ p q n, Place 4096 (runIntervals topology.runs) p n →
        Place 4096 (runIntervals topology.runs) q n → p = q := by
  intro C t
  have fits : ZdmpWriter.Fits topology.runs := ⟨fun run member => (valid run member).fits, by omega⟩
  have sustains : WriterSustains C topology.runs
      (fun calls => DumpPlaced topology.runs path s.2 s.1.members
        (fun address data => .writeAt address data ∈ calls) calls)
      (fun calls => DumpPlaced topology.runs path s.2 s.1.members (Acquired calls) calls) :=
    DumpPlaced.sustains configured fits ordered
  have begun : DumpPlaced topology.runs path s.2 s.1.members
      (fun address data => .writeAt address data ∈ ([] : List Call)) [] s :=
    ⟨rfl, named, fun _ _ none => (List.not_mem_nil none).elim,
      [], (List.append_nil _).symm, fun _ none => (List.not_mem_nil none).elim,
      fun _ _ none => (List.not_mem_nil none).elim⟩
  have kept : DumpPlaced topology.runs path s.2 s.1.members (Acquired t.calls) t.calls
      t.writer := by
    have execution := acquire_writes (C := C) (s := .start d s h k)
      (I := fun calls => DumpPlaced topology.runs path s.2 s.1.members
        (fun address data => .writeAt address data ∈ calls) calls) (fun topology' asked' => by
      obtain rfl := Option.some.inj (asked.symm.trans asked')
      exact sustains) begun sustains.weaken
    exact (execution.mono (fun _ u h => sustains.weaken _ _ h) fun _ _ h => h).final
  exact ⟨kept.placed, kept.located, fun p q n here there => here.injective there⟩

end Capture

/-- Two runs, the second of which ends in a page that cannot be read. -/
def mockTwoRuns : MockDeviceSession where
  mockHighestEnd := 0x5008
  mockTotalBytes := 24
  mockRuns := [⟨0, 0x1000, 8⟩, ⟨1, 0x4FF8, 16⟩]
  injectedPageErrors := [(0x5000, -1073741819)]

/-- A writer that is about to store these runs in a new file. -/
def twoRunsWriter : ZdmpWriter × World :=
  zdmpWriter.preflightAndOpen (wide "a.dmp") 0x5008 24
    (zdmpWriter.configure mockTwoRuns.mockRuns {} {} ({ members := {} },
      { files := ⟨fun _ => none, []⟩, oracle := fun _ => {} })) |>.2

theorem acquire_places_two_runs :
    let C : Collaborators MockDeviceSession (ZdmpWriter × World) MockHasher Unit :=
      ⟨mockDeviceSession, zdmpWriter, mockHasher, quietEnvironment, {}⟩
    let t := final (acquire C (.start mockTwoRuns twoRunsWriter {} ()))
    Acquired t.calls 0x4FF8 (List.replicate 8 0x55) ∧
      PlacedSince mockTwoRuns.mockRuns (wide "a.dmp") twoRunsWriter.2 (Acquired t.calls) t.calls
        t.writer.2 ∧
      (∀ address data, .writeAt address data ∈ t.calls →
        (ZdmpWriter.locateRun twoRunsWriter.1.members address).isSome) ∧
      ∀ p q n, Place 4096 (runIntervals mockTwoRuns.mockRuns) p n →
        Place 4096 (runIntervals mockTwoRuns.mockRuns) q n → p = q := by
  intro C t
  have named : ∀ file ∈ twoRunsWriter.1.file, file.path = wide "a.dmp" := by decide +kernel
  have placed := acquire_places mockDeviceSession mockHasher quietEnvironment {} mockTwoRuns {} ()
    ⟨0x5008, 24, mockTwoRuns.mockRuns⟩ rfl
    (fun run member => by
      rcases List.mem_pair.mp member with rfl | rfl <;> exact ⟨by decide, by decide⟩)
    (show List.Pairwise _ _ by decide) (by decide) (wide "a.dmp") twoRunsWriter
    ⟨by decide +kernel, by decide +kernel⟩ named
  refine ⟨⟨t.calls.take 6, .update (List.replicate 8 0x55), t.calls.drop 8, ?_⟩, placed⟩
  decide +kernel

end PhylaRam
