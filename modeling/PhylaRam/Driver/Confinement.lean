import PhylaRam.Driver.Lifecycle

/-!
# What a caller can make the driver read

`MmCopyMemory` runs only for a `READ_RUN` that passes the checks of the handler and of
`PhylaCopyRun`. Together they confine the copy to one range of the frozen table and to the
caller's buffer. The last of them guards the first address of the copy against overflow, but
not the end of the copy, so a range that ends beyond the address space can be overrun.
-/

namespace PhylaRam

open Program

/-- `outputLength` of `PhylaHandleReadRun`. -/
def outputLength (request : WdfRequest) (mdl : Mdl) : UInt32 :=
  if request.outputBufferLength < mdl.byteCount.toUInt64 then
    request.outputBufferLength.toUInt32
  else mdl.byteCount

/-- The buffer of a request, once retrieved and mapped, with room for the result header. -/
structure Buffered (request : WdfRequest) (mdl : Mdl) : Prop where
  fileObject : request.fileObject = true
  input : ntSuccess (request.inputStatus sizeofReadRequest) = true
  retrieved : ntSuccess request.outputMdl.1 = true
  present : request.outputMdl.2 = some mdl
  mapped : mdl.mapped = true
  header : ¬outputLength request mdl < sizeofReadResult

/-- The request passes every check of the driver when its run is `range`. -/
def Admits (calls : KernelCalls) (d : Driver) (request : WdfRequest)
    (range : PhysicalMemoryRange) : Prop :=
  ∃ mdl, Buffered request mdl ∧
    AcceptsRead calls d.context range request.input (outputLength request mdl - sizeofReadResult)

/-- The copy lies in one range of the table and below `2 ^ 64`, has a permitted length, and
fits into the caller's buffer behind the result header. -/
structure Confined (table : List PhysicalMemoryRange) (request : WdfRequest) (copy : MemoryCopy) :
    Prop where
  range : ∃ range ∈ table, range.baseAddress.toNat ≤ copy.physicalAddress.toNat ∧
    copy.physicalAddress.toNat + copy.length.toNat ≤
      range.baseAddress.toNat + range.numberOfBytes.toNat
  below : copy.physicalAddress.toNat + copy.length.toNat ≤ 2 ^ 64
  positive : 0 < copy.length.toNat
  bounded : copy.length.toNat ≤ phylaMaxTransfer.toNat
  buffer : ∃ mdl, request.outputMdl.2 = some mdl ∧
    sizeofReadResult.toNat + copy.length.toNat ≤ mdl.byteCount.toNat ∧
    sizeofReadResult.toNat + copy.length.toNat ≤ request.outputBufferLength.toNat

/-- The calls of `MmCopyMemory` during one request, whether or not it is completed. -/
def copiesOf (calls : KernelCalls) (request : WdfRequest) (code : UInt32) (d : Driver) :
    List MemoryCopy :=
  (final (handleDeviceControl calls request code d)).copies.drop d.copies.length

/-- The request is admitted although its range continues beyond the address space and the
requested bytes do, too. -/
def Overruns (calls : KernelCalls) (d : Driver) (table : List PhysicalMemoryRange)
    (request : WdfRequest) (code : UInt32) : Prop :=
  code = ioctlPhylaReadRun ∧ (∃ block, d.Open block) ∧
    ∃ range, table[request.input.runIndex.toNat]? = some range ∧ Admits calls d request range ∧
      2 ^ 64 < range.baseAddress.toNat + request.input.offsetWithinRun.toNat +
        request.input.length.toNat

section Handlers

variable {d : Driver} {calls : KernelCalls} {request : WdfRequest} {block : Nat}
  {table entries : List PhysicalMemoryRange}

/-- The copy that a request for `range` asks for. -/
def requestedCopy (calls : KernelCalls) (range : PhysicalMemoryRange) (input : PhylaReadRequest) :
    MemoryCopy :=
  ⟨readAddress range input, input.length, calls.copyMemory (readAddress range input) input.length⟩

/-- The outcome of a command that may call `MmCopyMemory` once: it did if `admitted`. -/
def CopiesIf (admitted : Prop) (copy : MemoryCopy) (d : Driver) {α : Type} (x : DriverM α) : Prop :=
  WP x (fun _ d' => admitted ∧ d'.copies = d.copies ++ [copy])
    (fun _ d' => ¬admitted ∧ d'.copies = d.copies) d

theorem phylaCopyRun_copies {input : PhylaReadRequest} {payloadCapacity : UInt32}
    (holds : Holds d table false block) (content : d.pool.content? block = some entries) :
    CopiesIf (AcceptsRead calls d.context (entryAt entries input.runIndex) input payloadCapacity)
      (requestedCopy calls (entryAt entries input.runIndex) input) d
      (phylaCopyRun calls input payloadCapacity) := by
  simp only [CopiesIf, phylaCopyRun, WP.ite_iff, WP.bind_iff, failWith_wp]
  refine ⟨fun high => ⟨fun accepts => accepts.irql high, trivial⟩, fun irql => ?_⟩
  apply openRanges_wp
  · intro other opened
    obtain ⟨rfl, -⟩ := holds.open_block opened
    simp only [WP.get_iff, rangesAt_wp, content, Option.getD_some, Bool.not_eq_true]
    refine ⟨fun invalid => ⟨fun accepts => ?_, trivial⟩, fun valid => ⟨fun outside => ?_,
      fun within => ⟨⟨irql, valid, within⟩, rfl⟩⟩⟩
    · rw [accepts.valid] at invalid
      cases invalid
    · refine ⟨fun accepts => ?_, trivial⟩
      rw [accepts.within] at outside
      cases outside
  · intro closed
    exact (closed block ⟨holds.ranges, holds.flag⟩).elim

/-- A `READ_RUN` in an open session copies if and only if it is admitted. -/
theorem phylaHandleReadRun_copies (holds : Holds d table false block)
    (content : d.pool.content? block = some entries) :
    CopiesIf (Admits calls d request (entryAt entries request.input.runIndex))
      (requestedCopy calls (entryAt entries request.input.runIndex) request.input) d
      (phylaHandleReadRun calls request) := by
  simp only [CopiesIf, phylaHandleReadRun, requestFileContext, WP.bind_iff, WP.ite_iff, WP.pure_iff,
    failWith_wp]
  refine ⟨fun fileObject => ?_, fun absent => ⟨?_, trivial⟩⟩
  rotate_left
  · rintro ⟨_, buffered, _⟩
    exact absent buffered.fileObject
  apply openRanges_wp
  · intro _ _
    apply ntCheck_wp
    · intro input
      apply ntCheck_wp
      · intro retrieved
        cases present : request.outputMdl.2 with
        | none =>
            refine ⟨?_, rfl⟩
            rintro ⟨_, buffered, _⟩
            have other := buffered.present
            rw [present] at other
            cases other
        | some mdl =>
            have only : ∀ {mdl'}, Buffered request mdl' → mdl' = mdl := fun buffered =>
              Option.some.inj (buffered.present.symm.trans present)
            simp only [WP.ite_iff, WP.bind_iff, WP.pure_iff, failWith_wp, Bool.not_eq_true']
            refine ⟨fun unmapped => ⟨?_, trivial⟩, fun mapped => ⟨fun short => ⟨?_, trivial⟩,
              fun header => ?_⟩⟩
            · rintro ⟨mdl', buffered, _⟩
              obtain rfl := only buffered
              have mapped := buffered.mapped
              rw [unmapped] at mapped
              cases mapped
            · rintro ⟨mdl', buffered, _⟩
              obtain rfl := only buffered
              exact buffered.header short
            · rw [Bool.not_eq_false] at mapped
              refine (phylaCopyRun_copies holds content).mono (fun _ d' copied => ⟨?_, copied.2⟩)
                (fun _ d' refused => ⟨?_, refused.2⟩)
              · exact ⟨mdl, ⟨fileObject, input, retrieved, present, mapped, header⟩, copied.1⟩
              · rintro ⟨mdl', buffered, accepts⟩
                obtain rfl := only buffered
                exact refused.1 accepts
      · intro failed
        refine ⟨?_, rfl⟩
        rintro ⟨_, buffered, _⟩
        have retrieved := buffered.retrieved
        rw [failed] at retrieved
        cases retrieved
    · intro failed
      refine ⟨?_, rfl⟩
      rintro ⟨_, buffered, _⟩
      have input := buffered.input
      rw [failed] at input
      cases input
  · intro closed
    exact (closed block ⟨holds.ranges, holds.flag⟩).elim

/-- Only an open session lets a `READ_RUN` copy. -/
theorem phylaHandleReadRun_closed (closed : ∀ block, ¬d.Open block) :
    WP (phylaHandleReadRun calls request) (fun _ d' => d'.copies = d.copies)
      (fun _ d' => d'.copies = d.copies) d := by
  simp only [phylaHandleReadRun, requestFileContext, WP.bind_iff, WP.ite_iff, WP.pure_iff,
    failWith_wp]
  refine ⟨fun _ => ?_, fun _ => trivial⟩
  apply openRanges_wp
  · intro block opened
    exact (closed block opened).elim
  · intro _
    rfl

/-! ### The other requests -/

/-- The calls of `MmCopyMemory` so far. -/
def Copied (copies : List MemoryCopy) (d : Driver) : Prop := d.copies = copies

variable {copies : List MemoryCopy}

theorem failWith_keeps {α : Type} (status : NtStatus) :
    Keeps (Copied copies) (failWith status : DriverM α) := .throw _

theorem ntCheck_keeps (status : NtStatus) : Keeps (Copied copies) (ntCheck status) :=
  .ite (fun _ => .pure _) (fun _ => failWith_keeps _)

theorem requestFileContext_keeps : Keeps (Copied copies) (requestFileContext request) :=
  .ite (fun _ => .pure _) (fun _ => failWith_keeps _)

theorem rangesAt_keeps : Keeps (Copied copies) (rangesAt block) := .modifyGet fun _ same => same

theorem openRanges_keeps : Keeps (Copied copies) openRanges := by
  refine .bind .get fun s => ?_
  dsimp only
  split
  · exact .ite (fun _ => failWith_keeps _) (fun _ => .pure _)
  · exact failWith_keeps _

theorem countAt_keeps : Keeps (Copied copies) (countAt block) := by
  refine .bind rangesAt_keeps fun entries => ?_
  split
  · exact .throw _
  · exact .pure _

theorem mmGetPhysicalMemoryRanges_keeps :
    Keeps (Copied copies) (mmGetPhysicalMemoryRanges calls) := by
  refine .modifyGet fun d same => ?_
  cases calls.ranges with
  | none => exact same
  | some entries => exact same

theorem phylaSessionEnd_keeps : Keeps (Copied copies) (phylaSessionEnd calls) := by
  refine .bind openRanges_keeps fun ranges => .bind mmGetPhysicalMemoryRanges_keeps fun answer => ?_
  split
  · exact failWith_keeps _
  · refine .bind countAt_keeps fun count => .bind rangesAt_keeps fun captured =>
      .bind rangesAt_keeps fun present => .bind .get fun context =>
      .bind (.modify fun _ same => same) fun _ => .bind (.modify fun _ same => same) fun _ =>
      .pure _

/-- No other request calls `MmCopyMemory`. -/
theorem handleDeviceControl_keeps {code : UInt32} (other : code ≠ ioctlPhylaReadRun) :
    Keeps (Copied copies) (handleDeviceControl calls request code) := by
  refine .ite (fun _ => ?_) fun _ => .ite (fun _ => ?_) fun _ => .ite (fun reads => ?_) fun _ =>
    .ite (fun _ => ?_) fun _ => .ite (fun _ => ?_) fun _ => failWith_keeps _
  · refine .bind requestFileContext_keeps fun _ => .bind openRanges_keeps fun _ => ?_
    exact .ite (fun _ => failWith_keeps _) fun _ => .bind (ntCheck_keeps _) fun _ =>
      .bind .get fun _ => .pure _
  · refine .bind requestFileContext_keeps fun _ => .bind openRanges_keeps fun _ =>
      .bind .get fun _ => ?_
    exact .ite (fun _ => failWith_keeps _) fun _ => .ite (fun _ => failWith_keeps _) fun _ =>
      .bind (ntCheck_keeps _) fun _ => .bind rangesAt_keeps fun _ => .pure _
  · exact (other reads).elim
  · refine .bind requestFileContext_keeps fun _ => ?_
    exact .ite (fun _ => failWith_keeps _) fun _ => .bind (ntCheck_keeps _) fun _ =>
      .bind phylaSessionEnd_keeps fun _ => .pure _
  · exact .ite (fun _ => failWith_keeps _) fun _ => .bind (ntCheck_keeps _) fun _ => .pure _

end Handlers

/-! ### Confinement -/

section Confinement

variable {d : Driver} {calls : KernelCalls} {request : WdfRequest}
  {table : List PhysicalMemoryRange} {range : PhysicalMemoryRange} {code : UInt32}

theorem outputLength_le (request : WdfRequest) (mdl : Mdl) :
    (outputLength request mdl).toNat ≤ mdl.byteCount.toNat ∧
      (outputLength request mdl).toNat ≤ request.outputBufferLength.toNat := by
  have small := mdl.byteCount.toNat_lt
  unfold outputLength
  split
  · next less =>
      rw [UInt64.lt_iff_toNat_lt, UInt32.toNat_toUInt64] at less
      rw [Word.toNat_toUInt32_of_lt (by omega)]
      omega
  · next more =>
      rw [UInt64.lt_iff_toNat_lt, UInt32.toNat_toUInt64] at more
      omega

/-- The checks of the driver confine a copy, up to the end of the address space. -/
theorem Admits.confined (admits : Admits calls d request range)
    (entry : table[request.input.runIndex.toNat]? = some range)
    (fits : range.baseAddress.toNat + request.input.offsetWithinRun.toNat +
      request.input.length.toNat ≤ 2 ^ 64) :
    Confined table request (requestedCopy calls range request.input) := by
  obtain ⟨mdl, buffered, accepts⟩ := admits
  have valid := accepts.valid
  have within := accepts.within
  simp only [requestInvalid, Bool.or_eq_false_iff, decide_eq_false_iff_not, beq_eq_false_iff_ne,
    gt_iff_lt, UInt32.lt_iff_toNat_lt, Word.pos_iff32, Nat.not_lt] at valid
  obtain ⟨⟨⟨-, positive⟩, bounded⟩, room⟩ := valid
  simp only [requestOutside, Bool.or_eq_false_iff, decide_eq_false_iff_not, gt_iff_lt,
    UInt64.not_lt, uint64Max, Word.le_max_sub_iff] at within
  simp only [UInt64.le_iff_toNat_le, UInt32.toNat_toUInt64] at within
  obtain ⟨⟨before, inside⟩, representable⟩ := within
  rw [Word.toNat_sub_of_le before] at inside
  have address : (readAddress range request.input).toNat =
      range.baseAddress.toNat + request.input.offsetWithinRun.toNat :=
    Word.toNat_add_of_lt representable
  have header := buffered.header
  rw [UInt32.lt_iff_toNat_lt, Nat.not_lt] at header
  rw [← UInt32.toNat_toUInt64 (outputLength request mdl - _), Word.toNat_sub32_of_le header] at room
  have capacity := outputLength_le request mdl
  refine ⟨⟨range, List.mem_of_getElem? entry, ?_, ?_⟩, ?_, positive, bounded, mdl,
    buffered.present, ?_, ?_⟩
  · change _ ≤ (readAddress range request.input).toNat
    omega
  · change (readAddress range request.input).toNat + request.input.length.toNat ≤ _
    omega
  · change (readAddress range request.input).toNat + request.input.length.toNat ≤ _
    omega
  · change _ + request.input.length.toNat ≤ _
    omega
  · change _ + request.input.length.toNat ≤ _
    omega

/-- A copy below `2 ^ 64` was asked for below `2 ^ 64`. -/
theorem Admits.fits (admits : Admits calls d request range)
    (confined : Confined table request (requestedCopy calls range request.input)) :
    range.baseAddress.toNat + request.input.offsetWithinRun.toNat +
      request.input.length.toNat ≤ 2 ^ 64 := by
  obtain ⟨mdl, -, accepts⟩ := admits
  have within := accepts.within
  simp only [requestOutside, Bool.or_eq_false_iff, decide_eq_false_iff_not, gt_iff_lt,
    UInt64.not_lt, uint64Max, Word.le_max_sub_iff] at within
  have address : (readAddress range request.input).toNat =
      range.baseAddress.toNat + request.input.offsetWithinRun.toNat :=
    Word.toNat_add_of_lt within.2
  have below : (readAddress range request.input).toNat + request.input.length.toNat ≤ 2 ^ 64 :=
    confined.below
  omega

theorem copiesOf_of_copiesIf {admitted : Prop} {copy : MemoryCopy}
    (copies : CopiesIf admitted copy d (handleDeviceControl calls request code)) :
    (admitted → copiesOf calls request code d = [copy]) ∧
      (¬admitted → copiesOf calls request code d = []) := by
  unfold CopiesIf WP at copies
  unfold copiesOf
  cases ran : handleDeviceControl calls request code d with
  | ok p d' =>
      rw [ran] at copies
      rw [final_ok, copies.2, List.drop_left]
      exact ⟨fun _ => rfl, fun refused => (refused copies.1).elim⟩
  | error fault d' =>
      rw [ran] at copies
      rw [final_error, copies.2, List.drop_length]
      exact ⟨fun accepted => (copies.1 accepted).elim, fun _ => rfl⟩

theorem Holds.getElem?_of_accepts {block : Nat} {entries : List PhysicalMemoryRange} {room : UInt32}
    {run : PhysicalMemoryRange} (holds : Holds d table false block)
    (content : d.pool.content? block = some entries)
    (accepts : AcceptsRead calls d.context run request.input room) :
    table[request.input.runIndex.toNat]? = some (entryAt entries request.input.runIndex) := by
  obtain ⟨entries', content', rfl⟩ := holds.content
  obtain rfl := Option.some.inj (content'.symm.trans content)
  have valid := accepts.valid
  simp only [requestInvalid, Bool.or_eq_false_iff, decide_eq_false_iff_not, ge_iff_le,
    UInt32.le_iff_toNat_le, Nat.not_le, holds.runCount] at valid
  have within := valid.1.1.1
  rw [List.getElem?_eq_getElem within, entryAt_of_getElem? (List.getElem?_eq_getElem within)]

/-- A request makes the driver copy only within one range, below `2 ^ 64` and into the
caller's buffer, exactly when it does not overrun the end of the address space. -/
theorem copies_confined_iff (h : History Driver DriverEvent) (reached : Reached h)
    (calls : KernelCalls) (request : WdfRequest) (code : UInt32) :
    (∀ copy ∈ copiesOf calls request code h.now, Confined (capturedTable h) request copy) ↔
      ¬Overruns calls h.now (capturedTable h) request code := by
  by_cases reads : code = ioctlPhylaReadRun
  · subst reads
    by_cases opened : ∃ block, h.now.Open block
    · obtain ⟨session, about, represents⟩ := reached.tracked.now
      obtain ⟨block, isOpen⟩ := id opened
      obtain ⟨table, rfl, holds⟩ := represents.of_open isOpen
      obtain rfl : table = capturedTable h := about
      obtain ⟨entries, content, captured⟩ := holds.content
      have copies := @copiesOf_of_copiesIf _ calls request ioctlPhylaReadRun _ _
        (phylaHandleReadRun_copies holds content)
      by_cases admits : Admits calls h.now request (entryAt entries request.input.runIndex)
      · have entry := holds.getElem?_of_accepts content admits.choose_spec.2
        rw [copies.1 admits]
        constructor
        · rintro confined ⟨-, -, range, named, -, beyond⟩
          obtain rfl := Option.some.inj (entry.symm.trans named)
          have fits := admits.fits (confined _ (List.mem_singleton_self _))
          omega
        · intro within copy member
          rw [List.mem_singleton.mp member]
          refine admits.confined entry (Nat.le_of_not_lt fun beyond => ?_)
          exact within ⟨rfl, opened, _, entry, admits, beyond⟩
      · rw [copies.2 admits]
        refine ⟨fun _ => ?_, fun _ copy member => nomatch member⟩
        rintro ⟨-, -, range, named, admits', -⟩
        rw [entryAt_of_getElem? (captured.symm ▸ named)] at admits
        exact admits admits'
    · have copies : (final (handleDeviceControl calls request ioctlPhylaReadRun h.now)).copies =
          h.now.copies :=
        WP.final (phylaHandleReadRun_closed fun block isOpen => opened ⟨block, isOpen⟩)
      rw [copiesOf, copies, List.drop_length]
      exact ⟨fun _ overruns => opened overruns.2.1, fun _ copy member => nomatch member⟩
  · have copies : Copied h.now.copies (final (handleDeviceControl calls request code h.now)) :=
      (handleDeviceControl_keeps reads).final rfl
    rw [copiesOf, copies, List.drop_length]
    exact ⟨fun _ overruns => reads overruns.1, fun _ copy member => nomatch member⟩

/-- The session that begins on a machine with one range. -/
def sessionAbout (range : PhysicalMemoryRange) : History Driver DriverEvent :=
  let create := DriverEvent.fileCreate (idleKernel (some [range]))
  ⟨((({} : Driver).step create).getD {}), [({}, create)]⟩

/-- A read of the last `length` bytes of a range of two pages. -/
def readLast (length : UInt32) : WdfRequest :=
  deliver ⟨0, length, 0x2000 - length.toUInt64⟩ sizeofReadRequest
    (sizeofReadResult.toUInt64 + length.toUInt64)

theorem copies_confined_iff_two_pages :
    Reached (sessionAbout ⟨0x1000, 0x2000⟩) ∧
      ∀ copy ∈ copiesOf (idleKernel none) (readLast 0x1800) ioctlPhylaReadRun
        (sessionAbout ⟨0x1000, 0x2000⟩).now,
        Confined (capturedTable (sessionAbout ⟨0x1000, 0x2000⟩)) (readLast 0x1800) copy := by
  have created : ({} : Driver).step (.fileCreate (idleKernel (some [⟨0x1000, 0x2000⟩]))) =
    some (sessionAbout ⟨0x1000, 0x2000⟩).now := rfl
  refine ⟨.create created, (copies_confined_iff _ (.create created) _ _ _).mpr ?_⟩
  rintro ⟨-, -, range, named, -, beyond⟩
  have only : some (⟨0x1000, 0x2000⟩ : PhysicalMemoryRange) = some range := named
  obtain rfl := Option.some.inj only
  exact absurd beyond (by decide)

/-- A range of two pages of which the second lies beyond the address space. A read of both
passes the checks of the driver and ends at `2 ^ 64 + 4096`. -/
def lastPages : PhysicalMemoryRange := ⟨0xFFFFFFFFFFFFF000, 0x2000⟩

theorem copies_overrun_last_pages :
    Reached (sessionAbout lastPages) ∧
      ¬∀ copy ∈ copiesOf (idleKernel none) (readLast 0x2000) ioctlPhylaReadRun
        (sessionAbout lastPages).now,
        Confined (capturedTable (sessionAbout lastPages)) (readLast 0x2000) copy := by
  have created : ({} : Driver).step (.fileCreate (idleKernel (some [lastPages]))) =
    some (sessionAbout lastPages).now := rfl
  refine ⟨.create created, fun confined => ?_⟩
  have below := (confined ⟨0xFFFFFFFFFFFFF000, 0x2000, ⟨[], 0, statusNotFound⟩⟩
    (List.mem_singleton_self _)).below
  exact absurd below (by decide)

end Confinement

end PhylaRam
