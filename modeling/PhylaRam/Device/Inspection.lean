import PhylaRam.Device.Query

/-!
# A session that is only asked

A dry run asks for the topology and the hints and ends the session. Each of these requests is
answered by callbacks that copy no memory, and every answer can be found in the history of the
file object: the table that was frozen, the hints of the kernel, and the comparison of the frozen
table with the one of the last moment.
-/

namespace PhylaRam

open Program DeviceSession

/-- What holds of a session keeps holding when the driver answers a request that reads no memory,
and when the client stores an error. -/
structure Steady (machine : Machine) (P : DeviceSession → Prop) : Prop where
  rejected : ∀ s error, P s → P { s with lastError := error }
  recorded : ∀ s request code completion d, code ≠ ioctlPhylaReadRun →
    phylaEvtIoDeviceControl (machine.kernel s.tick) request code s.driver.now =
      some (completion, d) →
    P s → P (DeviceSession.recorded d (.deviceControl (machine.kernel s.tick) request code) s)

section Requests

variable {machine : Machine} {P : DeviceSession → Prop}

theorem Steady.reject {α : Type} (steady : Steady machine P) (error : UInt32) :
    Keeps P (DeviceSession.reject error : DeviceM α) :=
  .bind (.modify fun s h => steady.rejected s error h) fun _ => .throw ()

theorem Steady.requireHandle (steady : Steady machine P) : Keeps P requireHandle :=
  .bind .get fun _ => .ite (fun _ => .pure ()) fun _ => steady.reject _

theorem Steady.deviceIoControl (steady : Steady machine P) {code : UInt32}
    {input : PhylaReadRequest} {inputLength outputLength : UInt64}
    (other : code ≠ ioctlPhylaReadRun) :
    Keeps P (deviceIoControl machine code input inputLength outputLength) := by
  intro s h
  simp only [DeviceSession.deviceIoControl, WP.bind_iff, WP.get_iff]
  cases completed : phylaEvtIoDeviceControl (machine.kernel s.tick)
      (deliver input inputLength outputLength) code s.driver.now with
  | none => exact h
  | some answer =>
      obtain ⟨completion, d⟩ := answer
      have next := steady.recorded s _ code completion d other completed h
      simp only [WP.bind_iff, WP.set_iff, WP.ite_iff, WP.pure_iff]
      exact ⟨fun _ => next, fun _ => steady.reject _ _ next⟩

theorem Steady.queryRanges (steady : Steady machine P) (info : PhylaQueryInfo) :
    Keeps P (queryRanges machine info) := by
  refine .bind (steady.deviceIoControl (by decide)) fun answer =>
    .ite (fun _ => steady.reject _) fun _ => ?_
  split
  · exact steady.reject _
  · exact .ite (fun _ => steady.reject _) fun _ => .pure _

theorem Steady.query (steady : Steady machine P) : Keeps P (query machine) := by
  refine .bind steady.requireHandle fun _ =>
    .bind (steady.deviceIoControl (by decide)) fun answer => ?_
  exact .ite (fun _ => steady.reject _) fun _ =>
    .ite (fun _ => steady.reject _) fun _ => steady.queryRanges _

theorem Steady.queryHints (steady : Steady machine P) : Keeps P (queryHints machine) := by
  refine .bind steady.requireHandle fun _ =>
    .bind (steady.deviceIoControl (by decide)) fun answer => ?_
  exact .ite (fun _ => steady.reject _) fun _ => .pure _

theorem Steady.endSession (steady : Steady machine P) :
    Keeps P (DeviceSession.endSession machine) := by
  refine .bind steady.requireHandle fun _ =>
    .bind (steady.deviceIoControl (by decide)) fun answer => ?_
  exact .ite (fun _ => steady.reject _) fun _ => .pure _

theorem keeps_method {α : Type} {x : DeviceM α} {s : DeviceSession} (keeps : Keeps P x)
    (h : P s) : P (method x s).2 := by
  cases method_cases (keeps s h) with
  | inl returned => exact returned.choose_spec.2
  | inr stopped => exact stopped.2

end Requests

/-! ### No memory is read -/

/-- The driver has not copied any memory for this file object. -/
structure Unread (s : DeviceSession) : Prop where
  represents : ∃ session, Represents s.driver.now session
  copies : s.driver.now.copies = []

theorem unread_new : Unread {} := ⟨⟨.closed, .closed rfl .empty⟩, rfl⟩

section Unread

variable {machine : Machine} {s t : DeviceSession}

theorem steady_unread : Steady machine Unread where
  rejected _ _ h := ⟨h.represents, h.copies⟩
  recorded s request code completion d other completed h := by
    obtain ⟨session, represents⟩ := h.represents
    cases phylaEvtIoDeviceControl_completes represents completed with
    | served _ _ _ represents' copies =>
        exact ⟨⟨_, represents'⟩, (copies.resolve_right other).trans h.copies⟩
    | refused _ represents' _ copies => exact ⟨⟨_, represents'⟩, copies.trans h.copies⟩

/-- Closing the last handle only releases the table. -/
theorem Unread.close (h : Unread s) : Unread (close s) := by
  obtain ⟨session, represents⟩ := h.represents
  unfold DeviceSession.close
  split
  · refine ⟨⟨.closed, phylaEvtFileCleanup_represents represents⟩, ?_⟩
    change (phylaEvtFileCleanup s.driver.now).copies = []
    rw [phylaEvtFileCleanup_eq]
    exact h.copies
  · exact h

/-- The creation of a file object captures the table and reads no memory. -/
theorem phylaSessionBegin_copies (calls : KernelCalls) :
    Keeps (fun d : Driver => d.copies = []) (phylaSessionBegin calls) := by
  have reading (block : Nat) : Keeps (fun d : Driver => d.copies = []) (rangesAt block) :=
    .modifyGet fun _ h => h
  refine .bind (.modifyGet fun d h => ?_) fun answer => ?_
  · split <;> exact h
  · split
    · exact .throw _
    · refine .bind (.bind (reading _) fun entries => ?_) fun count => .ite (fun _ => ?_) fun _ => ?_
      · split
        · exact .throw _
        · exact .pure _
      · exact .bind (.modify fun _ h => h) fun _ => .throw _
      · exact .bind (reading _) fun entries => .modify fun _ h => h

theorem phylaEvtFileCreate_copies {calls : KernelCalls} {status : NtStatus} {d : Driver}
    (created : phylaEvtFileCreate calls {} = some (status, d)) : d.copies = [] := by
  have kept := phylaSessionBegin_copies calls { context := {} } rfl
  unfold phylaEvtFileCreate at created
  cases begins : phylaSessionBegin calls { context := {} } with
  | ok _ e =>
      rw [begins] at created
      cases created
      exact kept.of_ok begins
  | error fault e =>
      rw [begins] at created
      cases fault with
      | hangs => cases created
      | status status =>
          cases created
          exact kept.of_error begins

theorem Unread.openSession (machine : Machine) (h : Unread s) :
    Unread ((deviceSession machine).openSession s).2 := by
  have closed := h.close
  change Unread (openDevice machine s).2
  unfold DeviceSession.openDevice
  dsimp only
  split
  · exact ⟨closed.represents, closed.copies⟩
  · split
    · exact ⟨closed.represents, closed.copies⟩
    · next created =>
        split
        · next success =>
            obtain ⟨entries, -, represents⟩ := (phylaEvtFileCreate_represents created).1 success
            exact ⟨⟨_, represents⟩, phylaEvtFileCreate_copies created⟩
        · exact ⟨closed.represents, closed.copies⟩

theorem Unread.query (machine : Machine) (h : Unread s) :
    Unread ((deviceSession machine).query s).2 :=
  keeps_method steady_unread.query h

theorem Unread.queryHints (machine : Machine) (h : Unread s) :
    Unread ((deviceSession machine).queryHints s).2 :=
  keeps_method steady_unread.queryHints h

theorem Unread.endSession (machine : Machine) (h : Unread s) :
    Unread ((deviceSession machine).endSession s).2 :=
  keeps_method steady_unread.endSession h

end Unread

/-! ### The history grows -/

/-- Nothing that happened to the file object is forgotten. -/
def Remembers (s t : DeviceSession) : Prop := s.driver.past <+: t.driver.past

section History

variable {machine : Machine} {s t u : DeviceSession}

theorem Remembers.refl (s : DeviceSession) : Remembers s s := List.prefix_rfl

theorem Remembers.trans (h : Remembers s t) (h' : Remembers t u) : Remembers s u :=
  List.IsPrefix.trans h h'

theorem steady_remembers : Steady machine (Remembers s) where
  rejected _ _ h := h
  recorded _ _ _ _ _ _ _ h := List.IsPrefix.trans h (List.prefix_append _ _)

theorem remembers_close (s : DeviceSession) : Remembers s (close s) := by
  unfold DeviceSession.close
  split
  · change s.driver.past <+: (s.driver.past ++ [_]) ++ [_]
    exact (List.prefix_append _ _).trans (List.prefix_append _ _)
  · exact .refl s

/-- The table of a session is the one of its first callback. -/
theorem Remembers.capturedTable (h : Remembers s t) (begun : s.driver.past ≠ []) :
    capturedTable t.driver = capturedTable s.driver := by
  obtain ⟨more, grown⟩ := h
  obtain ⟨first, rest, shape⟩ := List.exists_cons_of_ne_nil begun
  rw [PhylaRam.capturedTable, PhylaRam.capturedTable, ← grown, shape]
  rfl

end History

/-! ### What the three requests find -/

/-- The hints of the kernel as the client keeps them. -/
def hintsOf (raw : PhylaKernelHints) : KernelHints where
  available := true
  hypervisorPresent := raw.hypervisorPresent != 0
  majorVersion := raw.majorVersion
  minorVersion := raw.minorVersion
  buildNumber := raw.buildNumber
  numberOfProcessors := raw.numberOfProcessors
  directoryTableBase := raw.directoryTableBase
  kpcrAddress := raw.kpcrAddress
  kernelBase := raw.kernelBase
  kernelSize := raw.kernelSize

/-- The hints are what the kernel answered to a request of this file object. -/
def Hinted (hints : KernelHints) (h : History Driver DriverEvent) : Prop :=
  ∃ d calls request, (d, .deviceControl calls request ioctlPhylaQueryHints) ∈ h.past ∧
    hints = hintsOf calls.hints

/-- The driver has compared the table of the session with the one of the moment it was ended. -/
def Compared (table : List PhysicalMemoryRange) (changed : Bool)
    (h : History Driver DriverEvent) : Prop :=
  ∃ d calls request current, (d, .deviceControl calls request ioctlPhylaEndSession) ∈ h.past ∧
    calls.ranges = some current ∧ (changed = true ↔ tableOf current ≠ table)

section Findings

variable {machine : Machine} {table : List PhysicalMemoryRange} {s t : DeviceSession}

theorem queryHints_hinted (machine : Machine) (s : DeviceSession) :
    WP (DeviceSession.queryHints machine) (fun hints t => Hinted hints t.driver)
      (fun _ _ => True) s := by
  have stop {α : Type} {error : UInt32} {post : α → DeviceSession → Prop} {t : DeviceSession} :
      WP (DeviceSession.reject error) post (fun _ _ => True) t := trivial
  have answered (d : Driver) : handleDeviceControl (machine.kernel s.tick)
      (deliver noInput 0 sizeofKernelHints) ioctlPhylaQueryHints d =
        .ok (.hints { (machine.kernel s.tick).hints with
          version := phylaProtocolVersion, reserved := 0, reserved2 := 0 }, sizeofKernelHints) d := rfl
  simp only [DeviceSession.queryHints, WP.bind_iff, DeviceSession.requireHandle, WP.get_iff,
    WP.ite_iff, WP.pure_iff]
  refine ⟨fun _ => ?_, fun _ => stop⟩
  apply deviceIoControl_served (answered s.driver.now)
  refine ⟨fun _ => stop, fun _ => ⟨s.driver.now, machine.kernel s.tick,
    deliver noInput 0 sizeofKernelHints, ?_, rfl⟩⟩
  exact List.mem_append_right _ (List.mem_singleton_self _)

theorem endSession_compared (session : InSession table s) :
    WP (DeviceSession.endSession machine) (fun changed t => Compared table changed t.driver)
      (fun _ _ => True) s := by
  simp only [DeviceSession.endSession, WP.bind_iff]
  apply requireHandle_wp session
  simp only [DeviceSession.deviceIoControl, WP.bind_iff, WP.get_iff]
  cases completed : phylaEvtIoDeviceControl (machine.kernel s.tick)
      (deliver noInput 0 sizeofEndResult) ioctlPhylaEndSession s.driver.now with
  | none => trivial
  | some answer =>
      obtain ⟨completion, d⟩ := answer
      simp only [WP.bind_iff, WP.set_iff, WP.ite_iff, WP.pure_iff]
      refine ⟨fun success => ⟨fun _ => trivial, fun _ => ?_⟩, fun _ => trivial⟩
      cases phylaEvtIoDeviceControl_completes session.represents completed with
      | refused failed =>
          rw [failed] at success
          cases success
      | served _ filled serves =>
          rw [filled]
          cases serves with
          | @endSession _ current result _ answered changed =>
              refine ⟨_, _, _, current, List.mem_append_right _ (List.mem_singleton_self _),
                answered, ?_⟩
              change (result.topologyChanged != 0) = true ↔ _
              rw [changed, bne_iff_ne]
              split
              · next same => exact iff_of_false (fun no => no rfl) fun no => no same
              · next different => exact iff_of_true (by decide) different

/-- What was found stays on record. -/
theorem Hinted.remembered {hints : KernelHints} (h : Hinted hints s.driver)
    (later : Remembers s t) : Hinted hints t.driver := by
  obtain ⟨d, calls, request, member, answer⟩ := h
  exact ⟨d, calls, request, later.subset member, answer⟩

theorem Compared.remembered {changed : Bool} (h : Compared table changed s.driver)
    (later : Remembers s t) : Compared table changed t.driver := by
  obtain ⟨d, calls, request, current, member, answered, compared⟩ := h
  exact ⟨d, calls, request, current, later.subset member, answered, compared⟩

/-- What a dry run knows when its three requests have been answered. -/
structure Findings (topology : Topology) (hints : KernelHints) (changed : Bool)
    (h : History Driver DriverEvent) : Prop where
  admissible : Admissible (capturedTable h)
  exactly : Exactly (capturedTable h) topology
  hinted : hints = {} ∨ Hinted hints h
  compared : Compared (capturedTable h) changed h

theorem Findings.remembered {topology : Topology} {hints : KernelHints} {changed : Bool}
    (h : Findings topology hints changed s.driver) (later : Remembers s t) :
    Findings topology hints changed t.driver := by
  obtain ⟨_, _, _, _, member, _⟩ := h.compared
  have same := later.capturedTable (List.ne_nil_of_mem member)
  exact ⟨same ▸ h.admissible, same ▸ h.exactly, h.hinted.imp_right (·.remembered later),
    same ▸ h.compared.remembered later⟩

theorem method_returned {α : Type} {x : DeviceM α} {a : α} (h : method x s = (some a, t)) :
    x s = .ok a t := by
  unfold DeviceSession.method at h
  split at h
  · next ran =>
      cases h
      exact ran
  · cases h

/-- The requests of a dry run that succeeds, one after the other. -/
theorem findings_of_answers {d e : DeviceSession} {topology : Topology} {hintsOk changed : Bool}
    {hints : KernelHints} (session : InSession table s)
    (asked : (deviceSession machine).query s = (some topology, d))
    (answered : (deviceSession machine).queryHints d = ((hintsOk, hints), e))
    (ended : (deviceSession machine).endSession e = (some changed, t)) :
    Findings topology (if hintsOk then hints else {}) changed t.driver := by
  obtain ⟨block, -, holds⟩ := session.represents.frozen_open
  have queried := method_returned asked
  obtain ⟨admissible, exactly⟩ := (query_holds holds session.handle).of_ok queried
  have during : InSession table d := ((query_wp machine session).of_ok queried).1.session
  have first : ((method (DeviceSession.queryHints machine) d).1.isSome,
      (method (DeviceSession.queryHints machine) d).1.getD {}) = (hintsOk, hints) :=
    congrArg Prod.fst answered
  have second : (method (DeviceSession.queryHints machine) d).2 = e := congrArg Prod.snd answered
  have before : InSession table e := by
    cases method_cases (queryHints_wp machine during) with
    | inl available => exact second ▸ available.choose_spec.2.session
    | inr unavailable => exact second ▸ unavailable.2.session
  have compared := (endSession_compared before).of_ok (method_returned ended)
  have third : (method (DeviceSession.endSession machine) e).2 = t := congrArg Prod.snd ended
  have onward : Remembers e t := third ▸ keeps_method steady_remembers.endSession (.refl _)
  have same : capturedTable t.driver = table :=
    (onward.capturedTable before.reached.tracked.nonempty).trans before.captured
  refine ⟨same ▸ admissible, same ▸ exactly, ?_, same ▸ compared⟩
  cases method_cases (queryHints_hinted machine d) with
  | inl available =>
      obtain ⟨found, some, told⟩ := available
      rw [some] at first
      cases first
      rw [second] at told
      exact .inr (told.remembered onward)
  | inr unavailable =>
      rw [unavailable.1] at first
      cases first
      exact .inl rfl

end Findings

end PhylaRam
