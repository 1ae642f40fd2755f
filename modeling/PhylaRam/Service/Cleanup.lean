import PhylaRam.Service.Driver

/-!
# What a successful cleanup of the driver has established

`StopAndDeleteDriver` reports the last error when the service could not be stopped, but a
service that does not stop in time sets no error. So the report is a false success exactly if
the last error was zero on entry, the stop request was accepted, and every query until the
deadline reported another state.
-/

namespace PhylaRam

open DriverService

variable {w t : ServiceWorld} {path : WString}

/-! ### Observations -/

/-- A query has reported the stopped state. -/
def SeenStopped (events : List ServiceEvent) : Prop :=
  ∃ event ∈ events, event.call = .queryStatus ∧ event.failure = none ∧
    event.state = serviceStopped

/-- The service did not exist, or it was seen stopped and then its deletion was accepted or was
pending already. -/
def ServiceRemoved (events : List ServiceEvent) : Prop :=
  (∃ event ∈ events, event.call = .openService ∧ event.failure = some errorServiceDoesNotExist) ∨
    ∃ earlier later, events = earlier ++ later ∧
      SeenStopped earlier ∧
      ∃ event ∈ later, event.call = .deleteService ∧
        (event.failure = none ∨ event.failure = some errorServiceMarkedForDelete)

/-- The file was deleted, or there was none. -/
def DriverFileGone (path : WString) (events : List ServiceEvent) : Prop :=
  ∃ event ∈ events, event.call = .deleteFile path ∧
    (event.failure = none ∨ event.failure = some errorFileNotFound)

/-- What has been observed in between. -/
def Observed (P : List ServiceEvent → Prop) (w t : ServiceWorld) : Prop :=
  ∃ events, t.events = w.events ++ events ∧ P events

theorem Observed.mono {P Q : List ServiceEvent → Prop} (h : Observed P w t)
    (weaker : ∀ events, P events → Q events) : Observed Q w t := by
  obtain ⟨events, same, holds⟩ := h
  exact ⟨events, same, weaker events holds⟩

theorem Observed.trans {P Q R : List ServiceEvent → Prop} {u : ServiceWorld} (h : Observed P w t)
    (h' : Observed Q t u) (both : ∀ first later, P first → Q later → R (first ++ later)) :
    Observed R w u := by
  obtain ⟨first, same, holds⟩ := h
  obtain ⟨later, same', holds'⟩ := h'
  exact ⟨first ++ later, by rw [same', same, List.append_assoc], both first later holds holds'⟩

theorem observed_after (call : ServiceCall) (w : ServiceWorld) :
    Observed (· = [w.event call]) w (w.after call) := ⟨_, rfl, rfl⟩

/-- A call that failed has left its error. -/
theorem after_failed (call : ServiceCall) (failed : w.choice.failure.isNone = false) :
    (w.after call).lastError ≠ errorSuccess ∧
      (w.event call).failure = some (w.after call).lastError := by
  rw [ServiceWorld.after, ServiceWorld.event]
  cases some : w.choice.failure with
  | none =>
      rw [some] at failed
      cases failed
  | some error => exact ⟨error.nonzero, rfl⟩

theorem after_succeeded (call : ServiceCall) (succeeded : w.choice.failure.isNone = true) :
    (w.after call).lastError = w.lastError ∧ (w.event call).failure = none := by
  have none := Option.isNone_iff_eq_none.mp succeeded
  rw [ServiceWorld.after, ServiceWorld.event, none]
  exact ⟨rfl, rfl⟩

/-! ### Waiting for the service to stop -/

/-- Every call succeeded, and no query saw the service stopped. -/
def NeverSeenStopped (events : List ServiceEvent) : Prop :=
  ∀ event ∈ events, event.failure = none ∧ ¬(event.call = .queryStatus ∧ event.state = serviceStopped)

/-- From this world on every query until the deadline reports a state other than stopped. -/
inductive NeverStops (deadline : Nat) : ServiceWorld → Prop
  | expired {w : ServiceWorld} (late : deadline ≤ w.clock) : NeverStops deadline w
  | poll {w : ServiceWorld} (early : w.clock < deadline)
      (answered : w.choice.failure.isNone = true) (other : w.choice.state ≠ serviceStopped)
      (rest : NeverStops deadline ((w.after .queryStatus).sleep kServicePollInterval)) :
      NeverStops deadline w

section Loop

variable {desired state : UInt32} {deadline : Nat}

theorem waitLoop_expired (late : ¬w.clock < deadline) : waitLoop desired deadline w = (false, w) := by
  rw [waitLoop, if_neg late]

theorem waitLoop_failed (early : w.clock < deadline) (failed : w.choice.failure.isNone = false) :
    waitLoop desired deadline w = (false, w.after .queryStatus) := by
  have answer : queryServiceStatusEx w = (none, w.after .queryStatus) := by
    rw [queryServiceStatusEx, failed]
    rfl
  rw [waitLoop, if_pos early, answer]

theorem waitLoop_answered (early : w.clock < deadline) (answered : w.choice.failure.isNone = true) :
    waitLoop desired deadline w =
      if w.choice.state = desired then (true, w.after .queryStatus)
      else waitLoop desired deadline ((w.after .queryStatus).sleep kServicePollInterval) := by
  have answer : queryServiceStatusEx w = (some w.choice.state, w.after .queryStatus) := by
    rw [queryServiceStatusEx, answered]
    rfl
  rw [waitLoop, if_pos early, answer]

/-- Induction over the turns of the loop. -/
theorem wait_induction (deadline : Nat) {P : ServiceWorld → Prop}
    (expired : ∀ w, ¬w.clock < deadline → P w)
    (failed : ∀ w, w.clock < deadline → w.choice.failure.isNone = false → P w)
    (answered : ∀ w, w.clock < deadline → w.choice.failure.isNone = true →
      P ((w.after .queryStatus).sleep kServicePollInterval) → P w) (w : ServiceWorld) : P w := by
  by_cases early : w.clock < deadline
  · cases answer : w.choice.failure.isNone with
    | false => exact failed w early answer
    | true => exact answered w early answer (wait_induction deadline expired failed answered _)
  · exact expired w early
termination_by deadline - w.clock
decreasing_by
  show deadline - (w.clock + w.choice.duration + 50 + _) < _
  omega

end Loop

variable {deadline : Nat}

/-- The query of a turn that goes on has seen another state. -/
theorem observed_turn (answered : w.choice.failure.isNone = true)
    (other : w.choice.state ≠ serviceStopped) :
    Observed NeverSeenStopped w ((w.after .queryStatus).sleep kServicePollInterval) := by
  refine ⟨[w.event .queryStatus], rfl, fun event among => ?_⟩
  obtain rfl := List.mem_singleton.mp among
  exact ⟨(after_succeeded _ answered).2, fun seen => other seen.2⟩

theorem SeenStopped.before {first later : List ServiceEvent} (h : SeenStopped later) :
    SeenStopped (first ++ later) := by
  obtain ⟨event, among, seen⟩ := h
  exact ⟨event, List.mem_append_right _ among, seen⟩

theorem waitLoop_stopped (stopped : (waitLoop serviceStopped deadline w).1 = true) :
    Observed SeenStopped w (waitLoop serviceStopped deadline w).2 := by
  induction w using wait_induction deadline with
  | expired w late =>
      rw [waitLoop_expired late] at stopped
      cases stopped
  | failed w early failed =>
      rw [waitLoop_failed early failed] at stopped
      cases stopped
  | answered w early answered ih =>
      rw [waitLoop_answered early answered] at stopped ⊢
      by_cases seen : w.choice.state = serviceStopped
      · rw [if_pos seen]
        refine (observed_after .queryStatus w).mono ?_
        rintro _ rfl
        exact ⟨_, List.mem_singleton_self _, rfl, (after_succeeded _ answered).2, seen⟩
      · rw [if_neg seen] at stopped ⊢
        exact (observed_turn answered seen).trans (ih stopped) fun _ _ _ later => later.before

/-- Giving up without an error means that the service never stopped. -/
theorem waitLoop_gives_up (stopped : (waitLoop serviceStopped deadline w).1 = false)
    (clean : (waitLoop serviceStopped deadline w).2.lastError = errorSuccess) :
    w.lastError = errorSuccess ∧ NeverStops deadline w := by
  induction w using wait_induction deadline with
  | expired w late =>
      rw [waitLoop_expired late] at clean
      exact ⟨clean, .expired (Nat.le_of_not_lt late)⟩
  | failed w early failed =>
      rw [waitLoop_failed early failed] at clean
      exact ((after_failed _ failed).1 clean).elim
  | answered w early answered ih =>
      rw [waitLoop_answered early answered] at stopped clean
      by_cases seen : w.choice.state = serviceStopped
      · rw [if_pos seen] at stopped
        cases stopped
      · rw [if_neg seen] at stopped clean
        obtain ⟨unchanged, rest⟩ := ih stopped clean
        have same : (w.after .queryStatus).lastError = w.lastError := (after_succeeded _ answered).1
        exact ⟨same ▸ unchanged, .poll early answered seen rest⟩

theorem NeverSeenStopped.append {first later : List ServiceEvent} (h : NeverSeenStopped first)
    (h' : NeverSeenStopped later) : NeverSeenStopped (first ++ later) := by
  intro event among
  rcases List.mem_append.mp among with early | late
  · exact h event early
  · exact h' event late

/-- A service that never leaves another state never stops. -/
theorem NeverStops.of_stuck (deadline : Nat) (w : ServiceWorld)
    (stuck : ∀ tick, (w.oracle tick).failure.isNone = true ∧
      (w.oracle tick).state ≠ serviceStopped) : NeverStops deadline w := by
  induction w using wait_induction deadline with
  | expired w late => exact .expired (Nat.le_of_not_lt late)
  | failed w early failed =>
      have answered := (stuck w.tick).1
      rw [show (w.oracle w.tick).failure.isNone = false from failed] at answered
      cases answered
  | answered w early answered ih => exact .poll early answered (stuck w.tick).2 (ih stuck)

/-- A service that never stops is waited for in vain, and no call fails meanwhile. -/
theorem NeverStops.waitLoop (h : NeverStops deadline w) :
    (waitLoop serviceStopped deadline w).1 = false ∧
      (waitLoop serviceStopped deadline w).2.lastError = w.lastError ∧
      Observed NeverSeenStopped w (waitLoop serviceStopped deadline w).2 := by
  induction h with
  | expired late =>
      rw [waitLoop_expired (Nat.not_lt_of_le late)]
      exact ⟨rfl, rfl, [], (List.append_nil _).symm, fun event among => by cases among⟩
  | poll early answered other rest ih =>
      rw [waitLoop_answered early answered, if_neg other]
      obtain ⟨gaveUp, unchanged, observed⟩ := ih
      have same : (ServiceWorld.after .queryStatus _).lastError = _ := (after_succeeded _ answered).1
      refine ⟨gaveUp, unchanged.trans same, ?_⟩
      exact (observed_turn answered other).trans observed fun _ _ first later => first.append later

/-! ### The calls -/

section Calls

variable {call : ServiceCall}

theorem serviceCall_succeeded (succeeded : w.choice.failure.isNone = true) :
    serviceCall call w = (true, w.after call) := by rw [serviceCall, succeeded]

theorem serviceCall_failed (failed : w.choice.failure.isNone = false) :
    serviceCall call w = (false, w.after call) := by rw [serviceCall, failed]

theorem query_answered (answered : w.choice.failure.isNone = true) :
    queryServiceStatusEx w = (some w.choice.state, w.after .queryStatus) := by
  rw [queryServiceStatusEx, answered]
  rfl

theorem query_failed (failed : w.choice.failure.isNone = false) :
    queryServiceStatusEx w = (none, w.after .queryStatus) := by
  rw [queryServiceStatusEx, failed]
  rfl

end Calls

/-! ### Stopping the service -/

/-- The world after the request to stop. -/
def ServiceWorld.requested (w : ServiceWorld) : ServiceWorld :=
  ((w.after .queryStatus).after .stopService).sleep 0

/-- The service runs, accepts the request to stop, and does not stop in time. -/
structure HangsOnStop (w : ServiceWorld) : Prop where
  answered : w.choice.failure.isNone = true
  active : w.choice.state ≠ serviceStopped
  accepted : (w.after .queryStatus).choice.failure.isNone = true
  never : NeverStops (((w.after .queryStatus).after .stopService).clock +
    kServiceTransitionTimeoutMs) w.requested

/-- What follows the first query if the service is not stopped. -/
def requestStop (w : ServiceWorld) : Bool × ServiceWorld :=
  match serviceCall .stopService w with
  | (true, w) => waitForServiceState serviceStopped kServiceTransitionTimeoutMs w
  | (false, w) =>
      if w.lastError ≠ errorServiceNotActive then (false, w)
      else waitForServiceState serviceStopped kServiceTransitionTimeoutMs w

theorem stopServiceIfRunning_answered (answered : w.choice.failure.isNone = true) :
    stopServiceIfRunning w =
      if w.choice.state = serviceStopped then (true, w.after .queryStatus)
      else requestStop (w.after .queryStatus) := by
  rw [stopServiceIfRunning, query_answered answered]
  rfl

theorem requestStop_accepted (accepted : w.choice.failure.isNone = true) :
    requestStop w =
      waitForServiceState serviceStopped kServiceTransitionTimeoutMs (w.after .stopService) := by
  rw [requestStop, serviceCall_succeeded accepted]

theorem requestStop_refused (refused : w.choice.failure.isNone = false) :
    requestStop w =
      if (w.after .stopService).lastError ≠ errorServiceNotActive then
        (false, w.after .stopService)
      else waitForServiceState serviceStopped kServiceTransitionTimeoutMs (w.after .stopService) := by
  rw [requestStop, serviceCall_failed refused]

theorem observed_wait (timeout : Nat) (w : ServiceWorld)
    (stopped : (waitForServiceState serviceStopped timeout w).1 = true) :
    Observed SeenStopped w (waitForServiceState serviceStopped timeout w).2 :=
  waitLoop_stopped stopped

theorem requestStop_stopped (stopped : (requestStop w).1 = true) :
    Observed SeenStopped w (requestStop w).2 := by
  cases answer : w.choice.failure.isNone with
  | true =>
      rw [requestStop_accepted answer] at stopped ⊢
      exact (observed_after .stopService w).trans (observed_wait _ _ stopped)
        fun _ _ _ later => later.before
  | false =>
      rw [requestStop_refused answer] at stopped ⊢
      by_cases other : (w.after .stopService).lastError ≠ errorServiceNotActive
      · rw [if_pos other] at stopped
        cases stopped
      · rw [if_neg other] at stopped ⊢
        exact (observed_after .stopService w).trans (observed_wait _ _ stopped)
          fun _ _ _ later => later.before

/-- `StopServiceIfRunning` is true only if the service has been seen stopped. -/
theorem stopServiceIfRunning_stopped (stopped : (stopServiceIfRunning w).1 = true) :
    Observed SeenStopped w (stopServiceIfRunning w).2 := by
  cases answer : w.choice.failure.isNone with
  | false =>
      rw [stopServiceIfRunning, query_failed answer] at stopped
      cases stopped
  | true =>
      rw [stopServiceIfRunning_answered answer] at stopped ⊢
      by_cases seen : w.choice.state = serviceStopped
      · rw [if_pos seen]
        refine (observed_after .queryStatus w).mono ?_
        rintro _ rfl
        exact ⟨_, List.mem_singleton_self _, rfl, (after_succeeded _ answer).2, seen⟩
      · rw [if_neg seen] at stopped ⊢
        exact (observed_after .queryStatus w).trans (requestStop_stopped stopped)
          fun _ _ _ later => later.before

/-- Only a service that hangs leaves the last error zero. A refused request has set it. -/
theorem stopServiceIfRunning_unexplained (kept : (stopServiceIfRunning w).1 = false)
    (clean : (stopServiceIfRunning w).2.lastError = errorSuccess) :
    w.lastError = errorSuccess ∧ HangsOnStop w := by
  cases answer : w.choice.failure.isNone with
  | false =>
      rw [stopServiceIfRunning, query_failed answer] at clean
      exact ((after_failed _ answer).1 clean).elim
  | true =>
      have quiet : (w.after .queryStatus).lastError = w.lastError := (after_succeeded _ answer).1
      rw [stopServiceIfRunning_answered answer] at kept clean
      by_cases seen : w.choice.state = serviceStopped
      · rw [if_pos seen] at kept
        cases kept
      · rw [if_neg seen] at kept clean
        cases request : (w.after .queryStatus).choice.failure.isNone with
        | true =>
            rw [requestStop_accepted request] at kept clean
            have silent : ((w.after .queryStatus).after .stopService).lastError = _ :=
              (after_succeeded _ request).1
            obtain ⟨unchanged, never⟩ := waitLoop_gives_up kept clean
            exact ⟨quiet ▸ silent ▸ unchanged, answer, seen, request, never⟩
        | false =>
            have set : ((w.after .queryStatus).after .stopService).lastError ≠ errorSuccess :=
              (after_failed _ request).1
            rw [requestStop_refused request] at kept clean
            split at clean
            · exact (set clean).elim
            · rename_i inactive
              rw [if_neg inactive] at kept
              exact (set (waitLoop_gives_up kept clean).1).elim

/-- A call that succeeded, and was no query, has not seen the service stopped. -/
theorem observed_success (call : ServiceCall) (succeeded : w.choice.failure.isNone = true)
    (unseen : ¬(call = .queryStatus ∧ w.choice.state = serviceStopped)) :
    Observed NeverSeenStopped w (w.after call) := by
  refine (observed_after call w).mono ?_
  rintro _ rfl event among
  obtain rfl := List.mem_singleton.mp among
  exact ⟨(after_succeeded _ succeeded).2, unseen⟩

/-- Conversely, a service that hangs is given up in silence. -/
theorem HangsOnStop.stopServiceIfRunning (h : HangsOnStop w) :
    (stopServiceIfRunning w).1 = false ∧ (stopServiceIfRunning w).2.lastError = w.lastError ∧
      Observed NeverSeenStopped w (stopServiceIfRunning w).2 := by
  obtain ⟨answered, active, accepted, never⟩ := h
  have first : (w.after .queryStatus).lastError = _ := (after_succeeded _ answered).1
  have second : ((w.after .queryStatus).after .stopService).lastError = _ :=
    (after_succeeded _ accepted).1
  obtain ⟨gaveUp, unchanged, observed⟩ := never.waitLoop
  rw [stopServiceIfRunning_answered answered, if_neg active, requestStop_accepted accepted]
  refine ⟨gaveUp, unchanged.trans (second.trans first), ?_⟩
  have query := observed_success .queryStatus answered fun seen => active seen.2
  have request := observed_success .stopService accepted
    fun seen => by cases seen.1
  exact (query.trans request fun _ _ a b => a.append b).trans observed fun _ _ a b => a.append b

/-! ### Deleting the service -/

/-- The world in which the service has been opened. -/
def ServiceWorld.opened (w : ServiceWorld) : ServiceWorld :=
  (w.after .openManager).after .openService

/-- The circumstances in which the report is wrong: the last error is zero on entry, the
service can be opened, and it hangs on the request to stop. -/
structure StaleTimeout (w : ServiceWorld) : Prop where
  clean : w.lastError = errorSuccess
  manager : w.choice.failure.isNone = true
  service : (w.after .openManager).choice.failure.isNone = true
  hangs : HangsOnStop w.opened

/-- What follows after the service has been opened. -/
def stopAndDelete (w : ServiceWorld) : UInt32 × ServiceWorld :=
  match stopServiceIfRunning w with
  | (false, w) => (w.lastError, w)
  | (true, w) =>
      match serviceCall .deleteService w with
      | (true, w) => (errorSuccess, w)
      | (false, w) =>
          if w.lastError ≠ errorServiceMarkedForDelete then (w.lastError, w)
          else (errorSuccess, w)

theorem stopAndDeleteDriver_opened (manager : w.choice.failure.isNone = true)
    (service : (w.after .openManager).choice.failure.isNone = true) :
    stopAndDeleteDriver w = stopAndDelete w.opened := by
  rw [stopAndDeleteDriver, serviceCall_succeeded manager]
  dsimp only
  rw [serviceCall_succeeded service]
  rfl

theorem ServiceRemoved.before {first later : List ServiceEvent} (h : ServiceRemoved later) :
    ServiceRemoved (first ++ later) := by
  cases h with
  | inl absent =>
      obtain ⟨event, among, reported⟩ := absent
      exact .inl ⟨event, List.mem_append_right _ among, reported⟩
  | inr deleted =>
      obtain ⟨earlier, rest, rfl, seen, accepted⟩ := deleted
      exact .inr ⟨first ++ earlier, rest, (List.append_assoc ..).symm, seen.before, accepted⟩

theorem NeverSeenStopped.not_removed {events : List ServiceEvent} (h : NeverSeenStopped events) :
    ¬ServiceRemoved events := by
  intro removed
  cases removed with
  | inl absent =>
      obtain ⟨event, among, _, failed⟩ := absent
      rw [(h event among).1] at failed
      cases failed
  | inr deleted =>
      obtain ⟨earlier, rest, rfl, ⟨event, among, query, _, stopped⟩, _⟩ := deleted
      exact (h event (List.mem_append_left _ among)).2 ⟨query, stopped⟩

theorem stopAndDelete_success (success : (stopAndDelete w).1 = errorSuccess) :
    Observed ServiceRemoved w (stopAndDelete w).2 ∨ w.lastError = errorSuccess ∧ HangsOnStop w := by
  rw [stopAndDelete] at success ⊢
  cases stop : stopServiceIfRunning w with
  | mk stopped u =>
      rw [stop] at success
      cases stopped with
      | false =>
          have kept : (stopServiceIfRunning w).1 = false := by rw [stop]
          have clean : (stopServiceIfRunning w).2.lastError = errorSuccess := by
            rw [stop]
            exact success
          exact .inr (stopServiceIfRunning_unexplained kept clean)
      | true =>
          have seen : Observed SeenStopped w (stopServiceIfRunning w).2 :=
            stopServiceIfRunning_stopped (by rw [stop])
          rw [stop] at seen
          -- the deletion follows on the observation
          have deleted (accepted : (u.event .deleteService).failure = none ∨
              (u.event .deleteService).failure = some errorServiceMarkedForDelete) :
              Observed ServiceRemoved w (u.after .deleteService) := by
            refine seen.trans (observed_after .deleteService u) ?_
            rintro first _ seen rfl
            exact .inr ⟨first, _, rfl, seen, _, List.mem_singleton_self _, rfl, accepted⟩
          refine .inl ?_
          dsimp only at success ⊢
          cases answer : u.choice.failure.isNone with
          | true =>
              rw [serviceCall_succeeded answer]
              exact deleted (.inl (after_succeeded _ answer).2)
          | false =>
              obtain ⟨failed, reported⟩ := after_failed .deleteService answer
              rw [serviceCall_failed answer] at success ⊢
              by_cases other : (u.after .deleteService).lastError ≠ errorServiceMarkedForDelete
              · dsimp only at success
                rw [if_pos other] at success
                exact (failed success).elim
              · dsimp only
                rw [if_neg other]
                exact deleted (.inr (by rw [reported, not_not.mp other]))

theorem HangsOnStop.stopAndDelete (h : HangsOnStop w) :
    (stopAndDelete w).1 = w.lastError ∧ Observed NeverSeenStopped w (stopAndDelete w).2 := by
  obtain ⟨gaveUp, unchanged, observed⟩ := h.stopServiceIfRunning
  rw [PhylaRam.stopAndDelete]
  cases stop : DriverService.stopServiceIfRunning w with
  | mk stopped u =>
      rw [stop] at gaveUp unchanged observed
      cases gaveUp
      exact ⟨unchanged, observed⟩

/-- A successful report is true except after a stale timeout. -/
theorem stopAndDeleteDriver_success (success : (stopAndDeleteDriver w).1 = errorSuccess)
    (fresh : ¬StaleTimeout w) : Observed ServiceRemoved w (stopAndDeleteDriver w).2 := by
  cases manager : w.choice.failure.isNone with
  | false =>
      rw [stopAndDeleteDriver, serviceCall_failed manager] at success
      exact ((after_failed .openManager manager).1 success).elim
  | true =>
      have silent : (w.after .openManager).lastError = _ := (after_succeeded _ manager).1
      cases service : (w.after .openManager).choice.failure.isNone with
      | false =>
          obtain ⟨failed, reported⟩ := after_failed .openService service
          rw [stopAndDeleteDriver, serviceCall_succeeded manager] at success ⊢
          dsimp only at success ⊢
          rw [serviceCall_failed service] at success ⊢
          dsimp only at success ⊢
          split at success
          · rename_i absent
            refine (observed_after .openManager w).trans (observed_after .openService _) ?_
            rintro _ _ rfl rfl
            exact .inl ⟨_, List.mem_cons_of_mem _ (List.mem_singleton_self _), rfl,
              reported.trans (congrArg some absent)⟩
          · exact (failed success).elim
      | true =>
          have quiet : w.opened.lastError = _ := (after_succeeded _ service).1
          rw [stopAndDeleteDriver_opened manager service] at success ⊢
          cases stopAndDelete_success success with
          | inl removed =>
              have opening : Observed (fun _ => True) w w.opened :=
                (observed_after .openManager w).trans (observed_after .openService _)
                  fun _ _ _ _ => trivial
              exact opening.trans removed fun _ _ _ later => later.before
          | inr hangs =>
              exact (fresh ⟨silent ▸ quiet ▸ hangs.1, manager, service, hangs.2⟩).elim

/-- After a stale timeout success is reported of a service that was never seen stopped. -/
theorem StaleTimeout.stopAndDeleteDriver (h : StaleTimeout w) :
    (stopAndDeleteDriver w).1 = errorSuccess ∧
      Observed NeverSeenStopped w (stopAndDeleteDriver w).2 := by
  have silent : (w.after .openManager).lastError = _ := (after_succeeded _ h.manager).1
  have quiet : w.opened.lastError = _ := (after_succeeded _ h.service).1
  obtain ⟨result, observed⟩ := h.hangs.stopAndDelete
  rw [stopAndDeleteDriver_opened h.manager h.service]
  refine ⟨result.trans (quiet.trans (silent.trans h.clean)), ?_⟩
  have manager := observed_success .openManager h.manager fun seen => by cases seen.1
  have service := observed_success .openService h.service fun seen => by cases seen.1
  exact (manager.trans service fun _ _ a b => a.append b).trans observed fun _ _ a b => a.append b

/-! ### Deleting the extracted driver -/

theorem DriverFileGone.before {first later : List ServiceEvent} (h : DriverFileGone path later) :
    DriverFileGone path (first ++ later) := by
  obtain ⟨event, among, gone⟩ := h
  exact ⟨event, List.mem_append_right _ among, gone⟩

theorem DriverFileGone.after {first later : List ServiceEvent} (h : DriverFileGone path first) :
    DriverFileGone path (first ++ later) := by
  obtain ⟨event, among, gone⟩ := h
  exact ⟨event, List.mem_append_left _ among, gone⟩

theorem ServiceRemoved.after {first later : List ServiceEvent} (h : ServiceRemoved first) :
    ServiceRemoved (first ++ later) := by
  cases h with
  | inl absent =>
      obtain ⟨event, among, reported⟩ := absent
      exact .inl ⟨event, List.mem_append_left _ among, reported⟩
  | inr deleted =>
      obtain ⟨earlier, rest, rfl, seen, event, among, accepted⟩ := deleted
      exact .inr ⟨earlier, rest ++ later, List.append_assoc .., seen, event,
        List.mem_append_left _ among, accepted⟩

/-- The attempt that ends the loop with success has deleted the file or has not found it. When
the attempts run out, the last one has set an error. -/
theorem deleteLoop_success (attempts : Nat) (w : ServiceWorld)
    (success : (deleteLoop path (attempts + 1) w).1 = errorSuccess) :
    Observed (DriverFileGone path) w (deleteLoop path (attempts + 1) w).2 := by
  have ends (gone : (w.event (.deleteFile path)).failure = none ∨
      (w.event (.deleteFile path)).failure = some errorFileNotFound) :
      Observed (DriverFileGone path) w (w.after (.deleteFile path)) := by
    refine (observed_after (.deleteFile path) w).mono ?_
    rintro _ rfl
    exact ⟨_, List.mem_singleton_self _, rfl, gone⟩
  cases answer : w.choice.failure.isNone with
  | true =>
      rw [deleteLoop, serviceCall_succeeded answer]
      exact ends (.inl (after_succeeded (.deleteFile path) answer).2)
  | false =>
      obtain ⟨failed, reported⟩ := after_failed (.deleteFile path) answer
      rw [deleteLoop, serviceCall_failed answer] at success ⊢
      dsimp only at success ⊢
      by_cases absent : (w.after (.deleteFile path)).lastError = errorFileNotFound
      · rw [if_pos absent]
        exact ends (.inr (by rw [reported, absent]))
      · rw [if_neg absent] at success ⊢
        split at success
        · exact (failed success).elim
        · rename_i passing
          rw [if_neg passing]
          cases attempts with
          | zero => exact (failed success).elim
          | succ attempts =>
              have once : Observed (fun _ => True) w
                  ((w.after (.deleteFile path)).sleep kDeleteFileRetryInterval) :=
                ⟨[w.event (.deleteFile path)], rfl, trivial⟩
              exact once.trans (deleteLoop_success attempts _ success) fun _ _ _ later => later.before

theorem deleteExtractedDriver_success (named : path ≠ [])
    (success : (deleteExtractedDriver path w).1 = errorSuccess) :
    Observed (DriverFileGone path) w (deleteExtractedDriver path w).2 := by
  rw [deleteExtractedDriver, if_neg named] at success ⊢
  exact deleteLoop_success 49 w success

/-! ### The report of the cleanup -/

/-- A start that succeeds leaves a service to stop. -/
theorem start_serviceStarted {runtime : DriverRuntime}
    (started : DriverRuntime.start .idle w = ((true, runtime), t)) :
    runtime.serviceStarted = true := by
  rw [DriverRuntime.start, if_neg (by decide)] at started
  split at started
  · cases started
  · split at started
    · cases started
    · cases started
      rfl

/-- `StopAndDeleteDriver` reports success only of a service that is removed. -/
def StopAndDeleteTruthful (w : ServiceWorld) : Prop :=
  (stopAndDeleteDriver w).1 = errorSuccess → Observed ServiceRemoved w (stopAndDeleteDriver w).2

/-- `DriverRuntime::Stop` reports success only if the service is removed and the extracted
driver is gone. -/
def StopTruthful (runtime : DriverRuntime) (w : ServiceWorld) : Prop :=
  (runtime.stop w).1.1 = errorSuccess →
    Observed (fun events => ServiceRemoved events ∧
      DriverFileGone runtime.extractedDriverPath events) w (runtime.stop w).2

theorem stop_started {runtime : DriverRuntime} (started : runtime.serviceStarted = true) :
    runtime.stop w =
      let file := deleteExtractedDriver runtime.extractedDriverPath (stopAndDeleteDriver w).2
      ((if (stopAndDeleteDriver w).1 ≠ errorSuccess then (stopAndDeleteDriver w).1 else file.1, {}),
        file.2) := by
  rw [DriverRuntime.stop, started]
  rfl

theorem stop_truthful {runtime : DriverRuntime} (started : runtime.serviceStarted = true)
    (fresh : ¬StaleTimeout w) : StopTruthful runtime w := by
  intro success
  rw [stop_started started] at success ⊢
  dsimp only at success ⊢
  by_cases first : (stopAndDeleteDriver w).1 = errorSuccess
  · rw [if_neg (not_not.mpr first)] at success
    exact (stopAndDeleteDriver_success first fresh).trans
      (deleteExtractedDriver_success (runtime.extracted started) success)
      fun _ _ removed gone => ⟨removed.after, gone.before⟩
  · rw [if_pos first] at success
    exact (first success).elim

/-- The reports of the cleanup are true, of `StopAndDeleteDriver` and of `Stop` on every started
runtime, unless the service hangs and the last error is zero on entry. -/
theorem cleanup_truthful_iff (w : ServiceWorld) :
    (StopAndDeleteTruthful w ∧
      ∀ runtime : DriverRuntime, runtime.serviceStarted = true → StopTruthful runtime w) ↔
      ¬StaleTimeout w := by
  constructor
  · intro truthful stale
    obtain ⟨success, observed⟩ := stale.stopAndDeleteDriver
    obtain ⟨events, same, unseen⟩ := observed
    obtain ⟨events', same', removed⟩ := truthful.1 success
    obtain rfl := List.append_cancel_left (same.symm.trans same')
    exact unseen.not_removed removed
  · intro fresh
    exact ⟨fun success => stopAndDeleteDriver_success success fresh,
      fun _ started => stop_truthful started fresh⟩

/-! ### A report of failure -/

/-- Only calls of this kind were made. -/
def Only (allowed : ServiceCall → Prop) (events : List ServiceEvent) : Prop :=
  ∀ event ∈ events, allowed event.call

/-- No event shows that the service is gone. -/
def NeverRemoved (events : List ServiceEvent) : Prop :=
  ∀ event ∈ events,
    ¬(event.call = .openService ∧ event.failure = some errorServiceDoesNotExist) ∧
      ¬(event.call = .deleteService ∧
        (event.failure = none ∨ event.failure = some errorServiceMarkedForDelete))

section Failure

variable {allowed : ServiceCall → Prop} {u : ServiceWorld}

theorem only_none (w : ServiceWorld) : Observed (Only allowed) w w :=
  ⟨[], (List.append_nil _).symm, fun _ no => absurd no List.not_mem_nil⟩

theorem only_after {call : ServiceCall} (among : allowed call) (w : ServiceWorld) :
    Observed (Only allowed) w (w.after call) := by
  refine (observed_after call w).mono ?_
  rintro _ rfl
  exact List.forall_mem_singleton.mpr among

theorem Observed.only (h : Observed (Only allowed) w t) (h' : Observed (Only allowed) t u) :
    Observed (Only allowed) w u :=
  h.trans h' fun _ _ first later => List.forall_mem_append.mpr ⟨first, later⟩

theorem NeverRemoved.not_removed {events : List ServiceEvent} (h : NeverRemoved events) :
    ¬ServiceRemoved events := by
  rintro (⟨event, member, absent⟩ | ⟨earlier, later, rfl, -, event, member, accepted⟩)
  · exact (h event member).1 absent
  · exact (h event (List.mem_append_right _ member)).2 accepted

theorem NeverRemoved.append {first later : List ServiceEvent} (h : NeverRemoved first)
    (h' : NeverRemoved later) : NeverRemoved (first ++ later) :=
  List.forall_mem_append.mpr ⟨h, h'⟩

theorem Only.neverRemoved {events : List ServiceEvent} (h : Only allowed events)
    (others : ∀ call, allowed call → call ≠ .openService ∧ call ≠ .deleteService) :
    NeverRemoved events := fun event member =>
  ⟨fun absent => (others _ (h event member)).1 absent.1,
    fun accepted => (others _ (h event member)).2 accepted.1⟩

theorem waitLoop_only (query : allowed .queryStatus) (desired : UInt32) (deadline : Nat)
    (w : ServiceWorld) : Observed (Only allowed) w (waitLoop desired deadline w).2 := by
  induction w using wait_induction deadline with
  | expired w late =>
      rw [waitLoop_expired late]
      exact only_none w
  | failed w early failed =>
      rw [waitLoop_failed early failed]
      exact only_after query w
  | answered w early answered ih =>
      rw [waitLoop_answered early answered]
      split
      · exact only_after query w
      · exact (only_after query w).only ih

theorem stopServiceIfRunning_only (query : allowed .queryStatus) (stop : allowed .stopService)
    (w : ServiceWorld) : Observed (Only allowed) w (stopServiceIfRunning w).2 := by
  have waits (w : ServiceWorld) : Observed (Only allowed) w
      (waitForServiceState serviceStopped kServiceTransitionTimeoutMs w).2 :=
    waitLoop_only query _ _ (w.sleep 0)
  have request (w : ServiceWorld) : Observed (Only allowed) w (requestStop w).2 := by
    have asked := only_after stop w
    cases answer : w.choice.failure.isNone with
    | true =>
        rw [requestStop_accepted answer]
        exact asked.only (waits _)
    | false =>
        rw [requestStop_refused answer]
        split
        · exact asked
        · exact asked.only (waits _)
  have asked := only_after query w
  cases answer : w.choice.failure.isNone with
  | false =>
      rw [stopServiceIfRunning, query_failed answer]
      exact asked
  | true =>
      rw [stopServiceIfRunning_answered answer]
      split
      · exact asked
      · exact asked.only (request _)

/-- What a failed deletion leaves: no event shows that the service is gone. -/
theorem neverRemoved_after (call : ServiceCall)
    (present : ¬(call = .openService ∧ (w.event call).failure = some errorServiceDoesNotExist))
    (kept : ¬(call = .deleteService ∧ ((w.event call).failure = none ∨
      (w.event call).failure = some errorServiceMarkedForDelete))) :
    Observed NeverRemoved w (w.after call) := by
  refine (observed_after call w).mono ?_
  rintro _ rfl event member
  obtain rfl := List.mem_singleton.mp member
  exact ⟨present, kept⟩

theorem stopAndDelete_failure (failed : (stopAndDelete w).1 ≠ errorSuccess) :
    Observed NeverRemoved w (stopAndDelete w).2 := by
  have calls : ∀ call : ServiceCall, call = .queryStatus ∨ call = .stopService →
      call ≠ .openService ∧ call ≠ .deleteService := by
    rintro _ (rfl | rfl) <;> decide
  have stopping : Observed NeverRemoved w (stopServiceIfRunning w).2 :=
    (stopServiceIfRunning_only (.inl rfl) (.inr rfl) w).mono fun _ only =>
      only.neverRemoved calls
  rw [stopAndDelete] at failed ⊢
  rcases stop : stopServiceIfRunning w with ⟨stopped, u⟩
  rw [stop] at failed stopping
  cases stopped with
  | false => exact stopping
  | true =>
      dsimp only at failed ⊢
      cases answer : u.choice.failure.isNone with
      | true =>
          rw [serviceCall_succeeded answer] at failed
          exact absurd rfl failed
      | false =>
          obtain ⟨error, reported⟩ := after_failed .deleteService answer
          rw [serviceCall_failed answer] at failed ⊢
          dsimp only at failed ⊢
          by_cases other : (u.after .deleteService).lastError ≠ errorServiceMarkedForDelete
          · rw [if_pos other]
            refine stopping.trans (neverRemoved_after .deleteService (fun no => nomatch no.1) ?_)
              fun _ _ first later => first.append later
            rw [reported]
            rintro ⟨-, none | pending⟩
            · cases none
            · exact other (Option.some.inj pending)
          · rw [if_neg other] at failed
            exact absurd rfl failed

/-- Nothing of a deletion that failed was seen. -/
theorem stopAndDeleteDriver_failure (failed : (stopAndDeleteDriver w).1 ≠ errorSuccess) :
    Observed NeverRemoved w (stopAndDeleteDriver w).2 := by
  have manager : Observed NeverRemoved w (w.after .openManager) :=
    neverRemoved_after .openManager (fun no => nomatch no.1) fun no => nomatch no.1
  have both {t u : ServiceWorld} (h : Observed NeverRemoved w t) (h' : Observed NeverRemoved t u) :=
    h.trans h' fun _ _ first later => NeverRemoved.append first later
  cases opened : w.choice.failure.isNone with
  | false =>
      rw [stopAndDeleteDriver, serviceCall_failed opened]
      exact manager
  | true =>
      cases service : (w.after .openManager).choice.failure.isNone with
      | false =>
          obtain ⟨error, reported⟩ := after_failed .openService service
          rw [stopAndDeleteDriver, serviceCall_succeeded opened] at failed ⊢
          dsimp only at failed ⊢
          rw [serviceCall_failed service] at failed ⊢
          refine both manager (neverRemoved_after .openService ?_ fun no => nomatch no.1)
          rintro ⟨-, absent⟩
          rw [reported] at absent
          exact failed (if_pos (Option.some.inj absent))
      | true =>
          rw [stopAndDeleteDriver_opened opened service] at failed ⊢
          have clean := (after_succeeded .openService service).2
          refine both (both manager (neverRemoved_after .openService ?_ fun no => nomatch no.1))
            (stopAndDelete_failure failed)
          rintro ⟨-, absent⟩
          rw [clean] at absent
          cases absent

/-- The calls to the service manager. -/
theorem stopAndDeleteDriver_only (w : ServiceWorld) :
    Observed (Only fun call => ∀ path, call ≠ .deleteFile path) w (stopAndDeleteDriver w).2 := by
  have other (call : ServiceCall) (no : ∀ path, call ≠ .deleteFile path) (w : ServiceWorld) :
      Observed (Only fun call => ∀ path, call ≠ .deleteFile path) w (w.after call) := only_after no w
  have manager := other .openManager (fun _ => nofun) w
  cases opened : w.choice.failure.isNone with
  | false =>
      rw [stopAndDeleteDriver, serviceCall_failed opened]
      exact manager
  | true =>
      have service := other .openService (fun _ => nofun) (w.after .openManager)
      cases found : (w.after .openManager).choice.failure.isNone with
      | false =>
          rw [stopAndDeleteDriver, serviceCall_succeeded opened]
          dsimp only
          rw [serviceCall_failed found]
          exact manager.only service
      | true =>
          rw [stopAndDeleteDriver_opened opened found, stopAndDelete]
          have stopping : Observed (Only fun call => ∀ path, call ≠ .deleteFile path) w.opened
              (stopServiceIfRunning w.opened).2 :=
            stopServiceIfRunning_only (fun _ => nofun) (fun _ => nofun) w.opened
          rcases stop : stopServiceIfRunning w.opened with ⟨stopped, u⟩
          rw [stop] at stopping
          have before := (manager.only service).only stopping
          cases stopped with
          | false => exact before
          | true =>
              have deletion := before.only (other .deleteService (fun _ => nofun) u)
              dsimp only
              rcases delete : serviceCall .deleteService u with ⟨accepted, v⟩
              obtain rfl : u.after .deleteService = v := congrArg Prod.snd delete
              cases accepted with
              | true => exact deletion
              | false =>
                  dsimp only
                  split
                  · exact deletion
                  · exact deletion

theorem deleteLoop_only (attempts : Nat) (w : ServiceWorld) :
    Observed (Only (· = .deleteFile path)) w (deleteLoop path attempts w).2 := by
  induction attempts generalizing w with
  | zero => exact only_none w
  | succ attempts ih =>
      have attempt : Observed (Only (· = .deleteFile path)) w (w.after (.deleteFile path)) :=
        (observed_after _ w).mono fun _ same => by
          rw [same]
          exact List.forall_mem_singleton.mpr rfl
      cases answer : w.choice.failure.isNone with
      | true =>
          rw [deleteLoop, serviceCall_succeeded answer]
          exact attempt
      | false =>
          rw [deleteLoop, serviceCall_failed answer]
          dsimp only
          split
          · exact attempt
          · split
            · exact attempt
            · exact attempt.only (ih _)

/-- Every attempt of a deletion that failed was refused. -/
theorem deleteLoop_failure (attempts : Nat) (w : ServiceWorld)
    (failed : (deleteLoop path attempts w).1 ≠ errorSuccess) :
    Observed (fun events => ∀ event ∈ events, event.call = .deleteFile path ∧
      event.failure ≠ none ∧ event.failure ≠ some errorFileNotFound) w
      (deleteLoop path attempts w).2 := by
  induction attempts generalizing w with
  | zero => exact ⟨[], (List.append_nil _).symm, fun _ no => absurd no List.not_mem_nil⟩
  | succ attempts ih =>
      cases answer : w.choice.failure.isNone with
      | true =>
          rw [deleteLoop, serviceCall_succeeded answer] at failed
          exact absurd rfl failed
      | false =>
          obtain ⟨error, reported⟩ := after_failed (.deleteFile path) answer
          rw [deleteLoop, serviceCall_failed answer] at failed ⊢
          dsimp only at failed ⊢
          by_cases absent : (w.after (.deleteFile path)).lastError = errorFileNotFound
          · rw [if_pos absent] at failed
            exact absurd rfl failed
          · rw [if_neg absent] at failed ⊢
            have refused : ∀ event ∈ [w.event (.deleteFile path)], event.call = .deleteFile path ∧
                event.failure ≠ none ∧ event.failure ≠ some errorFileNotFound := by
              intro event member
              obtain rfl := List.mem_singleton.mp member
              rw [reported]
              exact ⟨rfl, Option.some_ne_none _, fun no => absent (Option.some.inj no)⟩
            split at failed
            · rename_i lasting
              rw [if_pos lasting]
              exact ⟨_, rfl, refused⟩
            · rename_i passing
              rw [if_neg passing]
              have turn : Observed (· = [w.event (.deleteFile path)]) w
                  ((w.after (.deleteFile path)).sleep kDeleteFileRetryInterval) := ⟨_, rfl, rfl⟩
              refine turn.trans (ih _ failed) ?_
              rintro _ later rfl all
              exact List.forall_mem_append.mpr ⟨refused, all⟩

/-- Between the two states the extracted file was seen gone and the service was seen removed, or
`Stop` takes a service that does not stop in time for one that was removed. -/
def DriverRuntime.SeenGone (runtime : DriverRuntime) (w t : ServiceWorld) : Prop :=
  Observed (fun events => (ServiceRemoved events ∨ StaleTimeout w) ∧
    DriverFileGone runtime.extractedDriverPath events) w t

section Stop

variable {runtime : DriverRuntime} (started : runtime.serviceStarted = true)

include started

theorem stop_success (success : (runtime.stop w).1.1 = errorSuccess) :
    runtime.SeenGone w (runtime.stop w).2 := by
  have named := runtime.extracted started
  rw [stop_started started] at success ⊢
  dsimp only at success ⊢
  by_cases first : (stopAndDeleteDriver w).1 = errorSuccess
  · rw [if_neg (not_not.mpr first)] at success
    have gone := deleteExtractedDriver_success named success
    by_cases stale : StaleTimeout w
    · exact stale.stopAndDeleteDriver.2.trans gone fun _ _ _ gone => ⟨.inr stale, gone.before⟩
    · exact (stopAndDeleteDriver_success first stale).trans gone
        fun _ _ removed gone => ⟨.inl removed.after, gone.before⟩
  · rw [if_pos first] at success
    exact (first success).elim

/-- A failed `Stop` has seen a refusal of each deletion of the file, or a service that it could not
remove. -/
theorem stop_failure (failed : (runtime.stop w).1.1 ≠ errorSuccess) :
    ¬runtime.SeenGone w (runtime.stop w).2 := by
  have named := runtime.extracted started
  have file (u : ServiceWorld) : deleteExtractedDriver runtime.extractedDriverPath u =
      deleteLoop runtime.extractedDriverPath kDeleteFileAttempts u := if_neg named
  rw [stop_started started] at failed ⊢
  dsimp only at failed ⊢
  rintro ⟨events, grown, removed, gone⟩
  rw [file] at grown
  by_cases first : (stopAndDeleteDriver w).1 = errorSuccess
  · rw [if_neg (not_not.mpr first), file] at failed
    have kept := (stopAndDeleteDriver_only w).trans (deleteLoop_failure _ _ failed)
      (R := fun events => ¬DriverFileGone runtime.extractedDriverPath events) ?_
    · obtain ⟨events', grown', kept⟩ := kept
      obtain rfl := List.append_cancel_left (grown.symm.trans grown')
      exact kept gone
    · rintro first later others refused ⟨event, member, call, gone⟩
      rcases List.mem_append.mp member with early | late
      · exact others event early _ call
      · exact gone.elim (refused event late).2.1 (refused event late).2.2
  · have fresh : ¬StaleTimeout w := fun stale => first stale.stopAndDeleteDriver.1
    have files : Observed (Only (· = .deleteFile runtime.extractedDriverPath))
        (stopAndDeleteDriver w).2
        (deleteLoop runtime.extractedDriverPath kDeleteFileAttempts (stopAndDeleteDriver w).2).2 :=
      deleteLoop_only _ _
    have kept := (stopAndDeleteDriver_failure first).trans files fun _ _ first later =>
      first.append (later.neverRemoved (by rintro _ rfl; exact ⟨nofun, nofun⟩))
    obtain ⟨events', grown', kept⟩ := kept
    obtain rfl := List.append_cancel_left (grown.symm.trans grown')
    exact removed.elim kept.not_removed fresh

/-- What `Stop` reports: success exactly if the file is gone and the service was removed, or a
stale timeout hides that it was not. -/
theorem stop_success_iff :
    (runtime.stop w).1.1 = errorSuccess ↔ runtime.SeenGone w (runtime.stop w).2 := by
  constructor
  · exact stop_success started
  · intro seen
    by_contra failed
    exact stop_failure started failed seen

end Stop

end Failure

/-- A driver whose unloading hangs: every query reports `SERVICE_STOP_PENDING`. -/
def hungDriver : ServiceWorld where
  oracle := fun _ => { state := 3 }

theorem hungDriver_stale : StaleTimeout hungDriver where
  clean := rfl
  manager := rfl
  service := rfl
  hangs :=
    { answered := rfl
      active := by decide
      accepted := rfl
      never := .of_stuck _ _ fun _ => ⟨rfl, show (3 : UInt32) ≠ 1 by decide⟩ }

/-- Both functions report success, although the service was never seen stopped and its deletion
was never requested. -/
theorem hung_driver_reported_removed :
    (stopAndDeleteDriver hungDriver).1 = errorSuccess ∧
      ¬Observed ServiceRemoved hungDriver (stopAndDeleteDriver hungDriver).2 ∧
      ¬(StopAndDeleteTruthful hungDriver ∧
        ∀ runtime : DriverRuntime, runtime.serviceStarted = true →
          StopTruthful runtime hungDriver) := by
  obtain ⟨success, events, same, unseen⟩ := hungDriver_stale.stopAndDeleteDriver
  have kept : ¬Observed ServiceRemoved hungDriver (stopAndDeleteDriver hungDriver).2 := by
    rintro ⟨events', same', removed⟩
    obtain rfl := List.append_cancel_left (same.symm.trans same')
    exact unseen.not_removed removed
  exact ⟨success, kept, fun truthful => kept (truthful.1 success)⟩

end PhylaRam
