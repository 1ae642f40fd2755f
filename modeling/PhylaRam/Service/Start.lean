import PhylaRam.Service.Extraction

/-!
# What a start of the driver has established

`DriverRuntime::Start` extracts the driver and talks to the Service Control Manager as `Stop` does.
When it succeeds, the old service had disappeared before the new one was created, and the new one
was seen running. When it fails, nothing is left that it did not try to remove. In both cases it
comes to an end after a number of calls that only the size of the driver affects.
-/

namespace PhylaRam

open DriverService

variable {w t u : ServiceWorld} {path : WString}

/-! ### Bounded observations -/

section Modest

variable {m n : Nat}

theorem modest_sleep (milliseconds : Nat) (h : Observed (Modest n) w t) :
    Observed (Modest n) w (t.sleep milliseconds) := h

/-- A turn of the loop takes at least the interval between two polls. -/
theorem modest_waitLoop (desired : UInt32) (deadline : Nat) (w : ServiceWorld) :
    Observed (Modest ((deadline - w.clock + 49) / 50)) w (waitLoop desired deadline w).2 := by
  induction w using wait_induction deadline with
  | expired w late =>
      rw [waitLoop_expired late]
      exact (observed_none w).more (Nat.zero_le _)
  | failed w early failed =>
      rw [waitLoop_failed early failed]
      exact (modest_after _ (by decide) w).more (by omega)
  | answered w early answered ih =>
      rw [waitLoop_answered early answered]
      split
      · exact (modest_after _ (by decide) w).more (by omega)
      · have turn : w.clock + 50 ≤ ((w.after .queryStatus).sleep kServicePollInterval).clock := by
          change w.clock + 50 ≤ w.clock + w.choice.duration + 50 + _
          omega
        refine (((modest_after _ (by decide) w).modest ih).more ?_)
        omega

theorem modest_wait (desired : UInt32) (w : ServiceWorld) :
    Observed (Modest 100) w (waitForServiceState desired kServiceTransitionTimeoutMs w).2 := by
  have polls := modest_waitLoop desired (w.clock + kServiceTransitionTimeoutMs) (w.sleep 0)
  have later : w.clock ≤ (w.sleep 0).clock := by
    change w.clock ≤ w.clock + 0 + w.choice.duration
    omega
  have limit : kServiceTransitionTimeoutMs = 5000 := rfl
  exact polls.more (by omega)

theorem modest_requestStop (w : ServiceWorld) : Observed (Modest 101) w (requestStop w).2 := by
  have request := modest_after .stopService (by decide) w
  cases answer : w.choice.failure.isNone with
  | true =>
      rw [requestStop_accepted answer]
      exact request.modest (modest_wait _ _)
  | false =>
      rw [requestStop_refused answer]
      split
      · exact request.more (by decide)
      · exact request.modest (modest_wait _ _)

theorem modest_stopServiceIfRunning (w : ServiceWorld) :
    Observed (Modest 102) w (stopServiceIfRunning w).2 := by
  have query := modest_after .queryStatus (by decide) w
  cases answer : w.choice.failure.isNone with
  | true =>
      rw [stopServiceIfRunning_answered answer]
      split
      · exact query.more (by decide)
      · exact query.modest (modest_requestStop _)
  | false =>
      rw [stopServiceIfRunning, query_failed answer]
      exact query.more (by decide)

theorem modest_waitUntilServiceIsDeleted (attempts : Nat) (w : ServiceWorld) :
    Observed (Modest attempts) w (waitUntilServiceIsDeleted attempts w).2 := by
  induction attempts generalizing w with
  | zero => exact observed_none w
  | succ attempts ih =>
      have probe := modest_after .openService (by decide) w
      cases answer : w.choice.failure.isNone with
      | true =>
          rw [waitUntilServiceIsDeleted, serviceCall_succeeded answer]
          exact ((modest_sleep _ probe).modest (ih _)).more (by omega)
      | false =>
          rw [waitUntilServiceIsDeleted, serviceCall_failed answer]
          exact probe.more (by omega)

theorem modest_removeExistingService (w : ServiceWorld) :
    Observed (Modest 154) w (removeExistingService w).2 := by
  have first := modest_after .openService (by decide) w
  cases answer : w.choice.failure.isNone with
  | false =>
      rw [removeExistingService, serviceCall_failed answer]
      exact first.more (by decide)
  | true =>
      rw [removeExistingService, serviceCall_succeeded answer]
      dsimp only
      have stopping := first.modest (modest_stopServiceIfRunning (w.after .openService))
      rcases stop : stopServiceIfRunning (w.after .openService) with ⟨stopped, v⟩
      rw [stop] at stopping
      cases stopped with
      | false => exact stopping.more (by decide)
      | true =>
          have deletion := stopping.modest (modest_after .deleteService (by decide) v)
          have waiting := deletion.modest (modest_waitUntilServiceIsDeleted 50 _)
          dsimp only
          rcases delete : serviceCall .deleteService v with ⟨accepted, u⟩
          obtain rfl : v.after .deleteService = u := congrArg Prod.snd delete
          cases accepted with
          | true => exact waiting.more (by decide)
          | false =>
              dsimp only
              split
              · exact deletion.more (by decide)
              · exact waiting.more (by decide)

end Modest

/-! ### A start that succeeds -/

/-- The service was seen not to exist. If it had existed before, it was seen stopped and its
deletion was accepted or pending. -/
def Cleared (events : List ServiceEvent) : Prop :=
  ∃ before absent, events = before ++ [absent] ∧ absent.call = .openService ∧
    absent.failure = some errorServiceDoesNotExist ∧
    (before = [] ∨ ∃ earlier delete later, before = earlier ++ delete :: later ∧
      SeenStopped earlier ∧ delete.call = .deleteService ∧
      (delete.failure = none ∨ delete.failure = some errorServiceMarkedForDelete))

/-- Queries, of which the last one is the first that reports the state. -/
def Attains (desired : UInt32) (events : List ServiceEvent) : Prop :=
  ∃ polls last, events = polls ++ [last] ∧
    (∀ poll ∈ polls, poll.call = .queryStatus ∧ poll.failure = none ∧ poll.state ≠ desired) ∧
    last.call = .queryStatus ∧ last.failure = none ∧ last.state = desired

/-- A new service was created when there was none, it was started, and it was seen running. -/
def Installed (events : List ServiceEvent) : Prop :=
  ∃ cleared create start running, events = cleared ++ create :: start :: running ∧
    Cleared cleared ∧ create.call = .createService ∧ create.failure = none ∧
    start.call = .startService ∧
    (start.failure = none ∨ start.failure = some errorServiceAlreadyRunning) ∧
    Attains serviceRunning running

section Success

theorem waitLoop_attains {desired : UInt32} {deadline : Nat}
    (reached : (waitLoop desired deadline w).1 = true) :
    Observed (Attains desired) w (waitLoop desired deadline w).2 := by
  induction w using wait_induction deadline with
  | expired w late =>
      rw [waitLoop_expired late] at reached
      cases reached
  | failed w early failed =>
      rw [waitLoop_failed early failed] at reached
      cases reached
  | answered w early answered ih =>
      rw [waitLoop_answered early answered] at reached ⊢
      have clean := (after_succeeded .queryStatus answered).2
      by_cases seen : w.choice.state = desired
      · rw [if_pos seen]
        refine (observed_after .queryStatus w).mono ?_
        rintro _ rfl
        exact ⟨[], _, rfl, fun _ no => absurd no List.not_mem_nil, rfl, clean, seen⟩
      · rw [if_neg seen] at reached ⊢
        have turn : Observed (· = [w.event .queryStatus]) w
            ((w.after .queryStatus).sleep kServicePollInterval) := observed_after .queryStatus w
        refine turn.trans (ih reached) ?_
        rintro _ later rfl ⟨polls, last, rfl, others, seenLast⟩
        refine ⟨w.event .queryStatus :: polls, last, rfl, ?_, seenLast⟩
        exact List.forall_mem_cons.mpr ⟨⟨rfl, clean, seen⟩, others⟩

theorem wait_attains {desired : UInt32} {timeout : Nat}
    (reached : (waitForServiceState desired timeout w).1 = true) :
    Observed (Attains desired) w (waitForServiceState desired timeout w).2 :=
  waitLoop_attains reached

/-- Waiting for the deletion ends with the observation that there is no such service. -/
theorem waitUntilServiceIsDeleted_absent {attempts : Nat}
    (gone : (waitUntilServiceIsDeleted attempts w).1 = true) :
    Observed (fun events => ∃ before absent, events = before ++ [absent] ∧
      absent.call = .openService ∧ absent.failure = some errorServiceDoesNotExist) w
      (waitUntilServiceIsDeleted attempts w).2 := by
  induction attempts generalizing w with
  | zero => cases gone
  | succ attempts ih =>
      cases answer : w.choice.failure.isNone with
      | true =>
          rw [waitUntilServiceIsDeleted, serviceCall_succeeded answer] at gone ⊢
          have turn : Observed (· = [w.event .openService]) w
              ((w.after .openService).sleep kDeleteFileRetryInterval) :=
            observed_after .openService w
          refine turn.trans (ih gone) ?_
          rintro _ _ rfl ⟨before, absent, rfl, seen⟩
          exact ⟨w.event .openService :: before, absent, rfl, seen⟩
      | false =>
          rw [waitUntilServiceIsDeleted, serviceCall_failed answer] at gone ⊢
          refine (observed_after .openService w).mono ?_
          rintro _ rfl
          refine ⟨[], _, rfl, rfl, ?_⟩
          rw [(after_failed .openService answer).2, beq_iff_eq.mp gone]

/-- A service that was opened and seen stopped, and whose deletion was accepted or pending. -/
theorem Cleared.of_deleted {first stopping waiting : List ServiceEvent} {delete : ServiceEvent}
    (seen : SeenStopped stopping) (call : delete.call = .deleteService)
    (accepted : delete.failure = none ∨ delete.failure = some errorServiceMarkedForDelete)
    (gone : ∃ before absent, waiting = before ++ [absent] ∧ absent.call = .openService ∧
      absent.failure = some errorServiceDoesNotExist) :
    Cleared (first ++ stopping ++ [delete] ++ waiting) := by
  obtain ⟨before, absent, rfl, open', missing⟩ := gone
  refine ⟨first ++ stopping ++ [delete] ++ before, absent, (List.append_assoc ..).symm, open',
    missing, .inr ⟨first ++ stopping, delete, before, ?_, seen.before, call, accepted⟩⟩
  rw [List.append_assoc _ [delete], List.singleton_append]

theorem removeExistingService_cleared (removed : (removeExistingService w).1 = true) :
    Observed Cleared w (removeExistingService w).2 := by
  cases answer : w.choice.failure.isNone with
  | false =>
      rw [removeExistingService, serviceCall_failed answer] at removed ⊢
      refine (observed_after .openService w).mono ?_
      rintro _ rfl
      refine ⟨[], _, rfl, rfl, ?_, .inl rfl⟩
      rw [(after_failed .openService answer).2, beq_iff_eq.mp removed]
  | true =>
      rw [removeExistingService, serviceCall_succeeded answer] at removed ⊢
      dsimp only at removed ⊢
      have stopping := stopServiceIfRunning_stopped (w := w.after .openService)
      rcases stop : stopServiceIfRunning (w.after .openService) with ⟨stopped, v⟩
      rw [stop] at stopping removed
      cases stopped with
      | false => cases removed
      | true =>
          obtain ⟨middle, grown, seen⟩ := stopping rfl
          dsimp only at removed ⊢
          have deletes (accepted : (v.event .deleteService).failure = none ∨
              (v.event .deleteService).failure = some errorServiceMarkedForDelete)
              (gone : (waitUntilServiceIsDeleted 50 (v.after .deleteService)).1 = true) :
              Observed Cleared w (waitUntilServiceIsDeleted 50 (v.after .deleteService)).2 := by
            obtain ⟨waiting, grown', absent⟩ := waitUntilServiceIsDeleted_absent gone
            refine ⟨[w.event .openService] ++ middle ++ [v.event .deleteService] ++ waiting, ?_,
              .of_deleted seen rfl accepted absent⟩
            have deleted : (v.after .deleteService).events = v.events ++ [v.event .deleteService] := rfl
            have opened : (w.after .openService).events = w.events ++ [w.event .openService] := rfl
            rw [grown', deleted, grown, opened]
            simp only [List.append_assoc]
          cases second : v.choice.failure.isNone with
          | true =>
              rw [serviceCall_succeeded second] at removed ⊢
              exact deletes (.inl (after_succeeded .deleteService second).2) removed
          | false =>
              have reported := (after_failed .deleteService second).2
              rw [serviceCall_failed second] at removed ⊢
              dsimp only at removed ⊢
              by_cases pending : (v.after .deleteService).lastError = errorServiceMarkedForDelete
              · rw [if_neg (not_not.mpr pending)] at removed ⊢
                exact deletes (.inr (reported.trans (congrArg some pending))) removed
              · rw [if_pos pending] at removed
                cases removed

end Success

/-! ### The branches of `InstallAndStartDriver` -/

/-- The start of the new service was accepted, or it was running already. -/
structure StartAccepted (w : ServiceWorld) : Prop where
  accepted : (w.event .startService).failure = none ∨
    (w.event .startService).failure = some errorServiceAlreadyRunning

/-- How `InstallAndStartDriver` can end. -/
inductive Installs (w : ServiceWorld) : Bool × ServiceWorld → Prop
  | unopened : Installs w (false, w.after .openManager)
  | blocked (kept : (removeExistingService (w.after .openManager)).1 = false) :
      Installs w (false, (removeExistingService (w.after .openManager)).2)
  | uncreated {u : ServiceWorld} (removed : removeExistingService (w.after .openManager) = (true, u))
      (failed : u.choice.failure.isNone = false) : Installs w (false, u.after .createService)
  | unstarted {u : ServiceWorld} (removed : removeExistingService (w.after .openManager) = (true, u))
      (created : u.choice.failure.isNone = true) :
      Installs w (false,
        bestEffortDeleteService ((u.after .createService).after .startService))
  | late {u : ServiceWorld} (removed : removeExistingService (w.after .openManager) = (true, u))
      (created : u.choice.failure.isNone = true) :
      Installs w (false, bestEffortDeleteService (waitForServiceState serviceRunning
        kServiceTransitionTimeoutMs ((u.after .createService).after .startService)).2)
  | running {u v : ServiceWorld} (opened : w.choice.failure.isNone = true)
      (removed : removeExistingService (w.after .openManager) = (true, u))
      (created : u.choice.failure.isNone = true) (started : StartAccepted (u.after .createService))
      (reached : waitForServiceState serviceRunning kServiceTransitionTimeoutMs
        ((u.after .createService).after .startService) = (true, v)) : Installs w (true, v)

theorem installAndStartDriver_installs (w : ServiceWorld) : Installs w (installAndStartDriver w) := by
  cases opened : w.choice.failure.isNone with
  | false =>
      rw [installAndStartDriver, serviceCall_failed opened]
      exact .unopened
  | true =>
      rw [installAndStartDriver, serviceCall_succeeded opened]
      dsimp only
      rcases removed : removeExistingService (w.after .openManager) with ⟨ok, u⟩
      cases ok with
      | false =>
          have blocked := Installs.blocked (w := w) (congrArg Prod.fst removed)
          rwa [removed] at blocked
      | true =>
          dsimp only
          cases created : u.choice.failure.isNone with
          | false =>
              rw [serviceCall_failed created]
              exact .uncreated removed created
          | true =>
              rw [serviceCall_succeeded created]
              dsimp only
              have waiting (accepted : StartAccepted (u.after .createService)) :
                  Installs w (installAndStartDriver.awaitRunning
                    ((u.after .createService).after .startService)) := by
                rw [installAndStartDriver.awaitRunning]
                rcases reached : waitForServiceState serviceRunning kServiceTransitionTimeoutMs
                  ((u.after .createService).after .startService) with ⟨ok, v⟩
                cases ok with
                | true => exact .running opened removed created accepted reached
                | false =>
                    have late := Installs.late removed created
                    rwa [reached] at late
              cases started : (u.after .createService).choice.failure.isNone with
              | true =>
                  rw [serviceCall_succeeded started]
                  exact waiting ⟨.inl (after_succeeded .startService started).2⟩
              | false =>
                  have reported := (after_failed .startService started).2
                  rw [serviceCall_failed started]
                  dsimp only
                  split
                  · exact .unstarted removed created
                  · next already =>
                      exact waiting ⟨.inr (reported.trans (congrArg some (not_not.mp already)))⟩

/-! ### A start that fails -/

/-- No service was created, or the deletion of the one that was created has been requested. -/
inductive Abandoned : List ServiceEvent → Prop
  | uncreated {events : List ServiceEvent}
      (none : ∀ event ∈ events, event.call = .createService → event.failure ≠ none) :
      Abandoned events
  | requested {before after : List ServiceEvent} {create delete : ServiceEvent}
      (deleted : delete.call = .deleteService) :
      Abandoned (before ++ create :: (after ++ [delete]))

section Failure

theorem Abandoned.of_modest {n : Nat} {events : List ServiceEvent} (h : Modest n events) :
    Abandoned events := by
  refine .uncreated fun event among call => ?_
  have other := h.creates event among
  rw [call] at other
  cases other

/-- A service that does not start is asked to stop, and its deletion is requested. -/
theorem bestEffortDeleteService_requests (w : ServiceWorld) :
    Observed (fun events => events.length ≤ 103 ∧ ∃ before delete, events = before ++ [delete] ∧
      delete.call = .deleteService) w (bestEffortDeleteService w) := by
  refine (modest_stopServiceIfRunning w).trans (observed_after .deleteService _) ?_
  rintro before _ modest rfl
  refine ⟨?_, before, _, rfl, rfl⟩
  rw [List.length_append]
  exact Nat.add_le_add modest.few (Nat.le_refl 1)

/-- The events until the new service was created. -/
theorem observed_created {u : ServiceWorld}
    (removed : removeExistingService (w.after .openManager) = (true, u)) :
    Observed (fun events => ∃ before, events = before ++ [u.event .createService] ∧ Modest 155 before)
      w (u.after .createService) := by
  have removal := modest_removeExistingService (w.after .openManager)
  rw [removed] at removal
  refine ((modest_after _ (by decide) w).modest removal).trans (observed_after .createService u) ?_
  rintro before _ modest rfl
  exact ⟨before, rfl, modest⟩

/-- Whatever happens after the creation, the deletion is requested at the end. -/
theorem abandoned_after_creation {u v : ServiceWorld}
    (removed : removeExistingService (w.after .openManager) = (true, u))
    (between : Observed (Modest 101) (u.after .createService) v) :
    Observed (fun events => events.length ≤ 360 ∧ Abandoned events) w (bestEffortDeleteService v) := by
  obtain ⟨_, created, before, rfl, early⟩ := observed_created removed
  obtain ⟨middle, waited, few⟩ := between
  obtain ⟨_, deleted, last, stopping, delete, rfl, call⟩ := bestEffortDeleteService_requests v
  refine ⟨before ++ u.event .createService :: ((middle ++ stopping) ++ [delete]), ?_, ?_,
    .requested call⟩
  · rw [deleted, waited, created]
    simp only [List.append_assoc, List.cons_append, List.nil_append]
  · have bounds := And.intro early.few few.few
    simp only [List.length_append, List.length_cons, List.length_nil] at last ⊢
    omega

theorem Installs.abandoned {outcome : Bool × ServiceWorld} (h : Installs w outcome)
    (failed : outcome.1 = false) :
    Observed (fun events => events.length ≤ 360 ∧ Abandoned events) w outcome.2 := by
  have modest {n : Nat} {v : ServiceWorld} (le : n ≤ 360) (h : Observed (Modest n) w v) :
      Observed (fun events => events.length ≤ 360 ∧ Abandoned events) w v :=
    h.mono fun _ modest => ⟨modest.few.trans le, .of_modest modest⟩
  have manager := modest_after .openManager (by decide) w
  cases h with
  | unopened => exact modest (by decide) manager
  | blocked => exact modest (by decide) (manager.modest (modest_removeExistingService _))
  | uncreated removed refused =>
      refine (observed_created removed).mono ?_
      rintro _ ⟨before, rfl, few, creates⟩
      have reported := (after_failed .createService refused).2
      refine ⟨?_, .uncreated fun event among create => ?_⟩
      · rw [List.length_append, List.length_singleton]
        omega
      · rcases List.mem_append.mp among with early | last
        · have other := creates event early
          rw [create] at other
          cases other
        · rw [List.mem_singleton.mp last, reported]
          exact Option.some_ne_none _
  | unstarted removed =>
      have start := modest_after .startService (by decide)
      exact abandoned_after_creation removed ((start _).more (by decide))
  | late removed =>
      have start := modest_after .startService (by decide)
      exact abandoned_after_creation removed ((start _).modest (modest_wait _ _))
  | running => cases failed

end Failure

/-! ### What a start tells -/

section Start

theorem Installs.installed {outcome : Bool × ServiceWorld} (h : Installs w outcome)
    (success : outcome.1 = true) :
    Observed (fun events => events.length ≤ 360 ∧ ∃ manager rest, events = manager :: rest ∧
      manager.call = .openManager ∧ manager.failure = none ∧ Installed rest) w outcome.2 := by
  cases h with
  | unopened | blocked | uncreated | unstarted | late => cases success
  | @running u v opened removed created started reached =>
      have removal := modest_removeExistingService (w.after .openManager)
      have polls := modest_wait serviceRunning ((u.after .createService).after .startService)
      have waiting := wait_attains (congrArg Prod.fst reached)
      have clearing := removeExistingService_cleared (congrArg Prod.fst removed)
      rw [removed] at removal clearing
      rw [reached] at polls waiting
      obtain ⟨cleared, gone, few, absent⟩ := removal.and clearing
      obtain ⟨running, seen, fewPolls, reaches⟩ := polls.and waiting
      refine ⟨w.event .openManager :: (cleared ++ u.event .createService ::
        (u.after .createService).event .startService :: running), ?_, ?_, _, _, rfl, rfl,
        (after_succeeded .openManager opened).2, cleared, _, _, running, rfl, absent, rfl,
        (after_succeeded .createService created).2, rfl, started.accepted, reaches⟩
      · have made : ((u.after .createService).after .startService).events =
            u.events ++ [u.event .createService] ++
              [(u.after .createService).event .startService] := rfl
        have first : (w.after .openManager).events = w.events ++ [w.event .openManager] := rfl
        rw [seen, made, gone, first]
        simp only [List.append_assoc, List.cons_append, List.nil_append]
      · have bounds := And.intro few.few fewPolls.few
        simp only [List.length_append, List.length_cons]
        omega

/-- The file was deleted or did not exist, or the deletion failed for a lasting reason, or every
attempt failed. -/
def Discarded (path : WString) (attempts : Nat) (events : List ServiceEvent) : Prop :=
  DriverFileGone path events ∨
    (∃ event ∈ events, event.call = .deleteFile path ∧ ∃ error, event.failure = some error ∧
      error ≠ errorSharingViolation ∧ error ≠ errorAccessDenied) ∨
    events.length = attempts ∧ ∀ event ∈ events, event.call = .deleteFile path

theorem deleteLoop_discarded (attempts : Nat) (w : ServiceWorld) :
    Observed (fun events => events.length ≤ attempts ∧ Discarded path attempts events) w
      (deleteLoop path attempts w).2 := by
  induction attempts generalizing w with
  | zero =>
      refine ⟨[], (List.append_nil _).symm, Nat.le_refl 0, .inr (.inr ⟨rfl, ?_⟩)⟩
      exact fun _ no => absurd no List.not_mem_nil
  | succ attempts ih =>
      have once {P : List ServiceEvent → Prop} (h : P [w.event (.deleteFile path)]) :
          Observed P w (w.after (.deleteFile path)) := ⟨_, rfl, h⟩
      have one : [w.event (.deleteFile path)].length ≤ attempts + 1 := Nat.le_add_left 1 attempts
      cases answer : w.choice.failure.isNone with
      | true =>
          rw [deleteLoop, serviceCall_succeeded answer]
          have clean := (after_succeeded (.deleteFile path) answer).2
          exact once ⟨one, .inl ⟨_, List.mem_singleton_self _, rfl, .inl clean⟩⟩
      | false =>
          have reported := (after_failed (.deleteFile path) answer).2
          rw [deleteLoop, serviceCall_failed answer]
          dsimp only
          split
          · next absent =>
              refine once ⟨one, .inl ⟨_, List.mem_singleton_self _, rfl, .inr ?_⟩⟩
              exact reported.trans (congrArg some absent)
          · split
            · next lasting =>
                exact once ⟨one, .inr (.inl ⟨_, List.mem_singleton_self _, rfl, _, reported, lasting⟩)⟩
            · have turn : Observed (· = [w.event (.deleteFile path)]) w
                  ((w.after (.deleteFile path)).sleep kDeleteFileRetryInterval) := ⟨_, rfl, rfl⟩
              refine turn.trans (ih _) ?_
              rintro _ later rfl ⟨few, discarded⟩
              refine ⟨Nat.succ_le_succ few, ?_⟩
              rcases discarded with gone | ⟨event, among, failed⟩ | ⟨all, each⟩
              · exact .inl gone.before
              · exact .inr (.inl ⟨event, List.mem_cons_of_mem _ among, failed⟩)
              · exact .inr (.inr ⟨congrArg Nat.succ all, List.forall_mem_cons.mpr ⟨rfl, each⟩⟩)

/-- What `DriverRuntime::Start` has done, and what it has tried to undo. -/
structure StartTells (w : ServiceWorld) (outcome : (Bool × DriverRuntime) × ServiceWorld) : Prop where
  bounded : Observed (fun events => events.length ≤ w.resourceSize.toNat + 429) w outcome.2
  started : outcome.1.1 = true → outcome.1.2.serviceStarted = true ∧
    Observed (fun events => ∃ extraction manager rest, events = extraction ++ manager :: rest ∧
      Extracted w.resourceSize.toNat outcome.1.2.extractedDriverPath extraction ∧
      manager.call = .openManager ∧ manager.failure = none ∧ Installed rest) w outcome.2
  abandoned : outcome.1.1 = false → outcome.1.2 = .idle ∧
    Observed (fun events => Unextracted events ∨ ∃ path extraction during discarding,
      events = extraction ++ (during ++ discarding) ∧
      Extracted w.resourceSize.toNat path extraction ∧ Abandoned during ∧
      Discarded path 50 discarding) w outcome.2

/-- A start that succeeds has replaced the service and seen the new one running. A start that fails
has requested the deletion of what it created. -/
theorem start_tells (w : ServiceWorld) : StartTells w (DriverRuntime.start .idle w) := by
  have extraction := extractEmbeddedDriver_wp w
  rw [DriverRuntime.start, if_neg (by decide)]
  cases extract : DriverResource.extractEmbeddedDriver w with
  | error e t =>
      have failed := extraction.of_error extract
      refine ⟨failed.mono ?_, fun no => absurd no Bool.false_ne_true,
        fun _ => ⟨rfl, failed.mono ?_⟩⟩
      · rintro _ ⟨few, -⟩
        exact few.trans (Nat.add_le_add_left (by decide) _)
      · rintro _ ⟨-, unextracted⟩
        exact .inl unextracted
  | ok path t =>
      have extracted := extraction.of_ok extract
      have installs := installAndStartDriver_installs t
      dsimp only
      rcases installed : installAndStartDriver t with ⟨ok, u⟩
      rw [installed] at installs
      cases ok with
      | true =>
          have running := installs.installed rfl
          refine ⟨extracted.trans running ?_, fun _ => ⟨rfl, extracted.trans running ?_⟩,
            fun no => absurd no.symm Bool.false_ne_true⟩
          · rintro _ later made ⟨few, -⟩
            have size := made.length_le
            rw [List.length_append]
            omega
          · rintro _ _ made ⟨-, manager, rest, rfl, opened⟩
            exact ⟨_, manager, rest, rfl, made, opened⟩
      | false =>
          have file : deleteExtractedDriver path u = deleteLoop path kDeleteFileAttempts u :=
            if_neg path.property
          have deleting : Observed _ u (deleteExtractedDriver path u).2 :=
            file ▸ deleteLoop_discarded kDeleteFileAttempts u
          have both := (installs.abandoned rfl).trans deleting
            (R := fun events => events.length ≤ 410 ∧ ∃ during discarding,
              events = during ++ discarding ∧ Abandoned during ∧ Discarded path 50 discarding) ?_
          · refine ⟨extracted.trans both ?_, fun no => absurd no Bool.false_ne_true,
              fun _ => ⟨rfl, extracted.trans both ?_⟩⟩
            · rintro _ later made ⟨few, -⟩
              have size := made.length_le
              rw [List.length_append]
              omega
            · rintro _ _ made ⟨-, during, discarding, rfl, abandoned, discarded⟩
              exact .inr ⟨_, _, during, discarding, rfl, made, abandoned, discarded⟩
          · rintro during discarding ⟨few, abandoned⟩ ⟨attempts, discarded⟩
            have limit : kDeleteFileAttempts = 50 := rfl
            refine ⟨?_, during, discarding, rfl, abandoned, discarded⟩
            rw [List.length_append]
            omega

end Start

end PhylaRam
