import PhylaRam.Cli.DryRun
import PhylaRam.Gui.Worker
import PhylaRam.Service.Cleanup

/-!
# What the user is told of an inspection

The worker of a dry run asks the driver what `RunDryRun` asks on the command line, and hands the
answers to the window. The window calls the inspection complete exactly if every step of it has
succeeded, and then the result is about the table that the driver had frozen. Otherwise its message
begins with the reason of the first step that failed.
-/

namespace PhylaRam

open DeviceSession Transition

variable {κ : Type}

namespace Gui

/-! ### The steps of an inspection -/

section Steps

variable (machine : Machine) (desktop : Desktop DeviceSession κ)

/-- The device after `Open`, and its answers to the requests that follow. -/
def opening : Bool × DeviceSession :=
  (deviceSession machine).openSession desktop.console.host.device

def queried : Option Topology × DeviceSession :=
  (deviceSession machine).query (opening machine desktop).2

def hinted : (Bool × KernelHints) × DeviceSession :=
  (deviceSession machine).queryHints (queried machine desktop).2

def ended : Option Bool × DeviceSession :=
  (deviceSession machine).endSession (hinted machine desktop).2

/-- Hints that were refused are shown as absent. -/
def shownHints : KernelHints :=
  if (hinted machine desktop).1.1 then (hinted machine desktop).1.2 else {}

/-- The runtime after `Start`, and what the service manager is asked to undo by `Stop`. -/
def starting : (Bool × DriverRuntime) × ServiceWorld :=
  DriverRuntime.start .idle desktop.console.service

def stopping : ServiceWorld := { (starting desktop).2 with lastError := desktop.console.lastError }

/-- Nothing forbids the operation. -/
structure Permitted : Prop where
  administrator : desktop.administrator = true
  supported : desktop.unsupported = none

/-- Every step succeeds, and the driver answers with this topology and this comparison. -/
structure Inspects (topology : Topology) (changed : Bool) : Prop where
  permitted : Permitted desktop
  started : (starting desktop).1.1 = true
  opened : (opening machine desktop).1 = true
  asked : (queried machine desktop).1 = some topology
  compared : (ended machine desktop).1 = some changed

/-- The first step that fails, and what is said about it. -/
inductive Thwarted : WString → Prop
  | unprivileged (missing : desktop.administrator = false) :
      Thwarted (wide "PhylaRAM requires Administrator privileges.")
  | unsupported {reason : { text : WString // text ≠ [] }}
      (administrator : desktop.administrator = true)
      (other : desktop.unsupported = some reason) : Thwarted reason
  | unstarted (permitted : Permitted desktop) (failed : (starting desktop).1.1 = false) :
      Thwarted desktop.startError
  | unopened (permitted : Permitted desktop) (started : (starting desktop).1.1 = true)
      (failed : (opening machine desktop).1 = false) :
      Thwarted (openError ((deviceSession machine).lastError (opening machine desktop).2))
  | unanswered (permitted : Permitted desktop) (started : (starting desktop).1.1 = true)
      (opened : (opening machine desktop).1 = true)
      (failed : (queried machine desktop).1 = none ∨ (ended machine desktop).1 = none) :
      Thwarted (inspectionError ((deviceSession machine).lastError (ended machine desktop).2))

/-- `Stop` has seen gone what this start had left. -/
def Removed (u : ServiceWorld) : Prop := (starting desktop).1.2.SeenGone (stopping desktop) u

/-- What the result of a dry run and its notice say is true of what has happened. -/
structure InspectionTells (result : WorkerResult) (u : ServiceWorld)
    (h : History Driver DriverEvent) : Prop where
  complete : (noticeOf result).caption = wide "PhylaRAM — Inspection Complete" ↔
    ∃ topology changed, Inspects machine desktop topology changed
  failed : (noticeOf result).caption = wide "PhylaRAM — Inspection Failed" ↔
    ∃ reason, Thwarted machine desktop reason
  explained : ∀ reason, Thwarted machine desktop reason → reason <+: (noticeOf result).message
  found : ∀ topology changed, Inspects machine desktop topology changed →
    ⟨result.highestPhysicalEnd, result.totalPhysicalBytes, result.ranges⟩ = topology ∧
      result.topologyChanged = changed ∧ result.hints = shownHints machine desktop ∧
      Findings topology result.hints changed h
  warned : ∀ topology changed, Inspects machine desktop topology changed →
    ((noticeOf result).icon = .information ↔ changed = false ∧ Removed desktop u)
  unread : h.now.copies = []

end Steps

variable {machine : Machine} {desktop : Desktop DeviceSession κ}

theorem Thwarted.not_inspects {reason : WString} {topology : Topology} {changed : Bool}
    (h : Thwarted machine desktop reason) : ¬Inspects machine desktop topology changed := by
  intro inspects
  obtain ⟨⟨administrator, supported⟩, started, opened, asked, compared⟩ := inspects
  cases h with
  | unprivileged missing => simp [administrator] at missing
  | unsupported _ other => simp [supported] at other
  | unstarted _ failed => simp [started] at failed
  | unopened _ _ failed => simp [opened] at failed
  | unanswered _ _ _ failed => simp [asked, compared] at failed

/-- At most one step is the first to fail. -/
theorem Thwarted.unique {reason reason' : WString} (h : Thwarted machine desktop reason)
    (h' : Thwarted machine desktop reason') : reason = reason' := by
  cases h with
  | unprivileged missing =>
      cases h' with
      | unprivileged => rfl
      | unsupported administrator => simp [administrator] at missing
      | unstarted permitted | unopened permitted | unanswered permitted =>
          simp [permitted.administrator] at missing
  | unsupported administrator other =>
      cases h' with
      | unprivileged missing => simp [administrator] at missing
      | unsupported _ other' => rw [Option.some.inj (other.symm.trans other')]
      | unstarted permitted | unopened permitted | unanswered permitted =>
          simp [permitted.supported] at other
  | unstarted permitted failed =>
      cases h' with
      | unprivileged missing => simp [permitted.administrator] at missing
      | unsupported _ other => simp [permitted.supported] at other
      | unstarted => rfl
      | unopened _ started | unanswered _ started => simp [started] at failed
  | unopened permitted started failed =>
      cases h' with
      | unprivileged missing => simp [permitted.administrator] at missing
      | unsupported _ other => simp [permitted.supported] at other
      | unstarted _ failed => simp [started] at failed
      | unopened => rfl
      | unanswered _ _ opened => simp [opened] at failed
  | unanswered permitted started opened failed =>
      cases h' with
      | unprivileged missing => simp [permitted.administrator] at missing
      | unsupported _ other => simp [permitted.supported] at other
      | unstarted _ failed => simp [started] at failed
      | unopened _ _ failed => simp [opened] at failed
      | unanswered => rfl

theorem Thwarted.ne_nil {reason : WString} (h : Thwarted machine desktop reason) : reason ≠ [] := by
  have text {first second third : WString} (h : first ≠ []) : first ++ second ++ third ≠ [] :=
    List.append_ne_nil_of_left_ne_nil (List.append_ne_nil_of_left_ne_nil h _) _
  cases h with
  | unprivileged => decide
  | @unsupported reason => exact reason.property
  | unstarted => exact desktop.startError.property
  | unopened => exact text (by decide)
  | unanswered => exact text (by decide)

theorem thwarted_of_privilegeError (stopped : privilegeError desktop ≠ []) :
    Thwarted machine desktop (privilegeError desktop) := by
  rw [privilegeError] at stopped ⊢
  cases administrator : desktop.administrator with
  | false => exact .unprivileged administrator
  | true =>
      cases other : desktop.unsupported with
      | some reason => exact .unsupported administrator other
      | none =>
          rw [administrator, other] at stopped
          exact absurd rfl stopped

theorem permitted_of_privilegeError (clear : ¬privilegeError desktop ≠ []) : Permitted desktop := by
  rw [not_not, privilegeError] at clear
  cases administrator : desktop.administrator with
  | false =>
      rw [administrator] at clear
      have text : wide "PhylaRAM requires Administrator privileges." = [] := clear
      exact absurd text (by decide)
  | true =>
      cases other : desktop.unsupported with
      | some reason =>
          rw [administrator, other] at clear
          exact absurd clear reason.property
      | none => exact ⟨administrator, other⟩

/-! ### Notices -/

section Notices

variable {result : WorkerResult} {u : ServiceWorld} {h : History Driver DriverEvent}

/-- Nothing is amended in the result of a dry run. -/
theorem noticeOf_dryRun (operation : result.operation = .dryRun) :
    noticeOf result = showDryRunResult result := by
  have other : result.operation ≠ .capture := by
    rw [operation]
    decide
  have same : amended result = result := if_neg fun no => other no.2.1
  rw [noticeOf, same, if_neg other]

theorem showDryRunResult_failed (stopped : result.error ≠ []) :
    (showDryRunResult result).caption = wide "PhylaRAM — Inspection Failed" ∧
      result.error <+: (showDryRunResult result).message := by
  rw [showDryRunResult, if_pos (by simp [stopped])]
  refine ⟨rfl, ?_⟩
  dsimp only
  rw [if_neg stopped]
  split
  · rw [List.append_assoc, List.append_assoc]
    exact List.prefix_append _ _
  · exact List.prefix_rfl

theorem showDryRunResult_complete (free : result.error = [])
    (succeeded : result.dryRunSucceeded = true) :
    (showDryRunResult result).caption = wide "PhylaRAM — Inspection Complete" ∧
      ((showDryRunResult result).icon = .information ↔
        result.topologyChanged = false ∧ result.cleanupError = errorSuccess) := by
  rw [showDryRunResult, if_neg (by simp [free, succeeded])]
  refine ⟨rfl, ?_⟩
  simp

theorem captions_ne :
    wide "PhylaRAM — Inspection Complete" ≠ wide "PhylaRAM — Inspection Failed" := by decide

/-- The result of an inspection that a step has stopped. -/
theorem inspectionTells_of_thwarted (operation : result.operation = .dryRun)
    (thwarted : Thwarted machine desktop result.error) (unread : h.now.copies = []) :
    InspectionTells machine desktop result u h := by
  obtain ⟨caption, explained⟩ := showDryRunResult_failed thwarted.ne_nil
  rw [← noticeOf_dryRun operation] at caption explained
  refine ⟨iff_of_false ?_ ?_, iff_of_true caption ⟨_, thwarted⟩, fun reason other => ?_,
    fun _ _ inspects => (thwarted.not_inspects inspects).elim,
    fun _ _ inspects => (thwarted.not_inspects inspects).elim, unread⟩
  · rw [caption]
    exact captions_ne.symm
  · rintro ⟨topology, changed, inspects⟩
    exact thwarted.not_inspects inspects
  · rw [other.unique thwarted]
    exact explained

/-- The result of an inspection of which every step has succeeded. -/
theorem inspectionTells_of_inspects {topology : Topology} {changed : Bool}
    (inspects : Inspects machine desktop topology changed) (operation : result.operation = .dryRun)
    (free : result.error = []) (succeeded : result.dryRunSucceeded = true)
    (answers : ⟨result.highestPhysicalEnd, result.totalPhysicalBytes, result.ranges⟩ = topology ∧
      result.topologyChanged = changed ∧ result.hints = shownHints machine desktop ∧
      Findings topology result.hints changed h)
    (removal : result.cleanupError = errorSuccess ↔ Removed desktop u)
    (unread : h.now.copies = []) : InspectionTells machine desktop result u h := by
  obtain ⟨caption, icon⟩ := showDryRunResult_complete free succeeded
  rw [← noticeOf_dryRun operation] at caption icon
  have same (topology' : Topology) (changed' : Bool)
      (h : Inspects machine desktop topology' changed') :
      topology' = topology ∧ changed' = changed :=
    ⟨Option.some.inj (h.asked.symm.trans inspects.asked),
      Option.some.inj (h.compared.symm.trans inspects.compared)⟩
  refine ⟨iff_of_true caption ⟨_, _, inspects⟩, iff_of_false ?_ ?_,
    fun _ thwarted => (thwarted.not_inspects inspects).elim, fun topology' changed' other => ?_,
    fun topology' changed' other => ?_, unread⟩
  · rw [caption]
    exact captions_ne
  · rintro ⟨reason, thwarted⟩
    exact thwarted.not_inspects inspects
  · obtain ⟨rfl, rfl⟩ := same topology' changed' other
    exact answers
  · obtain ⟨rfl, rfl⟩ := same topology' changed' other
    rw [icon, removal, answers.2.1]

end Notices

/-! ### The worker of a dry run -/

/-- What `Stop` reports of the driver that this run has started. -/
theorem removed_iff {runtime : DriverRuntime} {service : ServiceWorld}
    (started : starting desktop = ((true, runtime), service)) :
    (runtime.stop { service with lastError := desktop.console.lastError }).1.1 = errorSuccess ↔
      Removed desktop
        (runtime.stop { service with lastError := desktop.console.lastError }).2 := by
  have running : runtime.serviceStarted = true := start_serviceStarted started
  rw [stop_success_iff running, Removed, stopping, started]

/-- The answers of an open device, and what becomes of them. -/
theorem inspectionTells_of_opened {runtime : DriverRuntime} {service : ServiceWorld}
    {d : DeviceSession} (permitted : Permitted desktop)
    (started : starting desktop = ((true, runtime), service))
    (accepted : opening machine desktop = (true, d)) (unread : Unread d) :
    let console := { desktop.console with
      service, host := { desktop.console.host with device := d } }
    let inspected := inspect (deviceSession machine) { operation := .dryRun } console
    let outcome := conclude (deviceSession machine) runtime inspected.1 inspected.2
    InspectionTells machine desktop outcome.1 outcome.2.service outcome.2.host.device.driver := by
  have ran : (starting desktop).1.1 = true := congrArg (fun s => s.1.1) started
  have session := openDevice_inSession accepted
  rcases asked : (deviceSession machine).query d with ⟨topology, d₁⟩
  rcases told : (deviceSession machine).queryHints d₁ with ⟨⟨hintsOk, hints⟩, d₂⟩
  rcases compared : (deviceSession machine).endSession d₂ with ⟨changed, d₃⟩
  have first : queried machine desktop = (topology, d₁) := by
    rw [queried, accepted]
    exact asked
  have second : hinted machine desktop = ((hintsOk, hints), d₂) := by
    rw [hinted, first]
    exact told
  have shown : shownHints machine desktop = if hintsOk then hints else {} := by
    rw [shownHints, second]
  have last : ended machine desktop = (changed, d₃) := by
    rw [ended, second]
    exact compared
  have untouched := ((unread.query machine).queryHints machine).endSession machine
  rw [asked, told, compared] at untouched
  have stopped (missing : topology = none ∨ changed = none) :
      Thwarted machine desktop (inspectionError ((deviceSession machine).lastError d₃)) := by
    have failed : (queried machine desktop).1 = none ∨ (ended machine desktop).1 = none := by
      rw [first, last]
      exact missing
    have thwarted : Thwarted machine desktop _ :=
      .unanswered permitted ran (congrArg Prod.fst accepted) failed
    rwa [last] at thwarted
  simp only [inspect, asked, told, compared]
  cases topology with
  | none =>
      exact inspectionTells_of_thwarted rfl (stopped (.inl rfl)) untouched.close.copies
  | some topology =>
      cases changed with
      | none =>
          exact inspectionTells_of_thwarted rfl (stopped (.inr rfl))
            untouched.close.copies
      | some changed =>
          have inspects : Inspects machine desktop topology changed :=
            ⟨permitted, ran, congrArg Prod.fst accepted, congrArg Prod.fst first,
              congrArg Prod.fst last⟩
          have findings := findings_of_answers session asked told compared
          exact inspectionTells_of_inspects inspects rfl rfl rfl
            ⟨rfl, rfl, shown.symm, findings.remembered (remembers_close _)⟩ (removed_iff started)
            untouched.close.copies

/-- A device that was used before does not matter as long as nothing has been read from it. -/
theorem inspectionTells_of_unread (machine : Machine) (environment : Environment κ)
    (sha256 : List Byte → List Byte) (outputPath : WString) (rateLimit : UInt32)
    (desktop : Desktop DeviceSession κ) (fresh : Unread desktop.console.host.device) :
    let outcome := runWorker (deviceSession machine) environment sha256 .dryRun outputPath rateLimit
      desktop
    InspectionTells machine desktop outcome.1 outcome.2.service outcome.2.host.device.driver := by
  dsimp only
  rw [runWorker]
  split
  · next stopped =>
      exact inspectionTells_of_thwarted rfl (thwarted_of_privilegeError stopped)
        fresh.close.copies
  · next clear =>
      have permitted := permitted_of_privilegeError clear
      split
      · next runtime service started =>
          exact inspectionTells_of_thwarted rfl
            (.unstarted permitted (congrArg (fun s => s.1.1) started)) fresh.close.copies
      · next runtime service started =>
          have ran : (starting desktop).1.1 = true := congrArg (fun s => s.1.1) started
          dsimp only
          have unread := fresh.openSession machine
          split
          · next d opened =>
              rw [opened] at unread
              have failed : opening machine desktop = (false, d) := opened
              have thwarted : Thwarted machine desktop _ :=
                .unopened permitted ran (congrArg Prod.fst failed)
              rw [failed] at thwarted
              exact inspectionTells_of_thwarted rfl thwarted unread.close.copies
          · next d opened =>
              rw [opened] at unread
              exact inspectionTells_of_opened permitted started opened unread

/-- The notice at the end of a dry run tells what the environment and the driver have answered. No
memory was copied. -/
theorem inspection_tells (machine : Machine) (environment : Environment κ)
    (sha256 : List Byte → List Byte) (outputPath : WString) (rateLimit : UInt32)
    (desktop : Desktop DeviceSession κ) (new : desktop.console.host.device = {}) :
    let outcome := runWorker (deviceSession machine) environment sha256 .dryRun outputPath rateLimit
      desktop
    InspectionTells machine desktop outcome.1 outcome.2.service outcome.2.host.device.driver :=
  inspectionTells_of_unread machine environment sha256 outputPath rateLimit desktop
    (new ▸ unread_new)

/-- The window warns of a machine that loses a range while it is being asked. -/
theorem inspection_tells_shrinking :
    let outcome := runWorker (deviceSession shrinkingMachine) quietEnvironment id .dryRun [] 0
      { console := newConsole }
    (noticeOf outcome.1).icon = .warning ∧
      InspectionTells shrinkingMachine { console := newConsole } outcome.1 outcome.2.service
        outcome.2.host.device.driver :=
  ⟨by decide +kernel, inspection_tells shrinkingMachine quietEnvironment id [] 0
    { console := newConsole } rfl⟩

/-- In a run of the window whose outcomes are those of its workers, a box about an inspection tells
what the driver has answered in that inspection. -/
theorem shown_inspection_tells {machine : Machine} {environment : Environment κ}
    {sha256 : List Byte → List Byte} {es : List Event} {s : Gui} (run : Run step {} es s)
    (worked : ∀ outcome, .complete outcome ∈ es → ∃ outputPath rateLimit desktop,
      Unread desktop.console.host.device ∧
        WorkerEnds (deviceSession machine) environment sha256 outputPath rateLimit desktop outcome)
    {result : Nat} {notice : Notice} (shown : .showing result notice ∈ s.boxes) :
    ∃ outcome, .complete outcome ∈ es ∧ notice = noticeOf outcome ∧
      (outcome.operation = .dryRun → ∃ outputPath rateLimit desktop,
        let ended := runWorker (deviceSession machine) environment sha256 .dryRun outputPath
          rateLimit desktop
        outcome = ended.1 ∧
          InspectionTells machine desktop outcome ended.2.service ended.2.host.device.driver) := by
  have h : Invariant (fun outcome => .complete outcome ∈ es) s :=
    invariant_of_run run fun _ member => member
  obtain ⟨outcome, completed, same⟩ := h.shown shown
  refine ⟨outcome, completed, same, fun operation => ?_⟩
  obtain ⟨outputPath, rateLimit, desktop, unread, ended⟩ := worked outcome completed
  have tells := inspectionTells_of_unread machine environment sha256 outputPath rateLimit desktop
    unread
  rw [WorkerEnds, operation] at ended
  refine ⟨outputPath, rateLimit, desktop, ended, ?_⟩
  rw [ended]
  exact tells

end Gui

end PhylaRam
