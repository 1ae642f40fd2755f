import PhylaRam.Cli.CommandLine

/-!
# Which options a mode accepts

The checks after the loop see the final values of the options, not which options occurred. An
accepted command line is described by its items: the flags that occur, the paths that are not
empty, and the last values of the rate limit and of the format.
-/

namespace PhylaRam

namespace CommandLine

/-! ### Reading the items -/

def Item.path? : Item → Option WString
  | .path p => if p = [] then none else some p
  | _ => none

/-- The paths that are not empty. -/
def paths (its : List Item) : List WString := its.filterMap Item.path?

def Item.rate? : Item → Option UInt32
  | .valued .rateLimit value => parseUint32 value
  | _ => none

def Item.format? : Item → Option OutputFormat
  | .valued .format value => formatNamed (value.map towlower)
  | _ => none

/-- The last of the values that the items give to an option. -/
def lastOf {α : Type} (value? : Item → Option α) (its : List Item) : Option α :=
  (its.filterMap value?).getLast?

/-- The item is an option, with a value that is well formed, or a path. -/
def Item.acceptable : Item → Bool
  | .flag _ => true
  | .valued .format value => (formatNamed (value.map towlower)).isSome
  | .valued .rateLimit value => (parseUint32 value).isSome
  | .valued _ _ => true
  | .dangling _ => false
  | .unknown _ => false
  | .path _ => true

/-- An option of the capture mode, with any value, or a path that is not empty. -/
def Item.captureOption : Item → Bool
  | .path p => p ≠ []
  | .valued _ _ => true
  | .flag .quiet => true
  | .flag .json => true
  | _ => false

def Item.rateLimit : Item → Bool
  | .valued .rateLimit _ => true
  | _ => false

def Item.valuedOption : Item → Bool
  | .valued _ _ => true
  | _ => false

/-! ### The state after the loop -/

def Flag.isSet : Flag → ParseState → Bool
  | .help, s => s.sawHelp
  | .gui, s => s.sawGui
  | .dryRun, s => s.sawDryRun
  | .json, s => s.options.json
  | .quiet, s => s.options.quiet

def ParseState.paths (s : ParseState) : List WString :=
  if s.options.outputPath = [] then [] else [s.options.outputPath]

/-- What one item does to the state. -/
structure ItemStep (item : Item) (s t : ParseState) : Prop where
  acceptable : item.acceptable = true
  flag : ∀ flag : Flag, flag.isSet t = true ↔ item = .flag flag ∨ flag.isSet s = true
  paths : t.paths = s.paths ++ item.path?.toList
  rate : t.options.rateLimitMBps = item.rate?.getD s.options.rateLimitMBps
  format : t.options.format = item.format?.getD s.options.format

theorem flag_isSet_setFlag (flag other : Flag) (s : ParseState) :
    other.isSet (setFlag flag s) = true ↔ Item.flag flag = .flag other ∨ other.isSet s = true := by
  cases flag <;> cases other <;> simp [setFlag, Flag.isSet]

theorem itemStep_flag (flag : Flag) (s : ParseState) : ItemStep (.flag flag) s (setFlag flag s) := by
  refine ⟨rfl, fun other => flag_isSet_setFlag flag other s, ?_, ?_, ?_⟩
  · cases flag <;> exact (List.append_nil _).symm
  · cases flag <;> rfl
  · cases flag <;> rfl

theorem itemStep_store {option : ValuedOption} {value : WString} {s : ParseState}
    {options : CliOptions} (stored : store option value s.options = .ok options) :
    ItemStep (.valued option value) s { s with options := options } := by
  have unflagged (flag : Flag) (same : flag.isSet { s with options := options } = flag.isSet s) :
      flag.isSet { s with options := options } = true ↔
        Item.valued option value = .flag flag ∨ flag.isSet s = true := by
    rw [same]
    exact ⟨.inr, fun h => h.resolve_left nofun⟩
  cases option with
  | format =>
      rw [store] at stored
      cases named : formatNamed (value.map towlower) with
      | none =>
          rw [named] at stored
          cases stored
      | some format =>
          rw [named] at stored
          cases stored
          refine ⟨by rw [Item.acceptable, named]; rfl, fun flag => unflagged flag ?_,
            (List.append_nil _).symm, rfl, by rw [Item.format?, named]; rfl⟩
          cases flag <;> rfl
  | rateLimit =>
      rw [store] at stored
      cases parsed : parseUint32 value with
      | none =>
          rw [parsed] at stored
          cases stored
      | some rate =>
          rw [parsed] at stored
          cases stored
          refine ⟨by rw [Item.acceptable, parsed]; rfl, fun flag => unflagged flag ?_,
            (List.append_nil _).symm, by rw [Item.rate?, parsed]; rfl, rfl⟩
          cases flag <;> rfl
  | caseNumber | evidenceNumber | examiner | description | notes =>
      cases stored
      refine ⟨rfl, fun flag => unflagged flag ?_, (List.append_nil _).symm, rfl, rfl⟩
      cases flag <;> rfl

theorem itemStep_path {path : WString} {s t : ParseState} (set : setPath path s = .ok t) :
    ItemStep (.path path) s t := by
  rw [setPath] at set
  split at set
  · cases set
  · next unset =>
      cases set
      have none : s.options.outputPath = [] := not_not.mp unset
      refine ⟨rfl, fun flag => ?_, ?_, rfl, rfl⟩
      · cases flag <;> simp [Flag.isSet]
      · rw [ParseState.paths, ParseState.paths, if_pos none, Item.path?]
        by_cases empty : path = []
        · rw [if_pos empty, if_pos empty]
          rfl
        · rw [if_neg empty, if_neg empty]
          rfl

theorem Item.apply_step {item : Item} {s t : ParseState} (applied : item.apply s = .ok t) :
    ItemStep item s t := by
  cases item with
  | flag f =>
      cases applied
      exact itemStep_flag f s
  | valued option value =>
      rw [Item.apply] at applied
      cases stored : store option value s.options with
      | error message =>
          rw [stored] at applied
          cases applied
      | ok options =>
          rw [stored] at applied
          cases applied
          exact itemStep_store stored
  | dangling option => cases applied
  | unknown argument => cases applied
  | path p => exact itemStep_path applied

/-- What a command line that passed the loop has done to the state. -/
structure Parsed (its : List Item) (s t : ParseState) : Prop where
  acceptable : ∀ item ∈ its, item.acceptable = true
  flag : ∀ flag : Flag, flag.isSet t = true ↔ .flag flag ∈ its ∨ flag.isSet s = true
  paths : t.paths = s.paths ++ paths its
  rate : t.options.rateLimitMBps = (lastOf Item.rate? its).getD s.options.rateLimitMBps
  format : t.options.format = (lastOf Item.format? its).getD s.options.format

theorem lastOf_cons {α : Type} (value? : Item → Option α) (item : Item) (its : List Item)
    (start : α) :
    (lastOf value? (item :: its)).getD start = (lastOf value? its).getD ((value? item).getD start) := by
  rw [lastOf, List.filterMap_cons]
  cases value? item with
  | none => rfl
  | some value =>
      dsimp only
      rw [List.getLast?_cons, lastOf]
      cases (its.filterMap value?).getLast? <;> rfl

/-- Induction over the items, one step each. -/
theorem applyAll_parsed {its : List Item} {s t : ParseState} (applied : applyAll its s = .ok t) :
    Parsed its s t := by
  induction its generalizing s with
  | nil =>
      cases applied
      exact ⟨nofun, fun flag => ⟨.inr, fun h => h.resolve_left nofun⟩, (List.append_nil _).symm, rfl,
        rfl⟩
  | cons item its ih =>
      rw [applyAll] at applied
      cases first : item.apply s with
      | error message =>
          rw [first] at applied
          cases applied
      | ok u =>
          rw [first] at applied
          have step := Item.apply_step first
          have rest := ih applied
          refine ⟨?_, fun flag => ?_, ?_, ?_, ?_⟩
          · intro other member
            cases List.mem_cons.mp member with
            | inl same => exact same ▸ step.acceptable
            | inr later => exact rest.acceptable other later
          · rw [rest.flag flag, step.flag flag, List.mem_cons, eq_comm (b := item), or_assoc,
              or_left_comm]
          · rw [rest.paths, step.paths, List.append_assoc, CommandLine.paths, CommandLine.paths,
              List.filterMap_cons]
            cases item.path? <;> rfl
          · rw [rest.rate, step.rate, lastOf_cons]
          · rw [rest.format, step.format, lastOf_cons]

theorem ParseState.paths_eq_nil {s : ParseState} : s.paths = [] ↔ s.options.outputPath = [] := by
  rw [ParseState.paths]
  split
  · next empty => exact iff_of_true rfl empty
  · next named => exact iff_of_false nofun named

/-- Only a second path makes the loop refuse an acceptable item. -/
theorem Item.apply_acceptable {item : Item} (acceptable : item.acceptable = true) {s : ParseState}
    (unset : s.options.outputPath = []) : ∃ t, item.apply s = .ok t := by
  cases item with
  | flag f => exact ⟨_, rfl⟩
  | valued option value =>
      have stored : ∃ options, store option value s.options = .ok options := by
        cases option with
        | format =>
            obtain ⟨format, named⟩ := Option.isSome_iff_exists.mp acceptable
            exact ⟨_, by rw [store, named]⟩
        | rateLimit =>
            obtain ⟨rate, parsed⟩ := Option.isSome_iff_exists.mp acceptable
            exact ⟨_, by rw [store, parsed]⟩
        | caseNumber | evidenceNumber | examiner | description | notes => exact ⟨_, rfl⟩
      obtain ⟨options, stored⟩ := stored
      exact ⟨{ s with options := options }, by rw [Item.apply, stored]; rfl⟩
  | dangling option => cases acceptable
  | unknown argument => cases acceptable
  | path p => exact ⟨_, if_neg (not_not.mpr unset)⟩

theorem applyAll_acceptable {its : List Item} {s : ParseState}
    (acceptable : ∀ item ∈ its, item.acceptable = true) (pathless : paths its = [])
    (unset : s.options.outputPath = []) : ∃ t, applyAll its s = .ok t := by
  induction its generalizing s with
  | nil => exact ⟨s, rfl⟩
  | cons item its ih =>
      obtain ⟨u, first⟩ := Item.apply_acceptable (acceptable item List.mem_cons_self) unset
      have step := Item.apply_step first
      have none : item.path? = none ∧ paths its = [] := by
        rw [paths, List.filterMap_cons] at pathless
        cases path : item.path? with
        | none =>
            rw [path] at pathless
            exact ⟨rfl, pathless⟩
        | some p =>
            rw [path] at pathless
            cases pathless
      have still : u.options.outputPath = [] := by
        rw [← ParseState.paths_eq_nil, step.paths, none.1, ParseState.paths_eq_nil.mpr unset]
        rfl
      obtain ⟨t, rest⟩ := ih (fun other member => acceptable other (List.mem_cons_of_mem _ member))
        none.2 still
      exact ⟨t, by rw [applyAll, first]; exact rest⟩

/-! ### The mode -/

/-- How a mode is chosen, and what its checks have excluded. -/
inductive Decided (s : ParseState) (options : CliOptions) : Prop
  | help (mode : options.command = .help)
  | gui (mode : options.command = .gui) (seen : s.sawGui = true) (alone : s.sawHelp = false)
      (inspect : s.sawDryRun = false) (path : s.options.outputPath = [])
      (json : s.options.json = false) (rate : s.options.rateLimitMBps = 0)
      (quiet : s.options.quiet = false)
  | dryRun (mode : options.command = .dryRun) (seen : s.sawDryRun = true)
      (alone : s.sawHelp = false) (windowless : s.sawGui = false)
      (path : s.options.outputPath = []) (rate : s.options.rateLimitMBps = 0)
  | capture (same : options = { s.options with command := .capture })
      (json : s.options.json = false) (named : s.options.outputPath ≠ [])
      (file : s.options.outputPath ≠ wide "-")

theorem decideCommand_decided {s : ParseState} {options : CliOptions}
    (decided : decideCommand s = .ok options) : Decided s options := by
  rw [decideCommand] at decided
  split at decided
  · cases decided
  next single =>
  split at decided
  · cases decided
    exact .help rfl
  next alone =>
  have helpless : s.sawHelp = false := Bool.eq_false_of_not_eq_true alone
  split at decided
  · next seen =>
      have inspect : s.sawDryRun = false := by
        cases dry : s.sawDryRun with
        | false => rfl
        | true =>
            rw [seen, dry] at single
            exact (single (by simp)).elim
      split at decided
      · cases decided
      · next checked =>
          cases decided
          simp only [not_or, not_not, Bool.not_eq_true] at checked
          exact .gui rfl seen helpless inspect checked.1 checked.2.1 checked.2.2.1 checked.2.2.2
  next windowless =>
  split at decided
  · next seen =>
      split at decided
      · cases decided
      · next checked =>
          cases decided
          simp only [not_or, not_not] at checked
          exact .dryRun rfl seen helpless (Bool.eq_false_of_not_eq_true windowless) checked.1
            checked.2
  split at decided
  · cases decided
  next json =>
  split at decided
  · cases decided
  next named =>
  split at decided
  · cases decided
  next file =>
  cases decided
  exact .capture rfl (Bool.eq_false_of_not_eq_true json) named file

/-- The steps behind an accepted command line. -/
theorem parseCommandLine_accepted {arguments : List WString} {options : CliOptions}
    (accepted : parseCommandLine arguments = .ok options) :
    ∃ s, Parsed (items arguments) {} s ∧ Decided s options := by
  rw [parseCommandLine, parseArguments_eq] at accepted
  cases applied : applyAll (items arguments) {} with
  | error message =>
      rw [applied] at accepted
      cases accepted
  | ok s =>
      rw [applied] at accepted
      exact ⟨s, applyAll_parsed applied, decideCommand_decided accepted⟩

/-- The options of a mode exclude those of the others: an accepted command line of the graphical
mode has no option of a capture, a dry run has neither a path nor a rate limit, and a capture
has one path and does not ask for JSON. -/
def ModesExclude (arguments : List WString) : Prop :=
  ∀ options, parseCommandLine arguments = .ok options →
    (options.command = .gui → ∀ item ∈ items arguments, item.captureOption = false) ∧
    (options.command = .dryRun → paths (items arguments) = [] ∧
      ∀ item ∈ items arguments, item.rateLimit = false) ∧
    (options.command = .capture → (∃ path, path ≠ [] ∧ path ≠ wide "-" ∧
      paths (items arguments) = [path]) ∧ .flag .json ∉ items arguments)

/-- The command lines on which a check misses an option. They are accepted, and the rate limit
that is in effect, if any, is zero. -/
structure SlipsThrough (its : List Item) : Prop where
  acceptable : ∀ item ∈ its, item.acceptable = true
  helpless : .flag .help ∉ its
  pathless : paths its = []
  unlimited : (lastOf Item.rate? its).getD 0 = 0
  missed : (.flag .gui ∈ its ∧ .flag .dryRun ∉ its ∧ .flag .json ∉ its ∧ .flag .quiet ∉ its ∧
      ∃ item ∈ its, item.valuedOption = true) ∨
    (.flag .dryRun ∈ its ∧ .flag .gui ∉ its ∧ ∃ item ∈ its, item.rateLimit = true)

/-- A flag occurs exactly if the loop has set it. -/
theorem Parsed.flag_iff {its : List Item} {t : ParseState} (parsed : Parsed its {} t)
    (flag : Flag) : .flag flag ∈ its ↔ flag.isSet t = true := by
  rw [parsed.flag flag]
  refine ⟨.inl, fun h => h.resolve_right fun initial => ?_⟩
  cases flag <;> cases initial

theorem Parsed.absent {its : List Item} {t : ParseState} (parsed : Parsed its {} t) (flag : Flag)
    (unset : flag.isSet t = false) : .flag flag ∉ its := by
  rw [parsed.flag_iff, unset]
  exact Bool.false_ne_true

/-- A capture option that is neither a path nor a flag takes a value. -/
theorem Item.valuedOption_of_captureOption {its : List Item} {item : Item} (member : item ∈ its)
    (option : item.captureOption = true) (pathless : paths its = [])
    (json : .flag .json ∉ its) (quiet : .flag .quiet ∉ its) : item.valuedOption = true := by
  cases item with
  | valued option value => rfl
  | dangling option' => cases option
  | unknown argument => cases option
  | path p =>
      have named : p ≠ [] := of_decide_eq_true option
      have listed : p ∈ paths its := List.mem_filterMap.mpr ⟨_, member, if_neg named⟩
      rw [pathless] at listed
      cases listed
  | flag f =>
      cases f with
      | json => exact (json member).elim
      | quiet => exact (quiet member).elim
      | help | gui | dryRun => cases option

theorem parseArguments_parsed {arguments : List WString} {s : ParseState}
    (parsed : parseArguments arguments {} = .ok s) : Parsed (items arguments) {} s :=
  applyAll_parsed (parseArguments_eq arguments {} ▸ parsed)

/-- What slips through is accepted, with the mode that it asks for. -/
theorem SlipsThrough.accepted {arguments : List WString} (slips : SlipsThrough (items arguments)) :
    ∃ options, parseCommandLine arguments = .ok options ∧
      (.flag .gui ∈ items arguments ∧ options.command = .gui ∨
        .flag .gui ∉ items arguments ∧ options.command = .dryRun) := by
  obtain ⟨s, applied⟩ := applyAll_acceptable (s := {}) slips.acceptable slips.pathless rfl
  rw [← parseArguments_eq] at applied
  have parsed := parseArguments_parsed applied
  have help : s.sawHelp = false := by
    rw [← Bool.not_eq_true]
    exact fun set => slips.helpless ((parsed.flag_iff .help).mpr set)
  have path : s.options.outputPath = [] := by
    rw [← ParseState.paths_eq_nil, parsed.paths, slips.pathless]
    rfl
  have rate : s.options.rateLimitMBps = 0 := parsed.rate.trans slips.unlimited
  have unset (flag : Flag) (absent : .flag flag ∉ items arguments) : flag.isSet s = false := by
    rw [← Bool.not_eq_true]
    exact fun set => absent ((parsed.flag_iff flag).mpr set)
  rw [parseCommandLine, applied]
  cases slips.missed with
  | inl gui =>
      obtain ⟨occurs, inspect, json, quiet, -⟩ := gui
      have seen : s.sawGui = true := (parsed.flag_iff .gui).mp occurs
      have dry : s.sawDryRun = false := unset .dryRun inspect
      have unasked : s.options.json = false := unset .json json
      have loud : s.options.quiet = false := unset .quiet quiet
      refine ⟨{ s.options with command := .gui }, ?_, .inl ⟨occurs, rfl⟩⟩
      show decideCommand s = _
      simp [decideCommand, help, seen, dry, path, rate, unasked, loud]
  | inr dryRun =>
      obtain ⟨occurs, windowless, -⟩ := dryRun
      have seen : s.sawDryRun = true := (parsed.flag_iff .dryRun).mp occurs
      have gui : s.sawGui = false := unset .gui windowless
      refine ⟨{ s.options with command := .dryRun }, ?_, .inr ⟨windowless, rfl⟩⟩
      show decideCommand s = _
      simp [decideCommand, help, seen, gui, path, rate]

theorem Item.captureOption_of_valuedOption {item : Item} (valued : item.valuedOption = true) :
    item.captureOption = true := by
  cases item with
  | valued option value => rfl
  | flag f => cases valued
  | dangling option => cases valued
  | unknown argument => cases valued
  | path p => cases valued

/-- The modes exclude each other's options on exactly the command lines on which no option slips
through. -/
theorem modes_exclude_iff (arguments : List WString) :
    ModesExclude arguments ↔ ¬SlipsThrough (items arguments) := by
  constructor
  · intro exclude slips
    obtain ⟨options, accepted, mode⟩ := slips.accepted
    obtain ⟨gui, dryRun, -⟩ := exclude options accepted
    cases slips.missed with
    | inl window =>
        obtain ⟨occurs, -, -, -, item, member, valued⟩ := window
        have command : options.command = .gui := (mode.resolve_right fun no => no.1 occurs).2
        have none := gui command item member
        rw [Item.captureOption_of_valuedOption valued] at none
        cases none
    | inr inspection =>
        obtain ⟨-, windowless, item, member, limited⟩ := inspection
        have command : options.command = .dryRun := (mode.resolve_left fun no => windowless no.1).2
        have none := (dryRun command).2 item member
        rw [limited] at none
        cases none
  · intro checked options accepted
    obtain ⟨s, parsed, decided⟩ := parseCommandLine_accepted accepted
    have pathless (path : s.options.outputPath = []) : paths (items arguments) = [] :=
      parsed.paths.symm.trans (ParseState.paths_eq_nil.mpr path)
    cases decided with
    | help mode =>
        rw [mode]
        exact ⟨nofun, nofun, nofun⟩
    | gui mode seen alone inspect path json rate quiet =>
        rw [mode]
        refine ⟨fun _ item member => ?_, nofun, nofun⟩
        rw [← Bool.not_eq_true]
        intro option
        have noJson := parsed.absent .json json
        have noQuiet := parsed.absent .quiet quiet
        have valued := Item.valuedOption_of_captureOption member option (pathless path) noJson noQuiet
        exact checked {
          acceptable := parsed.acceptable
          helpless := parsed.absent .help alone
          pathless := pathless path
          unlimited := parsed.rate.symm.trans rate
          missed := .inl ⟨(parsed.flag_iff .gui).mpr seen, parsed.absent .dryRun inspect, noJson, noQuiet,
            item, member, valued⟩ }
    | dryRun mode seen alone windowless path rate =>
        rw [mode]
        refine ⟨nofun, fun _ => ⟨pathless path, fun item member => ?_⟩, nofun⟩
        rw [← Bool.not_eq_true]
        intro limited
        exact checked {
          acceptable := parsed.acceptable
          helpless := parsed.absent .help alone
          pathless := pathless path
          unlimited := parsed.rate.symm.trans rate
          missed := .inr ⟨(parsed.flag_iff .dryRun).mpr seen, parsed.absent .gui windowless,
            item, member, limited⟩ }
    | capture same json named file =>
        rw [same]
        refine ⟨nofun, nofun, fun _ => ⟨⟨s.options.outputPath, named, file, ?_⟩, ?_⟩⟩
        · rw [← if_neg named (t := ([] : List WString)) (e := [s.options.outputPath])]
          exact parsed.paths.symm
        · exact parsed.absent .json json

/-- `phylaram.exe --gui --format raw`. -/
def guiWithFormat : List WString := [wide "--gui", wide "--format", wide "raw"]

/-- The graphical mode accepts a format, and a dry run accepts a rate limit of zero. -/
theorem modes_accept_foreign_options :
    ¬ModesExclude guiWithFormat ∧
      ¬ModesExclude [wide "--dry-run", wide "--rate-limit", wide "0"] := by
  constructor
  · intro exclude
    have none := (exclude { command := .gui } (by decide +kernel)).1 rfl
      (.valued .format (wide "raw")) (by decide +kernel)
    cases none
  · intro exclude
    have none := ((exclude { command := .dryRun } (by decide +kernel)).2.1 rfl).2
      (.valued .rateLimit (wide "0")) (by decide +kernel)
    cases none

end CommandLine

end PhylaRam
