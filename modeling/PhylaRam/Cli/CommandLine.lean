import PhylaRam.Library.Numeral
import PhylaRam.Shared.Interfaces

/-!
# The command line

This module follows `ParseCommandLine` of `cli/main.cpp`. `kindOf` is its chain of comparisons
on one argument; an option with a value takes the argument that follows it, whatever that
argument is. The argument vector does not contain the name of the program.
-/

namespace PhylaRam

inductive Command
  | capture
  | dryRun
  | gui
  | help
deriving DecidableEq, Repr

structure CliOptions where
  command : Command := .capture
  outputPath : WString := []
  quiet : Bool := false
  json : Bool := false
  rateLimitMBps : UInt32 := 0
  format : OutputFormat := .raw
  metadata : EvidenceMetadata := {}
deriving DecidableEq, Repr

namespace CommandLine

/-- The options that take a value. -/
inductive ValuedOption
  | format
  | caseNumber
  | evidenceNumber
  | examiner
  | description
  | notes
  | rateLimit
deriving DecidableEq, Repr

/-- The options without a value. -/
inductive Flag
  | help
  | gui
  | dryRun
  | json
  | quiet
deriving DecidableEq, Repr

inductive ArgumentKind
  | flag (flag : Flag)
  | valued (option : ValuedOption)
  | unknown
  | path
deriving DecidableEq, Repr

def dash : UInt16 := 0x2D

def kindOf (argument : WString) : ArgumentKind :=
  if argument = wide "--help" ∨ argument = wide "-h" then .flag .help
  else if argument = wide "--gui" then .flag .gui
  else if argument = wide "--dry-run" then .flag .dryRun
  else if argument = wide "--json" then .flag .json
  else if argument = wide "--quiet" then .flag .quiet
  else if argument = wide "--format" then .valued .format
  else if argument = wide "--case-number" then .valued .caseNumber
  else if argument = wide "--evidence-number" then .valued .evidenceNumber
  else if argument = wide "--examiner" then .valued .examiner
  else if argument = wide "--description" then .valued .description
  else if argument = wide "--notes" then .valued .notes
  else if argument = wide "--rate-limit" then .valued .rateLimit
  else if argument.head? = some dash then .unknown
  else .path

/-- `towlower` in the "C" locale. -/
def towlower (c : UInt16) : UInt16 := if 0x41 ≤ c && c ≤ 0x5A then c + 0x20 else c

def iswdigit (c : UInt16) : Bool := 0x30 ≤ c && c ≤ 0x39

/-- `std::numeric_limits<uint32_t>::max()`. -/
def uint32Max : Nat := 0xFFFFFFFF

/-- `wcstoull` reports the overflow of a number above `ULLONG_MAX`, which is above the bound
as well. -/
def parseUint32 (text : WString) : Option UInt32 :=
  if text = [] then none
  else if text.any fun c => !iswdigit c then none
  else
    let parsed := Numeral.value 10 (text.map fun c => c.toNat - 0x30)
    if parsed > uint32Max then none else some (UInt32.ofNat parsed)

def formatNamed (fmt : WString) : Option OutputFormat :=
  if fmt = wide "raw" then some .raw
  else if fmt = wide "zdmp" ∨ fmt = wide "dmp" then some .zdmp
  else if fmt = wide "e01" then some .e01
  else none

/-- The error for an option at the end of the vector. -/
def missingValue : ValuedOption → WString
  | .format => wide "--format requires a format name (raw, zdmp, dmp, e01)."
  | .caseNumber => wide "--case-number requires a string argument."
  | .evidenceNumber => wide "--evidence-number requires a string argument."
  | .examiner => wide "--examiner requires a string argument."
  | .description => wide "--description requires a string argument."
  | .notes => wide "--notes requires a string argument."
  | .rateLimit => wide "--rate-limit requires a non-negative integer MiB/s value."

def store (option : ValuedOption) (value : WString) (options : CliOptions) :
    Except WString CliOptions :=
  match option with
  | .format =>
      let fmt := value.map towlower
      match formatNamed fmt with
      | some format => .ok { options with format := format }
      | none =>
          .error (wide "Unknown --format value: " ++ fmt ++
            wide ". Supported formats: raw, zdmp, dmp, e01.")
  | .caseNumber => .ok { options with metadata := { options.metadata with caseNumber := value } }
  | .evidenceNumber =>
      .ok { options with metadata := { options.metadata with evidenceNumber := value } }
  | .examiner => .ok { options with metadata := { options.metadata with examiner := value } }
  | .description => .ok { options with metadata := { options.metadata with description := value } }
  | .notes => .ok { options with metadata := { options.metadata with notes := value } }
  | .rateLimit =>
      match parseUint32 value with
      | some parsedRate => .ok { options with rateLimitMBps := parsedRate }
      | none => .error (wide "Invalid --rate-limit value.")

/-- The local variables of the loop. -/
structure ParseState where
  options : CliOptions := {}
  sawGui : Bool := false
  sawHelp : Bool := false
  sawDryRun : Bool := false
deriving DecidableEq, Repr

def setFlag : Flag → ParseState → ParseState
  | .help, s => { s with sawHelp := true }
  | .gui, s => { s with sawGui := true }
  | .dryRun, s => { s with sawDryRun := true }
  | .json, s => { s with options := { s.options with json := true } }
  | .quiet, s => { s with options := { s.options with quiet := true } }

def setPath (argument : WString) (s : ParseState) : Except WString ParseState :=
  if s.options.outputPath ≠ [] then .error (wide "Only one evidence output path may be specified.")
  else .ok { s with options := { s.options with outputPath := argument } }

/-- `for (int index = 1; index < argc; ++index)`. -/
def parseArguments : List WString → ParseState → Except WString ParseState
  | [], s => .ok s
  | argument :: rest, s =>
      match kindOf argument with
      | .flag flag => parseArguments rest (setFlag flag s)
      | .valued option =>
          match rest with
          | [] => .error (missingValue option)
          | value :: rest => do
              let options ← store option value s.options
              parseArguments rest { s with options := options }
      | .unknown => .error (wide "Unknown option: " ++ argument)
      | .path => do
          let s ← setPath argument s
          parseArguments rest s

/-- The mode and the checks after the loop. -/
def decideCommand (s : ParseState) : Except WString CliOptions :=
  if s.sawGui.toNat + s.sawHelp.toNat + s.sawDryRun.toNat > 1 then
    .error (wide "--gui, --help, and --dry-run are mutually exclusive modes.")
  else if s.sawHelp then .ok { s.options with command := .help }
  else if s.sawGui then
    if s.options.outputPath ≠ [] ∨ s.options.json = true ∨ s.options.rateLimitMBps ≠ 0 ∨
        s.options.quiet = true then
      .error (wide "--gui does not accept capture-mode options.")
    else .ok { s.options with command := .gui }
  else if s.sawDryRun then
    if s.options.outputPath ≠ [] ∨ s.options.rateLimitMBps ≠ 0 then
      .error (wide "--dry-run does not accept an output path or rate limit.")
    else .ok { s.options with command := .dryRun }
  else if s.options.json then .error (wide "--json is supported only with --dry-run.")
  else if s.options.outputPath = [] then .error (wide "An evidence output path is required.")
  else if s.options.outputPath = wide "-" then
    .error (wide ("Raw stdout acquisition is not supported because unreadable-byte provenance " ++
      "requires a companion map."))
  else .ok { s.options with command := .capture }

end CommandLine

open CommandLine

def parseCommandLine (arguments : List WString) : Except WString CliOptions := do
  let s ← parseArguments arguments {}
  decideCommand s

/-! ### What occurs on a command line -/

namespace CommandLine

/-- An argument with its role: the value of an option belongs to the option. -/
inductive Item
  | flag (flag : Flag)
  | valued (option : ValuedOption) (value : WString)
  /-- An option without its value. -/
  | dangling (option : ValuedOption)
  | unknown (argument : WString)
  | path (path : WString)
deriving DecidableEq, Repr

def items : List WString → List Item
  | [] => []
  | argument :: rest =>
      match kindOf argument with
      | .flag flag => .flag flag :: items rest
      | .valued option =>
          match rest with
          | [] => [.dangling option]
          | value :: rest => .valued option value :: items rest
      | .unknown => .unknown argument :: items rest
      | .path => .path argument :: items rest

/-- The effect of one item on the state. -/
def Item.apply : Item → ParseState → Except WString ParseState
  | .flag f, s => .ok (setFlag f s)
  | .valued option value, s => do
      let options ← store option value s.options
      .ok { s with options := options }
  | .dangling option, _ => .error (missingValue option)
  | .unknown argument, _ => .error (wide "Unknown option: " ++ argument)
  | .path p, s => setPath p s

def applyAll : List Item → ParseState → Except WString ParseState
  | [], s => .ok s
  | item :: rest, s => do
      let s ← item.apply s
      applyAll rest s

/-- The loop applies the items in their order. -/
theorem parseArguments_eq (arguments : List WString) (s : ParseState) :
    parseArguments arguments s = applyAll (items arguments) s := by
  induction arguments using items.induct generalizing s with
  | case1 => rfl
  | case2 argument rest flag kind ih =>
      rw [parseArguments, items, kind]
      exact ih _
  | case3 argument option kind =>
      rw [parseArguments, items, kind]
      rfl
  | case4 argument option kind value rest ih =>
      rw [parseArguments, items, kind]
      dsimp only
      rw [applyAll, Item.apply]
      cases store option value s.options with
      | error message => rfl
      | ok options => exact ih _
  | case5 argument rest kind ih =>
      rw [parseArguments, items, kind]
      rfl
  | case6 argument rest kind ih =>
      rw [parseArguments, items, kind]
      dsimp only
      rw [applyAll, Item.apply]
      cases setPath argument s with
      | error message => rfl
      | ok t => exact ih t

end CommandLine

end PhylaRam
