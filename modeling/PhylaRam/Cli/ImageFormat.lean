import PhylaRam.Cli.Modes
import PhylaRam.Evidence.Transaction

/-!
# The format of a capture

The options hold a format whether or not one was given, and RAW is also what they hold without
a `--format`. The transaction lets the extension of the output path decide where it finds RAW,
so it cannot tell an explicit RAW from no choice at all.
-/

namespace PhylaRam

open CommandLine

/-- The format that an extension stands for, in upper or lower case. -/
def extensionFormat (outputPath : WString) : OutputFormat :=
  let ext := (Path.extension outputPath).map towlower
  if ext = wide ".zdmp" ∨ ext = wide ".dmp" then .zdmp
  else if ext = wide ".e01" then .e01
  else .raw

theorem outputFormat_raw (outputPath : WString) :
    outputFormat outputPath .raw = extensionFormat outputPath := rfl

theorem outputFormat_of_ne {outputPath : WString} {format : OutputFormat} (ne : format ≠ .raw) :
    outputFormat outputPath format = format := if_neg ne

section Writer

variable {δ κ : Type}

/-- The transaction with the writer of a format. -/
def captureAs (format : OutputFormat) (device : IDeviceSession δ) (environment : Environment κ)
    (sha256 : List Byte → List Byte) (config : AcquisitionConfig) (outputPath : WString)
    (host : Host δ κ) : EvidenceCaptureResult × Host δ κ :=
  let paths := buildEvidencePaths outputPath
  let hasher := sha256Hasher sha256
  match format with
  | .zdmp => runCapture ⟨device, zdmpWriter, hasher, environment, config⟩ paths {} host
  | .e01 => runCapture ⟨device, e01Writer, hasher, environment, config⟩ paths {} host
  | .raw => runCapture ⟨device, rawWriter, hasher, environment, config⟩ paths {} host

/-- `CaptureEvidenceToFile` captures with the writer that `outputFormat` names. -/
theorem captureEvidenceToFile_eq (device : IDeviceSession δ) (environment : Environment κ)
    (sha256 : List Byte → List Byte) (config : AcquisitionConfig) {outputPath : WString}
    (named : outputPath ≠ []) (file : outputPath ≠ wide "-") (host : Host δ κ) :
    captureEvidenceToFile device environment sha256 config outputPath host =
      captureAs (outputFormat outputPath config.format) device environment sha256 config
        outputPath host := by
  rw [captureEvidenceToFile, if_neg (not_or.mpr ⟨named, file⟩)]
  rfl

end Writer

/-- The image has the format that the last `--format` names, whatever the extension, and that of
the extension where no format is given. -/
def ExplicitFormatWins (arguments : List WString) (options : CliOptions) : Prop :=
  outputFormat options.outputPath options.format =
    (lastOf Item.format? (items arguments)).getD (extensionFormat options.outputPath)

/-- An accepted capture writes to the path that occurs on its command line. -/
theorem capture_path {arguments : List WString} {options : CliOptions}
    (accepted : parseCommandLine arguments = .ok options) (capture : options.command = .capture) :
    paths (items arguments) = [options.outputPath] ∧
      options.format = (lastOf Item.format? (items arguments)).getD .raw := by
  obtain ⟨s, parsed, decided⟩ := parseCommandLine_accepted accepted
  cases decided with
  | help mode | gui mode | dryRun mode =>
      rw [mode] at capture
      cases capture
  | capture same json named file =>
      rw [same]
      refine ⟨?_, parsed.format⟩
      rw [← show s.paths = [s.options.outputPath] from if_neg named]
      exact parsed.paths.symm

theorem explicit_format_wins_iff {arguments : List WString} {options : CliOptions}
    (accepted : parseCommandLine arguments = .ok options) (capture : options.command = .capture) :
    ExplicitFormatWins arguments options ↔
      (lastOf Item.format? (items arguments) = some .raw →
        ∀ path ∈ paths (items arguments), extensionFormat path = .raw) := by
  obtain ⟨path, format⟩ := capture_path accepted capture
  rw [ExplicitFormatWins, path, List.forall_mem_singleton, format]
  cases last : lastOf Item.format? (items arguments) with
  | none => exact iff_of_true rfl nofun
  | some named =>
      rw [Option.getD_some, Option.getD_some]
      cases named with
      | raw => exact ⟨fun wins _ => wins, fun plain => plain rfl⟩
      | zdmp | e01 => exact iff_of_true (outputFormat_of_ne nofun) nofun

/-- `phylaram.exe memory.dmp --format raw`. -/
def rawByName : List WString := [wide "memory.dmp", wide "--format", wide "raw"]

theorem explicit_format_wins_iff_zdmp :
    ExplicitFormatWins [wide "memory.raw", wide "--format", wide "ZDMP"]
        { outputPath := wide "memory.raw", format := .zdmp } ↔
      (lastOf Item.format? (items [wide "memory.raw", wide "--format", wide "ZDMP"]) = some .raw →
        ∀ path ∈ paths (items [wide "memory.raw", wide "--format", wide "ZDMP"]),
          extensionFormat path = .raw) :=
  explicit_format_wins_iff (by decide +kernel) rfl

/-- A RAW image is asked for, and a crash dump is written. -/
theorem explicit_raw_overruled :
    ∃ options, parseCommandLine rawByName = .ok options ∧ options.command = .capture ∧
      outputFormat options.outputPath options.format = .zdmp ∧
      ¬ExplicitFormatWins rawByName options := by
  refine ⟨{ outputPath := wide "memory.dmp" }, by decide +kernel, rfl, by decide +kernel, ?_⟩
  rw [ExplicitFormatWins]
  decide +kernel

end PhylaRam
