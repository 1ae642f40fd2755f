import PhylaRam.Evidence.Conduct

/-!
# The files of other processes

Another process may create a file under any of the six names while a capture runs. The capture
harms none under the final names of the image and of the map. It deletes by name under the other
names, and the ZDMP and the E01 writer open their staging file with `CREATE_ALWAYS`.
-/

namespace PhylaRam

open Program

/-- The names whose files an effect deletes, truncates, overwrites or renames. -/
def Effect.touched : Effect → List WString
  | .create path => [path]
  | .truncate path => [path]
  | .write path _ _ => [path]
  | .setEnd path _ => [path]
  | .delete path => [path]
  | .rename source target => [source, target]
  | .flush _ => []
  | .close _ => []
  | .intrude _ _ => []
  | .note _ => []

/-- A file of that name, if there is one, was created by the capture. -/
def OwnFile (files : Files) (path : WString) : Prop :=
  ∀ node, files path = some node → node.creator = .capture

/-- The effect harms no file that the capture has not created. -/
def Harmless (files : Files) (e : Effect) : Prop := ∀ path ∈ e.touched, OwnFile files path

/-- The names under which a capture may harm the file of another process. -/
def EvidencePaths.atRisk (paths : EvidencePaths) (format : OutputFormat) : List WString :=
  [paths.mapPartial, paths.hashPartial, paths.hashFinal] ++
    if format = .raw then [] else [paths.rawPartial]

section Effects

variable {files : Files} {e : Effect} {path : WString} {K : Creator → Prop} {paths : EvidencePaths}

theorem OwnFile.of_none (absent : files path = none) : OwnFile files path := fun node present => by
  cases absent.symm.trans present

theorem OwnFile.of_some {node : FileNode} (present : files path = some node)
    (mine : node.creator = .capture) : OwnFile files path := fun node' present' => by
  obtain rfl := Option.some.inj (present.symm.trans present')
  exact mine

/-- What an effect on one name touches. -/
theorem Local.harmless (h : Local path files e) (own : OwnFile files path) : Harmless files e := by
  cases h with
  | create | truncate | delete =>
      intro name member
      obtain rfl := List.mem_singleton.mp member
      exact own
  | close => nofun
  | touches h =>
      cases h with
      | flush => nofun
      | write | setEnd =>
          intro name member
          obtain rfl := List.mem_singleton.mp member
          exact own

/-- A writer that has only files of this program in hand harms no other. -/
theorem Tends.harmless (h : Tends K path files e)
    (own : (∀ creator, K creator → creator = .capture) ∨ OwnFile files path) :
    Harmless files e := by
  refine h.toLocal.harmless ?_
  cases own with
  | inr own => exact own
  | inl only =>
      cases h with
      | create free => exact .of_none free
      | truncate present mine | touches present mine | close present mine | delete present mine =>
          exact .of_some present (only _ mine)

theorem harmless_rename {source target : WString} (own : OwnFile files source)
    (free : OwnFile files target) : Harmless files (.rename source target) := by
  intro name member
  simp only [Effect.touched, List.mem_cons, List.not_mem_nil, or_false] at member
  rcases member with rfl | rfl
  · exact own
  · exact free

/-- Where no file of another process has one of the names at risk, a capture harms none. -/
theorem EvidencePaths.Conducts.harmless {format : OutputFormat} (h : paths.Conducts K files e)
    (only : (∀ creator, K creator → creator = .capture) ∨ format ≠ .raw)
    (own : ∀ name ∈ paths.atRisk format, OwnFile files name) : Harmless files e := by
  have map := own paths.mapPartial (by simp [atRisk])
  have sidecar := own paths.hashPartial (by simp [atRisk])
  have final := own paths.hashFinal (by simp [atRisk])
  have image : (∀ creator, K creator → creator = .capture) ∨ OwnFile files paths.rawPartial :=
    only.imp_right fun other => own paths.rawPartial (by simp [atRisk, other])
  cases h with
  | image h => exact h.harmless image
  | map h => exact h.harmless map
  | sidecar h => exact h.harmless sidecar
  | note => nofun
  | promoteMap free => exact harmless_rename map (.of_none free)
  | promoteSidecar free => exact harmless_rename sidecar (.of_none free)
  | promoteImage present mine free =>
      refine harmless_rename ?_ (.of_none free)
      exact image.elim (fun only => .of_some present (only _ mine)) id
  | withdrawMap present mine =>
      intro name member
      obtain rfl := List.mem_singleton.mp member
      exact .of_some present mine
  | withdrawSidecar =>
      intro name member
      obtain rfl := List.mem_singleton.mp member
      exact final

end Effects

/-- Between the two worlds, every effect that took place while no file of another process had one
of the names harmed none. -/
def SparesOthers (names : List WString) (w u : World) : Prop :=
  ∀ more, u.files.past = w.files.past ++ more → ∀ entry ∈ more,
    (∀ name ∈ names, OwnFile entry.1 name) → Harmless entry.1 entry.2

theorem Runs.sparesOthers {K : Creator → Prop} {paths : EvidencePaths} {format : OutputFormat}
    {w u : World} (runs : Runs (paths.Conducts K) w u)
    (only : (∀ creator, K creator → creator = .capture) ∨ format ≠ .raw) :
    SparesOthers (paths.atRisk format) w u := by
  intro more split entry member own
  obtain ⟨more', split', each⟩ := runs.past
  obtain rfl := List.append_cancel_left (split.symm.trans split')
  cases each entry member with
  | inl conducts => exact conducts.harmless only own
  | inr theirs =>
      obtain ⟨path, content, same, -⟩ := theirs
      rw [same]
      nofun

/-- The files that are there when a capture starts are not its own, and it has none open. -/
def StartsForeign (w : World) : Prop :=
  ∀ path node, w.files.now path = some node → node.creator = .foreign ∧ node.opened = false

/-- In every run of a capture, the steps taken while no file of another process has a name at
risk harm no such file. -/
theorem capture_spares_others {δ κ : Type} (device : IDeviceSession δ)
    (environment : Environment κ) (sha256 : List Byte → List Byte) (config : AcquisitionConfig)
    (outputPath : WString) (host : Host δ κ) (start : StartsForeign host.world) :
    SparesOthers ((buildEvidencePaths outputPath).atRisk (outputFormat outputPath config.format))
      host.world
      (captureEvidenceToFile device environment sha256 config outputPath host).2.world := by
  have proper := buildEvidencePaths_proper outputPath
  have idle : IdleFile (buildEvidencePaths outputPath).rawPartial host.world.files.now :=
    fun node present => (start _ node present).2
  refine captureEvidenceToFile_cases (motive := fun r => SparesOthers
    ((buildEvidencePaths outputPath).atRisk (outputFormat outputPath config.format)) host.world
      r.2.world) (fun _ _ _ more split entry member => ?_) (fun format => ?_) (fun format => ?_)
    (fun format => ?_)
  · rw [List.self_eq_append_right.mp split] at member
    cases member
  · have ending := runCapture_ending
      (C := ⟨device, rawWriter, sha256Hasher sha256, environment, config⟩) proper
      rawWriter_staging rawWriter_tending {} host idle
    exact ending.runs.sparesOthers (.inl fun _ mine => mine)
  · have ending := runCapture_ending
      (C := ⟨device, zdmpWriter, sha256Hasher sha256, environment, config⟩) proper
      zdmpWriter_staging zdmpWriter_tending {} host idle
    exact ending.runs.sparesOthers (.inr (by rw [format]; decide))
  · have ending := runCapture_ending
      (C := ⟨device, e01Writer, sha256Hasher sha256, environment, config⟩) proper
      e01Writer_staging e01Writer_tending {} host idle
    exact ending.runs.sparesOthers (.inr (by rw [format]; decide))

/-- Another process creates a file of that name just before the call at that moment. -/
def intrudedAt (moment : Nat) (path : WString) : Host MockDeviceSession Unit :=
  { smallHost with world := { smallHost.world with
      oracle n := { freeBytes := 0x100000000, intruders := if n = moment then [(path, [1])] else [] } } }

theorem capture_spares_others_small :
    SparesOthers [wide "memory.raw.map.json.partial", wide "memory.raw.sha256.partial",
        wide "memory.raw.sha256"] smallHost.world
      (captureEvidenceToFile mockDeviceSession quietEnvironment (fun _ => List.replicate 32 0) {}
        (wide "memory.raw") (intrudedAt 6 (wide "memory.raw.map.json"))).2.world :=
  capture_spares_others mockDeviceSession quietEnvironment _ {} (wide "memory.raw")
    (intrudedAt 6 (wide "memory.raw.map.json")) (fun _ _ no => by cases no)

/-- The effect touches a file of another process. -/
def harms (path : WString) (entry : Files × Effect) : Bool :=
  entry.2.touched.contains path && (entry.1 path).map FileNode.creator == some .foreign

theorem not_harmless_of_harms {path : WString} {entry : Files × Effect}
    (h : harms path entry = true) : ¬Harmless entry.1 entry.2 := by
  intro harmless
  rw [harms, Bool.and_eq_true, List.contains_iff_mem, beq_iff_eq, Option.map_eq_some_iff] at h
  obtain ⟨touched, node, present, foreign⟩ := h
  cases (harmless path touched node present).symm.trans foreign

/-- The ZDMP writer empties a file that another process has created after the check for
collisions, and a failed promotion deletes a sidecar of another process. -/
theorem capture_harms_others :
    (∃ entry ∈ (captureEvidenceToFile mockDeviceSession quietEnvironment
        (fun _ => List.replicate 32 0) {} (wide "memory.zdmp")
        (intrudedAt 6 (wide "memory.zdmp.partial"))).2.world.files.past,
      ¬Harmless entry.1 entry.2) ∧
    ∃ entry ∈ (captureEvidenceToFile mockDeviceSession quietEnvironment
        (fun _ => List.replicate 32 0) {} (wide "memory.raw")
        (intrudedAt 6 (wide "memory.raw.sha256"))).2.world.files.past,
      ¬Harmless entry.1 entry.2 := by
  have emptied : (captureEvidenceToFile mockDeviceSession quietEnvironment
      (fun _ => List.replicate 32 0) {} (wide "memory.zdmp")
      (intrudedAt 6 (wide "memory.zdmp.partial"))).2.world.files.past.any
        (harms (wide "memory.zdmp.partial")) = true := by decide +kernel
  have deleted : (captureEvidenceToFile mockDeviceSession quietEnvironment
      (fun _ => List.replicate 32 0) {} (wide "memory.raw")
      (intrudedAt 6 (wide "memory.raw.sha256"))).2.world.files.past.any
        (harms (wide "memory.raw.sha256")) = true := by decide +kernel
  obtain ⟨entry, member, harm⟩ := List.any_eq_true.mp emptied
  obtain ⟨entry', member', harm'⟩ := List.any_eq_true.mp deleted
  exact ⟨⟨entry, member, not_harmless_of_harms harm⟩, entry', member',
    not_harmless_of_harms harm'⟩

end PhylaRam
