import PhylaRam.Evidence.Accounting
import PhylaRam.Evidence.Conduct
import PhylaRam.Evidence.RoundTrip

/-!
# Crash points

A crash may stop a capture between any two changes of the files. `CrashSafe`
looks at every state that it can leave: where the image has its final name, its provenance is
complete and the image is the one that was flushed.
-/

namespace PhylaRam

open Program

/-- What has happened between the two worlds up to the crash point `k`. -/
def effectsBefore (w u : World) (k : Nat) : List (Files × Effect) :=
  (u.files.past.take k).drop w.files.past.length

/-- A map file with that digest, whose bytes are accounted for. -/
def MapRecords (content : List Byte) (sha256 : NString) : Prop :=
  ∃ text map, content = Verify.Str.bytes text ∧ Decodes text map ∧ map.sha256 = Map.chars sha256 ∧
    map.acquiredBytes.toNat + map.unreadableBytes.toNat = map.physicalBytes.toNat

/-- The image is the one that `FlushAndClose` completed, its digest is the one that `Finish`
returned, and both final sidecars say so. -/
structure Provenance (paths : EvidencePaths) (sha256 : NString) (earlier : List (Files × Effect))
    (files : Files) : Prop where
  image : ∃ flushed node, (flushed, .note .imageFlushed) ∈ earlier ∧
    flushed paths.rawPartial = some node ∧ files paths.rawFinal = some node
  digest : ∃ then', (then', .note (.digest sha256)) ∈ earlier
  map : ∃ content, files paths.mapFinal = some (finishedFile content) ∧ MapRecords content sha256
  sidecar : files paths.hashFinal = some (finishedFile
    (sidecarText (Map.narrowUtf8 (Path.filename paths.rawFinal)) sha256))

/-- At every crash point since `w`, an image under its final name that no other process has put
there has its complete provenance, and stays as it is. -/
def CrashSafe (paths : EvidencePaths) (w u : World) : Prop :=
  ∀ k, w.files.past.length ≤ k → u.files.after k paths.rawFinal ≠ none →
    (∃ files content, (files, .intrude paths.rawFinal content) ∈ effectsBefore w u k) ∨
      ∃ sha256, Provenance paths sha256 (effectsBefore w u k) (u.files.after k) ∧
        ∀ k' ≥ k, u.files.after k' paths.rawFinal = u.files.after k paths.rawFinal

section Runs

variable {A : Files → Effect → Prop} {w u : World} {path : WString} {e : Effect} {k : Nat}

theorem effectsBefore_perform_of_le (le : k ≤ u.files.past.length) :
    effectsBefore w (u.perform e) k = effectsBefore w u k :=
  congrArg (List.drop _) (List.take_append_of_le_length le)

theorem effectsBefore_of_length_le (le : u.files.past.length ≤ k) {more : List (Files × Effect)}
    (split : u.files.past = w.files.past ++ more) : effectsBefore w u k = more := by
  rw [effectsBefore, List.take_of_length_le le, split, List.drop_left]

/-- A file that the program does not create was created by another process. -/
theorem Runs.appears (h : Runs A w u)
    (own : ∀ files e, files path = none → A files e → e.apply files path = none)
    (absent : w.files.now path = none) (started : w.files.past.length ≤ k)
    (present : u.files.after k path ≠ none) :
    ∃ files content, (files, .intrude path content) ∈ effectsBefore w u k := by
  induction h generalizing k with
  | refl =>
      rw [History.after_of_length_le started] at present
      exact (present absent).elim
  | silent _ files _ ih =>
      rw [files] at present
      rw [effectsBefore, files]
      exact ih started present
  | @effect u e before allowed ih =>
      by_cases earlier : k ≤ u.files.past.length
      · rw [effectsBefore_perform_of_le earlier]
        exact ih started ((History.after_perform_of_le earlier).symm ▸ present)
      · obtain ⟨more, split, -⟩ := before.past
        have longer : w.files.past.length ≤ u.files.past.length := by
          rw [split, List.length_append]
          omega
        have last : (u.perform e).files.past.length ≤ k := by
          show (u.files.past ++ [(u.files.now, e)]).length ≤ k
          rw [List.length_append, List.length_singleton]
          omega
        have split' : (u.perform e).files.past = w.files.past ++ (more ++ [(u.files.now, e)]) := by
          rw [← List.append_assoc, ← split]
          rfl
        rw [History.after_of_length_le last] at present
        rw [effectsBefore_of_length_le last split']
        -- a file that was there before this effect has its intrusion among the earlier ones
        have older (there : u.files.now path ≠ none) :
            ∃ files content, (files, Effect.intrude path content) ∈
              more ++ [(u.files.now, e)] := by
          have found := ih longer (by rwa [History.after_of_length_le (Nat.le_refl _)])
          rw [effectsBefore_of_length_le (Nat.le_refl _) split] at found
          obtain ⟨files, content, member⟩ := found
          exact ⟨files, content, List.mem_append_left _ member⟩
        rcases allowed with mine | ⟨other, content, rfl, -⟩
        · exact older fun absent => present (own _ _ absent mine)
        · by_cases same : path = other
          · subst same
            exact ⟨_, content, List.mem_append_right _ (List.mem_singleton_self _)⟩
          · exact older fun absent => present ((Function.update_of_ne same _ _).trans absent)

/-- Before the promotion a capture does not create the final image. -/
theorem EvidencePaths.Prepares.rawFinal_absent {paths : EvidencePaths}
    (distinct : paths.names.Nodup) {files : Files} (h : paths.Prepares files e)
    (absent : files paths.rawFinal = none) : e.apply files paths.rawFinal = none := by
  simp only [EvidencePaths.names, List.nodup_cons, List.mem_cons, not_or] at distinct
  obtain ⟨⟨raw_ne, map_ne, map_ne', hash_ne, hash_ne', -⟩, -⟩ := distinct
  cases h with
  | image h => exact (h.other raw_ne).trans absent
  | map h => exact (h.other map_ne').trans absent
  | sidecar h => exact (h.other hash_ne').trans absent
  | note => exact absent
  | promoteMap => exact (rename_other map_ne' map_ne).trans absent
  | promoteSidecar => exact (rename_other hash_ne' hash_ne).trans absent
  | withdrawMap => exact (Function.update_of_ne map_ne _ _).trans absent
  | withdrawSidecar => exact (Function.update_of_ne hash_ne _ _).trans absent

end Runs

/-- The map of a summary whose bytes add up. -/
theorem mapRecords_mapText {summary : AcquisitionSummary}
    (acceptable : Map.acceptable summary = true)
    (accounted : accountingViolated summary = false) :
    MapRecords (Map.ascii (Map.mapText summary)) summary.sha256 := by
  obtain ⟨encoded, decodes⟩ := mapText_decodes acceptable
  exact ⟨_, _, encoded, decodes, rfl, accountingViolated_eq_false.mp accounted⟩

section Captures

variable {δ κ μ : Type} {C : Collaborators δ (WriterState μ × World) Sha256 κ}
  {K : Creator → Prop} {paths : EvidencePaths} {w u : World} {s : TransactionState δ κ μ}
  {result : EvidenceCaptureResult} {k : Nat}

/-- After the promotion the provenance is complete. -/
theorem Finished.provenance {summary : AcquisitionSummary} {m : World} {finalized : Bool}
    (distinct : paths.names.Nodup) (finished : Finished paths summary w m)
    (ending : Ending C K paths w s finalized (m.perform paths.promotion))
    (done : finalized = true) (last : (m.perform paths.promotion).files.past.length ≤ k) :
    Provenance paths summary.sha256 (effectsBefore w (m.perform paths.promotion) k)
      (m.perform paths.promotion).files.now := by
  obtain ⟨-, map, sidecar⟩ := finished.finals distinct
  refine {
    image := ?_
    digest := ?_
    map := ⟨_, map, mapRecords_mapText finished.acceptable finished.accounted⟩
    sidecar := sidecar }
  · obtain ⟨node, present, more, flushed, split, member, same⟩ := (ending.of_finalized done).image
    rw [effectsBefore_of_length_le last split]
    exact ⟨flushed, node, member, same, present⟩
  · obtain ⟨more, split, files, member⟩ := finished.digest
    have split' : (m.perform paths.promotion).files.past =
        w.files.past ++ (more ++ [(m.files.now, paths.promotion)]) := by
      rw [← List.append_assoc, ← split]
      rfl
    rw [effectsBefore_of_length_le last split']
    exact ⟨files, List.mem_append_left _ member⟩

/-- What a crash leaves, in terms of how the capture would have ended. -/
theorem Fate.crashSafe (distinct : paths.names.Nodup)
    (absent : w.files.now paths.rawFinal = none) (fate : Fate paths w result u)
    (ending : Ending C K paths w s result.hasFinalizedBundle u) : CrashSafe paths w u := by
  intro k started present
  have own (files : Files) (e : Effect) (absent : files paths.rawFinal = none)
      (h : paths.Prepares files e) : e.apply files paths.rawFinal = none :=
    h.rawFinal_absent distinct absent
  cases fate with
  | withheld none runs => exact .inl (runs.appears own absent started present)
  | @published summary m status finished =>
      by_cases earlier : k ≤ m.files.past.length
      · refine .inl ?_
        rw [effectsBefore_perform_of_le earlier]
        exact finished.runs.appears own absent started
          ((History.after_perform_of_le earlier).symm ▸ present)
      · have last : (m.perform paths.promotion).files.past.length ≤ k := by
          show (m.files.past ++ [(m.files.now, paths.promotion)]).length ≤ k
          rw [List.length_append, List.length_singleton]
          omega
        have settled {j : Nat} (le : k ≤ j) :
            (m.perform paths.promotion).files.after j = (m.perform paths.promotion).files.now :=
          History.after_of_length_le (last.trans le)
        refine .inr ⟨summary.sha256, ?_, fun j le => ?_⟩
        · rw [settled (Nat.le_refl k)]
          exact finished.provenance distinct ending (hasFinalizedBundle_of_published status) last
        · rw [settled le, settled (Nat.le_refl k)]

end Captures

/-- No crash point of a capture shows an image without its provenance. -/
theorem capture_crashSafe {δ κ : Type} (device : IDeviceSession δ) (environment : Environment κ)
    (sha256 : List Byte → List Byte) (config : AcquisitionConfig) (outputPath : WString)
    (host : Host δ κ)
    (absent : ∀ name ∈ (buildEvidencePaths outputPath).names, host.world.files.now name = none) :
    CrashSafe (buildEvidencePaths outputPath) host.world
      (captureEvidenceToFile device environment sha256 config outputPath host).2.world := by
  have distinct := buildEvidencePaths_nodup outputPath
  have proper := buildEvidencePaths_proper outputPath
  have free : host.world.files.now outputPath = none := absent _ List.mem_cons_self
  have idle : IdleFile (buildEvidencePaths outputPath).rawPartial host.world.files.now :=
    .of_none (absent _ EvidencePaths.rawPartial_mem)
  refine captureEvidenceToFile_cases
    (motive := fun r => CrashSafe (buildEvidencePaths outputPath) host.world r.2.world)
    (fun _ _ _ k started present => ?_) (fun _ => ?_) (fun _ => ?_) (fun _ => ?_)
  · rw [History.after_of_length_le started] at present
    exact (present free).elim
  · exact (runCapture_fate rawWriter_staging distinct _ _).crashSafe distinct free
      (runCapture_ending proper rawWriter_staging rawWriter_tending _ _ idle)
  · exact (runCapture_fate zdmpWriter_staging distinct _ _).crashSafe distinct free
      (runCapture_ending proper zdmpWriter_staging zdmpWriter_tending _ _ idle)
  · exact (runCapture_fate e01Writer_staging distinct _ _).crashSafe distinct free
      (runCapture_ending proper e01Writer_staging e01Writer_tending _ _ idle)

/-- The capture of a small host is crash safe, and it does publish an image. -/
theorem capture_crashSafe_small :
    CrashSafe (buildEvidencePaths (wide "memory.raw")) smallHost.world
      (captureEvidenceToFile mockDeviceSession quietEnvironment (fun _ => List.replicate 32 0) {}
        (wide "memory.raw") smallHost).2.world ∧
    ((captureEvidenceToFile mockDeviceSession quietEnvironment (fun _ => List.replicate 32 0) {}
      (wide "memory.raw") smallHost).2.world.files.now (wide "memory.raw")).isSome = true :=
  ⟨capture_crashSafe mockDeviceSession quietEnvironment _ {} (wide "memory.raw") smallHost
    (fun _ _ => rfl), by decide +kernel⟩

end PhylaRam
