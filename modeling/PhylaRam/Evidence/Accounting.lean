import PhylaRam.Acquire.Guards
import PhylaRam.Evidence.Transaction
import PhylaRam.Tests.Mock

/-!
# Byte accounting

`CaptureEvidenceToFile` refuses to publish a summary whose acquired and unreadable bytes do
not add up to the physical bytes. A completed acquisition of ordered runs always adds up,
so neither this check nor a condition inside `Acquire` loses a capture on its own.
-/

namespace PhylaRam

open Program Interval

theorem accountingViolated_eq_false {summary : AcquisitionSummary} :
    accountingViolated summary = false ↔
      summary.acquiredBytes.toNat + summary.unreadableBytes.toNat =
        summary.physicalBytes.toNat := by
  have bound := summary.physicalBytes.toNat_lt
  simp only [accountingViolated, Bool.or_eq_false_iff, decide_eq_false_iff_not, bne_eq_false_iff_eq,
    gt_iff_lt, UInt64.not_lt, uint64Max, Word.le_max_sub_iff,
    Nat.add_comm summary.unreadableBytes.toNat]
  constructor
  · rintro ⟨fits, sum⟩
    rw [← sum, Word.toNat_add_of_lt fits]
  · intro sum
    have fits : summary.acquiredBytes.toNat + summary.unreadableBytes.toNat < 2 ^ 64 := sum ▸ bound
    exact ⟨fits, UInt64.toNat_inj.mp ((Word.toNat_add_of_lt fits).trans sum)⟩

variable {δ ω η κ : Type}

/-- Over a valid topology `Acquire` returns true and its summary adds up, unless a collaborator
refused the last call that was made, in the state to which the calls before had brought it. -/
theorem acquire_succeeds_or_refused (C : Collaborators δ ω η κ) (device : δ) (writer : ω)
    (hasher : η) (environment : κ) (topology : Topology)
    (asked : (C.device.query device).1 = some topology) (valid : topology.Valid) :
    (returned (acquire C (.start device writer hasher environment)) = true ∧
      accountingViolated
        (final (acquire C (.start device writer hasher environment))).summary = false) ∨
    ∃ cause t, acquire C (.start device writer hasher environment) = .error cause t ∧
      Refused C topology.runs (afterQuery C topology (.start device writer hasher environment))
        cause t := by
  have stops := acquire_refused (C := C) (s := .start device writer hasher environment) valid asked
    rfl rfl rfl
  cases outcome : returned (acquire C (.start device writer hasher environment)) with
  | true =>
      have partitioned := acquire_partitions C device writer hasher environment topology asked
        valid.frozen outcome
      exact .inl ⟨rfl, accountingViolated_eq_false.mpr partitioned.physicalBytes⟩
  | false =>
      obtain ⟨cause, stopped, refused⟩ := stops.of_stopped outcome
      exact .inr ⟨cause, _, stopped, refused⟩

/-- A run that begins inside an unreadable page, and one that ends at the end of the
64-bit addresses. -/
def mockTopOfMemory : MockDeviceSession where
  mockHighestEnd := 0xFFFFFFFFFFFFFFFF
  mockTotalBytes := 31
  mockRuns := [⟨0, 0x1FF8, 16⟩, ⟨1, 0xFFFFFFFFFFFFFFF0, 15⟩]
  injectedPageErrors := [(0x1FF8, -1073741819), (0xFFFFFFFFFFFFFFF8, -1073741819)]

theorem acquire_succeeds_top_of_memory :
    returned (acquire mockCollaborators (.start mockTopOfMemory {} {} ())) = true ∧
      accountingViolated
        (final (acquire mockCollaborators (.start mockTopOfMemory {} {} ()))).summary = false := by
  have runs : ∀ run ∈ mockTopOfMemory.mockRuns, 0 < run.length.toNat ∧
      run.base.toNat + run.length.toNat < 2 ^ 64 := by decide +kernel
  refine (acquire_succeeds_or_refused mockCollaborators mockTopOfMemory {} {} ()
    ⟨0xFFFFFFFFFFFFFFFF, 31, mockTopOfMemory.mockRuns⟩ rfl ?_).resolve_right ?_
  · exact {
      nonempty := List.cons_ne_nil _ _
      runs := fun run member => ⟨(runs run member).1, (runs run member).2⟩
      ordered := show List.Pairwise _ _ by decide +kernel
      totalBytes := by decide +kernel
      highestEnd_le := by decide +kernel
      highestEnd_mem := ⟨⟨1, 0xFFFFFFFFFFFFFFF0, 15⟩, by decide +kernel, by decide +kernel⟩ }
  · rintro ⟨cause, t, stopped, -⟩
    have completed : returned (acquire mockCollaborators (.start mockTopOfMemory {} {} ())) = true :=
      by decide +kernel
    rw [stopped, returned_error] at completed
    cases completed

end PhylaRam
