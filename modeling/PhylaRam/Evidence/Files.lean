import PhylaRam.Evidence.Map

/-!
# What the sidecar writer does to the files

`AtomicWrite` describes `WriteAtomicString` by its three outcomes: nothing was created, a new
file was created and given up, or a new file holds the content and is flushed and closed.
-/

namespace PhylaRam

namespace Map

/-- The world in which a created file has been written to and closed. -/
structure Wrote (path : WString) (w u v : World) : Prop where
  waits : Waits w u
  free : u.files.now path = none
  writes : Runs (Touches path) (u.perform (.create path)) v

inductive AtomicWrite (path : WString) (content : NString) (w : World) : Bool × World → Prop
  | refused {u : World} (waits : Waits w u) : AtomicWrite path content w (false, u)
  | abandoned {u v : World} (wrote : Wrote path w u v) :
      AtomicWrite path content w
        (false, (deleteFileW path (v.perform (.close path))).2)
  | written {u v : World} {node : FileNode} (wrote : Wrote path w u v)
      (present : v.files.now path = some node) (complete : node.content = content)
      (own : node.creator = .capture) :
      AtomicWrite path content w
        (true, (v.enter.perform (.flush path)).perform (.close path))

theorem writeAtomicString_spec (path : WString) (content : NString) (w : World) :
    AtomicWrite path content w (writeAtomicString path content w) := by
  unfold writeAtomicString
  rcases createFileW_cases path .createNew w with ⟨error, h, -⟩ | ⟨-, free, h⟩ | ⟨-, no, -⟩
  · rw [h]
    exact .refused (w.failed_runs error)
  · rw [h]
    have node := Function.update_self path (some ⟨[], false, Creator.capture, true⟩)
      w.enter.files.now
    have loop := writeLoop_spec kWriteChunkBytes ⟨path, 0⟩ content (w.enter.perform (.create path))
    have filled := loop.content
    have stays := loop.path
    have runs := loop.runs
    revert filled stays runs
    dsimp only
    generalize writeLoop kWriteChunkBytes ⟨path, 0⟩ content (w.enter.perform (.create path)) =
      outcome
    obtain ⟨⟨ok, file⟩, u⟩ := outcome
    intro filled stays runs
    obtain rfl : file.path = path := stays
    have wrote : Wrote file.path w w.enter u := ⟨w.enter_runs, free, runs⟩
    cases ok with
    | false => exact .abandoned wrote
    | true =>
        obtain ⟨node', present, same, creator, -⟩ := filled rfl _ node (Nat.le_refl _)
        dsimp only
        rcases flushFileBuffers_cases file u with ⟨error, h⟩ | h <;> rw [h]
        · exact .abandoned ⟨wrote.waits, free, runs.trans (u.failed_runs error)⟩
        · exact .written wrote present (same.trans (Image.patch_empty 0 content)) creator
  · cases no

/-- A file that was written holds the content, flushed and closed. -/
theorem AtomicWrite.node {path : WString} {content : NString} {w : World} {result : Bool × World}
    (h : AtomicWrite path content w result) (ok : result.1 = true) :
    result.2.files.now path = some ⟨content, true, .capture, false⟩ := by
  cases h with
  | refused => cases ok
  | abandoned => cases ok
  | written wrote present complete own =>
      have flushed := Files.modify_self (f := fun node => { node with flushed := true })
        (World.enter_of_some present)
      have closed := Files.modify_self (f := fun node => { node with opened := false }) flushed
      refine Eq.trans closed ?_
      rw [complete, own]

end Map

end PhylaRam
