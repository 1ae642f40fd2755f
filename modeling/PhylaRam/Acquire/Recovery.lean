import PhylaRam.Acquire.Image
import PhylaRam.Acquire.Success
import Mathlib.Data.List.TakeWhile

/-!
# Recovery from unreadable pages

A device with unreadable pages answers a read inside one page completely or not at
all, and a longer read with any prefix that avoids the unreadable pages. Whatever
prefixes it chooses, the engine recovers every readable byte of the runs, and its
list of unreadable spans is the list of the maximal intervals of equal status. The
image, the hash stream and the list are therefore functions of the memory, the
unreadable pages and the topology alone.
-/

namespace PhylaRam

open Program Relation Interval Image

/-- The page of an address. -/
def pageOf (address : Nat) : Nat := address / 4096

/-- A valid reply of a memory whose unreadable pages are given with their statuses. -/
structure PageReply (memory : Nat → Byte) (badPage : Nat → Option Int32) (address : Nat)
    (length : UInt32) (r : ReadResult) : Prop where
  data : r.data = (List.range r.copied.toNat).map fun i => memory (address + i)
  good : address % 4096 + length.toNat ≤ 4096 → badPage (pageOf address) = none →
    r.copied = length
  bad : address % 4096 + length.toNat ≤ 4096 → ∀ status, badPage (pageOf address) = some status →
    r.copied = 0 ∧ r.copyStatus = status
  crossing : 4096 < address % 4096 + length.toNat → ∀ n, address ≤ n →
    n < address + r.copied.toNat → badPage (pageOf n) = none

/-- In ready states every read inside a run is answered, and the device stays ready. -/
def ServesPages {δ : Type} (device : IDeviceSession δ) (ready : δ → Prop) (runs : List MemoryRun)
    (memory : Nat → Byte) (badPage : Nat → Option Int32) : Prop :=
  ∀ d run offset (length : UInt32), ready d → run ∈ runs → 0 < length.toNat →
    length.toNat ≤ phylaMaxTransfer.toNat → offset.toNat + length.toNat ≤ run.length.toNat →
    ∃ r, (device.read run.driverIndex offset length d).1 = some r ∧
      r.Valid (run.base + offset) length ∧
      ready (device.read run.driverIndex offset length d).2 ∧
      PageReply memory badPage (run.base.toNat + offset.toNat) length r

/-- The byte of the image at an address. -/
def recoveredByte (runs : List MemoryRun) (memory : Nat → Byte) (badPage : Nat → Option Int32)
    (n : Nat) : Byte :=
  if n ∈ cells (runIntervals runs) ∧ badPage (pageOf n) = none then memory n else 0

/-- The labelling whose maximal intervals are the unreadable spans. -/
def LostByte (runs : List MemoryRun) (badPage : Nat → Option Int32) (n : Nat) (status : Int32) :
    Prop :=
  n ∈ cells (runIntervals runs) ∧ badPage (pageOf n) = some status

/-- What a run over a memory with unreadable pages must produce. -/
structure Recovered (topology : Topology) (memory : Nat → Byte) (badPage : Nat → Option Int32)
    (calls : List Call) (summary : AcquisitionSummary) : Prop where
  written : ∀ n, n ∈ writtenAddresses calls ↔
    n ∈ cells (runIntervals topology.runs) ∧ badPage (pageOf n) = none
  once : (writtenAddresses calls).Nodup
  image : imageOf calls = recoveredByte topology.runs memory badPage
  stream : hashed calls =
    upTo (recoveredByte topology.runs memory badPage) topology.highestEnd.toNat
  unreadable : Maximal (LostByte topology.runs badPage) (spanIntervals summary.unreadable)

/-! ### Truthful calls -/

/-- A call that writes readable memory, or reports unreadable memory with its status. -/
def Truthful (memory : Nat → Byte) (badPage : Nat → Option Int32) : Call → Prop
  | .writeAt offset data =>
      data = (List.range data.length).map (fun i => memory (offset.toNat + i)) ∧
      ∀ n, offset.toNat ≤ n → n < offset.toNat + data.length → badPage (pageOf n) = none
  | .addUnreadable start length status =>
      ∀ n, start.toNat ≤ n → n < start.toNat + length.toNat → badPage (pageOf n) = some status
  | .read .. | .update _ | .updateZeros _ | .endSession => True

variable {δ ω η κ : Type} {C : Collaborators δ ω η κ} {ready : Readiness δ ω η κ}
  {runs : List MemoryRun} {run : MemoryRun} {s t : AcquireState δ ω η κ}
  {memory : Nat → Byte} {badPage : Nat → Option Int32} {requested : UInt32} {r : ReadResult}

theorem pageOf_eq {address n length : Nat} (page : address % 4096 + length ≤ 4096)
    (ge : address ≤ n) (lt : n < address + length) : pageOf n = pageOf address := by
  unfold pageOf
  omega

/-- The bytes of a reply are readable, whatever the shape of the request. -/
theorem PageReply.readable {address : Nat} (h : PageReply memory badPage address requested r)
    (le : r.copied.toNat ≤ requested.toNat) {n : Nat} (ge : address ≤ n)
    (lt : n < address + r.copied.toNat) : badPage (pageOf n) = none := by
  by_cases page : address % 4096 + requested.toNat ≤ 4096
  · rw [pageOf_eq page ge (by omega)]
    cases status : badPage (pageOf address) with
    | none => rfl
    | some status' =>
        have zero : r.copied.toNat = 0 := by rw [(h.bad page status' status).1]; rfl
        omega
  · exact h.crossing (by omega) n ge lt

/-- An empty reply inside one page means that the page is unreadable. -/
theorem PageReply.unreadable {address : Nat} (h : PageReply memory badPage address requested r)
    (page : address % 4096 + requested.toNat ≤ 4096) (positive : 0 < requested.toNat)
    (copied : r.copied = 0) {n : Nat} (ge : address ≤ n) (lt : n < address + requested.toNat) :
    badPage (pageOf n) = some r.copyStatus := by
  rw [pageOf_eq page ge lt]
  cases status : badPage (pageOf address) with
  | none =>
      have := congrArg UInt32.toNat (copied ▸ h.good page status)
      rw [UInt32.toNat_zero] at this
      omega
  | some status' => rw [(h.bad page status' status).2]

theorem ServesPages.reply (serves : ServesPages C.device ready.device runs memory badPage)
    (member : run ∈ runs) (h : ready.Holds s) (request : Request run s requested)
    (answers : Answers C run requested s r) :
    PageReply memory badPage (run.base.toNat + s.offsetWithinRun.toNat) requested r := by
  obtain ⟨r', reply, -, -, page⟩ := serves s.device run s.offsetWithinRun requested h.device
    member request.positive request.bounded request.within
  rwa [Option.some.inj (answers.reply.symm.trans reply)]

theorem truthful_gapCalls (next : UInt64) (s : AcquireState δ ω η κ) :
    ∀ call ∈ gapCalls next s, Truthful memory badPage call := by
  unfold gapCalls
  split <;> simp [Truthful]

theorem Step.truthful (serves : ServesPages C.device ready.device runs memory badPage) (member : run ∈ runs)
    (valid : run.Valid) (step : Step C run s t) (track : OnTrack ready run s)
    (h : ∀ call ∈ s.calls, Truthful memory badPage call) :
    ∀ call ∈ t.calls, Truthful memory badPage call := by
  have asked : ∀ requested, ∀ call ∈ (afterRequest C run requested s).calls,
      Truthful memory badPage call := by
    intro requested call hcall
    rw [afterRequest_calls] at hcall
    rcases List.mem_append.mp hcall with old | new
    · exact h call old
    · rw [List.mem_singleton.mp new]
      trivial
  cases step with
  | probe => exact asked _
  | @keep requested r request answers copied can =>
      have reply := serves.reply member track.ready request answers
      have address := answers.address_toNat valid track.within
      have length := answers.valid.data_length
      intro call hcall
      rw [afterKeep_calls, keepCalls] at hcall
      simp only [List.mem_append, List.mem_singleton] at hcall
      rcases hcall with old | (gap | rfl) | rfl
      · exact asked requested call old
      · exact truthful_gapCalls _ _ call gap
      · refine ⟨?_, fun n ge lt => ?_⟩
        · rw [length, address]
          exact reply.data
        · rw [address] at ge lt
          rw [length] at lt
          exact reply.readable answers.valid.copied_le ge lt
      · trivial
  | @skip requested r request page answers copied can =>
      have reply := serves.reply member track.ready request answers
      intro call hcall
      rcases List.mem_append.mp hcall with old | new
      · exact asked requested call old
      · rw [List.mem_singleton.mp new]
        intro n ge lt
        rw [address_toNat valid track.within] at ge lt
        rw [UInt32.toNat_toUInt64] at lt
        exact reply.unreadable page request.positive copied ge lt

/-! ### Truthful calls determine the result -/

/-- A truthful call draws the memory where it writes and nothing elsewhere. -/
theorem Truthful.draw {call : Call} (h : Truthful memory badPage call) (image : Nat → Byte)
    (n : Nat) :
    call.draw image n = if n ∈ cells (keptPieces [call]) then memory n else image n := by
  cases call with
  | writeAt offset data =>
      have piece : cells (keptPieces [.writeAt offset data]) =
          (⟨offset.toNat, data.length, ()⟩ : Piece Unit).cells := Finset.union_empty _
      change overlay image offset.toNat data n = _
      rw [piece]
      split
      · next inside =>
          obtain ⟨ge, lt⟩ := Piece.mem_cells.mp inside
          obtain ⟨i, rfl⟩ := Nat.exists_eq_add_of_le ge
          have hi : i < data.length := Nat.lt_of_add_lt_add_left lt
          rw [overlay_of_mem hi]
          have byte := congrArg (fun bytes => bytes[i]?) h.1
          simp only [List.getElem?_eq_getElem hi, List.getElem?_map,
            List.getElem?_range hi, Option.map_some, Option.some.injEq] at byte
          exact byte
      · next outside =>
          rcases Nat.lt_or_ge n offset.toNat with lt | ge
          · exact overlay_of_lt lt
          · refine overlay_of_ge (Nat.le_of_not_lt fun lt => outside ?_)
            exact Piece.mem_cells.mpr ⟨ge, lt⟩
  | read | update | updateZeros | addUnreadable | endSession =>
      exact (if_neg (Finset.notMem_empty n)).symm

/-- Truthful writes draw the memory at the written addresses and nothing elsewhere. -/
theorem imageOf_truthful (calls : List Call)
    (truthful : ∀ call ∈ calls, Truthful memory badPage call) (n : Nat) :
    imageOf calls n = if n ∈ cells (keptPieces calls) then memory n else 0 := by
  induction calls using List.reverseRecOn with
  | nil => rfl
  | append_singleton calls call ih =>
      have before := ih fun c hc => truthful c (List.mem_append_left _ hc)
      have last := truthful call (List.mem_append_right _ List.mem_cons_self)
      have drawn : imageOf (calls ++ [call]) n = call.draw (imageOf calls) n := by
        rw [imageOf_append]
        rfl
      rw [drawn, last.draw, before, keptPieces_append, cells_append]
      simp only [Finset.mem_union]
      split_ifs <;> tauto

theorem mem_fragments {calls : List Call} {p : Piece Outcome} :
    p ∈ fragments calls ↔ ∃ call ∈ calls, call.fragment = some p := List.mem_filterMap

/-- A truthful call disposes of readable bytes by writing them, of others by reporting
their status. -/
theorem Truthful.label {call : Call} (h : Truthful memory badPage call) {p : Piece Outcome}
    (fragment : call.fragment = some p) {n : Nat} (hn : n ∈ p.cells) :
    badPage (pageOf n) = p.label.status := by
  cases call with
  | writeAt offset data =>
      obtain rfl := Option.some.inj fragment
      obtain ⟨ge, lt⟩ := Piece.mem_cells.mp hn
      exact h.2 n ge lt
  | addUnreadable start length status =>
      obtain rfl := Option.some.inj fragment
      obtain ⟨ge, lt⟩ := Piece.mem_cells.mp hn
      exact h n ge lt
  | read | update | updateZeros | endSession => cases fragment

section Determined

variable {calls : List Call} (truthful : ∀ call ∈ calls, Truthful memory badPage call)
  (tiles : TilesEach (runIntervals runs) (fragments calls))
include truthful tiles

theorem mem_cells_kept_iff (n : Nat) :
    n ∈ cells (keptPieces calls) ↔
      n ∈ cells (runIntervals runs) ∧ badPage (pageOf n) = none := by
  rw [← tiles.cells_eq, keptPieces, mem_cells_select, @mem_cells _ (fragments calls)]
  have label : ∀ p ∈ fragments calls, n ∈ p.cells → badPage (pageOf n) = p.label.status := by
    intro p hp hn
    obtain ⟨call, hcall, fragment⟩ := mem_fragments.mp hp
    exact (truthful call hcall).label fragment hn
  constructor
  · rintro ⟨p, hp, kept, hn⟩
    refine ⟨⟨p, hp, hn⟩, ?_⟩
    rw [label p hp hn]
    rw [Outcome.complement] at kept
    simpa using kept
  · rintro ⟨⟨p, hp, hn⟩, readable⟩
    rw [label p hp hn] at readable
    exact ⟨p, hp, by simp [Outcome.complement, readable], hn⟩

theorem labels_lost_iff (n : Nat) (status : Int32) :
    Labels (lostPieces calls) n status ↔ LostByte runs badPage n status := by
  rw [LostByte, ← tiles.cells_eq, @mem_cells _ (fragments calls)]
  simp only [Labels, lostPieces, mem_select]
  constructor
  · rintro ⟨q, ⟨p, hp, label, start, length⟩, hn, rfl⟩
    obtain ⟨call, hcall, fragment⟩ := mem_fragments.mp hp
    have inside : n ∈ p.cells := by
      rw [Piece.mem_cells, Piece.stop] at hn ⊢
      omega
    exact ⟨⟨p, hp, inside⟩, ((truthful call hcall).label fragment inside).trans label⟩
  · rintro ⟨⟨p, hp, hn⟩, lost⟩
    obtain ⟨call, hcall, fragment⟩ := mem_fragments.mp hp
    rw [(truthful call hcall).label fragment hn] at lost
    exact ⟨⟨p.start, p.length, status⟩, ⟨p, hp, lost, rfl, rfl⟩, hn, rfl⟩

end Determined

/-- A completed run of truthful calls recovers everything that can be read. -/
theorem Completed.recovered {topology : Topology} {m : AcquireState δ ω η κ} {changed : Bool}
    (completed : Completed C s topology m changed t) (calls : s.calls = [])
    (position : s.hashPosition = 0) (ordered : Ordered (runIntervals topology.runs))
    (truthful : ∀ call ∈ m.calls, Truthful memory badPage call) :
    Recovered topology memory badPage t.calls t.summary := by
  obtain ⟨accounts, nonempty, tiles⟩ := completed.accounts calls
  have streams := completed.streams calls position
  have fragmentsOrdered := tiles.ordered ordered
  have keptSame : keptPieces t.calls = keptPieces m.calls := by
    rw [keptPieces, completed.fragments]
    rfl
  have imageSame : imageOf t.calls = recoveredByte topology.runs memory badPage := by
    funext n
    rw [completed.calls, ← List.append_assoc, imageOf_append, imageOf_gapCalls]
    change imageOf m.calls n = _
    rw [imageOf_truthful m.calls truthful, recoveredByte]
    simp only [mem_cells_kept_iff truthful tiles]
  refine ⟨fun n => ?_, ?_, imageSame, ?_, ?_⟩
  · rw [writtenAddresses_eq, mem_addresses, keptSame]
    exact mem_cells_kept_iff truthful tiles n
  · rw [writtenAddresses_eq, keptSame]
    exact fragmentsOrdered.select.nodup_addresses
  · rw [streams.stream, imageSame, completed.traversal.sameTopology.logicalSize]
    rfl
  · have spans : spanIntervals t.summary.unreadable = coalesce (lostPieces m.calls) := by
      rw [completed.final]
      exact accounts.spans
    have same : Labels (lostPieces m.calls) = LostByte topology.runs badPage := by
      funext n status
      exact propext (labels_lost_iff truthful tiles n status)
    rw [spans, ← same]
    refine maximal_coalesce fragmentsOrdered.select fun p hp => ?_
    obtain ⟨q, hq, -, -, length⟩ := mem_select.mp hp
    exact length ▸ nonempty q hq

/-! ### The result of a run -/

/-- A run over a memory with unreadable pages in which only the device's choice of
prefixes is open: the flag stays clear and the other calls succeed. -/
structure Recoverable (C : Collaborators δ ω η κ) (ready : Readiness δ ω η κ)
    (topology : Topology) (memory : Nat → Byte) (badPage : Nat → Option Int32)
    (device : δ) (writer : ω) (hasher : η) (environment : κ) : Prop where
  asked : (C.device.query device).1 = some topology
  device : ready.device (C.device.queryHints (C.device.query device).2).2
  serves : ServesPages C.device ready.device topology.runs memory badPage
  ends : ∀ d, ready.device d → ∃ changed, (C.device.endSession d).1 = some changed
  writer : ready.writer writer
  writes : ∀ w (offset : UInt64) data, ready.writer w → data ≠ [] →
    WithinRuns topology.runs offset.toNat data.length →
    (C.writer.writeAt offset data w).1 = true ∧ ready.writer (C.writer.writeAt offset data w).2
  hasher : ready.hasher hasher
  updates : ∀ h data, ready.hasher h →
    (C.hasher.update data h).1 = true ∧ ready.hasher (C.hasher.update data h).2
  updatesZeros : ∀ h length, ready.hasher h →
    (C.hasher.updateZeros length h).1 = true ∧ ready.hasher (C.hasher.updateZeros length h).2
  environment : ready.environment environment
  clear : ∀ k, ready.environment k →
    (C.environment.cancelled k).1 = false ∧ ready.environment (C.environment.cancelled k).2

theorem Recoverable.cooperative {topology : Topology} {device : δ} {writer : ω} {hasher : η}
    {environment : κ}
    (h : Recoverable C ready topology memory badPage device writer hasher environment) :
    Cooperative C topology.runs ready where
  clear := h.clear
  answers d run offset length live member positive bounded within := by
    obtain ⟨r, reply, valid, next, -⟩ := h.serves d run offset length live member positive
      bounded within
    exact ⟨r, reply, valid, next⟩
  writes := h.writes
  updates := h.updates
  updatesZeros := h.updatesZeros
  ends := h.ends

/-- The run returns true and recovers everything that can be read. -/
theorem Recoverable.result {topology : Topology} {device : δ} {writer : ω} {hasher : η}
    {environment : κ} (valid : topology.Valid)
    (h : Recoverable C ready topology memory badPage device writer hasher environment) :
    returned (acquire C (.start device writer hasher environment)) = true ∧
      Recovered topology memory badPage
        (final (acquire C (.start device writer hasher environment))).calls
        (final (acquire C (.start device writer hasher environment))).summary := by
  have coop := h.cooperative
  have holds : ready.Holds (afterQuery C topology (.start device writer hasher environment)) :=
    ⟨h.device, h.writer, h.hasher, h.environment⟩
  have ran : returned (acquire C (.start device writer hasher environment)) = true :=
    acquire_returns valid h.asked coop holds rfl rfl rfl
  obtain ⟨topology', m, changed, completed⟩ := acquire_completed C ran
  obtain rfl : topology' = topology := Option.some.inj (completed.asked.symm.trans h.asked)
  obtain ⟨-, -, truthful⟩ := completed.traversal.invariant
    (P := fun s => ∀ call ∈ s.calls, Truthful memory badPage call) coop (fun _ calls => calls)
    (fun run member runValid _ _ track step calls =>
      step.truthful h.serves member runValid track calls)
    (fun _ member => member) valid.ordered (fun _ _ => Nat.zero_le _) valid.highestEnd_le
    (Nat.zero_le _) holds (under_afterQuery rfl rfl rfl) (fun call hcall => by cases hcall)
  exact ⟨ran, completed.recovered rfl rfl valid.ordered truthful⟩

section Independence

variable {δ' ω' η' κ' : Type} {C' : Collaborators δ' ω' η' κ'} {ready' : Readiness δ' ω' η' κ'}

/-- `Acquire` recovers every readable byte and reports the maximal unreadable
intervals. Two devices over the same memory, unreadable pages and statuses lead to the
same image, the same hash stream and the same list. -/
theorem acquire_recovers (topology : Topology) (valid : topology.Valid) (memory : Nat → Byte)
    (badPage : Nat → Option Int32) (device : δ) (writer : ω) (hasher : η) (environment : κ)
    (h : Recoverable C ready topology memory badPage device writer hasher environment)
    (device' : δ') (writer' : ω') (hasher' : η') (environment' : κ')
    (h' : Recoverable C' ready' topology memory badPage device' writer' hasher' environment') :
    let run := acquire C (.start device writer hasher environment)
    let run' := acquire C' (.start device' writer' hasher' environment')
    returned run = true ∧
      Recovered topology memory badPage (final run).calls (final run).summary ∧
      imageOf (final run).calls = imageOf (final run').calls ∧
      hashed (final run).calls = hashed (final run').calls ∧
      (final run).summary.unreadable = (final run').summary.unreadable := by
  obtain ⟨ran, recovered⟩ := h.result valid
  obtain ⟨-, recovered'⟩ := h'.result valid
  refine ⟨ran, recovered, recovered.image.trans recovered'.image.symm,
    recovered.stream.trans recovered'.stream.symm, ?_⟩
  exact spanIntervals_injective (recovered.unreadable.unique recovered'.unreadable)

end Independence

/-- The number of bytes a device over one run returns: a request inside a page is served
completely or not at all, a longer one up to the first unreadable byte, but at most
`luck` bytes. -/
def pagedCopy (badPage : Nat → Option Int32) (luck address length : Nat) : Nat :=
  if address % 4096 + length ≤ 4096 then
    if (badPage (pageOf address)).isNone then length else 0
  else
    min luck
      ((List.range length).takeWhile fun i => (badPage (pageOf (address + i))).isNone).length

/-- A device over one run of a memory with unreadable pages. -/
def pagedMemory (run : MemoryRun) (memory : Nat → Byte) (badPage : Nat → Option Int32)
    (luck : Nat) : IDeviceSession Unit where
  openSession d := (true, d)
  close d := d
  query d := (some ⟨run.base + run.length, run.length, [run]⟩, d)
  queryHints d := ((false, {}), d)
  read _ offset length d :=
    let address := run.base.toNat + offset.toNat
    let copied := pagedCopy badPage luck address length.toNat
    (some ⟨run.base + offset, length, UInt32.ofNat copied,
      (badPage (pageOf address)).getD 0, (List.range copied).map fun i => memory (address + i)⟩, d)
  endSession d := (some false, d)
  lastError _ := 0

theorem pagedCopy_le (badPage : Nat → Option Int32) (luck address length : Nat) :
    pagedCopy badPage luck address length ≤ length := by
  unfold pagedCopy
  split
  · split <;> omega
  · refine (Nat.min_le_right _ _).trans ?_
    exact (List.takeWhile_sublist _).length_le.trans (List.length_range ..).le

theorem pagedCopy_crossing {badPage : Nat → Option Int32} {luck address length n : Nat}
    (crossing : 4096 < address % 4096 + length) (ge : address ≤ n)
    (lt : n < address + pagedCopy badPage luck address length) : badPage (pageOf n) = none := by
  rw [pagedCopy, if_neg (by omega)] at lt
  obtain ⟨i, rfl⟩ := Nat.exists_eq_add_of_le ge
  have inside : i < ((List.range length).takeWhile
      fun i => (badPage (pageOf (address + i))).isNone).length := by omega
  have member := List.mem_takeWhile_imp (List.getElem_mem inside)
  have same : ((List.range length).takeWhile
      fun i => (badPage (pageOf (address + i))).isNone)[i] = i := by
    rw [(List.takeWhile_prefix _).getElem inside, List.getElem_range]
  rw [same] at member
  simpa using member

theorem pagedMemory_serves (run : MemoryRun) (memory : Nat → Byte)
    (badPage : Nat → Option Int32) (luck : Nat) :
    ServesPages (pagedMemory run memory badPage luck) (fun _ => True) [run] memory badPage := by
  rintro d run' offset length - member positive bounded within
  obtain rfl := List.mem_singleton.mp member
  have le := pagedCopy_le badPage luck (run'.base.toNat + offset.toNat) length.toNat
  have copied : (UInt32.ofNat
      (pagedCopy badPage luck (run'.base.toNat + offset.toNat) length.toNat)).toNat =
      pagedCopy badPage luck (run'.base.toNat + offset.toNat) length.toNat := by
    rw [UInt32.toNat_ofNat', Nat.mod_eq_of_lt]
    have := length.toNat_lt
    omega
  refine ⟨_, rfl, ⟨rfl, rfl, ?_, ?_⟩, trivial, ⟨?_, ?_, ?_, ?_⟩⟩
  · rw [copied]
    exact le
  · rw [copied, List.length_map, List.length_range]
  · rw [copied]
  · intro page readable
    rw [← UInt32.toNat_inj, copied, pagedCopy, if_pos page, readable]
    rfl
  · intro page status lost
    refine ⟨?_, by rw [lost]; rfl⟩
    rw [← UInt32.toNat_inj, copied, pagedCopy, if_pos page, lost]
    rfl
  · intro crossing n ge lt
    rw [copied] at lt
    exact pagedCopy_crossing crossing ge lt

def pagedCollaborators (run : MemoryRun) (memory : Nat → Byte) (badPage : Nat → Option Int32)
    (luck : Nat) : Collaborators Unit MockRawWriter MockHasher Unit :=
  { mockCollaborators with device := pagedMemory run memory badPage luck }

theorem pagedCollaborators_recoverable (run : MemoryRun) (memory : Nat → Byte)
    (badPage : Nat → Option Int32) (luck : Nat) :
    Recoverable (pagedCollaborators run memory badPage luck)
      ⟨fun _ => True, fun _ => True, fun _ => True, fun _ => True⟩
      ⟨run.base + run.length, run.length, [run]⟩ memory badPage () {} {} () where
  asked := rfl
  device := trivial
  serves := pagedMemory_serves run memory badPage luck
  ends _ _ := ⟨false, rfl⟩
  writer := trivial
  writes _ _ _ _ _ _ := ⟨rfl, trivial⟩
  hasher := trivial
  updates _ _ _ := ⟨rfl, trivial⟩
  updatesZeros _ _ _ := ⟨rfl, trivial⟩
  environment := trivial
  clear _ _ := ⟨rfl, trivial⟩

theorem valid_single_run (run : MemoryRun) (valid : run.Valid) :
    Topology.Valid ⟨run.base + run.length, run.length, [run]⟩ := by
  have stop : run.interval.stop = (run.base + run.length).toNat :=
    (Word.toNat_add_of_lt valid.fits).symm
  refine ⟨List.cons_ne_nil _ _, ?_, List.pairwise_singleton _ _, rfl, ?_,
    ⟨run, List.mem_cons_self, stop⟩⟩ <;>
    intro other member <;> rw [List.mem_singleton.mp member]
  · exact valid
  · exact stop.le

def thirdPageLost (page : Nat) : Option Int32 := if page = 2 then some (-1073741819) else none

/-- A device that never completes a long read and one that returns up to five bytes of
it lead to the same hash stream. -/
theorem acquire_recovers_any_luck :
    hashed (final (acquire (pagedCollaborators ⟨0, 0x1FF8, 16⟩ UInt8.ofNat thirdPageLost 0)
        (.start () {} {} ()))).calls =
      hashed (final (acquire (pagedCollaborators ⟨0, 0x1FF8, 16⟩ UInt8.ofNat thirdPageLost 5)
        (.start () {} {} ()))).calls :=
  (acquire_recovers ⟨0x2008, 16, [⟨0, 0x1FF8, 16⟩]⟩
    (valid_single_run ⟨0, 0x1FF8, 16⟩ ⟨by decide, by decide⟩) UInt8.ofNat thirdPageLost
    () _ _ () (pagedCollaborators_recoverable ⟨0, 0x1FF8, 16⟩ UInt8.ofNat thirdPageLost 0)
    () _ _ () (pagedCollaborators_recoverable ⟨0, 0x1FF8, 16⟩ UInt8.ofNat thirdPageLost
      5)).2.2.2.1

end PhylaRam
