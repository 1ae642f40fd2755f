import Mathlib.Data.List.Perm.Basic
import Mathlib.Data.List.Nodup

/-!
# A pool of blocks and the log of their uses

Blocks are named by the order of their allocation, so no name is used twice. Every
allocation, read and release is logged. A log is safe if nothing reads or releases a
block after its release.

`Sound` is the invariant of a client that knows which blocks it holds: its rules say
what the client owes at each operation, and its consequences speak of the log alone.
-/

namespace Pool

inductive Use
  | allocate (block : Nat)
  | read (block : Nat)
  | free (block : Nat)
deriving DecidableEq, Repr

def Use.block : Use → Nat
  | .allocate block | .read block | .free block => block

end Pool

structure Pool (α : Type) where
  blocks : List (Option α) := []
  log : List Pool.Use := []
deriving DecidableEq

namespace Pool

variable {α : Type} {pool : Pool α} {held : List Nat} {block other : Nat} {content : α}
  {log : List Use} {use : Use}

/-- What a block holds, unless it has been released. -/
def content? (pool : Pool α) (block : Nat) : Option α := pool.blocks[block]?.join

/-- The name of the next block. -/
def next (pool : Pool α) : Nat := pool.blocks.length

def allocate (content : α) (pool : Pool α) : Pool α :=
  ⟨pool.blocks ++ [some content], pool.log ++ [.allocate pool.next]⟩

def read (block : Nat) (pool : Pool α) : Pool α :=
  { pool with log := pool.log ++ [.read block] }

def free (block : Nat) (pool : Pool α) : Pool α :=
  ⟨pool.blocks.set block none, pool.log ++ [.free block]⟩

@[simp] theorem content?_read : (pool.read other).content? block = pool.content? block := rfl

@[simp] theorem content?_allocate_next :
    (pool.allocate content).content? pool.next = some content := by
  simp [content?, allocate, next]

theorem content?_allocate_of_lt (h : block < pool.next) :
    (pool.allocate content).content? block = pool.content? block := by
  simp only [content?, allocate, List.getElem?_append_left (show block < pool.blocks.length from h)]

theorem content?_free_of_ne (h : other ≠ block) :
    (pool.free block).content? other = pool.content? other := by
  simp only [content?, free, List.getElem?_set_ne (Ne.symm h)]

theorem lt_next_of_content (h : pool.content? block = some content) : block < pool.next := by
  refine Nat.lt_of_not_le fun beyond => ?_
  have missing : pool.blocks[block]? = none := List.getElem?_eq_none beyond
  simp [content?, missing] at h

/-- No block is read or released after its release. -/
def Safe (log : List Use) : Prop :=
  ∀ earlier later block, log = earlier ++ .free block :: later →
    .read block ∉ later ∧ .free block ∉ later

theorem Safe.snoc (safe : Safe log)
    (unfreed : use = .read use.block ∨ use = .free use.block → .free use.block ∉ log) :
    Safe (log ++ [use]) := by
  intro earlier later block split
  cases later.eq_nil_or_concat with
  | inl empty => simp [empty]
  | inr last =>
      obtain ⟨middle, final, rfl⟩ := last
      rw [List.concat_eq_append, ← List.cons_append, ← List.append_assoc] at split
      obtain ⟨rest, same⟩ := List.append_inj' split rfl
      obtain rfl : use = final := List.singleton_inj.mp same
      have before := safe earlier middle block rest
      have freed : .free block ∈ log := rest ▸ List.mem_append_right _ List.mem_cons_self
      rw [List.concat_eq_append]
      constructor
      · intro member
        cases List.mem_append.mp member with
        | inl old => exact before.1 old
        | inr new =>
            obtain rfl := List.mem_singleton.mp new
            exact unfreed (.inl rfl) freed
      · intro member
        cases List.mem_append.mp member with
        | inl old => exact before.2 old
        | inr new =>
            obtain rfl := List.mem_singleton.mp new
            exact unfreed (.inr rfl) freed

/-- The client holds the blocks `held`, has released every other block it allocated,
and has used none after its release. -/
structure Sound (pool : Pool α) (held : List Nat) : Prop where
  safe : Safe pool.log
  known : ∀ use ∈ pool.log, use.block < pool.next
  unfreed : ∀ block ∈ held, .free block ∉ pool.log
  accounted : ∀ block, .allocate block ∈ pool.log → block ∈ held ∨ .free block ∈ pool.log

namespace Sound

theorem empty : Sound ({} : Pool α) [] := by
  refine ⟨?_, ?_, ?_, ?_⟩
  · intro earlier later block split
    simp at split
  all_goals simp

theorem allocate (sound : pool.Sound held) : (pool.allocate content).Sound (pool.next :: held) := by
  have fresh : ∀ use ∈ pool.log, use.block ≠ pool.next :=
    fun use member => Nat.ne_of_lt (sound.known use member)
  have longer : (pool.allocate content).next = pool.next + 1 := by
    simp [next, Pool.allocate]
  refine ⟨sound.safe.snoc (by simp), ?_, ?_, ?_⟩
  · intro use member
    rw [longer]
    cases List.mem_append.mp member with
    | inl old => exact Nat.lt_succ_of_lt (sound.known use old)
    | inr new => exact List.mem_singleton.mp new ▸ Nat.lt_succ_self _
  · intro block member freed
    have old : .free block ∈ pool.log := by simpa [Pool.allocate] using freed
    cases List.mem_cons.mp member with
    | inl same => exact fresh _ old same
    | inr earlier => exact sound.unfreed block earlier old
  · intro block member
    cases List.mem_append.mp member with
    | inl old =>
        exact (sound.accounted block old).imp (List.mem_cons_of_mem _)
          (List.mem_append_left _)
    | inr new =>
        have same : block = pool.next := by simpa using new
        exact .inl (same ▸ List.mem_cons_self)

theorem read (sound : pool.Sound held) (member : block ∈ held) (live : block < pool.next) :
    (pool.read block).Sound held := by
  refine ⟨sound.safe.snoc (fun _ => sound.unfreed block member), ?_, ?_, ?_⟩
  · intro use logged
    cases List.mem_append.mp logged with
    | inl old => exact sound.known use old
    | inr new => exact List.mem_singleton.mp new ▸ live
  · intro other held freed
    exact sound.unfreed other held (by simpa [Pool.read] using freed)
  · intro other logged
    have old : .allocate other ∈ pool.log := by simpa [Pool.read] using logged
    exact (sound.accounted other old).imp_right (List.mem_append_left _)

theorem free (sound : pool.Sound (block :: held)) (single : block ∉ held)
    (live : block < pool.next) : (pool.free block).Sound held := by
  have length : (pool.free block).next = pool.next := by simp [next, Pool.free]
  refine ⟨sound.safe.snoc (fun _ => sound.unfreed block List.mem_cons_self), ?_, ?_, ?_⟩
  · intro use logged
    rw [length]
    cases List.mem_append.mp logged with
    | inl old => exact sound.known use old
    | inr new => exact List.mem_singleton.mp new ▸ live
  · intro other member freed
    cases List.mem_append.mp freed with
    | inl old => exact sound.unfreed other (List.mem_cons_of_mem _ member) old
    | inr new =>
        have same : other = block := by simpa using new
        exact single (same ▸ member)
  · intro other logged
    have old : .allocate other ∈ pool.log := by simpa [Pool.free] using logged
    cases sound.accounted other old with
    | inl member =>
        cases List.mem_cons.mp member with
        | inl same => exact .inr (same ▸ List.mem_append_right _ List.mem_cons_self)
        | inr rest => exact .inl rest
    | inr freed => exact .inr (List.mem_append_left _ freed)

/-- A client that holds nothing has released every block it allocated. -/
theorem all_freed (sound : pool.Sound []) (allocated : .allocate block ∈ pool.log) :
    .free block ∈ pool.log := by
  cases sound.accounted block allocated with
  | inl held => cases held
  | inr freed => exact freed

end Sound

/-! ### Owners

Several clients share the pool. Each knows what the blocks that it owns contain.
-/

/-- A write is logged like a read. -/
def write (block : Nat) (content : α) (pool : Pool α) : Pool α :=
  ⟨pool.blocks.set block (some content), pool.log ++ [.read block]⟩

/-- What the owner of a block knows of it. -/
structure Claim (α : Type) where
  block : Nat
  about : α → Prop

/-- No block has two owners, and what they know is true. -/
structure Owned (pool : Pool α) (claims : List (Claim α)) : Prop where
  sound : pool.Sound (claims.map Claim.block)
  single : (claims.map Claim.block).Nodup
  known : ∀ claim ∈ claims, ∃ content, pool.content? claim.block = some content ∧
    claim.about content

namespace Owned

variable {claims claims' : List (Claim α)} {claim : Claim α} {about : α → Prop}

theorem empty : Owned ({} : Pool α) [] :=
  ⟨.empty, List.nodup_nil, fun claim member => by cases member⟩

theorem lt_next (owned : pool.Owned claims) (member : claim ∈ claims) :
    claim.block < pool.next := by
  obtain ⟨content, found, _⟩ := owned.known claim member
  exact lt_next_of_content found

/-- Ownership may pass from one client to another. -/
theorem perm (owned : pool.Owned claims) (same : claims.Perm claims') : pool.Owned claims' := by
  have blocks : (claims.map Claim.block).Perm (claims'.map Claim.block) := same.map _
  refine ⟨⟨owned.sound.safe, owned.sound.known, ?_, ?_⟩, ?_, ?_⟩
  · intro block member
    exact owned.sound.unfreed block (blocks.mem_iff.mpr member)
  · intro block member
    exact (owned.sound.accounted block member).imp_left blocks.mem_iff.mp
  · exact blocks.nodup_iff.mp owned.single
  · intro claim member
    exact owned.known claim (same.mem_iff.mpr member)

theorem allocate (owned : pool.Owned claims) (true_of : about content) :
    (pool.allocate content).Owned (⟨pool.next, about⟩ :: claims) := by
  refine ⟨owned.sound.allocate, ?_, ?_⟩
  · rw [List.map_cons, List.nodup_cons]
    refine ⟨fun member => ?_, owned.single⟩
    obtain ⟨claim, among, same⟩ := List.mem_map.mp member
    exact Nat.ne_of_lt (owned.lt_next among) same
  · intro claim member
    cases List.mem_cons.mp member with
    | inl new => exact ⟨content, new ▸ content?_allocate_next, new ▸ true_of⟩
    | inr old =>
        rw [content?_allocate_of_lt (owned.lt_next old)]
        exact owned.known claim old

theorem read (owned : pool.Owned claims) (member : claim ∈ claims) :
    (pool.read claim.block).Owned claims :=
  ⟨owned.sound.read (List.mem_map_of_mem member) (owned.lt_next member), owned.single, owned.known⟩

/-- The block of the first claim is nobody else's. -/
theorem ne_block (owned : pool.Owned (claim :: claims)) {other : Claim α}
    (member : other ∈ claims) : other.block ≠ claim.block := by
  intro same
  have single := owned.single
  rw [List.map_cons, List.nodup_cons] at single
  exact single.1 (same ▸ List.mem_map_of_mem member)

theorem write (owned : pool.Owned (⟨block, about⟩ :: claims)) {about' : α → Prop}
    (true_of : about' content) : (pool.write block content).Owned (⟨block, about'⟩ :: claims) := by
  have live : block < pool.next := owned.lt_next List.mem_cons_self
  have used := owned.sound.read List.mem_cons_self live
  have length : (pool.write block content).next = (pool.read block).next :=
    List.length_set
  refine ⟨⟨used.safe, ?_, used.unfreed, used.accounted⟩, owned.single, ?_⟩
  · rw [length]
    exact used.known
  · intro other member
    cases List.mem_cons.mp member with
    | inl same =>
        subst same
        refine ⟨content, ?_, true_of⟩
        show (pool.blocks.set block _)[block]?.join = _
        rw [List.getElem?_set_self live]
        rfl
    | inr rest =>
        have apart : block ≠ other.block := (owned.ne_block rest).symm
        obtain ⟨old, found, right⟩ := owned.known other (List.mem_cons_of_mem _ rest)
        refine ⟨old, ?_, right⟩
        show (pool.blocks.set block _)[other.block]?.join = _
        rw [List.getElem?_set_ne apart]
        exact found

/-- An owner may look at what the block contains. -/
theorem learn (owned : pool.Owned (⟨block, about⟩ :: claims))
    (found : pool.content? block = some content) {about' : α → Prop} (true_of : about' content) :
    pool.Owned (⟨block, about'⟩ :: claims) := by
  refine ⟨owned.sound, owned.single, fun other member => ?_⟩
  cases List.mem_cons.mp member with
  | inl same => exact ⟨content, same ▸ found, same ▸ true_of⟩
  | inr rest => exact owned.known other (List.mem_cons_of_mem _ rest)

theorem free (owned : pool.Owned (claim :: claims)) : (pool.free claim.block).Owned claims := by
  have single := owned.single
  rw [List.map_cons, List.nodup_cons] at single
  refine ⟨owned.sound.free single.1 (owned.lt_next List.mem_cons_self), single.2, ?_⟩
  intro other member
  rw [content?_free_of_ne (owned.ne_block member)]
  exact owned.known other (List.mem_cons_of_mem _ member)

end Owned

/-- A safe log releases a block at most once. -/
theorem Safe.count_free_le_one (safe : Safe log) : log.count (.free block) ≤ 1 := by
  by_cases freed : .free block ∈ log
  · obtain ⟨earlier, later, rfl, absent⟩ := List.eq_append_cons_of_mem freed
    have none_later := (safe earlier later block rfl).2
    have once : (earlier ++ .free block :: later).count (.free block) = 1 := by
      rw [List.count_append, List.count_cons_self, List.count_eq_zero_of_not_mem absent,
        List.count_eq_zero_of_not_mem none_later]
    exact Nat.le_of_eq once
  · rw [List.count_eq_zero_of_not_mem freed]
    exact Nat.zero_le _

end Pool
