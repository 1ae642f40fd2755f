import PhylaRam.Shared.Interfaces

/-!
# The SHA-256 hasher

This module follows `cli/sha256.cpp`. The hash function itself is a parameter; a hash
object of the system library is the data it was given. `fails` decides which calls of the
library fail, and `tick` counts them.
-/

namespace PhylaRam

/-- `data` is what the hash object holds once it is initialized. -/
structure Sha256 where
  data : Option (List Byte) := none
  fails : Nat → Bool
  tick : Nat := 0

namespace Sha256

def kHashChunkBytes : Nat := 16 * 1024 * 1024

def zerosBytes : Nat := 1024 * 1024

/-- One call of the library. -/
def call (h : Sha256) : Bool × Sha256 := (!h.fails h.tick, { h with tick := h.tick + 1 })

def reset (h : Sha256) : Sha256 := { h with data := none }

def initializeHash (h : Sha256) : Bool × Sha256 :=
  match h.reset.call with
  | (false, h) => (false, h)
  | (true, h) =>
      match h.call with
      | (false, h) => (false, h)
      | (true, h) => (true, { h with data := some [] })

/-- `BCryptHashData`. -/
def hashData (chunk : List Byte) (h : Sha256) : Bool × Sha256 :=
  match h.call with
  | (false, h) => (false, h)
  | (true, h) => (true, { h with data := h.data.map (· ++ chunk) })

/-- `while (length != 0)` of `Update`. -/
def hashChunks (data : List Byte) (h : Sha256) : Bool × Sha256 :=
  if data = [] then (true, h)
  else
    match hashData (data.take kHashChunkBytes) h with
    | (false, h) => (false, h)
    | (true, h) => hashChunks (data.drop kHashChunkBytes) h
termination_by data.length
decreasing_by
  rw [List.length_drop]
  have := List.length_pos_iff.mpr ‹data ≠ []›
  have : kHashChunkBytes = 16 * 1024 * 1024 := rfl
  omega

def update (data : List Byte) (h : Sha256) : Bool × Sha256 :=
  if h.data.isNone then (false, h) else hashChunks data h

/-- `while (length != 0)` of `UpdateZeros`. -/
def updateZeroChunks (length : Nat) (h : Sha256) : Bool × Sha256 :=
  if length = 0 then (true, h)
  else
    match update (List.replicate (min length zerosBytes) 0) h with
    | (false, h) => (false, h)
    | (true, h) => updateZeroChunks (length - min length zerosBytes) h
termination_by length
decreasing_by
  have : zerosBytes = 1024 * 1024 := rfl
  omega

def updateZeros (length : UInt64) (h : Sha256) : Bool × Sha256 :=
  if h.data.isNone then (false, h) else updateZeroChunks length.toNat h

/-- Two digits for each byte, in lower case. -/
def hexText (digest : List Byte) : NString :=
  digest.flatMap fun b => [(Nat.digitChar (b.toNat / 16)).val.toUInt8,
    (Nat.digitChar (b.toNat % 16)).val.toUInt8]

def finish (sha256 : List Byte → List Byte) (h : Sha256) : Option NString × Sha256 :=
  match h.data with
  | none => (none, h)
  | some data =>
      match h.call with
      | (false, h) => (none, h)
      | (true, h) => (some (hexText (sha256 data)), h.reset)

end Sha256

def sha256Hasher (sha256 : List Byte → List Byte) : IHasher Sha256 where
  initializeHasher := Sha256.initializeHash
  update := Sha256.update
  updateZeros := Sha256.updateZeros
  finish := Sha256.finish sha256
  reset := Sha256.reset

/-! ### The data of the hash object -/

namespace Sha256

/-- The hash object holds the stream. -/
def Holds (stream : List Byte) (h : Sha256) : Prop := h.data = some stream

variable {stream : List Byte} {h : Sha256}

theorem Holds.hashData (holds : Holds stream h) {chunk : List Byte}
    (accepted : (hashData chunk h).1 = true) : Holds (stream ++ chunk) (hashData chunk h).2 := by
  rw [Sha256.hashData] at accepted ⊢
  split at accepted
  · cases accepted
  · next same =>
      obtain rfl := congrArg Prod.snd same
      exact congrArg (Option.map (· ++ chunk)) holds

theorem Holds.hashChunks (holds : Holds stream h) {data : List Byte}
    (accepted : (hashChunks data h).1 = true) : Holds (stream ++ data) (hashChunks data h).2 := by
  induction data, h using hashChunks.induct generalizing stream with
  | case1 h =>
      rw [Sha256.hashChunks, if_pos rfl, List.append_nil]
      exact holds
  | case2 data h some failed refused =>
      rw [Sha256.hashChunks, if_neg some, refused] at accepted
      cases accepted
  | case3 data h some next fed ih =>
      rw [Sha256.hashChunks, if_neg some, fed] at accepted ⊢
      have first : Holds (stream ++ data.take kHashChunkBytes) _ := holds.hashData (by rw [fed])
      rw [fed] at first
      have rest := ih first accepted
      rwa [List.append_assoc, List.take_append_drop] at rest

theorem Holds.update (holds : Holds stream h) {data : List Byte}
    (accepted : (update data h).1 = true) : Holds (stream ++ data) (update data h).2 := by
  rw [Sha256.update] at accepted ⊢
  split at accepted
  · cases accepted
  · next some =>
      rw [if_neg some]
      exact holds.hashChunks accepted

theorem Holds.updateZeroChunks (holds : Holds stream h) {length : Nat}
    (accepted : (updateZeroChunks length h).1 = true) :
    Holds (stream ++ List.replicate length 0) (updateZeroChunks length h).2 := by
  induction length, h using updateZeroChunks.induct generalizing stream with
  | case1 h =>
      rw [Sha256.updateZeroChunks, if_pos rfl, List.replicate_zero, List.append_nil]
      exact holds
  | case2 length h some failed refused =>
      rw [Sha256.updateZeroChunks, if_neg some, refused] at accepted
      cases accepted
  | case3 length h some next fed ih =>
      rw [Sha256.updateZeroChunks, if_neg some, fed] at accepted ⊢
      have first : Holds (stream ++ List.replicate (min length zerosBytes) 0) _ :=
        holds.update (by rw [fed])
      rw [fed] at first
      have rest := ih first accepted
      rwa [List.append_assoc, List.replicate_append_replicate,
        Nat.add_sub_cancel' (Nat.min_le_left _ _)] at rest

theorem Holds.updateZeros (holds : Holds stream h) {length : UInt64}
    (accepted : (updateZeros length h).1 = true) :
    Holds (stream ++ List.replicate length.toNat 0) (updateZeros length h).2 := by
  rw [Sha256.updateZeros] at accepted ⊢
  split at accepted
  · cases accepted
  · next some =>
      rw [if_neg some]
      exact holds.updateZeroChunks accepted

theorem holds_initializeHash (initialized : (initializeHash h).1 = true) :
    Holds [] (initializeHash h).2 := by
  rw [initializeHash] at initialized ⊢
  split at initialized
  · cases initialized
  · split at initialized
    · cases initialized
    · rfl

/-- The digest is the one of the stream. -/
theorem Holds.finish (holds : Holds stream h) {sha256 : List Byte → List Byte} {digest : NString}
    (finished : (Sha256.finish sha256 h).1 = some digest) : digest = hexText (sha256 stream) := by
  rw [Sha256.finish, show h.data = some stream from holds] at finished
  dsimp only at finished
  split at finished
  · cases finished
  · exact (Option.some.inj finished).symm

end Sha256

end PhylaRam
