import PhylaRam.Library.Word
import PhylaRam.Verify.Text

/-!
# Hashing the logical RAW representation

This module follows `tools/phylaram-verify/src/hash.rs`. The hash function is a
parameter; its state is the data it was given so far. How much one `read` returns
is decided by the operating system: `reads k` is what it offers for the `k`-th call,
and only at the end of the file can a read return nothing.
-/

namespace PhylaRam.Verify

def hashChunkBytes : Nat := 1024 * 1024

/-- `hex::encode`. -/
def hexEncode (digest : List Byte) : Str :=
  digest.flatMap fun b => [Nat.digitChar (b.toNat / 16), Nat.digitChar (b.toNat % 16)]

/-- The number of bytes that a `read` into the buffer returns. -/
def readLength (offer : Nat) (rest : List Byte) : Nat :=
  min (max 1 offer) (min hashChunkBytes rest.length)

theorem readLength_pos {offer : Nat} {b : Byte} {rest : List Byte} :
    0 < readLength offer (b :: rest) := by
  have : 0 < hashChunkBytes := by decide
  rw [readLength, List.length_cons]
  omega

/-- A loop that takes chunks off a remainder gets nearer to its end. -/
theorem chunk_progress {remaining limit : UInt64} (some : 0 < limit.toNat)
    (left : 0 < remaining.toNat) :
    (remaining - min remaining limit).toNat < remaining.toNat := by
  have size := Word.toNat_min remaining limit
  rw [Word.toNat_sub_of_le (by omega), size]
  omega

/-- The read loop: the data the hasher has, and `total_read`. -/
def hashFile (reads : Nat → Nat) (call : Nat) (hashed : List Byte) (totalRead : UInt64) :
    List Byte → List Byte × UInt64
  | [] => (hashed, totalRead)
  | b :: rest =>
      let n := readLength (reads call) (b :: rest)
      hashFile reads (call + 1) (hashed ++ (b :: rest).take n) (totalRead + .ofNat n)
        ((b :: rest).drop n)
termination_by rest => rest.length
decreasing_by
  have : 0 < readLength (reads call) (b :: rest) := readLength_pos
  rw [List.length_drop, List.length_cons]
  omega

/-- The zeros for what the file lacks of its logical size. -/
def hashZeros (hashed : List Byte) (remainingZeros : UInt64) : List Byte :=
  if pos : 0 < remainingZeros then
    let chunk := min remainingZeros (.ofNat hashChunkBytes)
    hashZeros (hashed ++ List.replicate chunk.toNat 0) (remainingZeros - chunk)
  else hashed
termination_by remainingZeros.toNat
decreasing_by exact chunk_progress (by decide) (UInt64.lt_iff_toNat_lt.mp pos)

variable (sha256 : List Byte → List Byte)

def calculateLogicalRawSha256 (reads : Nat → Nat) (raw : List Byte) (logicalSize : UInt64) :
    Str :=
  let (hashed, totalRead) := hashFile reads 0 [] 0 raw
  if totalRead < logicalSize then hexEncode (sha256 (hashZeros hashed (logicalSize - totalRead)))
  else hexEncode (sha256 hashed)

/-- However the reads split the file, all of it is hashed, in order. -/
theorem hashFile_eq (reads : Nat → Nat) (call : Nat) (hashed : List Byte) (totalRead : UInt64)
    (rest : List Byte) :
    hashFile reads call hashed totalRead rest = (hashed ++ rest, totalRead + .ofNat rest.length) := by
  induction call, hashed, totalRead, rest using hashFile.induct reads with
  | case1 call hashed totalRead => simp [hashFile]
  | case2 call hashed totalRead b rest n ih =>
      have within : n ≤ (b :: rest).length := by
        show min _ (min _ _) ≤ _
        omega
      rw [hashFile, ih, List.append_assoc, List.take_append_drop, List.length_drop, UInt64.add_assoc,
        ← UInt64.ofNat_add, Nat.add_sub_cancel' within]

/-- A file of the logical size is hashed without padding. -/
theorem calculateLogicalRawSha256_eq {reads : Nat → Nat} {raw : List Byte} {logicalSize : UInt64}
    (size : raw.length = logicalSize.toNat) :
    calculateLogicalRawSha256 sha256 reads raw logicalSize = hexEncode (sha256 raw) := by
  have total : 0 + UInt64.ofNat raw.length = logicalSize := by
    rw [UInt64.zero_add, size, UInt64.ofNat_toNat]
  rw [calculateLogicalRawSha256, hashFile_eq, total, List.nil_append]
  exact if_neg (UInt64.lt_irrefl _)

end PhylaRam.Verify
