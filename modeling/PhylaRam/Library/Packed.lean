import Mathlib.Algebra.Ring.Nat
import Mathlib.Data.List.Infix

/-!
# Little-endian fields of packed records

A packed record is the concatenation of its fields. An unsigned integer takes a fixed
number of bytes, least significant first; a byte array is padded with zeros.
-/

namespace Packed

def littleEndian (width value : Nat) : List UInt8 :=
  (List.range width).map fun i => UInt8.ofNat (value >>> (8 * i))

def u16 (value : UInt16) : List UInt8 := littleEndian 2 value.toNat

def u32 (value : UInt32) : List UInt8 := littleEndian 4 value.toNat

def u64 (value : UInt64) : List UInt8 := littleEndian 8 value.toNat

def zeros (count : Nat) : List UInt8 := List.replicate count 0

/-- A byte array of the given size that begins with `bytes`. -/
def array (size : Nat) (bytes : List UInt8) : List UInt8 :=
  bytes.take size ++ zeros (size - bytes.length)

@[simp] theorem length_littleEndian (width value : Nat) :
    (littleEndian width value).length = width := by
  simp [littleEndian]

@[simp] theorem length_u16 (value : UInt16) : (u16 value).length = 2 := length_littleEndian ..

@[simp] theorem length_u32 (value : UInt32) : (u32 value).length = 4 := length_littleEndian ..

@[simp] theorem length_u64 (value : UInt64) : (u64 value).length = 8 := length_littleEndian ..

@[simp] theorem length_zeros (count : Nat) : (zeros count).length = count :=
  List.length_replicate

@[simp] theorem length_array (size : Nat) (bytes : List UInt8) :
    (array size bytes).length = size := by
  simp only [array, List.length_append, List.length_take, length_zeros]
  omega

/-- Bytes that are shorter than the array are padded. -/
theorem array_of_le {size : Nat} {bytes : List UInt8} (le : bytes.length ≤ size) :
    array size bytes = bytes ++ zeros (size - bytes.length) := by
  rw [array, List.take_of_length_le le]

theorem mod_eq_of_littleEndian {width a b : Nat} (same : littleEndian width a = littleEndian width b) :
    a % 256 ^ width = b % 256 ^ width := by
  induction width with
  | zero => rw [Nat.pow_zero, Nat.mod_one, Nat.mod_one]
  | succ width ih =>
      rw [littleEndian, littleEndian, List.range_succ, List.map_append, List.map_append] at same
      obtain ⟨low, top⟩ := List.append_inj same (by rw [List.length_map, List.length_map])
      have digit : (a / 256 ^ width) % 256 = (b / 256 ^ width) % 256 := by
        have bytes := congrArg UInt8.toNat (List.singleton_inj.mp top)
        rw [UInt8.toNat_ofNat', UInt8.toNat_ofNat', Nat.shiftRight_eq_div_pow,
          Nat.shiftRight_eq_div_pow, Nat.pow_mul] at bytes
        exact bytes
      rw [Nat.mod_pow_succ, Nat.mod_pow_succ, ih low, digit]

theorem u32_inj {a b : UInt32} (same : u32 a = u32 b) : a = b := by
  have digits := mod_eq_of_littleEndian same
  have fits (n : UInt32) : n.toNat < 256 ^ 4 := n.toNat_lt
  rw [Nat.mod_eq_of_lt (fits a), Nat.mod_eq_of_lt (fits b)] at digits
  exact UInt32.toNat_inj.mp digits

theorem u64_inj {a b : UInt64} (same : u64 a = u64 b) : a = b := by
  have digits := mod_eq_of_littleEndian same
  have fits (n : UInt64) : n.toNat < 256 ^ 8 := n.toNat_lt
  rw [Nat.mod_eq_of_lt (fits a), Nat.mod_eq_of_lt (fits b)] at digits
  exact UInt64.toNat_inj.mp digits

/-! ### Fields within a file -/

/-- The content has the bytes at that place. -/
def HasAt (content : List UInt8) (place : Nat) (bytes : List UInt8) : Prop :=
  bytes <+: content.drop place

namespace HasAt

variable {content first second bytes bytes' : List UInt8} {place : Nat}

theorem start (bytes : List UInt8) : HasAt bytes 0 bytes := List.prefix_rfl

theorem after (front bytes : List UInt8) : HasAt (front ++ bytes) front.length bytes := by
  rw [HasAt, List.drop_left]

theorem left (h : HasAt content place bytes) (tail : List UInt8) :
    HasAt (content ++ tail) place bytes := by
  refine h.trans ?_
  rw [List.drop_append]
  exact List.prefix_append _ _

theorem right (front : List UInt8) (h : HasAt content place bytes) :
    HasAt (front ++ content) (front.length + place) bytes := by
  rwa [HasAt, List.drop_length_add_append]

theorem append_iff : HasAt content place (first ++ second) ↔
    HasAt content place first ∧ HasAt content (place + first.length) second := by
  constructor
  · rintro ⟨after, split⟩
    refine ⟨⟨second ++ after, by rw [← split, List.append_assoc]⟩, after, ?_⟩
    rw [← List.drop_drop, ← split, List.append_assoc, List.drop_left]
  · rintro ⟨⟨rest, split⟩, after, split'⟩
    rw [← List.drop_drop, ← split, List.drop_left] at split'
    exact ⟨after, by rw [← split, ← split', List.append_assoc]⟩

theorem front (h : HasAt content place (first ++ second)) : HasAt content place first :=
  (append_iff.mp h).1

/-- There is only one sequence of bytes of a given length at a place. -/
theorem unique (h : HasAt content place bytes) (h' : HasAt content place bytes')
    (length : bytes.length = bytes'.length) : bytes = bytes' :=
  (List.prefix_of_prefix_length_le h h' length.le).eq_of_length length

end HasAt

/-! ### Reading a field -/

/-- The number that bytes denote, the lowest first. -/
def value (bytes : List UInt8) : Nat := bytes.foldr (fun b n => b.toNat + 256 * n) 0

def field (content : List UInt8) (place width : Nat) : Nat :=
  value ((content.drop place).take width)

theorem littleEndian_succ (width n : Nat) :
    littleEndian (width + 1) n = UInt8.ofNat n :: littleEndian width (n / 256) := by
  rw [littleEndian, littleEndian, List.range_succ_eq_map, List.map_cons, List.map_map]
  refine congrArg _ (List.map_congr_left fun i _ => ?_)
  show UInt8.ofNat (n >>> (8 * (i + 1))) = UInt8.ofNat ((n / 256) >>> (8 * i))
  rw [Nat.shiftRight_eq_div_pow, Nat.shiftRight_eq_div_pow, Nat.div_div_eq_div_mul, Nat.mul_add,
    Nat.pow_add, Nat.mul_comm (2 ^ (8 * i))]

theorem value_littleEndian (width n : Nat) : value (littleEndian width n) = n % 256 ^ width := by
  induction width generalizing n with
  | zero => rw [Nat.pow_zero, Nat.mod_one]; rfl
  | succ width ih =>
      rw [littleEndian_succ, Nat.pow_succ', Nat.mod_mul, ← ih (n / 256)]
      show (UInt8.ofNat n).toNat + _ = _
      rw [UInt8.toNat_ofNat']
      rfl

theorem HasAt.field_eq {content bytes : List UInt8} {place : Nat} (h : HasAt content place bytes) :
    field content place bytes.length = value bytes := by
  rw [field, ← List.prefix_iff_eq_take.mp h]

theorem HasAt.field_u32 {content : List UInt8} {place : Nat} {n : UInt32}
    (h : HasAt content place (u32 n)) : field content place 4 = n.toNat := by
  have digits : field content place 4 = value (u32 n) := length_u32 n ▸ h.field_eq
  rw [digits, u32, value_littleEndian]
  exact Nat.mod_eq_of_lt n.toNat_lt

theorem HasAt.field_u64 {content : List UInt8} {place : Nat} {n : UInt64}
    (h : HasAt content place (u64 n)) : field content place 8 = n.toNat := by
  have digits : field content place 8 = value (u64 n) := length_u64 n ▸ h.field_eq
  rw [digits, u64, value_littleEndian]
  exact Nat.mod_eq_of_lt n.toNat_lt

end Packed
