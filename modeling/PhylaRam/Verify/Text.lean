import PhylaRam.Shared.Interfaces
import PhylaRam.Library.Checked
import Mathlib.Algebra.Ring.Nat

/-!
# Strings and files as the verifier sees them

The verifier is a separate program with its own string type. A `Str` is a list of
Unicode scalar values; its bytes are their UTF-8 encodings. The operations here
are those of the standard library that `schema.rs`, `hash.rs` and `verifier.rs`
call. Files are read from a `Disk`, which does not change during a verification.
-/

namespace PhylaRam.Verify

/-- A `String`, or a `&str`. -/
abbrev Str := List Char

/-- A string literal. -/
def str (text : String) : Str := text.toList

namespace Str

def bytes (s : Str) : List Byte := s.flatMap String.utf8EncodeChar

def len (s : Str) : Nat := s.bytes.length

@[simp] theorem bytes_nil : bytes [] = [] := rfl

@[simp] theorem bytes_cons (c : Char) (s : Str) :
    bytes (c :: s) = String.utf8EncodeChar c ++ bytes s := rfl

/-- An ASCII character is one byte. -/
theorem utf8EncodeChar_ascii {c : Char} (ascii : c.toNat ≤ 127) :
    String.utf8EncodeChar c = [UInt8.ofNat c.toNat] := if_pos ascii

/-- The last byte of any other character is a continuation byte. -/
theorem mem_utf8EncodeChar {c : Char} (wide : ¬c.toNat ≤ 127) :
    UInt8.ofNat (c.toNat % 64 + 128) ∈ String.utf8EncodeChar c := by
  show _ ∈ ite _ _ _
  rw [if_neg (show ¬c.val.toNat ≤ 127 from wide)]
  split
  · exact List.mem_cons_of_mem _ List.mem_cons_self
  · split
    · exact List.mem_cons_of_mem _ (List.mem_cons_of_mem _ List.mem_cons_self)
    · exact List.mem_cons_of_mem _ (List.mem_cons_of_mem _
        (List.mem_cons_of_mem _ List.mem_cons_self))

/-- `eq_ignore_ascii_case`. -/
def eqIgnoreAsciiCase (s t : Str) : Bool := s.map Char.toLower == t.map Char.toLower

theorem eqIgnoreAsciiCase_iff {s t : Str} :
    s.eqIgnoreAsciiCase t = true ↔ s.map Char.toLower = t.map Char.toLower := beq_iff_eq

/-- `char::is_whitespace`: the Unicode property `White_Space`. -/
def isWhitespace (c : Char) : Bool :=
  (0x9 ≤ c.toNat && c.toNat ≤ 0xD) || c.toNat == 0x20 || c.toNat == 0x85 || c.toNat == 0xA0 ||
    c.toNat == 0x1680 || (0x2000 ≤ c.toNat && c.toNat ≤ 0x200A) || c.toNat == 0x2028 ||
    c.toNat == 0x2029 || c.toNat == 0x202F || c.toNat == 0x205F || c.toNat == 0x3000

/-- `split_whitespace().next()`. -/
def firstWord (s : Str) : Option Str :=
  match s.dropWhile isWhitespace with
  | [] => none
  | c :: rest => some ((c :: rest).takeWhile fun c => !isWhitespace c)

def trim (s : Str) : Str :=
  ((s.dropWhile isWhitespace).reverse.dropWhile isWhitespace).reverse

/-- `trim_start_matches` for a pattern of two characters: as often as it matches. -/
def trimStartMatches (a b : Char) : Str → Str
  | c :: d :: rest => if c = a ∧ d = b then trimStartMatches a b rest else c :: d :: rest
  | s => s

end Str

/-! ### Numbers -/

/-- The `IntErrorKind` of a `ParseIntError`. -/
inductive ParseIntError
  | empty
  | invalidDigit
  | posOverflow
deriving DecidableEq, Repr

/-- `char::to_digit(16)`. -/
def toDigit (c : Char) : Option Nat :=
  if '0' ≤ c ∧ c ≤ '9' then some (c.toNat - '0'.toNat)
  else if 'a' ≤ c ∧ c ≤ 'f' then some (c.toNat - 'a'.toNat + 10)
  else if 'A' ≤ c ∧ c ≤ 'F' then some (c.toNat - 'A'.toNat + 10)
  else none

/-- The digit loop of `from_str_radix`, for an unsigned type of `bits` bits. -/
def parseDigits (bits : Nat) : Nat → Str → Except ParseIntError Nat
  | value, [] => .ok value
  | value, c :: rest =>
      match toDigit c with
      | none => .error .invalidDigit
      | some digit =>
          if 2 ^ bits ≤ value * 16 + digit then .error .posOverflow
          else parseDigits bits (value * 16 + digit) rest

/-- `from_str_radix(s, 16)`. A leading plus sign is allowed; an unsigned type has no
minus sign. -/
def fromStrRadix16 (bits : Nat) (s : Str) : Except ParseIntError Nat :=
  match s with
  | [] => .error .empty
  | ['+'] => .error .invalidDigit
  | '+' :: rest => parseDigits bits 0 rest
  | s => parseDigits bits 0 s

/-- `checked_add` of `u64`. -/
def checkedAdd (a b : UInt64) : Option UInt64 :=
  if a.toNat + b.toNat < 2 ^ 64 then some (a + b) else none

theorem checkedAdd_eq_some {a b c : UInt64} :
    checkedAdd a b = some c ↔ a.toNat + b.toNat = c.toNat := by
  have bound := c.toNat_lt
  have sum : (a + b).toNat = (a.toNat + b.toNat) % 2 ^ 64 := UInt64.toNat_add a b
  rw [checkedAdd]
  split
  · next fits =>
      rw [Option.some_inj, ← UInt64.toNat_inj, sum, Nat.mod_eq_of_lt fits]
  · next wraps =>
      constructor
      · intro h
        cases h
      · intro h
        omega

/-- `u32::try_from` of a `usize`. -/
def u32TryFrom (n : Nat) : Option UInt32 := if n < 2 ^ 32 then some (.ofNat n) else none

/-! ### Files -/

inductive IoError
  | notFound
  | invalidData
  | unexpectedEof
deriving DecidableEq, Repr

/-- The contents of the files that can be read, by path. -/
abbrev Disk (Path : Type) := Path → Option (List Byte)

namespace Disk

variable {Path : Type}

def read (disk : Disk Path) (path : Path) : Except IoError (List Byte) :=
  Checked.okOr (disk path) .notFound

/-- `fs::read_to_string`. -/
def readToString (disk : Disk Path) (path : Path) : Except IoError Str := do
  let content ← disk.read path
  let chars ← Checked.okOr content.toByteArray.utf8Decode? .invalidData
  return chars.toList

end Disk

/-- Decoding accepts exactly the encodings. -/
theorem utf8Decode_eq_some {content : List Byte} {chars : Array Char} :
    content.toByteArray.utf8Decode? = some chars ↔ content = Str.bytes chars.toList := by
  constructor
  · intro h
    have back := ByteArray.utf8Encode_get_utf8Decode? (b := content.toByteArray)
      (h := Option.isSome_of_eq_some h)
    simp only [h, Option.get_some] at back
    rw [← List.toList_data_toByteArray (l := content), ← back, List.utf8Encode,
      List.toList_data_toByteArray]
    rfl
  · rintro rfl
    show (List.utf8Encode chars.toList).utf8Decode? = _
    rw [List.utf8Decode?_utf8Encode, Array.toArray_toList]

@[simp] theorem Disk.readToString_eq_ok {Path : Type} {disk : Disk Path} {path : Path} {s : Str} :
    disk.readToString path = .ok s ↔ disk path = some s.bytes := by
  simp only [Disk.readToString, Disk.read, Checked.bind_eq_ok, Checked.okOr_eq_ok,
    Checked.pure_eq_ok, utf8Decode_eq_some]
  constructor
  · rintro ⟨content, found, chars, rfl, rfl⟩
    exact found
  · intro found
    exact ⟨_, found, s.toArray, rfl, rfl⟩

end PhylaRam.Verify
