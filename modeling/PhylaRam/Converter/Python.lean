import Mathlib.Data.Int.Basic
import Mathlib.Data.List.DropRight
import PhylaRam.Library.Image
import PhylaRam.Library.Json
import PhylaRam.Library.Packed
import PhylaRam.Shared.Interfaces

/-!
# What the converter uses of Python

`tools/phylaram_convert.py` works on integers without bounds and on the values of `json.load`.
An exception is `none`: nothing catches it, so it ends the conversion. What `int` takes for a
digit or for white space beyond ASCII is that of the interpreter's Unicode tables, which differ
between its versions; they are a parameter, with those of one version as an instance.
-/

namespace PhylaRam.Converter

open Packed Image

abbrev Text := List Char

/-- A value that `json.load` returns. A finite `float` is `mantissa * 2 ^ exponent`; the text
may also contain `NaN` and the infinities. -/
inductive Loaded
  | none
  | bool (b : Bool)
  | int (n : Int)
  | float (mantissa exponent : Int)
  | nonfinite
  | str (s : Text)
  | list (items : List Loaded)
  | dict (members : List (Text × Loaded))

/-- A `dict` of a loaded map. -/
abbrev Dict := List (Text × Loaded)

mutual

/-- What `json.load` makes of a value. -/
def loaded : Json.Value → Loaded
  | .null => .none
  | .bool b => .bool b
  | .number n => .int n
  | .string s => .str s
  | .array items => .list (loadedItems items)
  | .object members => .dict (loadedMembers members)

def loadedItems : List Json.Value → List Loaded
  | [] => []
  | item :: items => loaded item :: loadedItems items

def loadedMembers : List (List Char × Json.Value) → Dict
  | [] => []
  | (key, value) :: members => (key, loaded value) :: loadedMembers members

end

/-! ### `int` -/

/-- What depends on the version of the interpreter: `str.isdecimal` and `str.isspace` for
characters beyond ASCII, and `sys.get_int_max_str_digits`. -/
structure Python where
  decimal : Char → Option (Fin 10)
  space : Char → Bool
  maxStrDigits : Option Nat

/-- The zeros of the decimal digits beyond ASCII, in Unicode 14. -/
def zeros14 : List Nat :=
  [0x660, 0x6F0, 0x7C0, 0x966, 0x9E6, 0xA66, 0xAE6, 0xB66, 0xBE6, 0xC66, 0xCE6, 0xD66, 0xDE6,
    0xE50, 0xED0, 0xF20, 0x1040, 0x1090, 0x17E0, 0x1810, 0x1946, 0x19D0, 0x1A80, 0x1A90, 0x1B50,
    0x1BB0, 0x1C40, 0x1C50, 0xA620, 0xA8D0, 0xA900, 0xA9D0, 0xA9F0, 0xAA50, 0xABF0, 0xFF10,
    0x104A0, 0x10D30, 0x11066, 0x110F0, 0x11136, 0x111D0, 0x112F0, 0x11450, 0x114D0, 0x11650,
    0x116C0, 0x11730, 0x118E0, 0x11950, 0x11C50, 0x11D50, 0x11DA0, 0x16A60, 0x16AC0, 0x16B50,
    0x1D7CE, 0x1D7D8, 0x1D7E2, 0x1D7EC, 0x1D7F6, 0x1E140, 0x1E2F0, 0x1E950, 0x1FBF0]

/-- Python 3.11 with its default limit. -/
def python311 : Python where
  decimal c :=
    (zeros14.find? fun first => first ≤ c.toNat && c.toNat < first + 10).map fun first =>
      Fin.ofNat 10 (c.toNat - first)
  space c :=
    [0x85, 0xA0, 0x1680, 0x2028, 0x2029, 0x202F, 0x205F, 0x3000].contains c.toNat ||
      (0x2000 ≤ c.toNat && c.toNat ≤ 0x200A)
  maxStrDigits := some 4300

/-- A text is reduced to ASCII first; what is neither a digit nor white space then ends the
number with an error. -/
def Python.toAscii (py : Python) (c : Char) : Char :=
  if c.toNat < 0x80 then c
  else if py.space c then ' '
  else
    match py.decimal c with
    | some d => Char.ofNat ('0'.toNat + d)
    | none => '?'

/-- The white space of C, which is less than that of `str.isspace` even within ASCII. -/
def isSpace (c : Char) : Bool := c == ' ' || ('\t'.toNat ≤ c.toNat && c.toNat ≤ '\r'.toNat)

def strip (text : Text) : Text := (text.dropWhile isSpace).rdropWhile isSpace

/-- The value of a digit or a letter. -/
def digitOf (c : Char) : Option Nat :=
  if c.isDigit then some (c.toNat - '0'.toNat)
  else if c.isAlpha then some (c.toLower.toNat - 'a'.toNat + 10)
  else none

/-- Digits of the base, between which single underscores may stand. -/
def digits (base : Nat) : Nat → Text → Option Nat
  | n, [] => some n
  | n, '_' :: c :: rest => do
      let d ← digitOf c
      if d < base then digits base (n * base + d) rest else none
  | n, c :: rest => do
      let d ← digitOf c
      if d < base then digits base (n * base + d) rest else none

/-- A number in base 16 may begin with `0x`. -/
def unprefixed (base : Nat) : Text → Text
  | '0' :: c :: rest =>
      if base = 16 ∧ (c = 'x' ∨ c = 'X') then
        match rest with
        | '_' :: rest => rest
        | rest => rest
      else '0' :: c :: rest
  | text => text

/-- The number of digits is limited for a base that is not a power of two. -/
def Python.tooLong (py : Python) (base : Nat) (text : Text) : Bool :=
  match py.maxStrDigits with
  | some limit => base == 10 && limit < (text.filter (· != '_')).length
  | none => false

def unsigned (py : Python) (base : Nat) (text : Text) : Option Nat :=
  match unprefixed base text with
  | [] => none
  | '_' :: _ => none
  | text => if py.tooLong base text then none else digits base 0 text

/-- `int(text, base)` -/
def intOf (py : Python) (base : Nat) (text : Text) : Option Int :=
  match strip (text.map py.toAscii) with
  | '-' :: rest => (unsigned py base rest).map fun n => -(n : Int)
  | '+' :: rest => (unsigned py base rest).map Int.ofNat
  | rest => (unsigned py base rest).map Int.ofNat

example : intOf python311 16 "0x1F000".toList = some 0x1F000 := by decide +kernel

example : intOf python311 10 " -1_\u0660\u0660_\uFF10\n".toList = some (-1000) := by decide +kernel

/-- A value where an integer is needed; a `bool` is one, a `float` is not. -/
def index : Loaded → Option Int
  | .int n => some n
  | .bool b => some (if b then 1 else 0)
  | _ => none

/-- `int(value)`, with the given base if the value is a text. -/
def toInt (py : Python) (base : Nat) : Loaded → Option Int
  | .str text => intOf py base text
  | .float mantissa exponent =>
      some (if 0 ≤ exponent then mantissa * 2 ^ exponent.toNat
        else mantissa.tdiv (2 ^ (-exponent).toNat))
  | value => index value

/-! ### Dictionaries -/

/-- `members[key]`: `json.load` keeps the last of several members of one name. -/
def item (key : String) (members : Dict) : Option Loaded :=
  (members.reverse.find? fun m => m.1 == key.toList).map Prod.snd

/-- `members.get(key, default)` -/
def get (key : String) (default : Loaded) (members : Dict) : Loaded :=
  (item key members).getD default

/-- `not value` -/
def falsy : Loaded → Bool
  | .none => true
  | .bool b => !b
  | .int n => n == 0
  | .float mantissa _ => mantissa == 0
  | .nonfinite => false
  | .str s => s.isEmpty
  | .list items => items.isEmpty
  | .dict members => members.isEmpty

/-! ### `struct` -/

/-- `struct.pack("<I", value)` -/
def packI (value : Int) : Option (List Byte) :=
  if 0 ≤ value ∧ value < 2 ^ 32 then some (u32 (.ofNat value.toNat)) else none

/-- `struct.pack("<Q", value)` -/
def packQ (value : Int) : Option (List Byte) :=
  if 0 ≤ value ∧ value < 2 ^ 64 then some (u64 (.ofNat value.toNat)) else none

/-- `struct.pack_into("<I", buffer, offset, value)` -/
def packIntoI (buffer : List Byte) (offset : Nat) (value : Int) : Option (List Byte) :=
  (packI value).map (patch 0 buffer offset)

/-- `struct.pack_into("<Q", buffer, offset, value)` -/
def packIntoQ (buffer : List Byte) (offset : Nat) (value : Int) : Option (List Byte) :=
  (packQ value).map (patch 0 buffer offset)

theorem packI_eq_some {value : Int} {bytes : List Byte} (h : packI value = some bytes) :
    0 ≤ value ∧ value < 2 ^ 32 ∧ bytes = u32 (.ofNat value.toNat) := by
  rw [packI] at h
  split at h
  · next fits => exact ⟨fits.1, fits.2, (Option.some.inj h).symm⟩
  · cases h

theorem packQ_eq_some {value : Int} {bytes : List Byte} (h : packQ value = some bytes) :
    0 ≤ value ∧ value < 2 ^ 64 ∧ bytes = u64 (.ofNat value.toNat) := by
  rw [packQ] at h
  split at h
  · next fits => exact ⟨fits.1, fits.2, (Option.some.inj h).symm⟩
  · cases h

/-! ### The ranges of a map -/

/-- A range after `int` has been applied to its members. -/
structure Range where
  start : Int
  length : Int
deriving DecidableEq, Repr

/-- What the image has of a range. -/
def Range.bytes (raw : List Byte) (range : Range) : List Byte :=
  (raw.drop range.start.toNat).take range.length.toNat

def rangeOf (py : Python) : Loaded → Option Range
  | .dict members => do
      let length ← toInt py 10 (← item "length" members)
      let start ← toInt py 16 (← item "start" members)
      some ⟨start, length⟩
  | _ => none

/-- One run that covers the whole image. -/
def wholeImage (raw : List Byte) : List Loaded :=
  [.dict [("driver_run".toList, .int 0), ("start".toList, .str "0x0".toList),
    ("length".toList, .int raw.length)]]

/-- If the map has no ranges, a single contiguous run is inferred. -/
def rangesOf (py : Python) (raw : List Byte) (mapData : Dict) : Option (List Range) :=
  match get "ranges" (.list []) mapData with
  | .list items => ((if items.isEmpty then wholeImage raw else items).mapM (rangeOf py))
  | value => if falsy value then (wholeImage raw).mapM (rangeOf py) else none

/-- `in_f.seek(start)`: the offset of a file has 63 bits. -/
def seekable (start : Int) : Bool := 0 ≤ start && start < 2 ^ 63

/-- The file pointer after `in_f.seek(start)`. -/
def seek (start : Int) : Option Nat := if seekable start then some start.toNat else none

/-- Whether the path of the output names the file that is read, which `open(output_path, "wb")`
then empties. -/
inductive Output
  | other
  | same
deriving DecidableEq, Repr

/-- The files of a conversion: the RAW file as it was, the output, and how much of the bytes
written so far has left the buffer of the output. -/
structure OpenFiles where
  raw : List Byte
  output : Output
  flushed : Nat → Nat

/-- What `in_f` has when the bytes `written` have been written. -/
def OpenFiles.image (files : OpenFiles) (written : List Byte) : List Byte :=
  match files.output with
  | .other => files.raw
  | .same => written.take (files.flushed written.length)

/-- `in_f.read(count)`: fewer bytes only at the end of the file. -/
def read (image : List Byte) (position count : Nat) : List Byte := (image.drop position).take count

def totalLength (ranges : List Range) : Int := (ranges.map Range.length).sum

end PhylaRam.Converter
