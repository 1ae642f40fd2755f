import PhylaRam.Shared.Interfaces

/-!
# The parts of a path

`std::filesystem::path` in its Windows form, of which the program uses `filename` and
`extension`. Both kinds of slash separate directories; a root name is a drive letter
with its colon, a server or a device prefix.
-/

namespace PhylaRam.Path

def isSlash (c : UInt16) : Bool := c == 0x5C || c == 0x2F

def isDriveLetter (c : UInt16) : Bool := (0x41 ≤ c && c ≤ 0x5A) || (0x61 ≤ c && c ≤ 0x7A)

def colon : UInt16 := 0x3A

def dot : UInt16 := 0x2E

def questionMark : UInt16 := 0x3F

/-- The length of the root name. -/
def rootNameLength (path : WString) : Nat :=
  match path with
  | a :: b :: rest =>
      if isDriveLetter a && b == colon then 2
      else if !isSlash a then 0
      else
        match rest with
        | c :: d :: more =>
            if isSlash d && (more.head?.all fun e => !isSlash e) &&
                ((isSlash b && (c == questionMark || c == dot)) ||
                  (b == questionMark && c == questionMark)) then 3
            else if isSlash b && !isSlash c then 2 + (rest.takeWhile fun e => !isSlash e).length
            else 0
        | [c] => if isSlash b && !isSlash c then 3 else 0
        | [] => 0
  | _ => 0

/-- The part after the root name and the slashes that follow it. -/
def relativePath (path : WString) : WString := (path.drop (rootNameLength path)).dropWhile isSlash

/-- The part after the last slash. -/
def filename (path : WString) : WString :=
  ((relativePath path).reverse.takeWhile fun c => !isSlash c).reverse

/-- The last dot of the name and what follows it, before the name of a data stream. A
dot at the beginning of the name does not count, nor does the name `..`. -/
def extension (path : WString) : WString :=
  let name := (filename path).takeWhile fun c => c != colon
  let suffix := (name.reverse.takeWhile fun c => c != dot).reverse
  if name = [dot, dot] ∨ name.length ≤ suffix.length + 1 then [] else dot :: suffix

example : filename (wide "C:\\evidence\\case.raw") = wide "case.raw" := by decide

example : extension (wide "C:\\evidence.d\\case.E01") = wide ".E01" := by decide

end PhylaRam.Path
