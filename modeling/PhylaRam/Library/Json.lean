import Mathlib.Data.List.DropRight
import Mathlib.Data.List.TakeWhile
import Mathlib.Tactic.IntervalCases
import PhylaRam.Library.Numeral

/-!
# JSON texts

`Denotes` is the part of the JSON grammar without escapes in strings and without signs,
fractions and exponents in numbers: which value a text writes. It allows white space
wherever JSON does. `Denotes.parse` says that the parser below finds the value of every
text that has one; so no text writes two values.
-/

namespace Json

inductive Value
  | null
  | bool (b : Bool)
  | number (n : Nat)
  | string (s : List Char)
  | array (items : List Value)
  | object (members : List (List Char × Value))

/-- What a stretch of text can stand for: a value, or the inside of a bracket. -/
inductive Node
  | value (v : Value)
  | items (vs : List Value)
  | members (ms : List (List Char × Value))

def isBlank (c : Char) : Bool := c == ' ' || c == '\n' || c == '\r' || c == '\t'

/-- A character that a string contains unescaped. -/
def isPlain (c : Char) : Bool := c != '"' && c != '\\' && 0x20 ≤ c.toNat

def Blank (text : List Char) : Prop := ∀ c ∈ text, isBlank c = true

def Plain (text : List Char) : Prop := ∀ c ∈ text, isPlain c = true

instance (text : List Char) : Decidable (Blank text) :=
  List.decidableBAll (fun c => isBlank c = true) text

instance (text : List Char) : Decidable (Plain text) :=
  List.decidableBAll (fun c => isPlain c = true) text

def quoted (s : List Char) : List Char := '"' :: (s ++ ['"'])

def decimal (n : Nat) : List Char := (Numeral.digits 10 n).map Nat.digitChar

def boolText (b : Bool) : List Char := if b then ['t', 'r', 'u', 'e'] else ['f', 'a', 'l', 's', 'e']

inductive Denotes : List Char → Node → Prop
  | null : Denotes ['n', 'u', 'l', 'l'] (.value .null)
  | bool (b : Bool) : Denotes (boolText b) (.value (.bool b))
  | number (n : Nat) : Denotes (decimal n) (.value (.number n))
  | string {s : List Char} (plain : Plain s) : Denotes (quoted s) (.value (.string s))
  | array {text : List Char} {vs : List Value} (inside : Denotes text (.items vs)) :
      Denotes ('[' :: (text ++ [']'])) (.value (.array vs))
  | object {text : List Char} {ms : List (List Char × Value)}
      (inside : Denotes text (.members ms)) : Denotes ('{' :: (text ++ ['}'])) (.value (.object ms))
  | space {before text after : List Char} {v : Value} (blank : Blank before) (blank' : Blank after)
      (inside : Denotes text (.value v)) : Denotes (before ++ text ++ after) (.value v)
  | noItems {text : List Char} (blank : Blank text) : Denotes text (.items [])
  | item {text : List Char} {v : Value} (first : Denotes text (.value v)) :
      Denotes text (.items [v])
  | moreItems {text rest : List Char} {v w : Value} {vs : List Value}
      (first : Denotes text (.value v)) (next : Denotes rest (.items (w :: vs))) :
      Denotes (text ++ ',' :: rest) (.items (v :: w :: vs))
  | noMembers {text : List Char} (blank : Blank text) : Denotes text (.members [])
  | member {before key after text : List Char} {v : Value} (blank : Blank before)
      (plain : Plain key) (blank' : Blank after) (first : Denotes text (.value v)) :
      Denotes (before ++ quoted key ++ after ++ ':' :: text) (.members [(key, v)])
  | moreMembers {text rest : List Char} {m n : List Char × Value} {ms : List (List Char × Value)}
      (first : Denotes text (.members [m])) (next : Denotes rest (.members (n :: ms))) :
      Denotes (text ++ ',' :: rest) (.members (m :: n :: ms))

/-! ### The parser -/

def skip (text : List Char) : List Char := text.dropWhile isBlank

def digitValue (c : Char) : Nat := c.toNat - '0'.toNat

mutual

/-- One value and the white space around it. `fuel` bounds the depth of the recursion. -/
def parseValue : Nat → List Char → Option (Value × List Char)
  | 0, _ => none
  | fuel + 1, text =>
      match skip text with
      | 'n' :: 'u' :: 'l' :: 'l' :: rest => some (.null, skip rest)
      | 't' :: 'r' :: 'u' :: 'e' :: rest => some (.bool true, skip rest)
      | 'f' :: 'a' :: 'l' :: 's' :: 'e' :: rest => some (.bool false, skip rest)
      | '"' :: rest => some (.string (rest.takeWhile isPlain), skip (rest.dropWhile isPlain).tail)
      | '[' :: rest =>
          match skip rest with
          | ']' :: rest => some (.array [], skip rest)
          | rest => (parseItems fuel rest).map (Prod.map .array id)
      | '{' :: rest =>
          match skip rest with
          | '}' :: rest => some (.object [], skip rest)
          | rest => (parseMembers fuel rest).map (Prod.map .object id)
      | text =>
          some (.number (Numeral.value 10 ((text.takeWhile Char.isDigit).map digitValue)),
            skip (text.dropWhile Char.isDigit))

/-- Values separated by commas, up to the closing bracket. -/
def parseItems : Nat → List Char → Option (List Value × List Char)
  | 0, _ => none
  | fuel + 1, text => do
      let (v, rest) ← parseValue fuel text
      match rest with
      | ',' :: rest => (parseItems fuel rest).map (Prod.map (List.cons v) id)
      | ']' :: rest => some ([v], skip rest)
      | _ => none

/-- Members separated by commas, up to the closing brace. -/
def parseMembers : Nat → List Char → Option (List (List Char × Value) × List Char)
  | 0, _ => none
  | fuel + 1, text =>
      match skip text with
      | '"' :: rest =>
          match skip (rest.dropWhile isPlain).tail with
          | ':' :: inside => do
              let (v, after) ← parseValue fuel inside
              let m := (rest.takeWhile isPlain, v)
              match after with
              | ',' :: rest => (parseMembers fuel rest).map (Prod.map (List.cons m) id)
              | '}' :: rest => some ([m], skip rest)
              | _ => none
          | _ => none
      | _ => none

end

/-- The value that a whole text writes. -/
def parse (text : List Char) : Option Value :=
  match parseValue text.length text with
  | some (v, []) => some v
  | _ => none

/-! ### The parser finds what the grammar derives -/

section Scanning

variable {before text rest more : List Char} {c : Char} {fuel : Nat}

theorem skip_blank (blank : Blank before) : skip (before ++ text) = skip text :=
  List.dropWhile_append_of_pos blank

theorem skip_cons (plain : isBlank c = false) : skip (c :: text) = c :: text := by
  rw [skip, List.dropWhile_cons_of_neg (by rw [plain]; decide)]

@[simp] theorem skip_skip : skip (skip text) = skip text := List.dropWhile_idempotent ..

/-- The parsers begin by skipping. -/
theorem parseValue_skip : parseValue fuel (skip text) = parseValue fuel text := by
  cases fuel with
  | zero => rfl
  | succ fuel => rw [parseValue, parseValue, skip_skip]

theorem parseItems_skip : parseItems fuel (skip text) = parseItems fuel text := by
  cases fuel with
  | zero => rfl
  | succ fuel => rw [parseItems, parseItems, parseValue_skip]

theorem parseMembers_skip : parseMembers fuel (skip text) = parseMembers fuel text := by
  cases fuel with
  | zero => rfl
  | succ fuel => rw [parseMembers, parseMembers, skip_skip]

/-- A numeral cannot go on in the text. -/
def Ends (rest : List Char) : Prop := ∀ c ∈ rest.head?, c.isDigit = false

theorem ends_append (blank : Blank before) (ends : Ends rest) : Ends (before ++ rest) := by
  cases before with
  | nil => exact ends
  | cons c more =>
      intro d head
      have blank := blank c List.mem_cons_self
      rw [List.cons_append, List.head?_cons, Option.mem_some_iff] at head
      subst head
      simp only [isBlank, Bool.or_eq_true, beq_iff_eq] at blank
      obtain ((rfl | rfl) | rfl) | rfl := blank <;> decide

theorem takeWhile_stop {p : Char → Bool} (all : ∀ d ∈ text, p d = true)
    (stop : ∀ d ∈ rest.head?, p d = false) : (text ++ rest).takeWhile p = text := by
  rw [List.takeWhile_append_of_pos all]
  cases rest with
  | nil => rw [List.takeWhile_nil, List.append_nil]
  | cons d more =>
      rw [List.takeWhile_cons_of_neg (by rw [stop d rfl]; decide), List.append_nil]

theorem dropWhile_stop {p : Char → Bool} (all : ∀ d ∈ text, p d = true)
    (stop : ∀ d ∈ rest.head?, p d = false) : (text ++ rest).dropWhile p = rest := by
  rw [List.dropWhile_append_of_pos all]
  cases rest with
  | nil => rfl
  | cons d more => exact List.dropWhile_cons_of_neg (by rw [stop d rfl]; decide)

/-! #### Numbers -/

theorem digitValue_digitChar {d : Nat} (small : d < 10) : digitValue (Nat.digitChar d) = d := by
  interval_cases d <;> rfl

theorem isDigit_digitChar {d : Nat} (small : d < 10) : (Nat.digitChar d).isDigit = true := by
  interval_cases d <;> rfl

theorem isDigit_decimal (n : Nat) : ∀ d ∈ decimal n, d.isDigit = true := by
  intro c member
  obtain ⟨d, digit, rfl⟩ := List.mem_map.mp member
  exact isDigit_digitChar (Numeral.digits_lt (by decide) digit)

theorem value_decimal (n : Nat) : Numeral.value 10 ((decimal n).map digitValue) = n := by
  have same : (Numeral.digits 10 n).map (digitValue ∘ Nat.digitChar) = Numeral.digits 10 n := by
    refine (List.map_congr_left fun d member => ?_).trans (List.map_id _)
    exact digitValue_digitChar (Numeral.digits_lt (by decide) member)
  rw [decimal, List.map_map, same, Numeral.value_digits]

theorem exists_decimal (n : Nat) :
    ∃ d more, d < 10 ∧ decimal n = Nat.digitChar d :: more := by
  cases split : Numeral.digits 10 n with
  | nil => exact (Numeral.digits_ne_nil split).elim
  | cons d ds =>
      refine ⟨d, ds.map Nat.digitChar, ?_, ?_⟩
      · have member : d ∈ Numeral.digits 10 n := split ▸ List.mem_cons_self
        exact Numeral.digits_lt (by decide) member
      · rw [decimal, split, List.map_cons]

theorem parseValue_digit {d : Nat} (small : d < 10) :
    parseValue (fuel + 1) (Nat.digitChar d :: more) =
      some (.number (Numeral.value 10
          (((Nat.digitChar d :: more).takeWhile Char.isDigit).map digitValue)),
        skip ((Nat.digitChar d :: more).dropWhile Char.isDigit)) := by
  interval_cases d <;> rfl

end Scanning

section Completeness

variable {text rest before after key inside s : List Char} {v : Value} {vs : List Value}
  {m : List Char × Value} {ms : List (List Char × Value)} {node : Node} {fuel : Nat}

/-- The parser reads this value off the text, whatever follows. -/
structure ParsesValue (text : List Char) (v : Value) : Prop where
  starts : ∀ rest, ∃ c more, skip (text ++ rest) = c :: more ∧ c ≠ ']'
  parse : ∀ rest fuel, Ends rest → text.length ≤ fuel →
    parseValue fuel (text ++ rest) = some (v, skip rest)

structure ParsesItems (text : List Char) (vs : List Value) : Prop where
  starts : ∀ rest, ∃ c more, skip (text ++ rest) = c :: more ∧ c ≠ ']'
  parse : ∀ rest fuel, text.length < fuel →
    parseItems fuel (text ++ ']' :: rest) = some (vs, skip rest)

/-- A single member may also be followed by others. -/
structure ParsesMembers (text : List Char) (ms : List (List Char × Value)) : Prop where
  starts : ∀ rest, ∃ more, skip (text ++ rest) = '"' :: more
  parse : ∀ rest fuel, text.length < fuel →
    parseMembers fuel (text ++ '}' :: rest) = some (ms, skip rest)
  next : ∀ m, ms = [m] → ∀ rest fuel, text.length ≤ fuel →
    parseMembers (fuel + 1) (text ++ ',' :: rest) =
      (parseMembers fuel rest).map (Prod.map (List.cons m) id)

def Parses (text : List Char) : Node → Prop
  | .value v => ParsesValue text v
  | .items [] => Blank text
  | .items (v :: vs) => ParsesItems text (v :: vs)
  | .members [] => Blank text
  | .members (m :: ms) => ParsesMembers text (m :: ms)

theorem ends_cons {c : Char} (other : c.isDigit = false) : Ends (c :: rest) := by
  rintro d ⟨⟩
  exact other

/-- A value whose first character decides how it is parsed. -/
theorem ParsesValue.of_head {c : Char} {tail : List Char} (solid : isBlank c = false)
    (other : c ≠ ']') (parse : ∀ rest fuel, Ends rest → tail.length ≤ fuel →
      parseValue (fuel + 1) (c :: (tail ++ rest)) = some (v, skip rest)) :
    ParsesValue (c :: tail) v where
  starts rest := ⟨c, tail ++ rest, skip_cons solid, other⟩
  parse rest fuel ends enough := by
    cases fuel with
    | zero => exact (Nat.not_succ_le_zero _ enough).elim
    | succ fuel => exact parse rest fuel ends (Nat.le_of_succ_le_succ enough)

theorem parses_number (n : Nat) : ParsesValue (decimal n) (.number n) := by
  obtain ⟨d, more, small, split⟩ := exists_decimal n
  have all := isDigit_decimal n
  have number := value_decimal n
  rw [split] at all number ⊢
  refine .of_head (by interval_cases d <;> rfl) (by interval_cases d <;> decide) ?_
  intro rest fuel ends _
  rw [parseValue_digit small, ← List.cons_append, takeWhile_stop all ends,
    dropWhile_stop all ends, number]

theorem parses_string (plain : Plain s) : ParsesValue (quoted s) (.string s) := by
  refine .of_head rfl (by decide) fun rest fuel _ _ => ?_
  have stop : ∀ d ∈ ('"' :: rest).head?, isPlain d = false := by
    rintro d ⟨⟩
    rfl
  show some (Value.string ((s ++ ['"'] ++ rest).takeWhile isPlain),
    skip ((s ++ ['"'] ++ rest).dropWhile isPlain).tail) = _
  rw [List.append_assoc, List.singleton_append, takeWhile_stop plain stop,
    dropWhile_stop plain stop, List.tail_cons]

theorem parseValue_array {c : Char} {more : List Char} (first : skip text = c :: more)
    (other : c ≠ ']') :
    parseValue (fuel + 1) ('[' :: text) = (parseItems fuel text).map (Prod.map .array id) := by
  rw [← parseItems_skip, parseValue, skip_cons rfl]
  simp only [first]
  split
  · next bracket => exact (other (List.cons.inj bracket).1).elim
  · rfl

theorem parses_array (inside : Parses text (.items vs)) :
    ParsesValue ('[' :: (text ++ [']'])) (.array vs) := by
  refine .of_head rfl (by decide) fun rest fuel _ enough => ?_
  rw [List.length_append, List.length_singleton] at enough
  rw [List.append_assoc, List.singleton_append]
  cases vs with
  | nil =>
      rw [parseValue, skip_cons rfl]
      simp only [skip_blank inside]
      rw [skip_cons rfl]
      rfl
  | cons v vs =>
      obtain ⟨c, more, first, other⟩ := inside.starts (']' :: rest)
      rw [parseValue_array first other, inside.parse rest fuel enough]
      rfl

theorem parseValue_object {more : List Char} (first : skip text = '"' :: more) :
    parseValue (fuel + 1) ('{' :: text) =
      (parseMembers fuel text).map (Prod.map .object id) := by
  rw [← parseMembers_skip, parseValue, skip_cons rfl]
  simp only [first]
  rfl

theorem parses_object (inside : Parses text (.members ms)) :
    ParsesValue ('{' :: (text ++ ['}'])) (.object ms) := by
  refine .of_head rfl (by decide) fun rest fuel _ enough => ?_
  rw [List.length_append, List.length_singleton] at enough
  rw [List.append_assoc, List.singleton_append]
  cases ms with
  | nil =>
      rw [parseValue, skip_cons rfl]
      simp only [skip_blank inside]
      rw [skip_cons rfl]
      rfl
  | cons m ms =>
      obtain ⟨more, first⟩ := inside.starts ('}' :: rest)
      rw [parseValue_object first, inside.parse rest fuel enough]
      rfl

theorem ParsesValue.space (h : ParsesValue text v) (blank : Blank before) (blank' : Blank after) :
    ParsesValue (before ++ text ++ after) v where
  starts rest := by
    obtain ⟨c, more, first, other⟩ := h.starts (after ++ rest)
    refine ⟨c, more, ?_, other⟩
    rw [List.append_assoc, List.append_assoc, skip_blank blank, first]
  parse rest fuel ends enough := by
    rw [List.length_append, List.length_append] at enough
    rw [← parseValue_skip, List.append_assoc, List.append_assoc, skip_blank blank,
      parseValue_skip, h.parse _ _ (ends_append blank' ends) (by omega), skip_blank blank']

theorem ParsesValue.item (h : ParsesValue text v) : ParsesItems text [v] where
  starts := h.starts
  parse rest fuel enough := by
    cases fuel with
    | zero => exact (Nat.not_lt_zero _ enough).elim
    | succ fuel =>
        rw [parseItems, h.parse _ _ (ends_cons rfl) (by omega), skip_cons rfl]
        rfl

theorem ParsesValue.items (h : ParsesValue text v) (tail : ParsesItems rest vs) :
    ParsesItems (text ++ ',' :: rest) (v :: vs) where
  starts more := by
    rw [List.append_assoc]
    exact h.starts _
  parse more fuel enough := by
    rw [List.length_append, List.length_cons] at enough
    cases fuel with
    | zero => exact (Nat.not_lt_zero _ enough).elim
    | succ fuel =>
        have first := h.parse (',' :: (rest ++ ']' :: more)) fuel (ends_cons rfl) (by omega)
        have next := tail.parse more fuel (by omega)
        rw [skip_cons rfl] at first
        rw [parseItems, List.append_assoc, List.cons_append, first]
        show (parseItems fuel (rest ++ ']' :: more)).map _ = _
        rw [next]
        rfl

/-- A member and the character after it. -/
theorem parseMembers_member (h : ParsesValue text v) (blank : Blank before) (plain : Plain key)
    (blank' : Blank after) (enough : text.length ≤ fuel) :
    parseMembers (fuel + 1) (before ++ quoted key ++ after ++ ':' :: text ++ '}' :: rest) =
        some ([(key, v)], skip rest) ∧
      parseMembers (fuel + 1) (before ++ quoted key ++ after ++ ':' :: text ++ ',' :: rest) =
        (parseMembers fuel rest).map (Prod.map (List.cons (key, v)) id) := by
  have stop {more : List Char} : ∀ d ∈ ('"' :: more).head?, isPlain d = false := by
    rintro d ⟨⟩
    rfl
  have shape (more : List Char) : before ++ quoted key ++ after ++ ':' :: text ++ more =
      before ++ '"' :: (key ++ '"' :: (after ++ ':' :: (text ++ more))) := by
    simp only [quoted, List.append_assoc, List.cons_append, List.nil_append]
  have value {c : Char} (other : c.isDigit = false) (solid : isBlank c = false) :
      parseValue fuel (text ++ c :: rest) = some (v, c :: rest) := by
    rw [h.parse _ _ (ends_cons other) enough, skip_cons solid]
  constructor <;> rw [shape, parseMembers, skip_blank blank, skip_cons rfl] <;>
    simp only [takeWhile_stop plain stop, dropWhile_stop plain stop, List.tail_cons,
      skip_blank blank']
  · rw [skip_cons rfl]
    simp only [value (c := '}') rfl rfl]
    rfl
  · rw [skip_cons rfl]
    simp only [value (c := ',') rfl rfl]
    rfl

theorem ParsesValue.member (h : ParsesValue text v) (blank : Blank before) (plain : Plain key)
    (blank' : Blank after) :
    ParsesMembers (before ++ quoted key ++ after ++ ':' :: text) [(key, v)] where
  starts rest := by
    refine ⟨key ++ '"' :: (after ++ ':' :: (text ++ rest)), ?_⟩
    simp only [quoted, List.append_assoc, List.cons_append, List.nil_append]
    rw [skip_blank blank, skip_cons rfl]
  parse rest fuel enough := by
    simp only [List.length_append, List.length_cons] at enough
    cases fuel with
    | zero => exact (Nat.not_lt_zero _ enough).elim
    | succ fuel => exact (parseMembers_member h blank plain blank' (by omega)).1
  next m same rest fuel enough := by
    cases same
    simp only [List.length_append, List.length_cons] at enough
    exact (parseMembers_member h blank plain blank' (by omega)).2

theorem ParsesMembers.members {n : List Char × Value} (h : ParsesMembers text [m])
    (tail : ParsesMembers rest (n :: ms)) : ParsesMembers (text ++ ',' :: rest) (m :: n :: ms) where
  starts more := by
    rw [List.append_assoc]
    exact h.starts _
  parse more fuel enough := by
    rw [List.length_append, List.length_cons] at enough
    cases fuel with
    | zero => exact (Nat.not_lt_zero _ enough).elim
    | succ fuel =>
        rw [List.append_assoc, List.cons_append, h.next m rfl _ _ (by omega),
          tail.parse more _ (by omega)]
        rfl
  next m' single := nomatch (List.cons.inj single).2

theorem Denotes.parses (h : Denotes text node) : Parses text node := by
  induction h with
  | null => exact .of_head rfl (by decide) fun rest fuel _ _ => rfl
  | bool b => cases b <;> exact .of_head rfl (by decide) fun rest fuel _ _ => rfl
  | number n => exact parses_number n
  | string plain => exact parses_string plain
  | array _ ih => exact parses_array ih
  | object _ ih => exact parses_object ih
  | space blank blank' _ ih => exact ih.space blank blank'
  | noItems blank => exact blank
  | item _ ih => exact ParsesValue.item ih
  | moreItems _ _ first next => exact ParsesValue.items first next
  | noMembers blank => exact blank
  | member blank plain blank' _ ih => exact ParsesValue.member ih blank plain blank'
  | moreMembers _ _ first next => exact ParsesMembers.members first next

/-- A text that the grammar derives is parsed, to the value it was derived for. -/
theorem Denotes.parse (h : Denotes text (.value v)) : parse text = some v := by
  have parsed := h.parses.parse [] text.length (fun _ head => nomatch head) (Nat.le_refl _)
  rw [List.append_nil] at parsed
  rw [Json.parse, parsed]
  rfl

theorem Denotes.unique {w : Value} (h : Denotes text (.value v)) (h' : Denotes text (.value w)) :
    v = w := Option.some.inj (h.parse.symm.trans h'.parse)

end Completeness

end Json
