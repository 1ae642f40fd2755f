import Mathlib.Data.List.Nodup
import Mathlib.Data.List.TakeWhile

/-!
# Texts of named fields

A text of lines, each with a name and a value on the two sides of its first separator.
Reading such a text back gives the fields as they were written if no value contains the end
of a line. Without that condition a field still begins with its own line, which holds its
value as far as the first line end. A text that can be read back is the text of no other
values under the same names.
-/

namespace Fields

section Named

variable {κ ν : Type} [BEq κ] [LawfulBEq κ] {fields : List (κ × ν)} {name : κ} {value : ν}

theorem filter_absent (absent : name ∉ fields.map Prod.fst) :
    fields.filter (fun field => field.1 == name) = [] := by
  refine List.filter_eq_nil_iff.mpr fun field member same => absent ?_
  rw [← beq_iff_eq.mp same]
  exact List.mem_map_of_mem member

/-- Where no name occurs twice, the fields with a name are the one that has it. -/
theorem filter_member (once : (fields.map Prod.fst).Nodup) (member : (name, value) ∈ fields) :
    fields.filter (fun field => field.1 == name) = [(name, value)] := by
  induction fields with
  | nil => cases member
  | cons field fields ih =>
      obtain ⟨fresh, once⟩ := List.nodup_cons.mp once
      cases member with
      | head => simp only [List.filter_cons, beq_self_eq_true, if_true, filter_absent fresh]
      | tail _ later =>
          have other : (field.1 == name) = false := by
            rw [beq_eq_false_iff_ne]
            rintro rfl
            have named := List.mem_map_of_mem (f := Prod.fst) later
            exact fresh named
          rw [List.filter_cons, other]
          exact ih once later

end Named

variable {α : Type} [DecidableEq α]

/-- A line at its first separator. -/
def cut (separator : α) (line : List α) : List α × List α :=
  (line.takeWhile (· != separator), (line.dropWhile (· != separator)).drop 1)

/-- The fields of a text; what follows the last line end counts as a line. -/
def fieldsOf (newline separator : α) (text : List α) : List (List α × List α) :=
  (text.splitOn newline).map (cut separator)

/-- A line for each field. -/
def written (newline separator : α) (fields : List (List α × List α)) : List α :=
  fields.flatMap fun field => field.1 ++ separator :: (field.2 ++ [newline])

variable {newline separator : α} {name value : List α} {fields : List (List α × List α)}

theorem takeWhile_ne (absent : separator ∉ name) (rest : List α) :
    (name ++ separator :: rest).takeWhile (· != separator) = name := by
  rw [List.takeWhile_append_of_pos, List.takeWhile_cons_of_neg, List.append_nil]
  · simp
  · intro a member
    rw [bne_iff_ne]
    rintro rfl
    exact absent member

theorem cut_append (absent : separator ∉ name) :
    cut separator (name ++ separator :: value) = (name, value) := by
  have rest := List.takeWhile_append_dropWhile (p := (· != separator))
    (l := name ++ separator :: value)
  rw [takeWhile_ne absent, List.append_cancel_left_eq] at rest
  rw [cut, takeWhile_ne absent, rest]
  rfl

theorem fieldsOf_append (front back : List α) :
    fieldsOf newline separator (front ++ newline :: back) =
      fieldsOf newline separator front ++ fieldsOf newline separator back := by
  have lines : (front ++ newline :: back).splitOn newline =
      front.splitOn newline ++ back.splitOn newline :=
    List.splitOnP_append_cons front back (beq_self_eq_true newline)
  rw [fieldsOf, lines, List.map_append]
  rfl

/-- A field without a line end is read as it was written. -/
theorem fieldsOf_line (different : separator ≠ newline) (oneLine : newline ∉ name)
    (absent : separator ∉ name) (whole : newline ∉ value) :
    fieldsOf newline separator (name ++ separator :: value) = [(name, value)] := by
  have line : newline ∉ name ++ separator :: value := by
    rw [List.mem_append, List.mem_cons]
    rintro (h | h | h)
    · exact oneLine h
    · exact different h.symm
    · exact whole h
  rw [fieldsOf, List.splitOn_eq_splitOnP, List.splitOnP_eq_singleton, List.map_singleton,
    cut_append absent]
  intro a member
  rw [beq_eq_false_iff_ne]
  rintro rfl
  exact line member

/-- The first line of a field has its name, and its value as far as the first line end. -/
theorem mem_fieldsOf_line (different : separator ≠ newline) (oneLine : newline ∉ name)
    (absent : separator ∉ name) :
    (name, value.takeWhile (· != newline)) ∈
      fieldsOf newline separator (name ++ separator :: value) := by
  by_cases broken : newline ∈ value
  · obtain ⟨front, back, rfl, whole⟩ := List.eq_append_cons_of_mem broken
    rw [takeWhile_ne whole, ← List.cons_append, ← List.append_assoc, fieldsOf_append,
      fieldsOf_line different oneLine absent whole]
    exact List.mem_cons_self
  · have whole : value.takeWhile (· != newline) = value := by
      refine List.takeWhile_eq_self_iff.mpr fun a member => ?_
      rw [bne_iff_ne]
      rintro rfl
      exact broken member
    rw [whole, fieldsOf_line different oneLine absent broken]
    exact List.mem_cons_self

/-- Names that a reader of lines can tell from their values. -/
structure Named (newline separator : α) (fields : List (List α × List α)) : Prop where
  different : separator ≠ newline
  oneLine : ∀ field ∈ fields, newline ∉ field.1
  absent : ∀ field ∈ fields, separator ∉ field.1

omit [DecidableEq α] in
theorem Named.tail {field : List α × List α} (named : Named newline separator (field :: fields)) :
    Named newline separator fields :=
  ⟨named.different, fun other member => named.oneLine other (List.mem_cons_of_mem _ member),
    fun other member => named.absent other (List.mem_cons_of_mem _ member)⟩

theorem fieldsOf_written_cons {field : List α × List α} :
    fieldsOf newline separator (written newline separator (field :: fields)) =
      fieldsOf newline separator (field.1 ++ separator :: field.2) ++
        fieldsOf newline separator (written newline separator fields) := by
  rw [← fieldsOf_append, written, List.flatMap_cons, List.append_assoc, List.cons_append,
    List.append_assoc, List.append_assoc]
  rfl

/-- Whatever the values are, each field begins with its own line. -/
theorem mem_fieldsOf_written (named : Named newline separator fields)
    (member : (name, value) ∈ fields) :
    (name, value.takeWhile (· != newline)) ∈
      fieldsOf newline separator (written newline separator fields) := by
  induction fields with
  | nil => cases member
  | cons field fields ih =>
      rw [fieldsOf_written_cons]
      cases member with
      | head =>
          exact List.mem_append_left _ (mem_fieldsOf_line named.different
            (named.oneLine _ List.mem_cons_self) (named.absent _ List.mem_cons_self))
      | tail _ later => exact List.mem_append_right _ (ih named.tail later)

/-- Without line ends in the values the fields are read as they were written. -/
theorem fieldsOf_written (named : Named newline separator fields)
    (whole : ∀ field ∈ fields, newline ∉ field.2) :
    fieldsOf newline separator (written newline separator fields) = fields ++ [([], [])] := by
  induction fields with
  | nil => rfl
  | cons field fields ih =>
      rw [fieldsOf_written_cons, fieldsOf_line named.different
        (named.oneLine _ List.mem_cons_self) (named.absent _ List.mem_cons_self)
        (whole _ List.mem_cons_self),
        ih named.tail fun other member => whole other (List.mem_cons_of_mem _ member)]
      rfl

/-- Every field ends one line, and its value the lines it contains. -/
theorem count_written (named : Named newline separator fields) :
    (written newline separator fields).count newline =
      fields.length + (fields.flatMap Prod.snd).count newline := by
  induction fields with
  | nil => rfl
  | cons field fields ih =>
      have rest : written newline separator (field :: fields) =
          field.1 ++ separator :: (field.2 ++ newline :: written newline separator fields) := by
        simp [written]
      have ofName := List.count_eq_zero.mpr (named.oneLine _ List.mem_cons_self)
      rw [rest, List.count_append, ofName, List.count_cons_of_ne named.different,
        List.count_append, List.count_cons_self, ih named.tail, List.length_cons,
        List.flatMap_cons, List.count_append]
      omega

/-- Values without line ends are told from all other values under the same names. -/
theorem written_injective {others : List (List α × List α)}
    (named : Named newline separator fields) (named' : Named newline separator others)
    (names : others.map Prod.fst = fields.map Prod.fst)
    (whole : ∀ field ∈ fields, newline ∉ field.2)
    (same : written newline separator others = written newline separator fields) :
    others = fields := by
  have length : others.length = fields.length := by
    simpa using congrArg List.length names
  have lines := congrArg (List.count newline) same
  rw [count_written named', count_written named, length] at lines
  have none : (fields.flatMap Prod.snd).count newline = 0 := List.count_eq_zero.mpr fun among => by
    obtain ⟨field, member, here⟩ := List.mem_flatMap.mp among
    exact whole field member here
  have none' : (others.flatMap Prod.snd).count newline = 0 := by omega
  have whole' : ∀ field ∈ others, newline ∉ field.2 := fun field member here =>
    List.count_eq_zero.mp none' (List.mem_flatMap.mpr ⟨field, member, here⟩)
  have read := congrArg (fieldsOf newline separator) same
  rw [fieldsOf_written named' whole', fieldsOf_written named whole] at read
  exact List.append_cancel_right read

end Fields
