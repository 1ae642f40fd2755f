import PhylaRam.Library.Json

/-!
# Texts put together from members and items

A program that prints JSON by hand puts a comma after each entry but the last one. The
rules here say which node such a text denotes, whatever blanks it uses.
-/

namespace Json

/-- Entries with a comma and a gap between them, and `tail` after the last one. -/
def separated (gap tail : List Char) : List (List Char) → List Char
  | [] => []
  | [entry] => entry ++ tail
  | entry :: next :: rest => entry ++ ',' :: (gap ++ separated gap tail (next :: rest))

def member (key value : List Char) : List Char := quoted key ++ ':' :: ' ' :: value

variable {before text after gap tail key value : List Char} {node : Node} {v : Value}

theorem blank_nil : Blank [] := fun _ member => nomatch member

theorem blank_append (blank : Blank before) (blank' : Blank after) : Blank (before ++ after) := by
  intro c member
  cases List.mem_append.mp member with
  | inl first => exact blank c first
  | inr second => exact blank' c second

theorem blank_spaces (count : Nat) : Blank (List.replicate count ' ') := by
  intro c member
  rw [List.eq_of_mem_replicate member]
  rfl

/-- White space around a node does not change what it denotes. -/
theorem Denotes.pad (h : Denotes text node) (blank : Blank before) (blank' : Blank after) :
    Denotes (before ++ text ++ after) node := by
  induction h generalizing before after with
  | null => exact .space blank blank' .null
  | bool b => exact .space blank blank' (.bool b)
  | number n => exact .space blank blank' (.number n)
  | string plain => exact .space blank blank' (.string plain)
  | array inside => exact .space blank blank' (.array inside)
  | object inside => exact .space blank blank' (.object inside)
  | space inner inner' inside => exact .space blank blank' (.space inner inner' inside)
  | noItems inner => exact .noItems (blank_append (blank_append blank inner) blank')
  | item _ ih => exact .item (ih blank blank')
  | moreItems _ _ first next =>
      have joined := Denotes.moreItems (first blank blank_nil) (next blank_nil blank')
      simpa only [List.append_assoc, List.nil_append, List.append_nil, List.cons_append] using joined
  | noMembers inner => exact .noMembers (blank_append (blank_append blank inner) blank')
  | member inner plain inner' _ ih =>
      have joined := Denotes.member (blank_append blank inner) plain inner' (ih blank_nil blank')
      simpa only [List.append_assoc, List.nil_append, List.append_nil, List.cons_append] using joined
  | moreMembers _ _ first next =>
      have joined := Denotes.moreMembers (first blank blank_nil) (next blank_nil blank')
      simpa only [List.append_assoc, List.nil_append, List.append_nil, List.cons_append] using joined

theorem denotes_member (plain : Plain key) (h : Denotes value (.value v)) :
    Denotes (member key value) (.members [(key, v)]) := by
  have spaced : Denotes (' ' :: value) (.value v) := by
    have padded := h.pad (blank_spaces 1) blank_nil
    rwa [List.append_nil] at padded
  have joined := Denotes.member blank_nil plain blank_nil spaced
  rwa [List.nil_append, List.append_nil] at joined

/-- Entries denote what they denote together, for members. -/
theorem denotes_members {entries : List (List Char)} {ms : List (List Char × Value)}
    (gapBlank : Blank gap) (tailBlank : Blank tail)
    (each : List.Forall₂ (fun entry m => Denotes entry (.members [m])) entries ms) :
    Denotes (separated gap tail entries) (.members ms) := by
  induction each with
  | nil => exact .noMembers blank_nil
  | @cons entry m rest ms first each ih =>
      cases each with
      | nil => exact first.pad blank_nil tailBlank
      | cons =>
          have joined := Denotes.moreMembers first (ih.pad gapBlank blank_nil)
          rwa [List.append_nil] at joined

/-- The same for items. -/
theorem denotes_items {entries : List (List Char)} {vs : List Value}
    (gapBlank : Blank gap) (tailBlank : Blank tail)
    (each : List.Forall₂ (fun entry v => Denotes entry (.value v)) entries vs) :
    Denotes (separated gap tail entries) (.items vs) := by
  induction each with
  | nil => exact .noItems blank_nil
  | @cons entry v rest vs first each ih =>
      cases each with
      | nil =>
          have only : Denotes entry (.items [v]) := .item first
          exact only.pad blank_nil tailBlank
      | cons =>
          have joined := Denotes.moreItems first (ih.pad gapBlank blank_nil)
          rwa [List.append_nil] at joined

end Json
