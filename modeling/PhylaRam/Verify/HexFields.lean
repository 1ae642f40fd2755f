import PhylaRam.Library.Numeral
import PhylaRam.Verify.Schema

/-!
# What the hexadecimal fields accept

`docs/MAP_SCHEMA.md` writes an address as `0x` and digits, a status as `0x` and eight
digits. The parsers of `schema.rs` trim both spellings of the prefix as often as they
occur, also when there is none, and leave the rest to `from_str_radix`, which takes a plus
sign and any number of digits.
-/

namespace PhylaRam.Verify

/-- The text consists of these digits. -/
def ReadsAs (text : Str) (ds : List Nat) : Prop := text.map toDigit = ds.map some

/-- A prefix and digits. -/
def Marked (s : Str) (ds : List Nat) : Prop :=
  ∃ mark text, (mark = 'x' ∨ mark = 'X') ∧ s = '0' :: mark :: text ∧ ReadsAs text ds

/-- The documented form of a number, with a condition on how many digits it has. -/
def Documented (count : Nat → Prop) (s : Str) (n : Nat) : Prop :=
  ∃ ds, Marked s ds ∧ count ds.length ∧ Numeral.value 16 ds = n

def DocumentedStart (s : Str) (value : UInt64) : Prop := Documented (0 < ·) s value.toNat

def DocumentedNtstatus (s : Str) (value : UInt32) : Prop := Documented (· = 8) s value.toNat

/-- Any number of prefixes, the lower-case ones first, a plus sign or none, and digits. -/
def Spelling (lowers uppers : Nat) (sign : Bool) (ds : List Nat) (s : Str) : Prop :=
  ∃ text, s = (List.replicate lowers ['0', 'x']).flatten ++
      ((List.replicate uppers ['0', 'X']).flatten ++ ((if sign then ['+'] else []) ++ text)) ∧
    ReadsAs text ds

/-- If the text spells a number of the type at all, it has one prefix, no sign and as many
digits as documented. -/
def Plain (bits : Nat) (count : Nat → Prop) (s : Str) : Prop :=
  ∀ lowers uppers sign ds, Spelling lowers uppers sign ds s → 0 < ds.length →
    Numeral.value 16 ds < 2 ^ bits → lowers + uppers = 1 ∧ sign = false ∧ count ds.length

variable {bits : Nat} {count : Nat → Prop} {a b c : Char} {s text rest : Str} {n : Nat}
  {ds : List Nat}

/-! ### Digits -/

theorem readsAs_nil : ReadsAs [] ds ↔ ds = [] := by
  rw [ReadsAs, List.map_nil, eq_comm, List.map_eq_nil_iff]

theorem readsAs_cons :
    ReadsAs (c :: text) ds ↔ ∃ d es, toDigit c = some d ∧ ds = d :: es ∧ ReadsAs text es := by
  constructor
  · intro h
    cases ds with
    | nil => cases h
    | cons d es =>
        obtain ⟨digit, tail⟩ := List.cons_eq_cons.mp h
        exact ⟨d, es, digit, rfl, tail⟩
  · rintro ⟨d, es, digit, rfl, tail⟩
    exact List.cons_eq_cons.mpr ⟨digit, tail⟩

theorem ReadsAs.ne {d : Char} (h : ReadsAs (c :: text) ds) (other : toDigit d = none) : c ≠ d := by
  rintro rfl
  obtain ⟨d, es, digit, -, -⟩ := readsAs_cons.mp h
  rw [other] at digit
  cases digit

theorem ReadsAs.length (h : ReadsAs text ds) : text.length = ds.length := by
  have same := congrArg List.length h
  rwa [List.length_map, List.length_map] at same

theorem ReadsAs.unique {es : List Nat} (h : ReadsAs text ds) (h' : ReadsAs text es) : ds = es :=
  List.map_injective_iff.mpr (Option.some_injective _) (h.symm.trans h')

/-- The digit loop reads a spelling whose value fits, and nothing else. -/
theorem parseDigits_eq_ok {start : Nat} (fits : start < 2 ^ bits) :
    parseDigits bits start text = .ok n ↔
      ∃ ds, ReadsAs text ds ∧ Numeral.extend 16 start ds = n ∧ n < 2 ^ bits := by
  induction text generalizing start with
  | nil =>
      constructor
      · intro h
        cases h
        exact ⟨[], rfl, rfl, fits⟩
      · rintro ⟨ds, spelled, rfl, -⟩
        rw [readsAs_nil.mp spelled]
        rfl
  | cons c text ih =>
      rw [parseDigits]
      cases digit : toDigit c with
      | none =>
          constructor
          · intro h
            cases h
          · rintro ⟨ds, spelled, -, -⟩
            exact (spelled.ne digit rfl).elim
      | some d =>
          show (if _ then _ else _) = _ ↔ _
          split
          · next large =>
              constructor
              · intro h
                cases h
              · rintro ⟨ds, spelled, rfl, small⟩
                obtain ⟨e, es, same, rfl, -⟩ := readsAs_cons.mp spelled
                cases digit.symm.trans same
                have more : start * 16 + d ≤ Numeral.extend 16 (start * 16 + d) es :=
                  Numeral.le_extend (by decide)
                exact absurd (Nat.le_trans large more) (Nat.not_le_of_lt small)
          · next small =>
              rw [ih (Nat.lt_of_not_le small)]
              constructor
              · rintro ⟨es, spelled, value, fits⟩
                exact ⟨d :: es, readsAs_cons.mpr ⟨d, es, digit, rfl, spelled⟩, value, fits⟩
              · rintro ⟨ds, spelled, value, fits⟩
                obtain ⟨e, es, same, rfl, tail⟩ := readsAs_cons.mp spelled
                cases digit.symm.trans same
                exact ⟨es, tail, value, fits⟩

/-- A plus sign is taken off, and one digit at least is needed. -/
theorem fromStrRadix16_eq_ok :
    fromStrRadix16 bits s = .ok n ↔
      ∃ (sign : Bool) (text : Str) (ds : List Nat), s = (if sign then ['+'] else []) ++ text ∧
        ReadsAs text ds ∧ 0 < ds.length ∧ Numeral.value 16 ds = n ∧ n < 2 ^ bits := by
  have read (text : Str) : parseDigits bits 0 text = .ok n ↔ _ :=
    parseDigits_eq_ok (Nat.two_pow_pos bits)
  constructor
  · intro h
    unfold fromStrRadix16 at h
    split at h
    · cases h
    · cases h
    · next text some =>
        obtain ⟨ds, spelled, value, fits⟩ := (read _).mp h
        refine ⟨true, text, ds, rfl, spelled, ?_, value, fits⟩
        rw [← spelled.length]
        exact List.length_pos_iff.mpr fun none => some (none ▸ rfl)
    · next some _ _ =>
        obtain ⟨ds, spelled, value, fits⟩ := (read _).mp h
        refine ⟨false, s, ds, rfl, spelled, ?_, value, fits⟩
        rw [← spelled.length]
        exact List.length_pos_iff.mpr some
  · rintro ⟨sign, text, ds, rfl, spelled, some, value, fits⟩
    have parsed := (read text).mpr ⟨ds, spelled, value, fits⟩
    cases text with
    | nil =>
        rw [← spelled.length] at some
        exact (Nat.lt_irrefl 0 some).elim
    | cons c text =>
        have digit : c ≠ '+' := spelled.ne (by decide)
        cases sign with
        | true => exact parsed
        | false =>
            show fromStrRadix16 bits (c :: text) = _
            unfold fromStrRadix16
            split
            · next h => cases h
            · next h => exact (digit (List.cons.inj h).1).elim
            · next h => exact (digit (List.cons.inj h).1).elim
            · exact parsed

/-! ### Prefixes -/

/-- The text does not begin with the two characters. -/
def Unmarked (a b : Char) (s : Str) : Prop := ∀ rest, s ≠ a :: b :: rest

theorem trimStartMatches_unmarked (h : Unmarked a b s) : s.trimStartMatches a b = s := by
  cases s with
  | nil => rfl
  | cons c s =>
      cases s with
      | nil => rfl
      | cons d s =>
          rw [Str.trimStartMatches, if_neg]
          rintro ⟨rfl, rfl⟩
          exact h s rfl

/-- Trimming takes off every copy of the pattern that the text begins with. -/
theorem trimStartMatches_eq_iff :
    s.trimStartMatches a b = rest ↔
      ∃ k, s = (List.replicate k [a, b]).flatten ++ rest ∧ Unmarked a b rest := by
  constructor
  · fun_induction Str.trimStartMatches a b s with
    | case1 c d s match_ ih =>
        intro h
        obtain ⟨k, rfl, clean⟩ := ih h
        obtain ⟨rfl, rfl⟩ := match_
        exact ⟨k + 1, rfl, clean⟩
    | case2 c d s other =>
        rintro rfl
        refine ⟨0, rfl, fun rest same => ?_⟩
        cases same
        exact other ⟨rfl, rfl⟩
    | case3 s short =>
        rintro rfl
        exact ⟨0, rfl, fun rest same => short a b rest same⟩
  · rintro ⟨k, rfl, clean⟩
    induction k with
    | zero => exact trimStartMatches_unmarked clean
    | succ k ih =>
        rw [List.replicate_succ, List.flatten_cons]
        show Str.trimStartMatches a b (a :: b :: (_ ++ rest)) = rest
        rw [Str.trimStartMatches, if_pos ⟨rfl, rfl⟩]
        exact ih

/-- How often the text begins with the pattern, and what follows. -/
theorem prefixes_unique {k l : Nat} {rest' : Str} (clean : Unmarked a b rest)
    (clean' : Unmarked a b rest')
    (same : (List.replicate k [a, b]).flatten ++ rest =
      (List.replicate l [a, b]).flatten ++ rest') :
    k = l ∧ rest = rest' := by
  have trimmed := trimStartMatches_eq_iff.mpr ⟨k, rfl, clean⟩
  have trimmed' := trimStartMatches_eq_iff.mpr ⟨l, same, clean'⟩
  obtain rfl : rest = rest' := trimmed.symm.trans trimmed'
  have sizes := congrArg List.length (List.append_cancel_right same)
  simp only [List.length_flatten, List.map_replicate, List.sum_replicate, List.length_cons,
    List.length_nil, Nat.nsmul_eq_mul] at sizes
  exact ⟨Nat.eq_of_mul_eq_mul_right (by decide) sizes, rfl⟩

theorem ReadsAs.unmarked (h : ReadsAs text ds) (other : toDigit b = none) : Unmarked a b text := by
  rintro rest rfl
  obtain ⟨d, es, -, -, tail⟩ := readsAs_cons.mp h
  exact tail.ne other rfl

theorem unmarked_signed {sign : Bool} (h : ReadsAs text ds) (other : toDigit b = none) :
    Unmarked '0' b ((if sign then ['+'] else []) ++ text) := by
  cases sign with
  | true =>
      rintro rest same
      exact absurd (List.cons.inj same).1 (by decide)
  | false => exact h.unmarked other

/-- The first trimming stops where the prefixes in upper case begin. -/
theorem unmarked_lower {uppers : Nat} (h : Unmarked '0' 'x' s) :
    Unmarked '0' 'x' ((List.replicate uppers ['0', 'X']).flatten ++ s) := by
  cases uppers with
  | zero => exact h
  | succ uppers =>
      rintro rest same
      rw [List.replicate_succ, List.flatten_cons] at same
      exact absurd (List.cons.inj (List.cons.inj same).2).1 (by decide)

/-- What a hexadecimal field accepts, and the number it reads. -/
theorem parseHex_eq_ok :
    parseHex bits s = .ok n ↔
      ∃ lowers uppers sign ds, Spelling lowers uppers sign ds s ∧ 0 < ds.length ∧
        Numeral.value 16 ds = n ∧ n < 2 ^ bits := by
  rw [parseHex, fromStrRadix16_eq_ok]
  constructor
  · rintro ⟨sign, text, ds, trimmed, spelled, some, value, fits⟩
    obtain ⟨uppers, middle, -⟩ := trimStartMatches_eq_iff.mp trimmed
    obtain ⟨lowers, whole, -⟩ := trimStartMatches_eq_iff.mp middle
    exact ⟨lowers, uppers, sign, ds, ⟨text, whole, spelled⟩, some, value, fits⟩
  · rintro ⟨lowers, uppers, sign, ds, ⟨text, whole, spelled⟩, some, value, fits⟩
    have lower := trimStartMatches_eq_iff.mpr
      ⟨lowers, whole, unmarked_lower (unmarked_signed spelled rfl)⟩
    refine ⟨sign, text, ds, ?_, spelled, some, value, fits⟩
    exact trimStartMatches_eq_iff.mpr ⟨uppers, lower, unmarked_signed spelled rfl⟩

theorem Spelling.unique {lowers uppers lowers' uppers' : Nat} {sign sign' : Bool} {ds es : List Nat}
    (h : Spelling lowers uppers sign ds s) (h' : Spelling lowers' uppers' sign' es s) :
    lowers = lowers' ∧ uppers = uppers' ∧ sign = sign' ∧ ds = es := by
  obtain ⟨text, whole, spelled⟩ := h
  obtain ⟨text', whole', spelled'⟩ := h'
  obtain ⟨lower, middle⟩ := prefixes_unique (unmarked_lower (unmarked_signed spelled rfl))
    (unmarked_lower (unmarked_signed spelled' rfl)) (whole.symm.trans whole')
  obtain ⟨upper, last⟩ := prefixes_unique (unmarked_signed spelled rfl)
    (unmarked_signed spelled' rfl) middle
  have plus : toDigit '+' = none := rfl
  cases sign with
  | true =>
      cases sign' with
      | true =>
          rw [List.append_cancel_left last] at spelled
          exact ⟨lower, upper, rfl, spelled.unique spelled'⟩
      | false =>
          obtain rfl : '+' :: text = text' := last
          exact (spelled'.ne plus rfl).elim
  | false =>
      cases sign' with
      | true =>
          obtain rfl : text = '+' :: text' := last
          exact (spelled.ne plus rfl).elim
      | false =>
          rw [List.append_cancel_left last] at spelled
          exact ⟨lower, upper, rfl, spelled.unique spelled'⟩

/-! ### The documented form -/

/-- The documented form is the spelling with one prefix and no sign. -/
theorem marked_iff :
    Marked s ds ↔ ∃ lowers uppers, lowers + uppers = 1 ∧ Spelling lowers uppers false ds s := by
  constructor
  · rintro ⟨mark, text, rfl | rfl, rfl, spelled⟩
    · exact ⟨1, 0, rfl, text, rfl, spelled⟩
    · exact ⟨0, 1, rfl, text, rfl, spelled⟩
  · rintro ⟨lowers, uppers, one, text, rfl, spelled⟩
    cases lowers with
    | zero =>
        obtain rfl : uppers = 1 := by omega
        exact ⟨'X', text, Or.inr rfl, rfl, spelled⟩
    | succ lowers =>
        obtain ⟨rfl, rfl⟩ : lowers = 0 ∧ uppers = 0 := by omega
        exact ⟨'x', text, Or.inl rfl, rfl, spelled⟩

/-- A field is read as documented exactly if its text is plain. -/
theorem parseHex_documented_iff (some : ∀ k, count k → 0 < k) :
    (∀ n < 2 ^ bits, parseHex bits s = .ok n ↔ Documented count s n) ↔ Plain bits count s := by
  constructor
  · intro h lowers uppers sign ds spelling digits fits
    have parsed := parseHex_eq_ok.mpr ⟨lowers, uppers, sign, ds, spelling, digits, rfl, fits⟩
    obtain ⟨es, marked, counted, -⟩ := (h _ fits).mp parsed
    obtain ⟨lowers', uppers', one, spelling'⟩ := marked_iff.mp marked
    obtain ⟨rfl, rfl, rfl, rfl⟩ := spelling.unique spelling'
    exact ⟨one, rfl, counted⟩
  · intro plain n fits
    constructor
    · intro parsed
      obtain ⟨lowers, uppers, sign, ds, spelling, digits, rfl, -⟩ := parseHex_eq_ok.mp parsed
      obtain ⟨one, rfl, counted⟩ := plain _ _ _ _ spelling digits fits
      exact ⟨ds, marked_iff.mpr ⟨lowers, uppers, one, spelling⟩, counted, rfl⟩
    · rintro ⟨ds, marked, counted, rfl⟩
      obtain ⟨lowers, uppers, -, spelling⟩ := marked_iff.mp marked
      exact parseHex_eq_ok.mpr ⟨lowers, uppers, false, ds, spelling, some _ counted, rfl, fits⟩

theorem parseHex_word64 {value : UInt64} :
    UInt64.ofNat <$> parseHex 64 s = .ok value ↔ parseHex 64 s = .ok value.toNat := by
  cases parsed : parseHex 64 s with
  | error e =>
      constructor
      · intro h
        cases h
      · intro h
        cases h
  | ok n =>
      obtain ⟨_, _, _, _, -, -, -, fits⟩ := parseHex_eq_ok.mp parsed
      show Except.ok (UInt64.ofNat n) = _ ↔ _
      rw [Except.ok.injEq, Except.ok.injEq, ← UInt64.toNat_inj, UInt64.toNat_ofNat_of_lt' fits]

theorem parseHex_word32 {value : UInt32} :
    UInt32.ofNat <$> parseHex 32 s = .ok value ↔ parseHex 32 s = .ok value.toNat := by
  cases parsed : parseHex 32 s with
  | error e =>
      constructor
      · intro h
        cases h
      · intro h
        cases h
  | ok n =>
      obtain ⟨_, _, _, _, -, -, -, fits⟩ := parseHex_eq_ok.mp parsed
      show Except.ok (UInt32.ofNat n) = _ ↔ _
      rw [Except.ok.injEq, Except.ok.injEq, ← UInt32.toNat_inj, UInt32.toNat_ofNat_of_lt' fits]

theorem start_documented_iff :
    (∀ value, UInt64.ofNat <$> parseHex 64 s = .ok value ↔ DocumentedStart s value) ↔
      Plain 64 (0 < ·) s := by
  rw [← parseHex_documented_iff fun _ digits => digits]
  constructor
  · intro h n fits
    have value := h (UInt64.ofNat n)
    rwa [parseHex_word64, DocumentedStart, UInt64.toNat_ofNat_of_lt' fits] at value
  · intro h value
    exact parseHex_word64.trans (h _ value.toNat_lt)

theorem ntstatus_documented_iff :
    (∀ value, UInt32.ofNat <$> parseHex 32 s = .ok value ↔ DocumentedNtstatus s value) ↔
      Plain 32 (· = 8) s := by
  rw [← parseHex_documented_iff fun k eight => Nat.lt_of_lt_of_eq (by decide) (Eq.symm eight)]
  constructor
  · intro h n fits
    have value := h (UInt32.ofNat n)
    rwa [parseHex_word32, DocumentedNtstatus, UInt32.toNat_ofNat_of_lt' fits] at value
  · intro h value
    exact parseHex_word32.trans (h _ value.toNat_lt)

/-- Each hexadecimal field of the map is read as documented exactly if its text is plain. -/
theorem hex_fields_documented_iff (range : RangeEntry) (span : UnreadableEntry) :
    ((∀ value, range.parseStart = .ok value ↔ DocumentedStart range.start value) ↔
      Plain 64 (0 < ·) range.start) ∧
    ((∀ value, span.parseStart = .ok value ↔ DocumentedStart span.start value) ↔
      Plain 64 (0 < ·) span.start) ∧
    ((∀ value, span.parseNtstatus = .ok value ↔ DocumentedNtstatus span.ntstatus value) ↔
      Plain 32 (· = 8) span.ntstatus) :=
  ⟨start_documented_iff, start_documented_iff, ntstatus_documented_iff⟩

/-- No prefix, a sign, both prefixes and a short status are all accepted. -/
theorem hex_fields_undocumented :
    (¬∀ value, (RangeEntry.mk 0 (str "1000") 4096).parseStart = .ok value ↔
      DocumentedStart (str "1000") value) ∧
    (¬∀ value, (RangeEntry.mk 0 (str "0x+10") 4096).parseStart = .ok value ↔
      DocumentedStart (str "0x+10") value) ∧
    (¬∀ value, (UnreadableEntry.mk (str "0x0X10") 4096 (str "0xC0000001")).parseStart = .ok value ↔
      DocumentedStart (str "0x0X10") value) ∧
    ¬∀ value, (UnreadableEntry.mk (str "0x1000") 4096 (str "0x1")).parseNtstatus = .ok value ↔
      DocumentedNtstatus (str "0x1") value := by
  refine ⟨fun h => ?_, fun h => ?_, fun h => ?_, fun h => ?_⟩
  · obtain ⟨ds, ⟨mark, text, -, same, -⟩, -⟩ := (h 0x1000).mp (by decide)
    cases same
  · obtain ⟨ds, ⟨mark, text, -, same, spelled⟩, -⟩ := (h 0x10).mp (by decide)
    cases same
    exact spelled.ne (d := '+') rfl rfl
  · obtain ⟨ds, ⟨mark, text, -, same, spelled⟩, -⟩ := (h 0x10).mp (by decide)
    cases same
    obtain ⟨_, _, -, -, spelled⟩ := readsAs_cons.mp spelled
    exact spelled.ne (d := 'X') rfl rfl
  · obtain ⟨ds, ⟨mark, text, -, same, spelled⟩, eight, -⟩ := (h 1).mp (by decide)
    cases same
    exact absurd (spelled.length.trans eight) (by decide)

end PhylaRam.Verify
