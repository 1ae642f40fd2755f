import Mathlib.Data.List.TakeWhile
import PhylaRam.Verify.Spec

/-!
# What the checks accept

One rule for each function of the verifier. The loops over ranges and spans are
described by the pieces they have read so far: their local variables are a function
of these, and an iteration accepts exactly what extends them well.
-/

namespace PhylaRam.Verify

open Interval (Piece cells total lastStop Ordered)

variable {JsonError : Type}

/-! ### Hexadecimal digits -/

theorem IsHexDigit.ascii {c : Char} (digit : IsHexDigit c) : c.toNat ≤ 127 := by
  by_contra wide
  have above (d : Char) (h : d.toNat ≤ 127) : ¬c ≤ d := by
    rw [Char.le_def, UInt32.le_iff_toNat_le]
    show ¬c.toNat ≤ d.toNat
    omega
  have none : toDigit c = none := by
    simp [toDigit, above '9' (by decide), above 'f' (by decide), above 'F' (by decide)]
  rw [IsHexDigit, none] at digit
  cases digit

/-- A character is a hexadecimal digit if all its bytes are. -/
theorem all_isAsciiHexdigit_iff (c : Char) :
    (String.utf8EncodeChar c).all isAsciiHexdigit = true ↔ IsHexDigit c := by
  by_cases ascii : c.toNat ≤ 127
  · have table : ∀ n : Fin 128,
        isAsciiHexdigit (UInt8.ofNat n.val) = (toDigit (Char.ofNat n.val)).isSome := by decide
    have entry := table ⟨c.toNat, by omega⟩
    rw [Char.ofNat_toNat] at entry
    rw [Str.utf8EncodeChar_ascii ascii, List.all_cons, List.all_nil, Bool.and_true, entry]
    rfl
  · have table : ∀ n : Fin 64, isAsciiHexdigit (UInt8.ofNat (n.val + 128)) = false := by decide
    constructor
    · intro all
      have last := List.all_eq_true.mp all _ (Str.mem_utf8EncodeChar ascii)
      rw [table ⟨c.toNat % 64, Nat.mod_lt _ (by decide)⟩] at last
      cases last
    · intro digit
      exact (ascii digit.ascii).elim

/-- Counting bytes or characters is the same for hexadecimal digits. -/
theorem isSha256Hex_iff {value : Str} :
    isSha256Hex value = true ↔ value.length = 64 ∧ ∀ c ∈ value, IsHexDigit c := by
  have digits : value.bytes.all isAsciiHexdigit = true ↔ ∀ c ∈ value, IsHexDigit c := by
    rw [Str.bytes, List.all_flatMap, List.all_eq_true]
    exact forall_congr' fun c => imp_congr_right fun _ => all_isAsciiHexdigit_iff c
  rw [isSha256Hex, Bool.and_eq_true, beq_iff_eq, digits]
  refine and_congr_left fun hex => ?_
  have count : value.len = value.length := by
    rw [Str.len, Str.bytes, List.length_flatMap]
    rw [List.map_congr_left (g := fun _ => 1) fun c hc => by
      rw [Str.utf8EncodeChar_ascii (hex c hc).ascii, List.length_singleton]]
    simp
  rw [count]

/-! ### The sidecar -/

theorem firstWord_eq_some {text word : Str} :
    text.firstWord = some word ↔ IsFirstWord text word := by
  constructor
  · intro h
    have split : text.takeWhile Str.isWhitespace ++ text.dropWhile Str.isWhitespace = text :=
      List.takeWhile_append_dropWhile
    have stop := List.head?_dropWhile_not Str.isWhitespace text
    rw [Str.firstWord] at h
    cases rest : text.dropWhile Str.isWhitespace with
    | nil =>
        rw [rest] at h
        cases h
    | cons c cs =>
        rw [rest] at h split stop
        have first : Str.isWhitespace c = false := by simpa using stop
        rw [← Option.some.inj h]
        refine ⟨text.takeWhile Str.isWhitespace,
          (c :: cs).dropWhile fun c => !Str.isWhitespace c, ?_,
          fun d hd => List.mem_takeWhile_imp hd, ?_, fun d hd => ?_, fun d hd => ?_⟩
        · rw [List.append_assoc, List.takeWhile_append_dropWhile]
          exact split.symm
        · rw [List.takeWhile_cons_of_pos (by simp [first])]
          exact List.cons_ne_nil _ _
        · simpa using List.mem_takeWhile_imp hd
        · have after := List.head?_dropWhile_not (fun c => !Str.isWhitespace c) (c :: cs)
          rw [hd] at after
          simpa using after
  · rintro ⟨before, after, rfl, blank, some, solid, stop⟩
    obtain ⟨c, cs, rfl⟩ := List.exists_cons_of_ne_nil some
    have first : Str.isWhitespace c = false := solid c List.mem_cons_self
    have rest : (before ++ (c :: cs) ++ after).dropWhile Str.isWhitespace = c :: (cs ++ after) := by
      rw [List.append_assoc, List.dropWhile_append_of_pos blank, List.cons_append,
        List.dropWhile_cons_of_neg (by simp [first])]
    have word : (c :: (cs ++ after)).takeWhile (fun c => !Str.isWhitespace c) = c :: cs := by
      rw [← List.cons_append, List.takeWhile_append_of_pos fun d hd => by simp [solid d hd]]
      cases after with
      | nil => simp
      | cons d ds =>
          have blank : Str.isWhitespace d = true := stop d rfl
          simp [blank]
    rw [Str.firstWord, rest]
    exact congrArg Option.some word

theorem dropWhile_of_solid {s : Str} (solid : ∀ c ∈ s, Str.isWhitespace c = false) :
    s.dropWhile Str.isWhitespace = s := by
  cases s with
  | nil => rfl
  | cons c cs => rw [List.dropWhile_cons_of_neg (by simp [solid c List.mem_cons_self])]

/-- A word has nothing to trim. -/
theorem trim_of_solid {s : Str} (solid : ∀ c ∈ s, Str.isWhitespace c = false) : s.trim = s := by
  rw [Str.trim, dropWhile_of_solid solid, dropWhile_of_solid fun c hc => solid c
    (List.mem_reverse.mp hc), List.reverse_reverse]

theorem validateSidecar_eq_ok {content computed : Str} {u : Unit} :
    (validateSidecar content computed : Except (VerificationError JsonError) Unit) = .ok u ↔
      ∃ word, IsFirstWord content word ∧ isSha256Hex word = true ∧
        computed.eqIgnoreAsciiCase word = true := by
  have accepts :
      (validateSidecar content computed : Except (VerificationError JsonError) Unit) = .ok u ↔
      isSha256Hex (content.firstWord.getD []).trim = true ∧
        computed.eqIgnoreAsciiCase (content.firstWord.getD []).trim = true := by
    simp [validateSidecar]
  rw [accepts]
  cases found : content.firstWord with
  | none =>
      constructor
      · rintro ⟨hex, -⟩
        cases hex
      · rintro ⟨word, first, -⟩
        rw [firstWord_eq_some.mpr first] at found
        cases found
  | some word =>
      have first := firstWord_eq_some.mp found
      obtain ⟨_, _, _, _, _, solid, _⟩ := id first
      rw [Option.getD_some, trim_of_solid solid]
      constructor
      · rintro ⟨hex, same⟩
        exact ⟨word, first, hex, same⟩
      · rintro ⟨word', first', hex, same⟩
        rw [firstWord_eq_some.mpr first'] at found
        rw [← Option.some.inj found]
        exact ⟨hex, same⟩

/-! ### The ranges -/

def parsedRange (r : Piece UInt32) : ParsedRange := ⟨.ofNat r.start, .ofNat r.stop⟩

/-- The local variables after the ranges that denote `rs`. -/
def RangeScan.after (rs : List (Piece UInt32)) : RangeScan where
  parsed := rs.map parsedRange
  seenDriverRuns := (rs.map Piece.label).toFinset
  previousEnd := .ofNat (lastStop rs)
  physicalSum := .ofNat (total rs)
  highestEnd := .ofNat (lastStop rs)

/-- What the loop has established of the ranges it has passed. -/
structure Admitted (map : MapFile) (rs : List (Piece UInt32)) : Prop where
  ordered : Ordered rs
  nonempty : ∀ r ∈ rs, 0 < r.length
  bounded : ∀ r ∈ rs, r.stop ≤ map.logicalSize.toNat
  distinct : (rs.map Piece.label).Nodup

theorem Admitted.take {map : MapFile} {rs qs : List (Piece UInt32)}
    (h : Admitted map (rs ++ qs)) : Admitted map rs where
  ordered := (Interval.ordered_append.mp h.ordered).1
  nonempty r hr := h.nonempty r (List.mem_append_left _ hr)
  bounded r hr := h.bounded r (List.mem_append_left _ hr)
  distinct := (List.nodup_append.mp (List.map_append ▸ h.distinct)).1

theorem Admitted.nil (map : MapFile) : Admitted map [] := ⟨.nil, by simp, by simp, by simp⟩

theorem Admitted.lastStop_le {map : MapFile} {rs : List (Piece UInt32)} (h : Admitted map rs) :
    lastStop rs ≤ map.logicalSize.toNat := by
  rcases List.eq_nil_or_concat' rs with rfl | ⟨qs, q, rfl⟩
  · exact Nat.zero_le _
  · rw [Interval.lastStop_snoc]
    exact h.bounded q (by simp)

theorem Admitted.snoc_iff {map : MapFile} {rs : List (Piece UInt32)} (h : Admitted map rs)
    {r : Piece UInt32} :
    Admitted map (rs ++ [r]) ↔ 0 < r.length ∧ r.label ∉ rs.map Piece.label ∧
      r.stop ≤ map.logicalSize.toNat ∧ lastStop rs ≤ r.start := by
  constructor
  · intro longer
    refine ⟨longer.nonempty r (by simp), ?_, longer.bounded r (by simp),
      (Interval.ordered_snoc h.ordered).mp longer.ordered⟩
    have distinct := longer.distinct
    rw [List.map_append, List.nodup_append] at distinct
    intro seen
    exact distinct.2.2 _ seen _ (by simp) rfl
  · rintro ⟨pos, fresh, within, apart⟩
    refine ⟨(Interval.ordered_snoc h.ordered).mpr apart, ?_, ?_, ?_⟩
    · intro q hq
      rcases List.mem_append.mp hq with hq | hq
      · exact h.nonempty q hq
      · rwa [List.mem_singleton.mp hq]
    · intro q hq
      rcases List.mem_append.mp hq with hq | hq
      · exact h.bounded q hq
      · rwa [List.mem_singleton.mp hq]
    · rw [List.map_append, List.nodup_append]
      refine ⟨h.distinct, by simp, ?_⟩
      rintro label seen _ new rfl
      rw [List.map_singleton, List.mem_singleton] at new
      exact fresh (new ▸ seen)

theorem RangeScan.after_snoc {rs : List (Piece UInt32)} {r : Piece UInt32}
    (apart : lastStop rs ≤ r.start) (bound : r.stop < 2 ^ 64) :
    RangeScan.after (rs ++ [r]) =
      { parsed := (RangeScan.after rs).parsed ++ [parsedRange r]
        seenDriverRuns := insert r.label (RangeScan.after rs).seenDriverRuns
        previousEnd := .ofNat r.stop
        physicalSum := .ofNat (total rs + r.length)
        highestEnd := max (RangeScan.after rs).highestEnd (.ofNat r.stop) } := by
  have later : lastStop rs ≤ r.stop := Nat.le_trans apart (Nat.le_add_right _ _)
  have highest : max (UInt64.ofNat (lastStop rs)) (.ofNat r.stop) = .ofNat r.stop := by
    apply if_pos
    rw [UInt64.le_iff_toNat_le, UInt64.toNat_ofNat_of_lt' (Nat.lt_of_le_of_lt later bound),
      UInt64.toNat_ofNat_of_lt' bound]
    exact later
  have seen : ((rs ++ [r]).map Piece.label).toFinset =
      insert r.label (rs.map Piece.label).toFinset := by
    ext run
    simp
  simp only [RangeScan.after, List.map_append, List.map_singleton, Interval.lastStop_snoc,
    Interval.total_append, Interval.total_cons, Interval.total_nil, Nat.add_zero, highest]
  rw [← seen, List.map_append, List.map_singleton]

/-- An iteration accepts a range that extends the list well, and only such a range. -/
theorem validateRange_eq_ok {map : MapFile} {rs : List (Piece UInt32)} (h : Admitted map rs)
    {range : RangeEntry} {s : RangeScan} :
    (validateRange map rs.length range (.after rs) :
        Except (VerificationError JsonError) RangeScan) = .ok s ↔
      ∃ r, range.Denotes r ∧ Admitted map (rs ++ [r]) ∧ s = .after (rs ++ [r]) := by
  have size := map.logicalSize.toNat_lt
  have last := h.lastStop_le
  have sum := h.ordered.total_le_lastStop
  have lastNat : (RangeScan.after rs).previousEnd.toNat = lastStop rs :=
    UInt64.toNat_ofNat_of_lt' (show _ < 2 ^ 64 by omega)
  have sumNat : (RangeScan.after rs).physicalSum.toNat = total rs :=
    UInt64.toNat_ofNat_of_lt' (show _ < 2 ^ 64 by omega)
  have seen (run : UInt32) :
      run ∈ (RangeScan.after rs).seenDriverRuns ↔ run ∈ rs.map Piece.label := List.mem_toFinset
  simp only [validateRange, Checked.ite_throw_eq_ok, Checked.bind_eq_ok, Checked.mapErr_eq_ok,
    Checked.okOr_eq_ok, Checked.pure_eq_ok, checkedAdd_eq_some, seen, lastNat, sumNat,
    UInt64.lt_iff_toNat_lt]
  constructor
  · rintro ⟨pos, fresh, start, parsed, stop, stopNat, within, apart, sum', sumNat', rfl⟩
    have pos := Word.pos_iff.mp pos
    have apart : lastStop rs ≤ start.toNat := by
      rcases rs with _ | ⟨r, rs⟩
      · exact Nat.zero_le _
      · exact Nat.le_of_not_lt fun lt => apart ⟨by simp, lt⟩
    let r : Piece UInt32 := ⟨start.toNat, range.length.toNat, range.driverRun⟩
    have stop' : r.stop = stop.toNat := stopNat
    refine ⟨r, ⟨start, parsed, rfl⟩, h.snoc_iff.mpr ⟨pos, fresh, by omega, apart⟩, ?_⟩
    rw [RangeScan.after_snoc apart (by omega), parsedRange, stop', sumNat']
    simp only [r, UInt64.ofNat_toNat]
  · rintro ⟨_, ⟨start, parsed, rfl⟩, longer, rfl⟩
    obtain ⟨pos, fresh, within, apart⟩ := h.snoc_iff.mp longer
    have stop : start.toNat + range.length.toNat ≤ map.logicalSize.toNat := within
    have apart' : lastStop rs ≤ start.toNat := apart
    have stopNat : (UInt64.ofNat (start.toNat + range.length.toNat)).toNat =
        start.toNat + range.length.toNat := UInt64.toNat_ofNat_of_lt' (show _ < 2 ^ 64 by omega)
    have sumNat' : (UInt64.ofNat (total rs + range.length.toNat)).toNat =
        total rs + range.length.toNat := UInt64.toNat_ofNat_of_lt' (show _ < 2 ^ 64 by omega)
    refine ⟨Word.pos_iff.mpr pos, fresh, start, parsed, _, stopNat.symm, by omega,
      fun h => by omega, _, sumNat'.symm, ?_⟩
    rw [RangeScan.after_snoc apart (show start.toNat + range.length.toNat < 2 ^ 64 by omega)]
    simp only [parsedRange, Piece.stop, UInt64.ofNat_toNat]

theorem u32TryFrom_eq_some {n : Nat} {run : UInt32} : u32TryFrom n = some run ↔ run.toNat = n := by
  have bound := run.toNat_lt
  rw [u32TryFrom]
  split
  · next small =>
      rw [Option.some_inj, ← UInt32.toNat_inj, UInt32.toNat_ofNat_of_lt' small, eq_comm]
  · next large =>
      constructor
      · intro h
        cases h
      · intro h
        omega

theorem mapM_u32TryFrom {ns : List Nat} {runs : List UInt32} :
    ns.mapM u32TryFrom = some runs ↔ runs.map UInt32.toNat = ns := by
  induction ns generalizing runs with
  | nil => simp [eq_comm]
  | cons n ns ih =>
      simp only [List.mapM_cons, Option.bind_eq_bind, Option.bind_eq_some_iff, u32TryFrom_eq_some,
        ih, Option.pure_def, Option.some_inj]
      constructor
      · rintro ⟨run, rfl, runs, rfl, rfl⟩
        rfl
      · intro h
        cases runs with
        | nil => cases h
        | cons run runs =>
            obtain ⟨head, tail⟩ := List.cons.inj h
            exact ⟨run, head, runs, tail, rfl⟩

/-- The set of all driver runs is the expected one if they are a permutation of the indices. -/
theorem driverRuns_iff {labels : List UInt32} (distinct : labels.Nodup) :
    (∃ expected, (List.range labels.length).mapM u32TryFrom = some expected ∧
      labels.toFinset = expected.toFinset) ↔
    (labels.map UInt32.toNat).Perm (List.range labels.length) := by
  simp only [mapM_u32TryFrom]
  constructor
  · rintro ⟨expected, indices, same⟩
    have distinct' : expected.Nodup := by
      refine List.Nodup.of_map UInt32.toNat ?_
      rw [indices]
      exact List.nodup_range
    rw [← indices]
    exact (List.perm_of_nodup_nodup_toFinset_eq distinct distinct' same).map _
  · intro perm
    have small : ∀ n ∈ List.range labels.length, (UInt32.ofNat n).toNat = n := by
      intro n hn
      obtain ⟨run, -, rfl⟩ := List.mem_map.mp (perm.mem_iff.mpr hn)
      exact congrArg UInt32.toNat (UInt32.ofNat_toNat)
    have indices : ((List.range labels.length).map UInt32.ofNat).map UInt32.toNat =
        List.range labels.length := by
      rw [List.map_map]
      exact (List.map_congr_left small).trans (List.map_id _)
    refine ⟨_, indices, ?_⟩
    have inj : Function.Injective UInt32.toNat := fun _ _ same => UInt32.toNat_inj.mp same
    ext run
    rw [List.mem_toFinset, List.mem_toFinset, ← List.mem_map_of_injective inj,
      ← List.mem_map_of_injective inj, indices]
    exact perm.mem_iff

theorem isGreatest_iff {rs : List (Piece UInt32)} (ordered : Ordered rs) (some : rs ≠ []) {n : Nat} :
    IsGreatest {m | ∃ r ∈ rs, r.stop = m} n ↔ lastStop rs = n := by
  have greatest : IsGreatest {m | ∃ r ∈ rs, r.stop = m} (lastStop rs) := by
    refine ⟨?_, ?_⟩
    · obtain ⟨qs, q, rfl⟩ := (List.eq_nil_or_concat' rs).resolve_left some
      exact ⟨q, by simp, (Interval.lastStop_snoc qs q).symm⟩
    · rintro m ⟨r, hr, rfl⟩
      exact ordered.stop_le_lastStop hr
  constructor
  · intro h
    exact greatest.unique h
  · rintro rfl
    exact greatest

/-- What the loop and the checks after it establish is what makes the ranges good. -/
theorem goodRanges_iff {map : MapFile} {rs : List (Piece UInt32)} (some : rs ≠ [])
    (denoted : List.Forall₂ RangeEntry.Denotes map.ranges rs) :
    GoodRanges map rs ↔ Admitted map rs ∧ total rs = map.physicalBytes.toNat ∧
      lastStop rs = map.logicalSize.toNat ∧
      ((rs.map Piece.label).map UInt32.toNat).Perm (List.range (rs.map Piece.label).length) := by
  have labels : (rs.map Piece.label).map UInt32.toNat = rs.map fun r => r.label.toNat :=
    List.map_map
  rw [labels, List.length_map]
  constructor
  · intro good
    obtain ⟨ordered, nonempty⟩ := Interval.increasing_iff.mp good.increasing
    have distinct : (rs.map Piece.label).Nodup := by
      refine List.Nodup.of_map UInt32.toNat ?_
      rw [labels]
      exact good.driverRuns.nodup_iff.mpr List.nodup_range
    refine ⟨⟨ordered, nonempty, fun r hr => good.greatestEnd.2 ⟨r, hr, rfl⟩, distinct⟩, ?_,
      (isGreatest_iff ordered some).mp good.greatestEnd, good.driverRuns⟩
    rw [← good.physicalBytes, ordered.card_cells]
  · rintro ⟨admitted, sum, last, perm⟩
    exact ⟨denoted, some, Interval.increasing_iff.mpr ⟨admitted.ordered, admitted.nonempty⟩,
      (isGreatest_iff admitted.ordered some).mpr last, perm, by rw [admitted.ordered.card_cells, sum]⟩

theorem validateRanges_eq_ok {map : MapFile} {parsed : List ParsedRange} :
    (validateRanges map : Except (VerificationError JsonError) (List ParsedRange)) = .ok parsed ↔
      ∃ rs, GoodRanges map rs ∧ parsed = rs.map parsedRange := by
  have size := map.logicalSize.toNat_lt
  have scan (s : RangeScan) :
      (Checked.forEnumerated (validateRange map) 0 map.ranges {} :
          Except (VerificationError JsonError) RangeScan) = .ok s ↔
        ∃ rs, List.Forall₂ RangeEntry.Denotes map.ranges rs ∧ Admitted map rs ∧ s = .after rs :=
    Checked.forEnumerated_eq_ok (fun _ _ => Admitted.take)
      (fun _ h _ _ => validateRange_eq_ok h) (Admitted.nil map)
  have sums {rs : List (Piece UInt32)} (h : Admitted map rs) :
      (RangeScan.after rs).physicalSum.toNat = total rs ∧
        (RangeScan.after rs).highestEnd.toNat = lastStop rs := by
    have last := h.lastStop_le
    have sum := h.ordered.total_le_lastStop
    exact ⟨UInt64.toNat_ofNat_of_lt' (show _ < 2 ^ 64 by omega),
      UInt64.toNat_ofNat_of_lt' (show _ < 2 ^ 64 by omega)⟩
  simp only [validateRanges, Checked.ite_throw_eq_ok, Checked.bind_eq_ok, Checked.okOr_eq_ok,
    Checked.pure_eq_ok, scan, ne_eq, not_not, List.isEmpty_iff]
  constructor
  · rintro ⟨some, _, ⟨rs, denoted, admitted, rfl⟩, sum, highest, expected, runs, same, rfl⟩
    have length := denoted.length_eq
    have some' : rs ≠ [] := by
      rintro rfl
      exact some (List.eq_nil_of_length_eq_zero length)
    obtain ⟨sumNat, highestNat⟩ := sums admitted
    rw [length, ← List.length_map (f := Piece.label)] at runs
    refine ⟨rs, (goodRanges_iff some' denoted).mpr ⟨admitted, ?_, ?_, ?_⟩, rfl⟩
    · rw [← sum, sumNat]
    · rw [← highest, highestNat]
    · exact (driverRuns_iff admitted.distinct).mp ⟨expected, runs, same⟩
  · rintro ⟨rs, good, rfl⟩
    obtain ⟨admitted, sum, last, perm⟩ := (goodRanges_iff good.some good.denoted).mp good
    have length := good.denoted.length_eq
    obtain ⟨sumNat, highestNat⟩ := sums admitted
    obtain ⟨expected, runs, same⟩ := (driverRuns_iff admitted.distinct).mpr perm
    rw [List.length_map, ← length] at runs
    refine ⟨?_, _, ⟨rs, good.denoted, admitted, rfl⟩, ?_, ?_, expected, runs, same, rfl⟩
    · intro empty
      rw [empty] at length
      exact good.some (List.eq_nil_of_length_eq_zero length.symm)
    · rw [← UInt64.toNat_inj, sumNat, sum]
    · rw [← UInt64.toNat_inj, highestNat, last]

/-! ### The unreadable spans -/

/-- The local variables after the spans that denote `ss`. -/
def SpanScan.after (ss : List (Piece UInt32)) : SpanScan where
  previousEnd := .ofNat (lastStop ss)
  unreadableSum := .ofNat (total ss)

/-- What the loop has established of the spans it has passed. -/
structure Contained (rs ss : List (Piece UInt32)) : Prop where
  ordered : Ordered ss
  nonempty : ∀ s ∈ ss, 0 < s.length
  within : ∀ s ∈ ss, ∃ r ∈ rs, r.start ≤ s.start ∧ s.stop ≤ r.stop

theorem Contained.nil (rs : List (Piece UInt32)) : Contained rs [] := ⟨.nil, by simp, by simp⟩

theorem Contained.take {rs ss ts : List (Piece UInt32)} (h : Contained rs (ss ++ ts)) :
    Contained rs ss where
  ordered := (Interval.ordered_append.mp h.ordered).1
  nonempty s hs := h.nonempty s (List.mem_append_left _ hs)
  within s hs := h.within s (List.mem_append_left _ hs)

theorem Contained.snoc_iff {rs ss : List (Piece UInt32)} (h : Contained rs ss)
    {s : Piece UInt32} :
    Contained rs (ss ++ [s]) ↔ 0 < s.length ∧ lastStop ss ≤ s.start ∧
      ∃ r ∈ rs, r.start ≤ s.start ∧ s.stop ≤ r.stop := by
  constructor
  · intro longer
    exact ⟨longer.nonempty s (by simp), (Interval.ordered_snoc h.ordered).mp longer.ordered,
      longer.within s (by simp)⟩
  · rintro ⟨pos, apart, within⟩
    refine ⟨(Interval.ordered_snoc h.ordered).mpr apart, ?_, ?_⟩
    · intro t ht
      rcases List.mem_append.mp ht with ht | ht
      · exact h.nonempty t ht
      · rwa [List.mem_singleton.mp ht]
    · intro t ht
      rcases List.mem_append.mp ht with ht | ht
      · exact h.within t ht
      · rwa [List.mem_singleton.mp ht]

section Spans

variable {rs : List (Piece UInt32)} (bounded : ∀ r ∈ rs, r.stop < 2 ^ 64)

include bounded

theorem Contained.lastStop_lt {ss : List (Piece UInt32)} (h : Contained rs ss) :
    lastStop ss < 2 ^ 64 := by
  rcases List.eq_nil_or_concat' ss with rfl | ⟨ts, t, rfl⟩
  · exact Nat.two_pow_pos 64
  · rw [Interval.lastStop_snoc]
    obtain ⟨r, hr, -, stop⟩ := h.within t (by simp)
    exact Nat.lt_of_le_of_lt stop (bounded r hr)

theorem spanIsContainedInRange_iff {start stop : UInt64} :
    spanIsContainedInRange start stop (rs.map parsedRange) = true ↔
      ∃ r ∈ rs, r.start ≤ start.toNat ∧ stop.toNat ≤ r.stop := by
  rw [spanIsContainedInRange, List.any_map, List.any_eq_true]
  refine exists_congr fun r => and_congr_right fun hr => ?_
  have stopNat := UInt64.toNat_ofNat_of_lt' (bounded r hr)
  have startNat : (UInt64.ofNat r.start).toNat = r.start :=
    UInt64.toNat_ofNat_of_lt' (Nat.lt_of_le_of_lt (Nat.le_add_right _ _) (bounded r hr))
  simp only [Function.comp_apply, parsedRange, Bool.and_eq_true, decide_eq_true_eq, ge_iff_le,
    UInt64.le_iff_toNat_le, startNat, stopNat]

theorem validateSpan_eq_ok {ss : List (Piece UInt32)} (h : Contained rs ss)
    {span : UnreadableEntry} {s : SpanScan} :
    (validateSpan (rs.map parsedRange) ss.length span (.after ss) :
        Except (VerificationError JsonError) SpanScan) = .ok s ↔
      ∃ t, span.Denotes t ∧ Contained rs (ss ++ [t]) ∧ s = .after (ss ++ [t]) := by
  have last := h.lastStop_lt bounded
  have sum := h.ordered.total_le_lastStop
  have lastNat : (SpanScan.after ss).previousEnd.toNat = lastStop ss :=
    UInt64.toNat_ofNat_of_lt' (show _ < 2 ^ 64 by omega)
  have sumNat : (SpanScan.after ss).unreadableSum.toNat = total ss :=
    UInt64.toNat_ofNat_of_lt' (show _ < 2 ^ 64 by omega)
  simp only [validateSpan, Checked.ite_throw_eq_ok, Checked.bind_eq_ok, Checked.mapErr_eq_ok,
    Checked.okOr_eq_ok, Checked.pure_eq_ok, checkedAdd_eq_some, lastNat, sumNat,
    UInt64.lt_iff_toNat_lt, Bool.not_eq_true', Bool.not_eq_false, spanIsContainedInRange_iff bounded]
  constructor
  · rintro ⟨start, parsed, status, statusParsed, pos, stop, stopNat, apart, within, sum', sumNat',
      rfl⟩
    have apart : lastStop ss ≤ start.toNat := by
      rcases ss with _ | ⟨t, ss⟩
      · exact Nat.zero_le _
      · exact Nat.le_of_not_lt fun lt => apart ⟨by simp, lt⟩
    let t : Piece UInt32 := ⟨start.toNat, span.length.toNat, status⟩
    have stop' : t.stop = stop.toNat := stopNat
    refine ⟨t, ⟨start, status, parsed, statusParsed, rfl⟩,
      h.snoc_iff.mpr ⟨Word.pos_iff.mp pos, apart, stop' ▸ within⟩, ?_⟩
    simp only [SpanScan.after, Interval.lastStop_snoc, Interval.total_append, Interval.total_cons,
      Interval.total_nil, Nat.add_zero, stop', t, sumNat', UInt64.ofNat_toNat]
  · rintro ⟨_, ⟨start, status, parsed, statusParsed, rfl⟩, longer, rfl⟩
    obtain ⟨pos, apart, r, hr, within⟩ := h.snoc_iff.mp longer
    have apart' : lastStop ss ≤ start.toNat := apart
    have small : start.toNat + span.length.toNat < 2 ^ 64 :=
      Nat.lt_of_le_of_lt within.2 (bounded r hr)
    have stopNat : (UInt64.ofNat (start.toNat + span.length.toNat)).toNat =
        start.toNat + span.length.toNat := UInt64.toNat_ofNat_of_lt' small
    have sumNat' : (UInt64.ofNat (total ss + span.length.toNat)).toNat =
        total ss + span.length.toNat := UInt64.toNat_ofNat_of_lt' (show _ < 2 ^ 64 by omega)
    refine ⟨start, parsed, status, statusParsed, Word.pos_iff.mpr pos, _, stopNat.symm,
      fun h => by omega, ⟨r, hr, within.1, by rw [stopNat]; exact within.2⟩, _, sumNat'.symm, ?_⟩
    simp only [SpanScan.after, Interval.lastStop_snoc, Interval.total_append, Interval.total_cons,
      Interval.total_nil, Nat.add_zero, Piece.stop]

theorem validateUnreadableSpans_eq_ok {map : MapFile} {u : Unit} :
    (validateUnreadableSpans map (rs.map parsedRange) :
        Except (VerificationError JsonError) Unit) = .ok u ↔
      ∃ ss, List.Forall₂ UnreadableEntry.Denotes map.unreadable ss ∧ Contained rs ss ∧
        total ss = map.unreadableBytes.toNat := by
  have scan (s : SpanScan) :
      (Checked.forEnumerated (validateSpan (rs.map parsedRange)) 0 map.unreadable {} :
          Except (VerificationError JsonError) SpanScan) = .ok s ↔
        ∃ ss, List.Forall₂ UnreadableEntry.Denotes map.unreadable ss ∧ Contained rs ss ∧
          s = .after ss :=
    Checked.forEnumerated_eq_ok (fun _ _ => Contained.take)
      (fun _ h _ _ => validateSpan_eq_ok bounded h) (Contained.nil rs)
  have sums {ss : List (Piece UInt32)} (h : Contained rs ss) :
      (SpanScan.after ss).unreadableSum.toNat = total ss :=
    UInt64.toNat_ofNat_of_lt'
      (Nat.lt_of_le_of_lt h.ordered.total_le_lastStop (h.lastStop_lt bounded))
  simp only [validateUnreadableSpans, Checked.bind_eq_ok, scan]
  constructor
  · rintro ⟨_, ⟨ss, denoted, contained, rfl⟩, sum⟩
    simp only [Checked.ite_throw_end_eq_ok, ne_eq, not_not] at sum
    exact ⟨ss, denoted, contained, by rw [← sums contained, sum.1]⟩
  · rintro ⟨ss, denoted, contained, sum⟩
    refine ⟨_, ⟨ss, denoted, contained, rfl⟩, ?_⟩
    simp only [Checked.ite_throw_end_eq_ok, ne_eq, not_not]
    exact ⟨by rw [← UInt64.toNat_inj, sums contained, sum], rfl⟩

end Spans

/-! ### The zeros behind the spans -/

/-- The bytes of a file in an interval are all zero. -/
def ZeroIn (raw : List Byte) (start stop : Nat) : Prop :=
  ∀ n, start ≤ n → n < stop → raw[n]? = some 0

theorem zeroIn_append {raw : List Byte} {start stop : Nat} (mid : Nat) (h : start ≤ mid)
    (h' : mid ≤ stop) :
    ZeroIn raw start stop ↔ ZeroIn raw start mid ∧ ZeroIn raw mid stop := by
  constructor
  · intro all
    exact ⟨fun n ge lt => all n ge (by omega), fun n ge lt => all n (by omega) lt⟩
  · rintro ⟨low, high⟩ n ge lt
    by_cases early : n < mid
    · exact low n ge early
    · exact high n (Nat.le_of_not_lt early) lt

theorem readExact_eq_ok {raw : List Byte} {position requested : Nat}
    (fits : position + requested ≤ raw.length) :
    readExact raw position requested = .ok ((raw.drop position).take requested) := if_pos fits

theorem findIdx?_eq_none_iff {raw : List Byte} {position requested : Nat}
    (fits : position + requested ≤ raw.length) :
    ((raw.drop position).take requested).findIdx? (· ≠ 0) = none ↔
      ZeroIn raw position (position + requested) := by
  rw [List.findIdx?_eq_none_iff]
  constructor
  · intro all n ge lt
    obtain ⟨i, rfl⟩ := Nat.exists_eq_add_of_le ge
    have inside : position + i < raw.length := by omega
    have found : ((raw.drop position).take requested)[i]? = some raw[position + i] := by
      rw [List.getElem?_take_of_lt (by omega), List.getElem?_drop, List.getElem?_eq_getElem inside]
    have zero := all _ (List.mem_of_getElem? found)
    rw [List.getElem?_eq_getElem inside]
    simpa using zero
  · intro all b hb
    obtain ⟨i, hi, rfl⟩ := List.mem_iff_getElem.mp hb
    rw [List.length_take, List.length_drop] at hi
    have zero := all (position + i) (by omega) (by omega)
    rw [List.getElem_take, List.getElem_drop]
    rw [List.getElem?_eq_getElem (by omega)] at zero
    simpa using zero

/-- However the scan is cut into chunks, it looks at every byte of the span. -/
theorem verifyZeros_eq_ok {raw : List Byte} {start remaining offset : UInt64}
    (fits : start.toNat + offset.toNat + remaining.toNat ≤ raw.length)
    (small : offset.toNat + remaining.toNat < 2 ^ 64) {u : Unit} :
    (verifyZeros raw start remaining offset : Except (VerificationError JsonError) Unit) = .ok u ↔
      ZeroIn raw (start.toNat + offset.toNat)
        (start.toNat + offset.toNat + remaining.toNat) := by
  induction remaining, offset using verifyZeros.induct with
  | case1 remaining offset left requested ih =>
      have size : requested.toNat = min remaining.toNat (UInt64.ofNat zeroCheckChunkBytes).toNat :=
        Word.toNat_min _ _
      have rest : (remaining - requested).toNat = remaining.toNat - requested.toNat :=
        Word.toNat_sub_of_le (by omega)
      have next : (offset + requested).toNat = offset.toNat + requested.toNat :=
        Word.toNat_add_of_lt (by omega)
      have chunk : start.toNat + offset.toNat + requested.toNat ≤ raw.length := by omega
      have more := ih (by omega) (by omega)
      rw [rest, next] at more
      rw [zeroIn_append (start.toNat + offset.toNat + requested.toNat) (by omega) (by omega),
        ← findIdx?_eq_none_iff chunk, verifyZeros, dif_pos left]
      show (Checked.mapErr VerificationError.io (readExact raw _ requested.toNat) >>= _) = _ ↔ _
      rw [readExact_eq_ok chunk]
      simp only [Checked.bind_eq_ok, Checked.mapErr_eq_ok, Except.ok.injEq, exists_eq_left']
      cases ((raw.drop (start.toNat + offset.toNat)).take requested.toNat).findIdx? (· ≠ 0) with
      | none =>
          have stop : start.toNat + (offset.toNat + requested.toNat) +
              (remaining.toNat - requested.toNat) =
              start.toNat + offset.toNat + remaining.toNat := by omega
          rw [more, stop, ← Nat.add_assoc]
          exact (and_iff_right rfl).symm
      | some i => simp
  | case2 remaining offset done =>
      rw [verifyZeros, dif_neg done]
      have none : remaining = 0 := not_not.mp done
      subst none
      constructor
      · intro _ n ge lt
        rw [UInt64.toNat_zero] at lt
        omega
      · intro _
        rfl

theorem verifyUnreadableRepresentation_eq_ok {raw : List Byte} {entries : List UnreadableEntry}
    {ss : List (Piece UInt32)} (denoted : List.Forall₂ UnreadableEntry.Denotes entries ss)
    (within : ∀ s ∈ ss, s.stop ≤ raw.length) {u : Unit} :
    (verifyUnreadableRepresentation raw entries : Except (VerificationError JsonError) Unit) =
        .ok u ↔ ∀ n ∈ cells ss, raw[n]? = some 0 := by
  induction denoted with
  | nil => simp [verifyUnreadableRepresentation]
  | @cons entry s entries ss denotes denoted ih =>
      obtain ⟨start, status, parsed, -, rfl⟩ := denotes
      have stop : start.toNat + (0 : UInt64).toNat + entry.length.toNat ≤ raw.length :=
        within _ List.mem_cons_self
      have length := entry.length.toNat_lt
      have zeros (u : Unit) :
          (verifyZeros raw start entry.length 0 : Except (VerificationError JsonError) Unit) =
              .ok u ↔ _ :=
        verifyZeros_eq_ok stop (by
          rw [UInt64.toNat_zero]
          omega)
      simp only [verifyUnreadableRepresentation, Checked.bind_eq_ok, Checked.mapErr_eq_ok, parsed,
        Except.ok.injEq, exists_eq_left', zeros, ih fun s hs => within s (List.mem_cons_of_mem _ hs),
        Interval.cells_cons, Finset.mem_union, Piece.mem_cells, or_imp, forall_and, ZeroIn,
        UInt64.toNat_zero, Nat.add_zero, and_imp, Piece.stop, exists_const]

/-! ### The status -/

theorem validateStatus_eq_ok {map : MapFile} {ss : List (Piece UInt32)}
    (count : (cells ss).card = map.unreadableBytes.toNat) {u : Unit} :
    (validateStatus map : Except (VerificationError JsonError) Unit) = .ok u ↔
      map.status = if map.topologyChanged = true ∨ (cells ss).Nonempty
        then str "incomplete" else str "complete" := by
  have some : map.unreadableBytes ≠ 0 ↔ (cells ss).Nonempty := by
    rw [Word.pos_iff, ← count, Finset.card_pos]
  simp only [validateStatus, Checked.ite_throw_end_eq_ok, some, ne_eq, not_not]
  exact and_iff_left rfl

end PhylaRam.Verify
