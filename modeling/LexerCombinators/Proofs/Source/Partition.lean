import Mathlib.Data.List.Sort
import LexerCombinators.Proofs.Source.Offsets

/-!
# The line table cuts a program into its lines

A table of offsets cuts a text into lines if it grows from 0 to the length of the text, every piece
between neighbours ends with its only line break or at the end of the text, no entry is inside the
pair of carriage return and line feed, and no break is missed (`LinePartition`). The entries of such
a table are the two ends of the text and the ends of its breaks (`LinePartition.mem_iff`), so there
is only one. The line table of a program is that one (`lineStarts_partition`), and bisection in it
has a sorted and complete table to search. -/

namespace LexerCombinators

/-- One line break: the pair, or a single break character. -/
inductive IsBreak : Text → Prop
  | pair : IsBreak ['\r', '\n']
  | single {c : Char} : isLineBreak c = true → IsBreak [c]

/-- The table holds the offsets at which the lines of the text begin, and that of its end. -/
structure LinePartition (s : Text) (table : List Int) : Prop where
  increasing : table.Pairwise (· < ·)
  first : table.head? = some 0
  last : table.getLast? = some (s.length : Int)
  piece : ∀ (i : Nat) (x y : Int), table[i]? = some x → table[i + 1]? = some y → slice s x y ≠ [] ∧
    ∃ content ending, slice s x y = content ++ ending ∧ (∀ c ∈ content, isLineBreak c = false) ∧
      (IsBreak ending ∨ ending = [] ∧ y = s.length)
  unsplit : ∀ i : Nat, s[i]? = some '\r' → s[i + 1]? = some '\n' → ((i + 1 : Nat) : Int) ∉ table
  complete : ∀ e : Nat, s.BreakEndsAt e → (e : Int) ∈ table

/-! ### The pieces of a program -/

/-- A line stands between the offsets at which it and the next one begin. -/
theorem slice_of_line {s : Text} {i : Nat} {l : Line} (hl : s.split[i]? = some l) :
    slice s (extent (s.split.take i)) (extent (s.split.take (i + 1))) = l.text := by
  obtain ⟨hi, rfl⟩ := List.getElem?_eq_some_iff.mp hl
  have hflat := Text.flatten_split s
  rw [← List.take_append_drop i s.split, List.drop_eq_getElem_cons hi, List.map_append,
    List.map_cons, List.flatten_append, List.flatten_cons, ← List.append_assoc] at hflat
  have hslice := slice_append ((s.split.take i).map Line.text).flatten s.split[i].text
    ((s.split.drop (i + 1)).map Line.text).flatten
  rw [hflat] at hslice
  rw [extent_take_succ hl, Int.natCast_add]
  exact hslice

/-- What consecutive lines are, each by its number. -/
theorem Line.Consecutive.endsBefore {ls : List Line} (h : Consecutive ls) {i : Nat} {l : Line}
    (hl : ls[i]? = some l) : (∀ c ∈ l.content, LexerCombinators.isLineBreak c = false) ∧
      l.EndsBefore ((ls.drop (i + 1)).map text).flatten := by
  induction h generalizing i with
  | nil => simp at hl
  | cons hclear hend _ ih =>
    cases i with
    | zero =>
      cases hl
      exact ⟨hclear, hend⟩
    | succ i => exact ih hl

/-- A line ends with a break or at the end of the text. -/
theorem ending_of_line {s : Text} {i : Nat} {l : Line} (hl : s.split[i]? = some l) :
    (∀ c ∈ l.content, isLineBreak c = false) ∧
      (IsBreak l.ending ∨ l.ending = [] ∧ extent (s.split.take (i + 1)) = s.length) := by
  obtain ⟨hclear, hend⟩ := (Line.consecutive_split s).endsBefore hl
  refine ⟨hclear, ?_⟩
  cases hend with
  | unbroken _ hend hrest =>
    have hwhole := extent_append (s.split.take (i + 1)) (s.split.drop (i + 1))
    rw [List.take_append_drop, extent_split] at hwhole
    have hzero : extent (s.split.drop (i + 1)) = 0 := by rw [extent, hrest, List.length_nil]
    exact Or.inr ⟨hend, by omega⟩
  | pair hend => exact Or.inl (hend ▸ .pair)
  | single c hend hc _ => exact Or.inl (hend ▸ .single hc)

/-! ### The entries of the line table -/

theorem getElem?_lineStarts {s : Text} {n : Nat} {x : Int} :
    (lineStarts s)[n]? = some x ↔ n ≤ s.split.length ∧ x = extent (s.split.take n) := by
  constructor
  · intro h
    obtain ⟨hn, -⟩ := List.getElem?_eq_some_iff.mp h
    rw [lineStarts, length_startsFrom] at hn
    rw [lineStarts, getElem?_startsFrom (by omega), Option.some.injEq, Int.zero_add] at h
    exact ⟨by omega, h.symm⟩
  · rintro ⟨hn, rfl⟩
    rw [lineStarts, getElem?_startsFrom hn, Int.zero_add]

/-- **The entries of the line table** are the two ends of the program and the ends of its
breaks. -/
theorem mem_lineStarts {s : Text} {x : Int} :
    x ∈ lineStarts s ↔ ∃ o : Nat, x = o ∧ (o = 0 ∨ o = s.length ∨ s.BreakEndsAt o) := by
  have hwhole : extent (s.split.take s.split.length) = s.length := by
    rw [List.take_length, extent_split]
  rw [List.mem_iff_getElem?]
  simp only [getElem?_lineStarts]
  constructor
  · rintro ⟨n, hn, rfl⟩
    refine ⟨_, rfl, ?_⟩
    cases n with
    | zero => exact Or.inl rfl
    | succ n =>
      have hl : s.split[n]? = some s.split[n] := List.getElem?_eq_getElem hn
      by_cases hend : s.split[n].ending = []
      · have hlast : n + 1 = s.split.length := by
          by_contra hne
          obtain ⟨l, hl', hend'⟩ := Text.exists_ending (s := s) (i := n) (by omega)
          rw [hl] at hl'
          cases hl'
          exact hend' hend
        rw [hlast]
        exact Or.inr (Or.inl hwhole)
      · exact Or.inr (Or.inr ((Text.breakEndsAt_iff s _).mpr ⟨n, _, hl, hend, rfl⟩))
  · rintro ⟨o, rfl, rfl | rfl | hbreak⟩
    · exact ⟨0, Nat.zero_le _, rfl⟩
    · exact ⟨s.split.length, le_rfl, by rw [hwhole]⟩
    · obtain ⟨i, l, hl, -, rfl⟩ := (Text.breakEndsAt_iff s o).mp hbreak
      obtain ⟨hi, -⟩ := List.getElem?_eq_some_iff.mp hl
      exact ⟨i + 1, hi, rfl⟩

theorem linePartition_lineStarts (s : Text) : LinePartition s (lineStarts s) where
  increasing := by
    rw [List.pairwise_iff_getElem]
    intro i j hi hj hij
    obtain ⟨-, hx⟩ := getElem?_lineStarts.mp (List.getElem?_eq_getElem hi)
    obtain ⟨hlen, hy⟩ := getElem?_lineStarts.mp (List.getElem?_eq_getElem hj)
    have := Text.extent_take_lt hij hlen
    omega
  first := by
    rw [List.head?_eq_getElem?, getElem?_lineStarts]
    exact ⟨Nat.zero_le _, rfl⟩
  last := by
    rw [List.getLast?_eq_getElem?, getElem?_lineStarts, lineStarts, length_startsFrom,
      Nat.add_sub_cancel, List.take_length, extent_split]
    exact ⟨le_rfl, rfl⟩
  piece := by
    intro i x y hx hy
    obtain ⟨-, rfl⟩ := getElem?_lineStarts.mp hx
    obtain ⟨hi, rfl⟩ := getElem?_lineStarts.mp hy
    have hl : s.split[i]? = some s.split[i] := List.getElem?_eq_getElem hi
    have hpos := (Line.consecutive_split s).text_pos _ (List.mem_of_getElem? hl)
    obtain ⟨hclear, hend⟩ := ending_of_line hl
    rw [slice_of_line hl]
    exact ⟨List.ne_nil_of_length_pos hpos, _, _, rfl, hclear,
      hend.imp_right (And.imp_right fun hlen => by rw [hlen])⟩
  unsplit := by
    intro i hreturn hfeed hmem
    obtain ⟨o, ho, hcases⟩ := mem_lineStarts.mp hmem
    obtain rfl : i + 1 = o := by omega
    obtain ⟨hlt, -⟩ := List.getElem?_eq_some_iff.mp hfeed
    rcases hcases with hzero | hlen | ⟨c, hc, -, hnext⟩
    · omega
    · omega
    · rw [hreturn] at hc
      cases hc
      exact hnext rfl hfeed
  complete := fun e he => mem_lineStarts.mpr ⟨e, rfl, Or.inr (Or.inr he)⟩

/-! ### Only one table -/

theorem IsBreak.exists_getLast {u : Text} (h : IsBreak u) :
    ∃ c, u.getLast? = some c ∧ isLineBreak c = true := by
  cases h with
  | pair => exact ⟨'\n', rfl, rfl⟩
  | single hc => exact ⟨_, rfl, hc⟩

namespace LinePartition

variable {s : Text} {table : List Int}

theorem nonneg (h : LinePartition s table) {x : Int} (hx : x ∈ table) : 0 ≤ x := by
  obtain ⟨rest, rfl⟩ := List.head?_eq_some_iff.mp h.first
  rcases List.mem_cons.mp hx with rfl | hx
  · exact le_rfl
  · exact (List.rel_of_pairwise_cons h.increasing hx).le

theorem le_length (h : LinePartition s table) {x : Int} (hx : x ∈ table) : x ≤ s.length := by
  obtain ⟨front, rfl⟩ := List.getLast?_eq_some_iff.mp h.last
  rcases List.mem_append.mp hx with hx | hx
  · exact ((List.pairwise_append.mp h.increasing).2.2 x hx _ (List.mem_singleton_self _)).le
  · exact (List.mem_singleton.mp hx).le

/-- Behind an entry other than the last a piece ends at the next one, so a break ends there. -/
theorem breakEndsAt (h : LinePartition s table) {i a b : Nat} (ha : table[i]? = some (a : Int))
    (hb : table[i + 1]? = some (b : Int)) : b = s.length ∨ s.BreakEndsAt b := by
  obtain ⟨hi, hget⟩ := List.getElem?_eq_some_iff.mp ha
  obtain ⟨hi', hget'⟩ := List.getElem?_eq_some_iff.mp hb
  have hlt := List.pairwise_iff_getElem.mp h.increasing i (i + 1) hi hi' (Nat.lt_succ_self i)
  rw [hget, hget'] at hlt
  have hmem : (b : Int) ∈ table := List.mem_of_getElem? hb
  have hle := h.le_length hmem
  obtain ⟨k, rfl⟩ : ∃ k, b = k + 1 := ⟨b - 1, by omega⟩
  obtain ⟨-, content, ending, hslice, -, hend⟩ := h.piece i a _ ha hb
  rcases hend with hbreak | ⟨-, hlen⟩
  · obtain ⟨c, hlast, hc⟩ := hbreak.exists_getLast
    -- the last character of the piece is the one in front of the entry
    have hchar : s[k]? = some c := by
      have hpiece := congrArg List.getLast? hslice
      rw [slice_natCast, List.getLast?_append, hlast, Option.some_or, List.getLast?_drop,
        if_neg (by rw [List.length_take]; omega), List.getLast?_take, if_neg (by omega),
        Nat.add_sub_cancel, List.getElem?_eq_getElem (by omega), Option.some_or] at hpiece
      rw [List.getElem?_eq_getElem (by omega), hpiece]
    refine Or.inr ⟨c, hchar, hc, ?_⟩
    rintro rfl hnext
    exact h.unsplit k hchar hnext hmem
  · exact Or.inl (by omega)

theorem mem_iff (h : LinePartition s table) {x : Int} :
    x ∈ table ↔ ∃ o : Nat, x = o ∧ (o = 0 ∨ o = s.length ∨ s.BreakEndsAt o) := by
  constructor
  · intro hx
    obtain ⟨o, rfl⟩ := Int.eq_ofNat_of_zero_le (h.nonneg hx)
    refine ⟨o, rfl, ?_⟩
    obtain ⟨i, hi⟩ := List.mem_iff_getElem?.mp hx
    cases i with
    | zero =>
      rw [← List.head?_eq_getElem?, h.first] at hi
      cases hi
      exact Or.inl rfl
    | succ i =>
      obtain ⟨hlt, -⟩ := List.getElem?_eq_some_iff.mp hi
      have hprev : table[i]? = some table[i] := List.getElem?_eq_getElem (by omega)
      obtain ⟨a, ha⟩ := Int.eq_ofNat_of_zero_le (h.nonneg (List.mem_of_getElem? hprev))
      rw [ha] at hprev
      exact Or.inr (h.breakEndsAt hprev hi)
  · rintro ⟨o, rfl, rfl | rfl | hbreak⟩
    · exact List.mem_of_head? h.first
    · exact List.mem_of_getLast? h.last
    · exact h.complete o hbreak

end LinePartition

/-- **The line table is a partition** of the program into its lines, and no other table is one. It
has 0 as its only entry exactly for the empty program. -/
theorem lineStarts_partition (s : Text) :
    LinePartition s (lineStarts s) ∧ (lineStarts s = [0] ↔ s = []) ∧
    ∀ table, LinePartition s table → table = lineStarts s := by
  have hpartition := linePartition_lineStarts s
  refine ⟨hpartition, ⟨fun h => ?_, ?_⟩, fun table h => ?_⟩
  · have hlast := hpartition.last
    rw [h] at hlast
    have hzero : (0 : Int) = s.length := Option.some.inj hlast
    exact List.eq_nil_of_length_eq_zero (by omega)
  · rintro rfl
    rfl
  · refine h.increasing.eq_of_mem_iff hpartition.increasing fun x => ?_
    rw [h.mem_iff, mem_lineStarts]

/-- Both kinds of break, alone and in a row, at the front and at the end of a text. -/
example : lineStarts "\n\r\r\nab\r".toList = [0, 1, 2, 4, 7] := by decide

end LexerCombinators
