import Mathlib.Data.Finset.Card
import Mathlib.Data.Finset.Lattice.Fold
import Mathlib.Order.Lattice.Nat
import LexerCombinators.Proofs.Source.Positions

/-!
# Line breaks by characters

Where a text breaks can be told from single characters and their right neighbours
(`Text.BreakEndsAt`), and so the line and the column of an offset can be counted off without cutting
the text into lines: the line is one more than the number of breaks that end up to the offset, and
the column starts behind the last of them (`Text.positionAt`). The lines of a text are *consecutive*:
what ends a line depends on what follows (`Line.EndsBefore`). Over consecutive lines the breaks end
exactly where the lines with an ending do (`breakEndsAt_iff`), hence on a line of number `n` there
are `n` breaks up to an offset, and the last of them ends where the line begins
(`Text.positionAt_of_split`). -/

namespace LexerCombinators

/-! ### Positions by counting -/

namespace Text

/-- A line break ends at the offset: in front of it stands a break character, and that is not a
carriage return with a line feed behind it. -/
def BreakEndsAt (s : Text) : Nat → Prop
  | 0 => False
  | i + 1 => ∃ c ∈ s[i]?, isLineBreak c = true ∧ (c = '\r' → s[i + 1]? ≠ some '\n')

instance (s : Text) : DecidablePred s.BreakEndsAt
  | 0 => inferInstanceAs (Decidable False)
  | i + 1 => decidable_of_iff
      ((s[i]?).any fun c => isLineBreak c && !(c == '\r' && s[i + 1]? == some '\n'))
      (by simp [BreakEndsAt, Option.any_eq_true, imp_iff_not_or])

/-- The ends of the line breaks up to an offset. -/
def breaksUpTo (s : Text) (o : Nat) : Finset Nat := {e ∈ Finset.range (o + 1) | s.BreakEndsAt e}

/-- The position of an offset, by counting: its line is one more than the number of breaks up to it,
and its column starts behind the last of them. -/
def positionAt (s : Text) (o : Nat) : Position :=
  ⟨(s.breaksUpTo o).card + 1, o - ((s.breaksUpTo o).sup id : Nat)⟩

theorem breakEndsAt_append (u s : Text) (i : Nat) :
    BreakEndsAt (u ++ s) (u.length + i + 1) ↔ s.BreakEndsAt (i + 1) := by
  have hi : (u ++ s)[u.length + i]? = s[i]? := by
    rw [List.getElem?_append_right (by omega), Nat.add_sub_cancel_left]
  have hnext : (u ++ s)[u.length + i + 1]? = s[i + 1]? := by
    rw [List.getElem?_append_right (by omega)]
    congr 1
    omega
  simp only [BreakEndsAt, hi, hnext]

end Text

/-! ### Where lines begin -/

theorem extent_take_succ {ls : List Line} {i : Nat} {l : Line} (h : ls[i]? = some l) :
    extent (ls.take (i + 1)) = extent (ls.take i) + l.text.length := by
  rw [List.take_add_one, h, extent_append]
  simp [extent]

theorem extent_take_mono (ls : List Line) {i j : Nat} (h : i ≤ j) :
    extent (ls.take i) ≤ extent (ls.take j) := by
  rw [← Nat.add_sub_cancel' h, List.take_add, extent_append]
  exact Nat.le_add_right _ _

/-! ### Consecutive lines -/

namespace Line

/-- How a line ends in front of the rest of its text: without a break only at the end of the text,
with both characters of a pair, or with one break that does not begin a pair. -/
inductive EndsBefore (l : Line) (rest : Text) : Prop
  | unbroken : l.content ≠ [] → l.ending = [] → rest = [] → EndsBefore l rest
  | pair : l.ending = ['\r', '\n'] → EndsBefore l rest
  | single (c : Char) : l.ending = [c] → isLineBreak c = true →
      (c = '\r' → rest.head? ≠ some '\n') → EndsBefore l rest

/-- Lines that stand in a text one behind another. -/
inductive Consecutive : List Line → Prop
  | nil : Consecutive []
  | cons {l : Line} {ls : List Line} : (∀ c ∈ l.content, isLineBreak c = false) →
      l.EndsBefore (ls.map text).flatten → Consecutive ls → Consecutive (l :: ls)

section EndsBefore

variable {l : Line} {rest : Text}

theorem EndsBefore.text_pos (h : l.EndsBefore rest) : 0 < l.text.length := by
  have hlen : l.text.length = l.content.length + l.ending.length := List.length_append
  cases h with
  | unbroken hcontent => have := List.length_pos_iff.mpr hcontent; omega
  | pair hend => rw [hend] at hlen; simp at hlen; omega
  | single c hend => rw [hend] at hlen; simp at hlen; omega

/-- An ending is made of breaks. -/
theorem EndsBefore.isLineBreak (h : l.EndsBefore rest) :
    ∀ c ∈ l.ending, isLineBreak c = true := by
  cases h with
  | unbroken _ hend => simp [hend]
  | pair hend =>
    have hreturn : LexerCombinators.isLineBreak '\r' = true := rfl
    have hfeed : LexerCombinators.isLineBreak '\n' = true := rfl
    simp [hend, hreturn, hfeed]
  | single c hend hc => simpa [hend] using hc

/-- Only the last line has no ending. -/
theorem EndsBefore.ending_ne_nil (h : l.EndsBefore rest) (hrest : rest ≠ []) : l.ending ≠ [] := by
  cases h with
  | unbroken _ _ hnil => exact absurd hnil hrest
  | pair hend | single _ hend => simp [hend]

/-- **On a line a break ends only where the line does**, if the line has an ending. -/
theorem EndsBefore.breakEndsAt_iff (h : l.EndsBefore rest)
    (hl : ∀ c ∈ l.content, LexerCombinators.isLineBreak c = false) {e : Nat}
    (he : e ≤ l.text.length) :
    Text.BreakEndsAt (l.text ++ rest) e ↔ e = l.text.length ∧ l.ending ≠ [] := by
  have hpos := h.text_pos
  have hlen : l.text.length = l.content.length + l.ending.length := List.length_append
  cases e with
  | zero => exact iff_of_false id (by omega)
  | succ i =>
    by_cases hi : i < l.content.length
    · have hget : (l.text ++ rest)[i]? = some l.content[i] := by
        rw [text, List.append_assoc, List.getElem?_append_left hi, List.getElem?_eq_getElem hi]
      have hclear := hl _ (List.getElem_mem hi)
      refine iff_of_false ?_ ?_
      · rintro ⟨c, hc, hbreak, -⟩
        rw [hget] at hc
        cases hc
        rw [hclear] at hbreak
        cases hbreak
      · rintro ⟨hend, hne⟩
        have := List.length_pos_iff.mpr hne
        omega
    · obtain ⟨k, rfl⟩ : ∃ k, i = l.content.length + k := ⟨i - l.content.length, by omega⟩
      have hk : k < l.ending.length := by omega
      rw [text, List.append_assoc, Text.breakEndsAt_append, List.length_append]
      cases h with
      | unbroken _ hend => simp [hend] at hk
      | pair hend =>
        rw [hend] at hk ⊢
        have hcases : k = 0 ∨ k = 1 := by simp at hk; omega
        rcases hcases with rfl | rfl <;> simp [Text.BreakEndsAt, LexerCombinators.isLineBreak]
      | single c hend hc hnext =>
        rw [hend] at hk ⊢
        have hzero : k = 0 := by simpa using hk
        subst hzero
        simpa [Text.BreakEndsAt, hc, ← List.head?_eq_getElem?] using hnext

end EndsBefore

theorem Consecutive.extend {c : Char} (hc : LexerCombinators.isLineBreak c = false)
    {ls : List Line} (h : Consecutive ls) : Consecutive (Line.extend c ls) := by
  cases h with
  | nil => exact .cons (by simpa using hc) (.unbroken (List.cons_ne_nil _ _) rfl rfl) .nil
  | @cons l ls hl hend hls =>
    refine .cons (by simpa [hc] using hl) ?_ hls
    cases hend with
    | unbroken _ hend hnil => exact .unbroken (List.cons_ne_nil _ _) hend hnil
    | pair hend => exact .pair hend
    | single d hend hbreak hnext => exact .single d hend hbreak hnext

/-- **The lines of a text are consecutive.** -/
theorem consecutive_split (s : Text) : Consecutive s.split := by
  fun_induction Text.split s with
  | case1 => exact .nil
  | case2 s ih => exact .cons (by simp) (.pair rfl) ih
  | case3 c s hcr hbreak ih =>
    refine .cons (by simp) (.single c rfl hbreak fun h hs => ?_) ih
    rw [Text.flatten_split] at hs
    obtain ⟨t, rfl⟩ := List.head?_eq_some_iff.mp hs
    exact hcr t h rfl
  | case4 c s _ hbreak ih => exact ih.extend (by simpa using hbreak)

theorem Consecutive.text_pos {ls : List Line} (h : Consecutive ls) :
    ∀ l ∈ ls, 0 < l.text.length := by
  induction h with
  | nil => simp
  | cons _ hend _ ih => exact List.forall_mem_cons.mpr ⟨hend.text_pos, ih⟩

/-- Of consecutive lines only the last has no ending. -/
theorem Consecutive.ending_ne_nil {ls : List Line} (h : Consecutive ls) {i : Nat} {l : Line}
    (hl : l ∈ ls[i]?) (hi : i + 1 < ls.length) : l.ending ≠ [] := by
  induction h generalizing i with
  | nil => simp at hl
  | @cons first ls _ hend hls ih =>
    rw [List.length_cons] at hi
    cases i with
    | zero =>
      cases hl
      obtain ⟨next, ls, rfl⟩ := List.exists_cons_of_length_pos (by omega : 0 < ls.length)
      have hpos := hls.text_pos next List.mem_cons_self
      exact hend.ending_ne_nil (by simp [List.ne_nil_of_length_pos hpos])
    | succ i => exact ih hl (by omega)

/-- **Breaks end where the lines with an ending do.** -/
theorem Consecutive.breakEndsAt_iff {ls : List Line} (h : Consecutive ls) (e : Nat) :
    Text.BreakEndsAt (ls.map text).flatten e ↔
      ∃ i, ∃ l ∈ ls[i]?, l.ending ≠ [] ∧ e = extent (ls.take (i + 1)) := by
  induction h generalizing e with
  | nil => cases e <;> simp [Text.BreakEndsAt]
  | @cons first ls hclear hend hls ih =>
    have hpos := hend.text_pos
    have hfirst : extent (List.take 1 (first :: ls)) = first.text.length := by simp [extent]
    have hnext : ∀ i, extent (List.take (i + 1 + 1) (first :: ls)) =
        first.text.length + extent (ls.take (i + 1)) := by
      intro i
      rw [List.take_succ_cons, extent_cons]
    rw [List.map_cons, List.flatten_cons]
    by_cases he : e ≤ first.text.length
    · -- a break up to the end of the first line ends that line, since the others are not empty
      rw [hend.breakEndsAt_iff hclear he]
      constructor
      · rintro ⟨rfl, hne⟩
        exact ⟨0, first, rfl, hne, hfirst.symm⟩
      · rintro ⟨i, l, hl, hne, rfl⟩
        cases i with
        | zero => cases hl; exact ⟨hfirst, hne⟩
        | succ i =>
          have hmem : l ∈ ls := List.mem_of_getElem? hl
          have hl' : ls[i]? = some l := hl
          have := hls.text_pos l hmem
          rw [hnext, extent_take_succ hl'] at he
          omega
    · obtain ⟨k, rfl⟩ : ∃ k, e = first.text.length + k + 1 := ⟨e - first.text.length - 1, by omega⟩
      rw [Text.breakEndsAt_append, ih]
      constructor
      · rintro ⟨i, l, hl, hne, hk⟩
        exact ⟨i + 1, l, hl, hne, by rw [hnext, ← hk]; omega⟩
      · rintro ⟨i, l, hl, hne, hk⟩
        cases i with
        | zero => rw [hfirst] at hk; omega
        | succ i => exact ⟨i, l, hl, hne, by rw [hnext] at hk; omega⟩

end Line

/-! ### Positions on lines -/

namespace Text

theorem breakEndsAt_iff (s : Text) (e : Nat) : s.BreakEndsAt e ↔
    ∃ i, ∃ l ∈ s.split[i]?, l.ending ≠ [] ∧ e = extent (s.split.take (i + 1)) := by
  have h := (Line.consecutive_split s).breakEndsAt_iff e
  rwa [flatten_split] at h

/-- Only the last line of a text has no ending. -/
theorem exists_ending {s : Text} {i : Nat} (hi : i + 1 < s.split.length) :
    ∃ l ∈ s.split[i]?, l.ending ≠ [] := by
  have hget : s.split[i]? = some s.split[i] := List.getElem?_eq_getElem (by omega)
  exact ⟨_, hget, (Line.consecutive_split s).ending_ne_nil hget hi⟩

/-- Of two lines the later begins at a greater offset. -/
theorem extent_take_lt {s : Text} {i j : Nat} (hij : i < j) (hj : j ≤ s.split.length) :
    extent (s.split.take i) < extent (s.split.take j) := by
  have hi : s.split[i]? = some s.split[i] := List.getElem?_eq_getElem (by omega)
  have hpos := (Line.consecutive_split s).text_pos _ (List.mem_of_getElem? hi)
  have hle := extent_take_mono s.split (show i + 1 ≤ j by omega)
  rw [extent_take_succ hi] at hle
  omega

/-- **Behind `n` lines with endings** and in front of the next, the breaks that end up to an offset
are the endings of these lines. -/
theorem breaksUpTo_of_split {s : Text} {n o : Nat}
    (hends : ∀ i < n, ∃ l ∈ s.split[i]?, l.ending ≠ []) (hle : extent (s.split.take n) ≤ o)
    (hnext : ∀ l ∈ s.split[n]?, l.ending ≠ [] → o < extent (s.split.take (n + 1))) :
    s.breaksUpTo o = (Finset.range n).image fun i => extent (s.split.take (i + 1)) := by
  ext e
  simp only [breaksUpTo, Finset.mem_filter, Finset.mem_range, Finset.mem_image]
  constructor
  · rintro ⟨heo, he⟩
    obtain ⟨i, l, hl, hne, rfl⟩ := (breakEndsAt_iff s e).mp he
    refine ⟨i, ?_, rfl⟩
    by_contra hni
    have hmono := extent_take_mono s.split (show n + 1 ≤ i + 1 by omega)
    rcases Nat.eq_or_lt_of_le (Nat.not_lt.mp hni) with rfl | hlt
    · have := hnext l hl hne
      omega
    · -- the line with number `n` is not the last, so it has an ending
      obtain ⟨hi, -⟩ := List.getElem?_eq_some_iff.mp hl
      obtain ⟨last, hlast, hend⟩ := exists_ending (s := s) (i := n) (by omega)
      have := hnext last hlast hend
      omega
  · rintro ⟨i, hi, rfl⟩
    have hmono := extent_take_mono s.split (show i + 1 ≤ n by omega)
    obtain ⟨l, hl, hne⟩ := hends i hi
    exact ⟨by omega, (breakEndsAt_iff s _).mpr ⟨i, l, hl, hne, rfl⟩⟩

/-- **Counting finds the line**: behind `n` lines with endings and in front of the next, an offset
has the position that it has on the next line. -/
theorem positionAt_of_split {s : Text} {n o : Nat} (hn : n ≤ s.split.length)
    (hends : ∀ i < n, ∃ l ∈ s.split[i]?, l.ending ≠ []) (hle : extent (s.split.take n) ≤ o)
    (hnext : ∀ l ∈ s.split[n]?, l.ending ≠ [] → o < extent (s.split.take (n + 1))) :
    s.positionAt o = ⟨n + 1, o - extent (s.split.take n)⟩ := by
  have hbreaks := breaksUpTo_of_split hends hle hnext
  have hcard : (s.breaksUpTo o).card = n := by
    have hmono : StrictMonoOn (fun i => extent (s.split.take (i + 1))) (Finset.range n) := by
      intro i _ j hj hij
      have hj' := Finset.mem_range.mp hj
      exact extent_take_lt (by omega) (by omega)
    rw [hbreaks, Finset.card_image_of_injOn hmono.injOn, Finset.card_range]
  have hsup : (s.breaksUpTo o).sup id = extent (s.split.take n) := by
    rw [hbreaks, Finset.sup_image]
    refine le_antisymm (Finset.sup_le fun i hi => ?_) ?_
    · exact extent_take_mono _ (Nat.succ_le_of_lt (Finset.mem_range.mp hi))
    · cases n with
      | zero => simp [extent]
      | succ n =>
        exact Finset.le_sup (f := id ∘ fun i => extent (s.split.take (i + 1)))
          (Finset.self_mem_range_succ n)
  rw [positionAt, hcard, hsup]

end Text

end LexerCombinators
