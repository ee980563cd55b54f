/-!
# Text: code points, decimal numbers and signed cuts

A text is the list of its code points, so every length, offset and column counts code points. Next
to it stand the two ways in which texts and lists are addressed by signed numbers: `slice`, where
positions out of range are held inside the list, and `entry?`, where they name nothing.
-/

namespace LexerCombinators

/-- A text is the list of its code points. -/
abbrev Text := List Char

namespace Text

/-- The decimal digits of a natural number, without leading zeros. -/
def decimal (n : Nat) : Text := Nat.toDigits 10 n

/-- An integer in decimal, with a minus sign in front of a negative one. -/
def integer : Int → Text
  | .ofNat n => decimal n
  | .negSucc n => '-' :: decimal (n + 1)

/-- Each byte is the code point of the same number. -/
def ofLatin1 (bytes : List UInt8) : Text := bytes.map fun b => Char.ofNat b.toNat

end Text

/-! ### Signed positions -/

section Slice

variable {α : Type}

/-- The cut that a signed position names among `n` entries: a negative position counts from the
end, and a position outside is moved to the nearer end. -/
def cut (n : Nat) (i : Int) : Nat := if i < 0 then (n + i).toNat else min i.toNat n

/-- The entries between two signed cuts; none when the cuts are equal or cross. -/
def slice (xs : List α) (lo hi : Int) : List α :=
  (xs.take (cut xs.length hi)).drop (cut xs.length lo)

/-- The entry at a signed position; a negative position counts from the end. -/
def entry? (xs : List α) (i : Int) : Option α :=
  if 0 ≤ i then xs[i.toNat]? else if 0 ≤ xs.length + i then xs[(xs.length + i).toNat]? else none

/-- What is said about a position that names no entry. -/
def noEntryMessage : Text := "list index out of range".toList

theorem cut_le (n : Nat) (i : Int) : cut n i ≤ n := by
  unfold cut; split <;> omega

theorem cut_natCast (n k : Nat) : cut n k = min k n := by
  unfold cut
  rw [if_neg (by omega), Int.toNat_natCast]

theorem drop_min_of_length_le {xs : List α} {n : Nat} (h : xs.length ≤ n) (a : Nat) :
    xs.drop (min a n) = xs.drop a := by
  rcases Nat.le_total a n with ha | ha
  · rw [Nat.min_eq_left ha]
  · rw [Nat.min_eq_right ha, List.drop_eq_nil_of_le h, List.drop_eq_nil_of_le (by omega)]

/-- Between two cuts that count from the front, a slice is what it looks like. -/
theorem slice_natCast (xs : List α) (a b : Nat) : slice xs a b = (xs.take b).drop a := by
  rw [slice, cut_natCast, cut_natCast, ← List.take_eq_take_min,
    drop_min_of_length_le (List.length_take_le' b xs)]

/-- A slice cuts a piece out of the middle. -/
theorem slice_append (a u b : List α) :
    slice (a ++ u ++ b) a.length (a.length + u.length) = u := by
  rw [← Int.natCast_add, slice_natCast, List.append_assoc, List.take_length_add_append,
    List.drop_left, List.take_left]

end Slice

end LexerCombinators
