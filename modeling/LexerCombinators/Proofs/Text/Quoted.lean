import Mathlib.Tactic.IntervalCases
import LexerCombinators.Text.Quoted

/-!
# Quoted texts are read back

A way of writing values is self-delimiting if what is written for a value shows which value it is
and where it ends, whatever stands behind it (`SelfDelimiting`). An escaped character is: a reader
takes it off the front of a text again (`readEscaped_append`). So are items in a row up to a mark
that begins none of them (`flatMap_append_inj`), and with that quoted texts
(`selfDelimiting_quoted`). None of this depends on which characters are printable.
-/

namespace LexerCombinators

/-- Whatever stands behind what `f` writes for `a`, no other value is written with the same
beginning, and `a` itself leaves the same rest. -/
def SelfDelimiting {α : Type} (f : α → Text) (a : α) : Prop :=
  ∀ b s t, f a ++ s = f b ++ t → a = b ∧ s = t

/-- What a reader takes off the front of a text again, it finds the end of. -/
theorem selfDelimiting_of_read {α : Type} {f : α → Text} (read : Text → Option (α × Text))
    (h : ∀ a s, read (f a ++ s) = some (a, s)) (a : α) : SelfDelimiting f a := by
  intro b s t hst
  have hread : some (a, s) = some (b, t) := by rw [← h a s, hst, h b t]
  exact Prod.mk.inj (Option.some.inj hread)

theorem SelfDelimiting.append_left {α : Type} {f : α → Text} {a : α} (h : SelfDelimiting f a)
    (l : Text) : SelfDelimiting (l ++ f ·) a := by
  intro b s t hst
  rw [List.append_assoc, List.append_assoc] at hst
  exact h b s t (List.append_cancel_left hst)

/-- Items in a row, up to a mark that begins none of them. -/
theorem flatMap_append_inj {α : Type} {f : α → Text} {mark : Char} {as bs : List α} {s t : Text}
    (hmark : ∀ a s t, f a ++ s ≠ mark :: t) (has : ∀ a ∈ as, SelfDelimiting f a)
    (h : as.flatMap f ++ mark :: s = bs.flatMap f ++ mark :: t) : as = bs ∧ s = t := by
  induction as generalizing bs with
  | nil =>
    cases bs with
    | nil => exact ⟨rfl, List.tail_eq_of_cons_eq h⟩
    | cons b bs =>
      rw [List.flatMap_cons, List.append_assoc] at h
      exact absurd h.symm (hmark b _ s)
  | cons a as ih =>
    rw [List.flatMap_cons, List.append_assoc] at h
    cases bs with
    | nil => exact absurd h (hmark a _ t)
    | cons b bs =>
      rw [List.flatMap_cons, List.append_assoc] at h
      obtain ⟨rfl, hrest⟩ := has a List.mem_cons_self b _ _ h
      obtain ⟨rfl, hst⟩ := ih (fun a' ha' => has a' (List.mem_cons_of_mem _ ha')) hrest
      exact ⟨rfl, hst⟩

/-! ### Hexadecimal digits -/

/-- The number that a hexadecimal digit stands for. -/
def hexValue (c : Char) : Nat := if c.toNat < 87 then c.toNat - 48 else c.toNat - 87

/-- The number that hexadecimal digits stand for. -/
def unhex (l : Text) : Nat := l.foldl (fun n c => n * 16 + hexValue c) 0

theorem hexValue_hexDigit {n : Nat} (h : n < 16) : hexValue (hexDigit n) = n := by
  interval_cases n <;> decide

theorem length_hex (width n : Nat) : (hex width n).length = width := by
  induction width generalizing n with
  | zero => rfl
  | succ width ih => rw [hex, List.length_append, ih, List.length_singleton]

theorem unhex_hex (width n : Nat) : unhex (hex width n) = n % 16 ^ width := by
  induction width generalizing n with
  | zero => rw [pow_zero, Nat.mod_one]; rfl
  | succ width ih =>
    have hstep : unhex (hex (width + 1) n) = unhex (hex width (n / 16)) * 16 + n % 16 := by
      rw [hex, unhex, List.foldl_append, List.foldl_cons, List.foldl_nil,
        hexValue_hexDigit (Nat.mod_lt n (by decide))]
      rfl
    rw [hstep, ih, pow_succ', Nat.mod_mul]
    omega

/-! ### Escaped characters -/

/-- Both delimiters of quoted texts. -/
def IsQuote (d : Char) : Prop := d = '\'' ∨ d = '"'

theorem isQuote_delimiter (s : Text) : IsQuote s.delimiter := by
  unfold Text.delimiter
  split_ifs
  · exact .inr rfl
  · exact .inl rfl

/-- Reads a character by its number from the digits at the front. -/
def readNumbered (width : Nat) (s : Text) : Char × Text :=
  (Char.ofNat (unhex (s.take width)), s.drop width)

/-- Reads what stands behind a backslash. -/
def readBackslashed : Text → Option (Char × Text)
  | [] => none
  | c :: s =>
    if c = 'n' then some ('\n', s)
    else if c = 'r' then some ('\r', s)
    else if c = 't' then some ('\t', s)
    else if c = 'x' then some (readNumbered 2 s)
    else if c = 'u' then some (readNumbered 4 s)
    else if c = 'U' then some (readNumbered 8 s)
    else some (c, s)

/-- Reads one escaped character. -/
def readEscaped : Text → Option (Char × Text)
  | [] => none
  | c :: s => if c = '\\' then readBackslashed s else some (c, s)

theorem readNumbered_hex {c : Char} {width : Nat} (h : c.toNat < 16 ^ width) (s : Text) :
    readNumbered width (hex width c.toNat ++ s) = (c, s) := by
  have hlen := length_hex width c.toNat
  rw [readNumbered, List.take_left' hlen, List.drop_left' hlen, unhex_hex, Nat.mod_eq_of_lt h,
    Char.ofNat_toNat]

/-- Eight digits are enough for every character. -/
theorem toNat_lt_sixteen_pow (c : Char) : c.toNat < 16 ^ 8 := by
  have hvalid : c.toNat.isValidChar := c.valid
  unfold Nat.isValidChar at hvalid
  omega

theorem readEscaped_numbered (c : Char) (s : Text) :
    readEscaped (numbered c ++ s) = some (c, s) := by
  unfold numbered
  dsimp only
  split_ifs with h2 h4
  · exact congrArg some (readNumbered_hex h2 s)
  · exact congrArg some (readNumbered_hex h4 s)
  · exact congrArg some (readNumbered_hex (toNat_lt_sixteen_pow c) s)

/-- **An escaped character is read back.** -/
theorem readEscaped_append {d : Char} (hd : IsQuote d) (c : Char) (s : Text) :
    readEscaped (escaped d c ++ s) = some (c, s) := by
  unfold escaped
  split_ifs with hq hn hr ht hp
  · obtain rfl | rfl := hq
    · rfl
    · obtain rfl | rfl := hd <;> rfl
  · rw [hn]; rfl
  · rw [hr]; rfl
  · rw [ht]; rfl
  · exact if_neg fun h => hq (.inl h)
  · exact readEscaped_numbered c s

theorem selfDelimiting_escaped {d : Char} (hd : IsQuote d) (c : Char) :
    SelfDelimiting (escaped d) c :=
  selfDelimiting_of_read readEscaped (readEscaped_append hd) c

theorem exists_numbered_eq (c : Char) : ∃ l, numbered c = '\\' :: l := by
  unfold numbered
  dsimp only
  split_ifs <;> exact ⟨_, rfl⟩

theorem exists_escaped_eq {d : Char} (hd : IsQuote d) (c : Char) :
    ∃ a l, escaped d c = a :: l ∧ a ≠ d := by
  have hback : '\\' ≠ d := by obtain rfl | rfl := hd <;> decide
  unfold escaped
  split_ifs with hq hn hr ht hp
  · exact ⟨_, _, rfl, hback⟩
  · exact ⟨_, _, rfl, hback⟩
  · exact ⟨_, _, rfl, hback⟩
  · exact ⟨_, _, rfl, hback⟩
  · exact ⟨c, [], rfl, fun h => hq (.inr h)⟩
  · obtain ⟨l, hl⟩ := exists_numbered_eq c
    exact ⟨_, l, hl, hback⟩

/-- Inside a quoted text the delimiter begins nothing: it stands only behind a backslash. -/
theorem escaped_append_ne {d : Char} (hd : IsQuote d) (c : Char) (s t : Text) :
    escaped d c ++ s ≠ d :: t := by
  obtain ⟨a, l, hl, had⟩ := exists_escaped_eq hd c
  rw [hl, List.cons_append]
  exact fun h => had (List.head_eq_of_cons_eq h)

/-! ### Quoted texts -/

namespace Text

theorem quoted_append (s t : Text) :
    s.quoted ++ t = s.delimiter :: (s.flatMap (escaped s.delimiter) ++ s.delimiter :: t) := by
  rw [quoted, List.cons_append, List.append_assoc, List.singleton_append]

/-- **A quoted text ends where its delimiter stands alone**, and shows the text. -/
theorem selfDelimiting_quoted (s : Text) : SelfDelimiting quoted s := by
  intro t x y h
  rw [quoted_append, quoted_append] at h
  have hdelim : s.delimiter = t.delimiter := List.head_eq_of_cons_eq h
  rw [← hdelim] at h
  have hquote := isQuote_delimiter s
  exact flatMap_append_inj (escaped_append_ne hquote) (fun c _ => selfDelimiting_escaped hquote c)
    (List.tail_eq_of_cons_eq h)

end Text

end LexerCombinators
