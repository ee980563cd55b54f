import LexerCombinators.Proofs.Pattern.Evaluation

/-!
# Nothing is lost in matching

A result splits its stream if it is a match whose lexemes, joined, stand in front of what remains,
or a failure that carries no lexemes and leaves the stream whole (`Result.Splits`). Each operator on
matchers keeps this property of its parts (`lossless_firstOf` to `lossless_lookahead`), so every
pattern has it whose foreign leaves and wrappers have it (`lossless_matcher`). For lexers there is
nothing foreign, and the law holds of all of them (`lexemes_append_remaining`).
-/

namespace LexerCombinators

variable {ε : Type}

/-- A result that accounts for every character of the stream `s`. -/
inductive Result.Splits (s : Text) : Result → Prop
  | success {ls : List Text} {s' : Text} : ls.flatten ++ s' = s → Splits s (.success ls s')
  | fail : Splits s (.fail s)

/-- A matcher all of whose results split their stream. -/
def Lossless (p : Matcher (Except ε)) : Prop := ∀ s r, p s = .ok r → r.Splits s

theorem Result.Splits.append {s : Text} {r : Result} (h : r.Splits s) (hr : r.isSuccess = true) :
    r.text ++ r.remaining = s := by
  cases h with
  | success h => exact h
  | fail => cases hr

theorem Result.Splits.eq_fail {s : Text} {r : Result} (h : r.Splits s) (hr : r.isSuccess = false) :
    r = .fail s := by
  cases h with
  | success h => cases hr
  | fail => rfl

theorem Result.Splits.suffix {s : Text} {r : Result} (h : r.Splits s) : r.remaining <:+ s := by
  cases h with
  | success h => exact ⟨_, h⟩
  | fail => exact List.suffix_rfl

/-! ### Operators -/

theorem splits_matchRange (lo hi : Char) (s : Text) : (matchRange lo hi s).Splits s := by
  cases s with
  | nil => exact .fail
  | cons c s =>
    rw [matchRange]
    split_ifs
    · exact .success rfl
    · exact .fail

theorem splits_matchLiteral (t s : Text) : (matchLiteral t s).Splits s := by
  unfold matchLiteral
  split_ifs with h
  · obtain ⟨s', rfl⟩ := List.isPrefixOf_iff_prefix.mp h
    exact .success (by simp)
  · exact .fail

theorem splits_untouched (s : Text) : (Result.untouched s).Splits s := .success rfl

theorem lossless_firstOf {ps : List (Matcher (Except ε))} (hps : ∀ p ∈ ps, Lossless p) :
    Lossless (firstOf ps) := by
  intro s r h
  induction ps with
  | nil =>
    cases h
    exact .fail
  | cons p ps ih =>
    obtain ⟨r', hp, h⟩ := except_bind_eq_ok.mp h
    split_ifs at h with hr
    · cases h
      exact hps p (by simp) s r hp
    · exact ih (fun q hq => hps q (by simp [hq])) h

/-- What all the parts of a sequence matched stands in front of what the last one left. -/
theorem append_of_steps {ps : List (Matcher (Except ε))} (hps : ∀ p ∈ ps, Lossless p) :
    ∀ {s s' : Text} {ls : List Text}, steps ps s = .ok (some (ls, s')) → ls.flatten ++ s' = s := by
  induction ps with
  | nil =>
    intro s s' ls h
    cases h
    rfl
  | cons p ps ih =>
    intro s s' ls h
    obtain ⟨r, hp, h⟩ := except_bind_eq_ok.mp h
    split_ifs at h with hr
    · obtain ⟨rest, hrest, h⟩ := except_bind_eq_ok.mp h
      cases rest with
      | none => cases h
      | some rest =>
        cases h
        have ht := ih (fun q hq => hps q (by simp [hq])) hrest
        rw [List.flatten_cons, List.append_assoc, ht]
        exact (hps p (by simp) s r hp).append hr
    · cases h

theorem lossless_inOrder {ps : List (Matcher (Except ε))} (hps : ∀ p ∈ ps, Lossless p) :
    Lossless (inOrder ps) := by
  intro s r h
  obtain ⟨o, ho, h⟩ := except_bind_eq_ok.mp h
  cases o with
  | none =>
    cases h
    exact .fail
  | some o =>
    cases h
    exact .success (append_of_steps hps ho)

theorem Repeated.append {p : Matcher (Except ε)} (hp : Lossless p) {s s' : Text} {ls : List Text}
    (h : Repeated p s ls s') : ls.flatten ++ s' = s := by
  induction h with
  | stop _ _ => rfl
  | more hs hr _ _ ih =>
    rw [List.flatten_cons, List.append_assoc, ih]
    exact (hp _ _ hs).append hr

theorem lossless_greedy {stall : ε} {p : Matcher (Except ε)} (hp : Lossless p) :
    Lossless (greedy stall p) := by
  intro s r h
  obtain ⟨⟨ls, s'⟩, hrep, h⟩ := except_bind_eq_ok.mp h
  have hsplit := (repeated_of_repeats hrep).append hp
  cases ls with
  | nil =>
    cases h
    exact .fail
  | cons l ls =>
    cases h
    exact .success hsplit

theorem lossless_anchored {p : Matcher (Except ε)} (hp : Lossless p) : Lossless (anchored p) := by
  intro s r h
  obtain ⟨r', hr', h⟩ := except_bind_eq_ok.mp h
  cases h
  split_ifs
  · exact hp s r' hr'
  · exact .fail

theorem lossless_lookahead {p : Matcher (Except ε)} (expected : Bool) :
    Lossless (lookahead expected p) := by
  intro s r h
  obtain ⟨r', -, h⟩ := except_bind_eq_ok.mp h
  cases h
  split_ifs
  · exact splits_untouched s
  · exact .fail

/-! ### Patterns -/

section Pattern

variable {α ω : Type} {client : Client α ω ε (Except ε)}

/-- A client whose leaves are lossless, and whose wrappers keep a matcher lossless. -/
structure Client.IsLossless (client : Client α ω ε (Except ε)) : Prop where
  leaf : ∀ a, Lossless (client.leaf a)
  wrap : ∀ w p, Lossless p → Lossless (client.wrap w p)

mutual

/-- **Every pattern is lossless** whose leaves and wrappers are. -/
theorem lossless_matcher (hc : client.IsLossless) : ∀ p : Pattern α ω, Lossless (p.matcher client)
  | .range lo hi => fun s r h => by cases h; exact splits_matchRange lo hi s
  | .literal t => fun s r h => by cases h; exact splits_matchLiteral t s
  | .nothing => fun s r h => by cases h; exact splits_untouched s
  | .choice ps => lossless_firstOf (lossless_matchers hc ps)
  | .sequence ps => lossless_inOrder (lossless_matchers hc ps)
  | .oneOrMore p => lossless_greedy (lossless_matcher hc p)
  | .fullMatch p => lossless_anchored (lossless_matcher hc p)
  | .followedBy _ => lossless_lookahead true
  | .notFollowedBy _ => lossless_lookahead false
  | .foreign a => hc.leaf a
  | .wrapped w p => hc.wrap w _ (lossless_matcher hc p)

theorem lossless_matchers (hc : client.IsLossless) :
    ∀ ps : List (Pattern α ω), ∀ p ∈ Pattern.matchers client ps, Lossless p
  | [] => fun p hp => by cases hp
  | q :: qs => fun p hp => by
    rcases List.mem_cons.mp hp with rfl | hp
    · exact lossless_matcher hc q
    · exact lossless_matchers hc qs p hp

end

end Pattern

/-! ### Lexers -/

namespace Lexer

theorem lossless_run (p : Lexer) : Lossless p.run := lossless_matcher ⟨nofun, nofun⟩ p

/-- **The suffix law.** A match takes its lexemes, in order, from the front of the stream and leaves
the rest, so one without lexemes leaves the stream as it is; a failure has no lexemes and leaves the
stream as it is. -/
theorem lexemes_append_remaining (p : Lexer) (s : Text) (r : Result) (h : p.run s = .ok r) :
    (r.isSuccess = true → s = r.lexemes.flatten ++ r.remaining ∧ r.remaining <:+ s ∧
      (r.isEmpty = true → r.remaining = s)) ∧
    (r.isSuccess = false → r.lexemes = [] ∧ r.remaining = s) := by
  have hsplit := lossless_run p s r h
  refine ⟨fun hr => ?_, fun hr => ?_⟩
  · have ht := hsplit.append hr
    refine ⟨ht.symm, ⟨_, ht⟩, fun he => ?_⟩
    have hnil : r.lexemes = [] := by simpa [Result.isEmpty, hr] using he
    rw [Result.text, hnil] at ht
    exact ht
  · rw [hsplit.eq_fail hr]
    exact ⟨rfl, rfl⟩

/-- The law for a choice, a literal that is empty and a look-ahead: `"ab;"` is cut before the
semicolon. -/
theorem lexemes_append_remaining_ab :
    run (.sequence [.choice [.char 'b', .literal "ab".toList], .literal [],
      .followedBy (.char ';')]) "ab;".toList = .ok ⟨["ab".toList, [], []], ";".toList, true⟩ ∧
    "ab;".toList = ["ab".toList, [], []].flatten ++ ";".toList := by
  have h : run (.sequence [.choice [.char 'b', .literal "ab".toList], .literal [],
      .followedBy (.char ';')]) "ab;".toList = .ok ⟨["ab".toList, [], []], ";".toList, true⟩ := rfl
  exact ⟨h, ((lexemes_append_remaining _ _ _ h).1 rfl).1⟩

end Lexer

end LexerCombinators
