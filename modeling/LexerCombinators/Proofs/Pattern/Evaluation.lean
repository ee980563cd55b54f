import Mathlib.Tactic.Common
import LexerCombinators.Pattern.Matching

/-!
# How lexers evaluate

What a lexer does at one place of a stream is one of two things as long as nothing stalls: it takes
a text from the front, cut into lexemes (`Lexer.Takes`), or it fails (`Lexer.Fails`). Choices and
sequences are evaluated by these two.

`repeats` is a recursion inside a monad. Where the only effect is an early end, `Repeated p s ls s'`
says the same as a relation: `p` matches again and again from `s` on, each match shortens the
stream, the joined lexemes are `ls`, and `p` fails on `s'`. The relation holds exactly of what
`repeats` returns (`repeats_eq_ok_iff`), so what is said about repetitions is proved by induction on
it.
`run_oneOrMore_eq` and `run_zeroOrMore_eq` carry it over to lexers.
-/

namespace LexerCombinators

variable {ε : Type}

theorem except_bind_eq_ok {α β : Type} {x : Except ε α} {f : α → Except ε β} {b : β} :
    (x >>= f) = .ok b ↔ ∃ a, x = .ok a ∧ f a = .ok b := by
  cases x with
  | error e => exact ⟨nofun, nofun⟩
  | ok a => exact ⟨fun h => ⟨a, rfl, h⟩, fun ⟨a', ha, h⟩ => by cases ha; exact h⟩

theorem except_bind_eq_error {α β : Type} {x : Except ε α} {f : α → Except ε β} {e : ε} :
    (x >>= f) = .error e ↔ x = .error e ∨ ∃ a, x = .ok a ∧ f a = .error e := by
  cases x with
  | error e' =>
    refine ⟨fun h => ?_, fun h => ?_⟩
    · cases h
      exact Or.inl rfl
    · obtain h | ⟨_, ha, _⟩ := h
      · cases h
        rfl
      · cases ha
  | ok a =>
    refine ⟨fun h => Or.inr ⟨a, rfl, h⟩, fun h => ?_⟩
    obtain h | ⟨a', ha, h⟩ := h
    · cases h
    · cases ha
      exact h

/-! ### Taking and failing -/

namespace Lexer

/-- The lexer takes the text `l` from the front of `l ++ s`. -/
def Takes (p : Lexer) (l s : Text) : Prop :=
  ∃ ls : List Text, ls.flatten = l ∧ p.run (l ++ s) = .ok (.success ls s)

/-- The lexer fails on `s`. -/
def Fails (p : Lexer) (s : Text) : Prop := p.run s = .ok (.fail s)

variable {p q : Lexer} {ps : List Lexer} {l l' s : Text}

theorem run_choice_cons (p : Lexer) (ps : List Lexer) (s : Text) : run (.choice (p :: ps)) s =
    (p.run s >>= fun r => if r.isSuccess then pure r else run (.choice ps) s) := rfl

theorem run_sequence_pair (p q : Lexer) (s : Text) :
    run (.sequence [p, q]) s = inOrder [p.run, q.run] s := rfl

theorem fails_choice_nil (s : Text) : Fails (.choice []) s := rfl

theorem Fails.run_choice (hp : Fails p s) : run (.choice (p :: ps)) s = run (.choice ps) s := by
  rw [run_choice_cons, hp]
  rfl

theorem Fails.choice (hp : Fails p s) (hps : Fails (.choice ps) s) :
    Fails (.choice (p :: ps)) s := by
  unfold Fails
  rw [hp.run_choice]
  exact hps

/-- The first alternative that takes something decides. -/
theorem Takes.choice (hp : Takes p l s) : Takes (.choice (p :: ps)) l s := by
  obtain ⟨ls, hl, hr⟩ := hp
  refine ⟨ls, hl, ?_⟩
  rw [run_choice_cons, hr]
  rfl

/-- An alternative that fails leaves the decision to the others. -/
theorem Takes.choice_of_fails (hp : Fails p (l ++ s)) (hps : Takes (.choice ps) l s) :
    Takes (.choice (p :: ps)) l s := by
  obtain ⟨ls, hl, hr⟩ := hps
  exact ⟨ls, hl, by rw [hp.run_choice, hr]⟩

theorem Fails.sequence_pair (hp : Fails p s) : Fails (.sequence [p, q]) s := by
  unfold Fails
  rw [run_sequence_pair, inOrder, steps, hp]
  rfl

/-- A sequence fails as a whole when its second part fails. -/
theorem Takes.fails_sequence_pair (hp : Takes p l s) (hq : Fails q s) :
    Fails (.sequence [p, q]) (l ++ s) := by
  obtain ⟨ls, -, hr⟩ := hp
  have hq' : q.run (Result.success ls s).remaining = .ok (.fail s) := hq
  unfold Fails
  rw [run_sequence_pair, inOrder, steps, hr]
  simp only [bind, Except.bind, steps, hq']
  rfl

theorem Takes.sequence_pair (hp : Takes p l (l' ++ s)) (hq : Takes q l' s) :
    Takes (.sequence [p, q]) (l ++ l') s := by
  obtain ⟨ls, hl, hr⟩ := hp
  obtain ⟨ls', hl', hr'⟩ := hq
  have hq' : q.run (Result.success ls (l' ++ s)).remaining = .ok (.success ls' s) := hr'
  refine ⟨[l, l'], by simp, ?_⟩
  rw [List.append_assoc, run_sequence_pair, inOrder, steps, hr]
  simp only [bind, Except.bind, steps, hq']
  rw [← hl, ← hl']
  rfl

theorem Takes.fails_notFollowedBy (hp : Takes p l s) : Fails (.notFollowedBy p) (l ++ s) := by
  obtain ⟨ls, -, hr⟩ := hp
  have hrun : run (.notFollowedBy p) (l ++ s) = lookahead false p.run (l ++ s) := rfl
  unfold Fails
  rw [hrun, lookahead, hr]
  rfl

theorem Fails.notFollowedBy (hp : Fails p s) : Takes (.notFollowedBy p) [] s := by
  have hrun : run (.notFollowedBy p) s = lookahead false p.run s := rfl
  refine ⟨[], rfl, ?_⟩
  rw [List.nil_append, hrun, lookahead, hp]
  rfl

end Lexer

/-! ### Repetition -/

/-- The matches of `p` from `s` on, with what remains where `p` fails. -/
inductive Repeated (p : Matcher (Except ε)) : Text → List Text → Text → Prop
  | stop {s : Text} {r : Result} :
      p s = .ok r → r.isSuccess = false → Repeated p s [] s
  | more {s s' : Text} {r : Result} {ls : List Text} :
      p s = .ok r → r.isSuccess = true → r.remaining.length < s.length →
      Repeated p r.remaining ls s' → Repeated p s (r.text :: ls) s'

section Repeats

variable {stall : ε} {p : Matcher (Except ε)}

theorem repeats_of_repeated {s s' : Text} {ls : List Text} (h : Repeated p s ls s') :
    repeats stall p s = .ok (ls, s') := by
  induction h with
  | stop hp hr =>
    rw [repeats, hp]
    simp [bind, Except.bind, pure, Except.pure, hr]
  | more hp hr hlt _ ih =>
    rw [repeats, hp]
    simp [bind, Except.bind, pure, Except.pure, hr, hlt, ih]

theorem repeated_of_repeats : ∀ {s s' : Text} {ls : List Text},
    repeats stall p s = .ok (ls, s') → Repeated p s ls s' := by
  intro s
  -- by induction on the length of the stream, which every match shortens
  induction hn : s.length using Nat.strongRecOn generalizing s with
  | _ n ih =>
    intro s' ls h
    rw [repeats] at h
    obtain ⟨r, hp, h⟩ := except_bind_eq_ok.mp h
    split_ifs at h with hr hlt
    · obtain ⟨⟨ls', t⟩, hrec, h⟩ := except_bind_eq_ok.mp h
      cases h
      exact .more hp hr hlt (ih _ (by omega) rfl hrec)
    · cases h
      exact .stop hp (by simpa using hr)

/-- **The repetition as a relation.** -/
theorem repeats_eq_ok_iff {s s' : Text} {ls : List Text} :
    repeats stall p s = .ok (ls, s') ↔ Repeated p s ls s' :=
  ⟨repeated_of_repeats, repeats_of_repeated⟩

/-- Where the matches end and what they are is determined. -/
theorem Repeated.unique {s s₁ s₂ : Text} {ls₁ ls₂ : List Text} (h₁ : Repeated p s ls₁ s₁)
    (h₂ : Repeated p s ls₂ s₂) : ls₁ = ls₂ ∧ s₁ = s₂ := by
  induction h₁ generalizing ls₂ with
  | stop hp hr =>
    cases h₂ with
    | stop _ _ => exact ⟨rfl, rfl⟩
    | more hp' hr' _ _ =>
      rw [hp] at hp'
      cases hp'
      rw [hr] at hr'
      cases hr'
  | more hp hr _ _ ih =>
    cases h₂ with
    | stop hp' hr' =>
      rw [hp] at hp'
      cases hp'
      rw [hr] at hr'
      cases hr'
    | more hp' _ _ h' =>
      rw [hp] at hp'
      cases hp'
      obtain ⟨rfl, rfl⟩ := ih h'
      exact ⟨rfl, rfl⟩

/-- No match at all leaves the stream as it is. -/
theorem Repeated.eq_of_nil {s s' : Text} (h : Repeated p s [] s') : s' = s := by
  cases h
  rfl

/-- The body fails where the matches end. -/
theorem Repeated.fails {s s' : Text} {ls : List Text} (h : Repeated p s ls s') :
    ∃ r, p s' = .ok r ∧ r.isSuccess = false := by
  induction h with
  | stop hp hr => exact ⟨_, hp, hr⟩
  | more _ _ _ _ ih => exact ih

/-- A body that never ends early and always consumes can be repeated from everywhere. -/
theorem exists_repeated (hp : ∀ s, ∃ r, p s = .ok r ∧
    (r.isSuccess = true → r.remaining.length < s.length)) :
    ∀ s, ∃ ls s', Repeated p s ls s' := by
  intro s
  induction hn : s.length using Nat.strongRecOn generalizing s with
  | _ n ih =>
    obtain ⟨r, hr, hlt⟩ := hp s
    by_cases hs : r.isSuccess = true
    · obtain ⟨ls, s', h⟩ := ih _ (by have := hlt hs; omega) r.remaining rfl
      exact ⟨_, _, .more hr hs (hlt hs) h⟩
    · exact ⟨_, _, .stop hr (by simpa using hs)⟩

end Repeats

/-! ### Repetitions as lexers -/

namespace Lexer

variable {p : Lexer} {s s' : Text} {ls : List Text}

theorem run_oneOrMore_eq (h : Repeated p.run s ls s') :
    run (.oneOrMore p) s = .ok (if ls = [] then .fail s else .success ls s') := by
  have hrun : run (.oneOrMore p) s = greedy (client.stalled ⟨p⟩) p.run s := rfl
  rw [hrun, greedy, repeats_of_repeated h]
  cases ls with
  | nil => rfl
  | cons l ls => rfl

/-- Any number of matches: never a failure, and no match consumes nothing. -/
theorem run_zeroOrMore_eq (h : Repeated p.run s ls s') :
    run (.zeroOrMore p) s = .ok (.success ls s') := by
  have hrun : run (.zeroOrMore p) s = run (.choice [.oneOrMore p, .nothing]) s := rfl
  rw [hrun, run_choice_cons, run_oneOrMore_eq h]
  cases ls with
  | nil => rw [h.eq_of_nil]; rfl
  | cons l ls => rfl

end Lexer

end LexerCombinators
