import LexerCombinators.Proofs.Pattern.Repetition
import LexerCombinators.Toy.Lexicon

/-!
# Consumption

Two checks are read off the tree of a lexer. `Lexer.consumes` says that every match takes at least
one character, and `Lexer.isProductive` that the body of every repetition does, at any depth and
also inside look-aheads. Both are conservative: they look at no stream.

Each operator on matchers keeps what its parts must have for it (`consuming_firstOf` to
`consuming_anchored`, `total_firstOf` to `total_lookahead`). A sequence consumes by one part, since
by the suffix law no other part gives back what that one took; a repetition consumes by its guard,
whatever its body is, and comes to an end when its body consumes. So a productive lexer never stalls
(`productive_never_stall`).
-/

namespace LexerCombinators

namespace Lexer

mutual

/-- Whether every match of the lexer takes at least one character. -/
def consumes : Lexer → Bool
  | .range _ _ => true
  | .literal t => !t.isEmpty
  | .nothing => false
  | .choice ps => allConsume ps
  | .sequence ps => anyConsumes ps
  | .oneOrMore _ => true
  | .fullMatch p => consumes p
  | .followedBy _ => false
  | .notFollowedBy _ => false
  | .foreign a => nomatch a
  | .wrapped w _ => nomatch w

/-- Whether all of the lexers consume. -/
def allConsume : List Lexer → Bool
  | [] => true
  | p :: ps => consumes p && allConsume ps

/-- Whether one of the lexers consumes. -/
def anyConsumes : List Lexer → Bool
  | [] => false
  | p :: ps => consumes p || anyConsumes ps

end

mutual

/-- Whether the bodies of all repetitions in the lexer consume. -/
def isProductive : Lexer → Bool
  | .range _ _ => true
  | .literal _ => true
  | .nothing => true
  | .choice ps => allProductive ps
  | .sequence ps => allProductive ps
  | .oneOrMore p => consumes p && isProductive p
  | .fullMatch p => isProductive p
  | .followedBy p => isProductive p
  | .notFollowedBy p => isProductive p
  | .foreign a => nomatch a
  | .wrapped w _ => nomatch w

/-- Whether all of the lexers are productive. -/
def allProductive : List Lexer → Bool
  | [] => true
  | p :: ps => isProductive p && allProductive ps

end

end Lexer

variable {ε : Type}

/-- A matcher whose matches all shorten the stream. -/
def Consuming (p : Matcher (Except ε)) : Prop :=
  ∀ s r, p s = .ok r → r.isSuccess = true → r.remaining.length < s.length

/-- A matcher that comes to a result on every stream. -/
def Total (p : Matcher (Except ε)) : Prop := ∀ s, ∃ r, p s = .ok r

theorem Lossless.length_remaining_le {p : Matcher (Except ε)} (hp : Lossless p) {s : Text}
    {r : Result} (h : p s = .ok r) (hr : r.isSuccess = true) : r.remaining.length ≤ s.length := by
  rw [← (hp s r h).append hr, List.length_append]
  omega

/-! ### Consumption -/

section Consuming

variable {p : Matcher (Except ε)} {ps : List (Matcher (Except ε))} {s s' : Text} {ls : List Text}

theorem consuming_firstOf (hps : ∀ p ∈ ps, Consuming p) : Consuming (firstOf ps) := by
  intro s r h hr
  induction ps with
  | nil =>
    cases h
    cases hr
  | cons p ps ih =>
    obtain ⟨r', hp, h⟩ := except_bind_eq_ok.mp h
    split_ifs at h with hr'
    · cases h
      exact hps p List.mem_cons_self s r hp hr
    · exact ih (fun q hq => hps q (List.mem_cons_of_mem _ hq)) h

/-- A sequence of matches leaves less when one of its parts does. -/
theorem length_lt_of_steps (hps : ∀ p ∈ ps, Lossless p) (hc : ∃ p ∈ ps, Consuming p)
    (h : steps ps s = .ok (some (ls, s'))) : s'.length < s.length := by
  induction ps generalizing s ls with
  | nil =>
    obtain ⟨p, hp, -⟩ := hc
    cases hp
  | cons p ps ih =>
    obtain ⟨hp, hps⟩ := List.forall_mem_cons.mp hps
    obtain ⟨r, hr, h⟩ := except_bind_eq_ok.mp h
    split_ifs at h with hs
    · obtain ⟨rest, hrest, h⟩ := except_bind_eq_ok.mp h
      cases rest with
      | none => cases h
      | some rest =>
        obtain ⟨ls', t⟩ := rest
        cases h
        have hle := hp.length_remaining_le hr hs
        have hflat := congrArg List.length (append_of_steps hps hrest)
        rw [List.length_append] at hflat
        -- the part that consumes is the first, or among the others
        obtain ⟨q, hq, hq'⟩ := hc
        rcases List.mem_cons.mp hq with rfl | hq
        · have := hq' s r hr hs
          omega
        · have := ih hps ⟨q, hq, hq'⟩ hrest
          omega
    · cases h

theorem consuming_inOrder (hps : ∀ p ∈ ps, Lossless p) (hc : ∃ p ∈ ps, Consuming p) :
    Consuming (inOrder ps) := by
  intro s r h hr
  obtain ⟨o, ho, h⟩ := except_bind_eq_ok.mp h
  cases o with
  | none =>
    cases h
    cases hr
  | some o =>
    cases h
    exact length_lt_of_steps hps hc ho

theorem consuming_greedy (stall : ε) (p : Matcher (Except ε)) : Consuming (greedy stall p) := by
  intro s r h hr
  obtain ⟨⟨ls, s'⟩, hrep, h⟩ := except_bind_eq_ok.mp h
  have hlen := (repeated_iff_chain.mp (repeated_of_repeats hrep)).1.length_le
  cases ls with
  | nil =>
    cases h
    cases hr
  | cons l ls =>
    cases h
    rw [List.length_cons] at hlen
    dsimp only [Result.success]
    omega

theorem consuming_anchored (hp : Consuming p) : Consuming (anchored p) := by
  intro s r h hr
  obtain ⟨r', hr', h⟩ := except_bind_eq_ok.mp h
  cases h
  split_ifs at hr ⊢ with hmatch
  · exact hp s r' hr' hr
  · cases hr

theorem consuming_matchRange (lo hi : Char) :
    Consuming (fun s => .ok (matchRange lo hi s) : Matcher (Except ε)) := by
  intro s r h hr
  cases h
  cases s with
  | nil => cases hr
  | cons c s =>
    rw [matchRange] at hr ⊢
    split_ifs at hr ⊢
    · exact Nat.lt_succ_self _
    · cases hr

theorem consuming_matchLiteral {t : Text} (ht : t ≠ []) :
    Consuming (fun s => .ok (matchLiteral t s) : Matcher (Except ε)) := by
  intro s r h hr
  cases h
  have hpos := List.length_pos_iff.mpr ht
  rw [matchLiteral] at hr ⊢
  split_ifs at hr ⊢ with hp
  · have hle := (List.isPrefixOf_iff_prefix.mp hp).length_le
    dsimp only [Result.success]
    rw [List.length_drop]
    omega
  · cases hr

end Consuming

/-! ### Totality -/

section Total

variable {p : Matcher (Except ε)} {ps : List (Matcher (Except ε))}

theorem total_firstOf (hps : ∀ p ∈ ps, Total p) : Total (firstOf ps) := by
  intro s
  induction ps with
  | nil => exact ⟨_, rfl⟩
  | cons p ps ih =>
    obtain ⟨hp, hps⟩ := List.forall_mem_cons.mp hps
    obtain ⟨r, hr⟩ := hp s
    obtain ⟨r', hr'⟩ := ih hps
    rw [firstOf, hr]
    simp only [bind, Except.bind, hr']
    split_ifs <;> exact ⟨_, rfl⟩

theorem total_steps (hps : ∀ p ∈ ps, Total p) (s : Text) : ∃ o, steps ps s = .ok o := by
  induction ps generalizing s with
  | nil => exact ⟨_, rfl⟩
  | cons p ps ih =>
    obtain ⟨hp, hps⟩ := List.forall_mem_cons.mp hps
    obtain ⟨r, hr⟩ := hp s
    obtain ⟨o, ho⟩ := ih hps r.remaining
    rw [steps, hr]
    simp only [bind, Except.bind, ho]
    split_ifs <;> exact ⟨_, rfl⟩

theorem total_inOrder (hps : ∀ p ∈ ps, Total p) : Total (inOrder ps) := by
  intro s
  obtain ⟨o, ho⟩ := total_steps hps s
  rw [inOrder, ho]
  cases o <;> exact ⟨_, rfl⟩

/-- A repetition whose body consumes comes to an end. -/
theorem total_greedy (stall : ε) (hp : Total p) (hc : Consuming p) : Total (greedy stall p) := by
  intro s
  obtain ⟨ls, s', h⟩ := exists_repeated (p := p) (fun s => by
    obtain ⟨r, hr⟩ := hp s
    exact ⟨r, hr, hc s r hr⟩) s
  rw [greedy, repeats_of_repeated h]
  cases ls <;> exact ⟨_, rfl⟩

theorem total_anchored (hp : Total p) : Total (anchored p) := by
  intro s
  obtain ⟨r, hr⟩ := hp s
  rw [anchored, hr]
  exact ⟨_, rfl⟩

theorem total_lookahead (expected : Bool) (hp : Total p) : Total (lookahead expected p) := by
  intro s
  obtain ⟨r, hr⟩ := hp s
  rw [lookahead, hr]
  exact ⟨_, rfl⟩

end Total

/-! ### Lexers -/

namespace Lexer

mutual

theorem consuming_run : ∀ p : Lexer, p.consumes = true → Consuming p.run
  | .range lo hi, _ => consuming_matchRange lo hi
  | .literal t, h => consuming_matchLiteral (by simpa [consumes] using h)
  | .nothing, h => nomatch h
  | .choice ps, h => consuming_firstOf (consuming_of_allConsume ps h)
  | .sequence ps, h =>
    consuming_inOrder (lossless_matchers ⟨nofun, nofun⟩ ps) (exists_consuming_of_anyConsumes ps h)
  | .oneOrMore p, _ => consuming_greedy _ (run p)
  | .fullMatch p, h => consuming_anchored (consuming_run p h)
  | .followedBy _, h | .notFollowedBy _, h => nomatch h
  | .foreign a, _ => nomatch a
  | .wrapped w _, _ => nomatch w

theorem consuming_of_allConsume : ∀ ps : List Lexer, allConsume ps = true →
    ∀ p ∈ Pattern.matchers client ps, Consuming p
  | [], _ => fun _ hp => nomatch hp
  | q :: qs, h => by
    rw [allConsume, Bool.and_eq_true] at h
    exact List.forall_mem_cons.mpr ⟨consuming_run q h.1, consuming_of_allConsume qs h.2⟩

theorem exists_consuming_of_anyConsumes : ∀ ps : List Lexer, anyConsumes ps = true →
    ∃ p ∈ Pattern.matchers client ps, Consuming p
  | [], h => nomatch h
  | q :: qs, h => by
    rw [anyConsumes, Bool.or_eq_true] at h
    rcases h with h | h
    · exact ⟨_, List.mem_cons_self, consuming_run q h⟩
    · obtain ⟨p, hp, hc⟩ := exists_consuming_of_anyConsumes qs h
      exact ⟨p, List.mem_cons_of_mem _ hp, hc⟩

end

mutual

theorem total_run : ∀ p : Lexer, p.isProductive = true → Total p.run
  | .range .., _ | .literal _, _ | .nothing, _ => fun _ => ⟨_, rfl⟩
  | .choice ps, h => total_firstOf (total_of_allProductive ps h)
  | .sequence ps, h => total_inOrder (total_of_allProductive ps h)
  | .oneOrMore p, h => by
    rw [isProductive, Bool.and_eq_true] at h
    exact total_greedy ⟨p⟩ (total_run p h.2) (consuming_run p h.1)
  | .fullMatch p, h => total_anchored (total_run p h)
  | .followedBy p, h => total_lookahead true (total_run p h)
  | .notFollowedBy p, h => total_lookahead false (total_run p h)
  | .foreign a, _ => nomatch a
  | .wrapped w _, _ => nomatch w

theorem total_of_allProductive : ∀ ps : List Lexer, allProductive ps = true →
    ∀ p ∈ Pattern.matchers client ps, Total p
  | [], _ => fun _ hp => nomatch hp
  | q :: qs, h => by
    rw [allProductive, Bool.and_eq_true] at h
    exact List.forall_mem_cons.mpr ⟨total_run q h.1, total_of_allProductive qs h.2⟩

end

/-- **Productive lexers never stall.** A lexer that passes the check of consumption leaves less of
the stream with every match; a lexer that passes the check of productivity comes to a result on
every stream; and the lexers of the toy language pass it. -/
theorem productive_never_stall :
    (∀ (p : Lexer) (s : Text) (r : Result), p.consumes = true → p.run s = .ok r →
      r.isSuccess = true → r.remaining.length < s.length) ∧
    (∀ p : Lexer, p.isProductive = true → ∀ s, ∃ r, p.run s = .ok r) ∧
    ∀ p ∈ [Lexicon.token, Lexicon.programBody, Lexicon.program], ∀ s, ∃ r, p.run s = .ok r := by
  refine ⟨fun p s r hc => consuming_run p hc s r, total_run, fun p hp => total_run p ?_⟩
  have hall : ∀ p ∈ [Lexicon.token, Lexicon.programBody, Lexicon.program],
      p.isProductive = true := by
    rw [List.forall_mem_cons, List.forall_mem_cons, List.forall_mem_singleton]
    exact ⟨rfl, rfl, rfl⟩
  exact hall p hp

/-- A repetition that may match nothing is refused, also inside a look-ahead. -/
example : isProductive (.notFollowedBy (.oneOrMore (.zeroOrMore (.char 'a')))) = false := rfl

end Lexer

end LexerCombinators
