import Mathlib.Data.List.Infix
import LexerCombinators.Proofs.Pattern.Clients
import LexerCombinators.Proofs.Pattern.Lossless

/-!
# Repetition

A repetition follows a chain of matches of its body, each on what the one before left, as long as
they shorten the stream (`Chain`). Every chain comes to an end in one of three ways (`ChainEnd`):
the body fails, it matches and consumes nothing, or it stalls itself. The loop goes along the chain
(`Chain.repeats_eq`), so what comes of it is settled by the end.

A stall can come from the repetition or from inside its body. The two are told apart by the body
that the stall names: one from inside names a smaller lexer (`sizeOf_body_lt`). So each of the four
outcomes of a repetition has a condition on the chain that says exactly when it arises, and a
recording wrapper around the body shows that the body is run once on each stream of the chain
(`oneOrMore_follows_chain`).
-/

namespace LexerCombinators

variable {ε : Type}

/-! ### Chains of matches -/

/-- From `s` on, matches of `p` one behind another, each of which shortens the stream, down to `s'`;
`ls` are the joined texts of the matches. -/
inductive Chain (p : Matcher (Except ε)) : Text → List Text → Text → Prop
  | start {s : Text} : Chain p s [] s
  | next {s s' : Text} {r : Result} {ls : List Text} :
      p s = .ok r → r.isSuccess = true → r.remaining.length < s.length →
      Chain p r.remaining ls s' → Chain p s (r.text :: ls) s'

/-- The matcher fails on `s`. -/
def Refuses (p : Matcher (Except ε)) (s : Text) : Prop := ∃ r, p s = .ok r ∧ r.isSuccess = false

/-- The matcher succeeds on `s` and consumes nothing. -/
def Idle (p : Matcher (Except ε)) (s : Text) : Prop :=
  ∃ r, p s = .ok r ∧ r.isSuccess = true ∧ s.length ≤ r.remaining.length

/-- Why no chain goes on from `s`. -/
def ChainEnd (p : Matcher (Except ε)) (s : Text) : Prop :=
  Refuses p s ∨ Idle p s ∨ ∃ e, p s = .error e

section Chains

variable {stall e : ε} {p : Matcher (Except ε)} {s s' : Text} {ls : List Text}

theorem repeated_iff_chain : Repeated p s ls s' ↔ Chain p s ls s' ∧ Refuses p s' := by
  constructor
  · intro h
    induction h with
    | stop hp hr => exact ⟨.start, _, hp, hr⟩
    | more hp hr hlt _ ih => exact ⟨.next hp hr hlt ih.1, ih.2⟩
  · rintro ⟨h, r, hp, hr⟩
    induction h with
    | start => exact .stop hp hr
    | next hp' hr' hlt _ ih => exact .more hp' hr' hlt (ih hp)

theorem Chain.length_le (h : Chain p s ls s') : ls.length + s'.length ≤ s.length := by
  induction h with
  | start => simp
  | next _ _ hlt _ ih =>
    rw [List.length_cons]
    omega

theorem Chain.append (hp : Lossless p) (h : Chain p s ls s') : ls.flatten ++ s' = s := by
  induction h with
  | start => rfl
  | next hs hr _ _ ih =>
    rw [List.flatten_cons, List.append_assoc, ih]
    exact (hp _ _ hs).append hr

/-- Every chain can be followed to an end. -/
theorem exists_chain_end (p : Matcher (Except ε)) (s : Text) :
    ∃ ls s', Chain p s ls s' ∧ ChainEnd p s' := by
  induction hn : s.length using Nat.strongRecOn generalizing s with
  | _ n ih =>
    cases hp : p s with
    | error e => exact ⟨[], s, .start, Or.inr (Or.inr ⟨e, hp⟩)⟩
    | ok r =>
      by_cases hr : r.isSuccess = true
      · by_cases hlt : r.remaining.length < s.length
        · obtain ⟨ls, s', hchain, hend⟩ := ih _ (by omega) r.remaining rfl
          exact ⟨_, s', .next hp hr hlt hchain, hend⟩
        · exact ⟨[], s, .start, Or.inr (Or.inl ⟨r, hp, hr, by omega⟩)⟩
      · exact ⟨[], s, .start, Or.inl ⟨r, hp, by simpa using hr⟩⟩

/-! ### The loop follows the chain -/

theorem Chain.repeats_eq (h : Chain p s ls s') (stall : ε) :
    repeats stall p s = (repeats stall p s').map fun x => (ls ++ x.1, x.2) := by
  induction h with
  | start =>
    rename_i s
    cases hrep : repeats stall p s <;> rfl
  | @next s s' r ls hp hr hlt _ ih =>
    rw [repeats, hp]
    simp only [bind, Except.bind, hr, hlt, ih, if_true]
    cases repeats stall p s' <;> rfl

theorem repeats_of_idle (h : Idle p s) : repeats stall p s = .error stall := by
  obtain ⟨r, hp, hr, hle⟩ := h
  rw [repeats, hp]
  simp only [bind, Except.bind, hr, if_true, if_neg (Nat.not_lt.mpr hle)]
  rfl

theorem repeats_of_error (h : p s = .error e) : repeats stall p s = .error e := by
  rw [repeats, h]
  rfl

theorem repeats_eq_error_iff : repeats stall p s = .error e ↔
    ∃ ls s', Chain p s ls s' ∧ (Idle p s' ∧ e = stall ∨ p s' = .error e) := by
  constructor
  · intro h
    obtain ⟨ls, s', hchain, hend⟩ := exists_chain_end p s
    refine ⟨ls, s', hchain, ?_⟩
    rcases hend with hend | hend | ⟨e', hend⟩
    · rw [repeats_of_repeated (repeated_iff_chain.mpr ⟨hchain, hend⟩)] at h
      cases h
    · rw [hchain.repeats_eq, repeats_of_idle hend] at h
      cases h
      exact Or.inl ⟨hend, rfl⟩
    · rw [hchain.repeats_eq, repeats_of_error hend] at h
      cases h
      exact Or.inr hend
  · rintro ⟨ls, s', hchain, ⟨hidle, rfl⟩ | herr⟩
    · rw [hchain.repeats_eq, repeats_of_idle hidle]
      rfl
    · rw [hchain.repeats_eq, repeats_of_error herr]
      rfl

theorem greedy_eq_error_iff : greedy stall p s = .error e ↔ repeats stall p s = .error e := by
  refine ⟨fun h => ?_, fun h => except_bind_eq_error.mpr (Or.inl h)⟩
  obtain h | ⟨⟨ls, t⟩, -, h⟩ := except_bind_eq_error.mp h
  · exact h
  · cases ls <;> cases h

end Chains

/-! ### Where faults come from -/

section Faults

variable {p : Matcher (Except ε)} {ps : List (Matcher (Except ε))} {s : Text} {e : ε}

theorem exists_error_of_firstOf (h : firstOf ps s = .error e) : ∃ p ∈ ps, ∃ t, p t = .error e := by
  induction ps with
  | nil => cases h
  | cons p ps ih =>
    obtain h | ⟨r, -, h⟩ := except_bind_eq_error.mp h
    · exact ⟨p, List.mem_cons_self, s, h⟩
    · split_ifs at h
      · cases h
      · obtain ⟨q, hq, hs⟩ := ih h
        exact ⟨q, List.mem_cons_of_mem _ hq, hs⟩

theorem exists_error_of_steps (h : steps ps s = .error e) : ∃ p ∈ ps, ∃ t, p t = .error e := by
  induction ps generalizing s with
  | nil => cases h
  | cons p ps ih =>
    obtain h | ⟨r, -, h⟩ := except_bind_eq_error.mp h
    · exact ⟨p, List.mem_cons_self, s, h⟩
    · split_ifs at h
      · obtain h | ⟨o, -, h⟩ := except_bind_eq_error.mp h
        · obtain ⟨q, hq, hs⟩ := ih h
          exact ⟨q, List.mem_cons_of_mem _ hq, hs⟩
        · cases h
      · cases h

theorem exists_error_of_inOrder (h : inOrder ps s = .error e) : ∃ p ∈ ps, ∃ t, p t = .error e := by
  obtain h | ⟨o, -, h⟩ := except_bind_eq_error.mp h
  · exact exists_error_of_steps h
  · cases o <;> cases h

theorem error_of_anchored (h : anchored p s = .error e) : p s = .error e := by
  obtain h | ⟨r, -, h⟩ := except_bind_eq_error.mp h
  · exact h
  · cases h

theorem error_of_lookahead {expected : Bool} (h : lookahead expected p s = .error e) :
    p s = .error e := by
  obtain h | ⟨r, -, h⟩ := except_bind_eq_error.mp h
  · exact h
  · cases h

end Faults

theorem toOption_map {α β : Type} (g : α → β) (x : Except ε α) :
    (x.map g).toOption = x.toOption.map g := by
  cases x <;> rfl

/-! ### Recorded repetitions -/

section Recording

variable {ε' : Type} {n : Type → Type} [Monad n] [LawfulMonad n]
variable {p : Matcher (Except ε)} {s s' : Text} {ls : List Text}

/-- A loop whose body is recorded has one call entered for each stream of the chain. -/
theorem run_repeats_record (hp : Lossless p) (h : Chain p s ls s') (hend : ChainEnd p s')
    (f : ε → ε') (stall : ε) (stall' : ε') (label : Text) (calls : List Call) : ∃ out new,
      (repeats stall' (record label (p.lift f)) s :
        ExceptT ε' (StateT (List Call) n) _).run.run calls = pure (out, calls ++ new) ∧
      out.toOption = (repeats stall p s).toOption ∧
      new.map Call.stream = ls.tails.map fun rest => rest.flatten ++ s' := by
  induction h generalizing calls with
  | @start s =>
    rcases hend with ⟨r, hs, hr⟩ | ⟨r, hs, hr, hle⟩ | ⟨e, hs⟩
    · refine ⟨.ok ([], s), [⟨label, s, some r.isSuccess⟩], ?_, ?_, rfl⟩
      · rw [repeats, bind_of_run_ok (run_record_of_ok hs), if_neg (by simp [hr])]
        rfl
      · rw [repeats_of_repeated (.stop hs hr)]
        rfl
    · refine ⟨.error stall', [⟨label, s, some r.isSuccess⟩], ?_, ?_, rfl⟩
      · rw [repeats, bind_of_run_ok (run_record_of_ok hs), if_pos hr,
          if_neg (Nat.not_lt.mpr hle)]
        rfl
      · rw [repeats_of_idle ⟨r, hs, hr, hle⟩]
        rfl
    · refine ⟨.error (f e), [⟨label, s, none⟩], ?_, ?_, rfl⟩
      · rw [repeats, bind_of_run_error (run_record_of_error hs)]
      · rw [repeats_of_error hs]
        rfl
  | @next s s' r ls hs hr hlt hchain ih =>
    obtain ⟨out, new, hrun, hout, hnew⟩ := ih hend (calls ++ [⟨label, s, some r.isSuccess⟩])
    have hsplit := (Chain.next hs hr hlt hchain).append hp
    have hstep := (Chain.next hs hr hlt .start).repeats_eq stall
    refine ⟨out.map fun x => (r.text :: x.1, x.2), ⟨label, s, some r.isSuccess⟩ :: new, ?_, ?_, ?_⟩
    · rw [List.append_assoc, List.singleton_append] at hrun
      rw [repeats, bind_of_run_ok (run_record_of_ok hs), if_pos hr, if_pos hlt]
      cases out with
      | error e => exact bind_of_run_error hrun
      | ok x =>
        rw [bind_of_run_ok hrun]
        rfl
    · rw [hstep, toOption_map, toOption_map, hout]
      rfl
    · rw [List.map_cons, List.tails_cons, List.map_cons, hnew, hsplit]

theorem run_greedy_record (hp : Lossless p) (h : Chain p s ls s') (hend : ChainEnd p s')
    (f : ε → ε') (stall : ε) (stall' : ε') (label : Text) : ∃ out calls,
      (greedy stall' (record label (p.lift f)) s :
        ExceptT ε' (StateT (List Call) n) Result).run.run [] = pure (out, calls) ∧
      out.toOption = (greedy stall p s).toOption ∧
      calls.map Call.stream = ls.tails.map fun rest => rest.flatten ++ s' := by
  obtain ⟨out, calls, hrun, hout, hcalls⟩ :=
    run_repeats_record (n := n) hp h hend f stall stall' label []
  have hplain : ∀ x : Except ε (List Text × Text), repeats stall p s = x →
      greedy stall p s = x.map fun x => if x.1 = [] then .fail s else .success x.1 x.2 := by
    rintro (e | ⟨_ | _, t⟩) hx <;> rw [greedy, hx] <;> rfl
  refine ⟨out.map fun x => if x.1 = [] then .fail s else .success x.1 x.2, calls, ?_, ?_, hcalls⟩
  · rw [greedy]
    rcases out with e | ⟨_ | _, t⟩
    · exact bind_of_run_error hrun
    · rw [bind_of_run_ok hrun]
      rfl
    · rw [bind_of_run_ok hrun]
      rfl
  · rw [hplain _ rfl, toOption_map, toOption_map, hout]

end Recording

namespace Lexer

mutual

/-- A stall is reported by a repetition inside the lexer: its body is smaller than the lexer. -/
theorem sizeOf_body_lt : ∀ (p : Lexer) (s : Text) (e : Stall Empty Empty),
    p.run s = .error e → sizeOf e.body < sizeOf p
  | .range .., _, _, h | .literal _, _, _, h | .nothing, _, _, h => by cases h
  | .choice ps, s, e, h => by
    obtain ⟨q, hq, t, ht⟩ := exists_error_of_firstOf h
    have := sizeOf_body_lt_of_mem ps q hq t e ht
    simp only [Pattern.choice.sizeOf_spec]
    omega
  | .sequence ps, s, e, h => by
    obtain ⟨q, hq, t, ht⟩ := exists_error_of_inOrder h
    have := sizeOf_body_lt_of_mem ps q hq t e ht
    simp only [Pattern.sequence.sizeOf_spec]
    omega
  | .oneOrMore p, s, e, h => by
    simp only [Pattern.oneOrMore.sizeOf_spec]
    obtain ⟨ls, t, -, ⟨-, rfl⟩ | ht⟩ := repeats_eq_error_iff.mp (greedy_eq_error_iff.mp h)
    · dsimp only [client, id]
      omega
    · have := sizeOf_body_lt p t e ht
      omega
  | .fullMatch p, s, e, h => by
    have := sizeOf_body_lt p s e (error_of_anchored h)
    simp only [Pattern.fullMatch.sizeOf_spec]
    omega
  | .followedBy p, s, e, h => by
    have := sizeOf_body_lt p s e (error_of_lookahead h)
    simp only [Pattern.followedBy.sizeOf_spec]
    omega
  | .notFollowedBy p, s, e, h => by
    have := sizeOf_body_lt p s e (error_of_lookahead h)
    simp only [Pattern.notFollowedBy.sizeOf_spec]
    omega
  | .foreign a, _, _, _ => nomatch a
  | .wrapped w _, _, _, _ => nomatch w

theorem sizeOf_body_lt_of_mem : ∀ (ps : List Lexer), ∀ q ∈ Pattern.matchers client ps,
    ∀ (s : Text) (e : Stall Empty Empty), q s = .error e → sizeOf e.body < sizeOf ps
  | [], q, hq, _, _, _ => by cases hq
  | p :: ps, q, hq, s, e, h => by
    simp only [List.cons.sizeOf_spec]
    rcases List.mem_cons.mp hq with rfl | hq
    · have := sizeOf_body_lt p s e h
      omega
    · have := sizeOf_body_lt_of_mem ps q hq s e h
      omega

end

/-! ### Outcomes -/

variable {p : Lexer} {s s' : Text} {ls : List Text}

theorem fails_iff_refuses : Fails p s ↔ Refuses p.run s := by
  refine ⟨fun h => ⟨_, h, rfl⟩, ?_⟩
  rintro ⟨r, h, hr⟩
  rw [Fails, h, (lossless_run p s r h).eq_fail hr]

/-- A repetition comes to a result exactly where its body can be repeated until it fails. -/
theorem exists_repeated_of_run_oneOrMore {r : Result} (h : run (.oneOrMore p) s = .ok r) :
    ∃ ls s', Repeated p.run s ls s' ∧ r = if ls = [] then .fail s else .success ls s' := by
  obtain ⟨⟨ls, s'⟩, hrep, -⟩ := except_bind_eq_ok.mp h
  have hrun := run_oneOrMore_eq (repeated_of_repeats hrep)
  rw [h] at hrun
  cases hrun
  exact ⟨ls, s', repeated_of_repeats hrep, rfl⟩

theorem exists_repeated_of_run_zeroOrMore {r : Result} (h : run (.zeroOrMore p) s = .ok r) :
    ∃ ls s', Repeated p.run s ls s' ∧ r = .success ls s' := by
  obtain ⟨r', hr', -⟩ := except_bind_eq_ok.mp h
  obtain ⟨ls, s', hrep, -⟩ := exists_repeated_of_run_oneOrMore hr'
  have hrun := run_zeroOrMore_eq hrep
  rw [h] at hrun
  cases hrun
  exact ⟨ls, s', hrep, rfl⟩

theorem run_oneOrMore_eq_success_iff : run (.oneOrMore p) s = .ok (.success ls s') ↔
    ls ≠ [] ∧ Chain p.run s ls s' ∧ Fails p s' := by
  rw [fails_iff_refuses, ← repeated_iff_chain]
  constructor
  · intro h
    obtain ⟨ls', t, hrep, hr⟩ := exists_repeated_of_run_oneOrMore h
    split_ifs at hr with hls
    · cases hr
    · cases hr
      exact ⟨hls, hrep⟩
  · rintro ⟨hls, hrep⟩
    rw [run_oneOrMore_eq hrep, if_neg hls]

theorem run_oneOrMore_eq_fail_iff : run (.oneOrMore p) s = .ok (.fail s) ↔ Fails p s := by
  constructor
  · intro h
    obtain ⟨ls, t, hrep, hr⟩ := exists_repeated_of_run_oneOrMore h
    split_ifs at hr with hls
    · subst hls
      rw [fails_iff_refuses, ← hrep.eq_of_nil]
      exact hrep.fails
    · cases hr
  · intro h
    have hrep := Repeated.stop h rfl
    rw [run_oneOrMore_eq hrep, if_pos rfl]

/-- A match of an option to repeat has gone along a chain to where the body fails. -/
theorem exists_chain_of_run_zeroOrMore {r : Result} (h : run (.zeroOrMore p) s = .ok r) :
    ∃ ls, Chain p.run s ls r.remaining ∧ ls.flatten ++ r.remaining = s ∧ Fails p r.remaining := by
  obtain ⟨ls, s', hrep, rfl⟩ := exists_repeated_of_run_zeroOrMore h
  obtain ⟨hchain, hrefuses⟩ := repeated_iff_chain.mp hrep
  exact ⟨ls, hchain, hchain.append (lossless_run p), fails_iff_refuses.mpr hrefuses⟩

/-- A repetition stalls where its body consumes nothing, or stalls itself. -/
theorem run_oneOrMore_eq_error_iff {e : Stall Empty Empty} : run (.oneOrMore p) s = .error e ↔
    ∃ ls s', Chain p.run s ls s' ∧ (Idle p.run s' ∧ e = ⟨p⟩ ∨ p.run s' = .error e) :=
  greedy_eq_error_iff.trans repeats_eq_error_iff

/-- No lexer reports itself as the body that does not consume. -/
theorem body_ne {e : Stall Empty Empty} (h : p.run s = .error e) : e.body ≠ p := by
  intro heq
  have hlt := sizeOf_body_lt p s e h
  rw [heq] at hlt
  exact Nat.lt_irrefl _ hlt

theorem run_oneOrMore_stalls_iff : run (.oneOrMore p) s = .error ⟨p⟩ ↔
    ∃ ls s', Chain p.run s ls s' ∧ Idle p.run s' := by
  rw [run_oneOrMore_eq_error_iff]
  refine ⟨?_, fun ⟨ls, t, h, hidle⟩ => ⟨ls, t, h, Or.inl ⟨hidle, rfl⟩⟩⟩
  rintro ⟨ls, t, h, ⟨hidle, -⟩ | herr⟩
  · exact ⟨ls, t, h, hidle⟩
  · exact absurd rfl (body_ne herr)

theorem run_oneOrMore_passes_iff {e : Stall Empty Empty} :
    run (.oneOrMore p) s = .error e ∧ e.body ≠ p ↔
      ∃ ls s', Chain p.run s ls s' ∧ p.run s' = .error e := by
  rw [run_oneOrMore_eq_error_iff]
  constructor
  · rintro ⟨⟨ls, t, h, ⟨-, rfl⟩ | herr⟩, hne⟩
    · exact absurd rfl hne
    · exact ⟨ls, t, h, herr⟩
  · rintro ⟨ls, t, h, herr⟩
    exact ⟨⟨ls, t, h, Or.inr herr⟩, body_ne herr⟩

/-- Under the recording client, a repetition has one call of its body for each stream of the
chain. -/
theorem run_recorded_oneOrMore (p : Lexer) (s : Text) (label : Probe.Label) : ∃ out calls ls s',
    (Pattern.matcher Probe.client (.oneOrMore (.wrapped label (.ofLexer p))) s).run.run [] =
      pure (out, calls) ∧
    out.toOption = (run (.oneOrMore p) s).toOption ∧
    Chain p.run s ls s' ∧ calls.map Call.stream = ls.tails.map (fun rest => rest.flatten ++ s') ∧
    calls.length ≤ s.length + 1 := by
  obtain ⟨ls, t, hchain, hend⟩ := exists_chain_end p.run s
  have hbody : (Pattern.ofLexer p).matcher Probe.client =
      Matcher.lift Probe.client.report p.run := matcher_ofLexer p
  have hrecord : Pattern.matcher Probe.client (.oneOrMore (.wrapped label (.ofLexer p))) =
      greedy (Probe.Fault.stalled ⟨.wrapped label (.ofLexer p)⟩)
        (record label.text (Matcher.lift Probe.client.report p.run)) :=
    congrArg (fun q => greedy _ (record label.text q)) hbody
  rw [hrecord]
  obtain ⟨out, calls, hrun, hout, hcalls⟩ :=
    run_greedy_record (n := StateM Probe.Scripts) (lossless_run p) hchain hend
      Probe.client.report (client.stalled ⟨p⟩) _ label.text
  refine ⟨out, calls, ls, t, hrun, hout, hchain, hcalls, ?_⟩
  have hlen := congrArg List.length hcalls
  rw [List.length_map, List.length_map, List.length_tails] at hlen
  have := hchain.length_le
  omega

/-- **A repetition is greedy**: it follows the chain of matches of its body as far as it goes, and
has four outcomes. It matches with the texts of the chain where the chain is not empty and the body
fails at its end, so the body fails again there; it fails where the body fails at once; it stalls
itself where the body matches and consumes nothing; and it passes on a stall of the body. The body
runs once on each stream of the chain, which is at most one more often than the stream has
characters. With nothing as the alternative there is no failure. -/
theorem oneOrMore_follows_chain (p : Lexer) (s : Text) :
    (∀ ls s', run (.oneOrMore p) s = .ok (.success ls s') ↔
      ls ≠ [] ∧ Chain p.run s ls s' ∧ Fails p s') ∧
    (run (.oneOrMore p) s = .ok (.fail s) ↔ Fails p s) ∧
    (run (.oneOrMore p) s = .error ⟨p⟩ ↔ ∃ ls s', Chain p.run s ls s' ∧ Idle p.run s') ∧
    (∀ e, run (.oneOrMore p) s = .error e ∧ e.body ≠ p ↔
      ∃ ls s', Chain p.run s ls s' ∧ p.run s' = .error e) ∧
    (∀ r, run (.oneOrMore p) s = .ok r → r = .fail s ∨ ∃ ls s', r = .success ls s') ∧
    (∀ label, ∃ out calls ls s',
      (Pattern.matcher Probe.client (.oneOrMore (.wrapped label (.ofLexer p))) s).run.run [] =
        pure (out, calls) ∧
      out.toOption = (run (.oneOrMore p) s).toOption ∧
      Chain p.run s ls s' ∧ calls.map Call.stream = ls.tails.map (fun rest => rest.flatten ++ s') ∧
      calls.length ≤ s.length + 1) ∧
    ∀ r, run (.zeroOrMore p) s = .ok r → r.isSuccess = true := by
  refine ⟨fun _ _ => run_oneOrMore_eq_success_iff, run_oneOrMore_eq_fail_iff,
    run_oneOrMore_stalls_iff, fun _ => run_oneOrMore_passes_iff, fun r h => ?_,
    run_recorded_oneOrMore p s, fun r h => ?_⟩
  · obtain ⟨ls, t, -, hr⟩ := exists_repeated_of_run_oneOrMore h
    split_ifs at hr with hls
    · exact Or.inl hr
    · exact Or.inr ⟨ls, t, hr⟩
  · obtain ⟨ls, t, -, rfl⟩ := exists_repeated_of_run_zeroOrMore h
    rfl

end Lexer

end LexerCombinators
