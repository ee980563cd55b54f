import LexerCombinators.Proofs.Pattern.Lossless

/-!
# Rearranged choices and sequences

Choices and sequences can be run in parts (`run_choice_append`, `run_sequence_append`): the second
part of a sequence begins where the first ends, and the sequence fails where it began, whichever
part fails. Two laws follow.

Parts may be put together in blocks, each a choice or a sequence of its own, and the blocks in
blocks again (`Grouping`). For a choice that changes nothing. For a sequence it changes where the
matched text is cut, and nothing else (`Regrouped`): every block has one lexeme for what its parts
matched. The induction is on the grouping (`grouping_irrelevant`).

What several alternatives begin with may be taken out of the choice and matched once
(`prefix_factored`). Nothing may stand behind the choice then: a sequence does not come back to a
choice that has been made.
-/

namespace LexerCombinators

namespace Result

/-- The result on `s` of a sequence that has the lexemes `ls` so far, from that of its rest. -/
def behind (s : Text) (ls : List Text) (r : Result) : Result :=
  if r.isSuccess then .success (ls ++ r.lexemes) r.remaining else .fail s

/-- The result on `s` of a sequence of one part, from that of the part. -/
def joined (s : Text) (r : Result) : Result :=
  if r.isSuccess then .success [r.text] r.remaining else .fail s

end Result

namespace Lexer

variable {ps : List Lexer} {s : Text} {r : Result}

/-! ### Choices and sequences in parts -/

theorem run_choice_append (ps qs : List Lexer) (s : Text) : run (.choice (ps ++ qs)) s =
    (run (.choice ps) s >>= fun r => if r.isSuccess then pure r else run (.choice qs) s) := by
  induction ps with
  | nil => rfl
  | cons p ps ih =>
    rw [List.cons_append, run_choice_cons, run_choice_cons, bind_assoc]
    refine bind_congr fun r => ?_
    by_cases hr : r.isSuccess = true
    · rw [if_pos hr, if_pos hr, pure_bind, if_pos hr]
    · rw [if_neg hr, if_neg hr, ih]

theorem run_sequence_cons (p : Lexer) (ps : List Lexer) (s : Text) : run (.sequence (p :: ps)) s =
    (p.run s >>= fun r =>
      if r.isSuccess then (run (.sequence ps) r.remaining).map (Result.behind s [r.text])
      else pure (.fail s)) := by
  have hrun (ps : List Lexer) (t : Text) :
      run (.sequence ps) t = inOrder (Pattern.matchers client ps) t := rfl
  rw [hrun, Pattern.matchers, inOrder, steps, bind_assoc]
  refine bind_congr fun r => ?_
  split_ifs
  · rw [hrun, inOrder]
    rcases steps (Pattern.matchers client ps) r.remaining with e | _ | x <;> rfl
  · rfl

theorem run_sequence_singleton (p : Lexer) (s : Text) :
    run (.sequence [p]) s = (p.run s).map (Result.joined s) := by
  rw [run_sequence_cons]
  cases p.run s with
  | error e => rfl
  | ok r =>
    by_cases hr : r.isSuccess = true
    · have hjoined : Result.joined s r = .success [r.text] r.remaining := if_pos hr
      exact (if_pos hr).trans (congrArg Except.ok hjoined.symm)
    · have hjoined : Result.joined s r = .fail s := if_neg hr
      exact (if_neg hr).trans (congrArg Except.ok hjoined.symm)

theorem map_behind_nil (p : Lexer) (s : Text) : (p.run s).map (Result.behind s []) = p.run s := by
  cases h : p.run s with
  | error e => rfl
  | ok r => cases lossless_run p s r h <;> rfl

theorem map_behind_behind (s t : Text) (ls ls' : List Text)
    (x : Except (Stall Empty Empty) Result) :
    (x.map (Result.behind t ls')).map (Result.behind s ls) =
      x.map (Result.behind s (ls ++ ls')) := by
  cases x with
  | error e => rfl
  | ok r =>
    refine congrArg Except.ok ?_
    unfold Result.behind
    by_cases hr : r.isSuccess = true
    · simp only [hr, Result.success, if_true, List.append_assoc]
    · simp only [hr, Result.fail]
      rfl

/-- **A sequence in two parts**: the second begins where the first ends, and the whole fails where
the whole began. -/
theorem run_sequence_append (ps qs : List Lexer) (s : Text) : run (.sequence (ps ++ qs)) s =
    (run (.sequence ps) s >>= fun r =>
      if r.isSuccess then (run (.sequence qs) r.remaining).map (Result.behind s r.lexemes)
      else pure (.fail s)) := by
  induction ps generalizing s with
  | nil => exact (map_behind_nil (.sequence qs) s).symm
  | cons p ps ih =>
    rw [List.cons_append, run_sequence_cons, run_sequence_cons, bind_assoc]
    refine bind_congr fun r => ?_
    by_cases hr : r.isSuccess = true
    · rw [if_pos hr, if_pos hr, ih]
      cases h : run (.sequence ps) r.remaining with
      | error e => rfl
      | ok r' =>
        cases lossless_run _ _ r' h with
        | fail => rfl
        | @success ls t _ => exact map_behind_behind s r.remaining [r.text] ls _
    · rw [if_neg hr, if_neg hr]
      rfl

/-- A sequence has one lexeme for each of its parts. -/
theorem length_of_run_sequence {ls : List Text} {s' : Text}
    (h : run (.sequence ps) s = .ok (.success ls s')) : ls.length = ps.length := by
  induction ps generalizing s ls with
  | nil =>
    cases h
    rfl
  | cons p ps ih =>
    rw [run_sequence_cons] at h
    obtain ⟨r, -, h⟩ := except_bind_eq_ok.mp h
    split_ifs at h
    · cases hps : run (.sequence ps) r.remaining with
      | error e =>
        rw [hps] at h
        cases h
      | ok r' =>
        rw [hps] at h
        cases lossless_run _ _ r' hps with
        | fail => cases h
        | success _ =>
          cases h
          exact congrArg Nat.succ (ih hps)
    · cases h

/-! ### Groupings -/

/-- A list of lexers in blocks, and these in blocks again, to any depth. -/
inductive Grouping where
  | one (p : Lexer)
  | block (gs : List Grouping)

namespace Grouping

mutual

/-- The lexers of a grouping, in order. -/
def leaves : Grouping → List Lexer
  | one p => [p]
  | block gs => leavesOfAll gs

/-- The lexers of a list of groupings, in order. -/
def leavesOfAll : List Grouping → List Lexer
  | [] => []
  | g :: gs => leaves g ++ leavesOfAll gs

end

mutual

/-- The lexer of a grouping, where `op` makes one lexer of a block. -/
def nested (op : List Lexer → Lexer) : Grouping → Lexer
  | one p => p
  | block gs => op (nestedOfAll op gs)

/-- The same for a list of groupings. -/
def nestedOfAll (op : List Lexer → Lexer) : List Grouping → List Lexer
  | [] => []
  | g :: gs => nested op g :: nestedOfAll op gs

end

/-- How many lexers a grouping has. -/
def size (g : Grouping) : Nat := g.leaves.length

end Grouping

open Grouping

/-! ### Choices of choices -/

mutual

theorem run_choice_nested_cons : ∀ (g : Grouping) (ps : List Lexer) (s : Text),
    run (.choice (nested .choice g :: ps)) s = run (.choice (leaves g ++ ps)) s
  | one _, _, _ => rfl
  | block gs, ps, s => by
    have hstep : run (nested .choice (block gs)) s = run (.choice (leavesOfAll gs)) s :=
      run_choice_nestedOfAll gs s
    rw [run_choice_cons, hstep, leaves, run_choice_append]

theorem run_choice_nestedOfAll : ∀ (gs : List Grouping) (s : Text),
    run (.choice (nestedOfAll .choice gs)) s = run (.choice (leavesOfAll gs)) s
  | [], _ => rfl
  | g :: gs, s => by
    rw [nestedOfAll, run_choice_nested_cons g, leavesOfAll, run_choice_append, run_choice_append]
    refine bind_congr fun r => ?_
    rw [run_choice_nestedOfAll gs s]

end

/-! ### Sequences of sequences -/

/-- Two outcomes on `s` that differ only in where the matched text is cut. Both match and leave the
same, and the lexemes of the first, in blocks of the sizes `ns`, are one lexeme for each block in
the second; or both fail; or both end early in the same way. -/
inductive Regrouped (ns : List Nat) (s : Text) :
    Except (Stall Empty Empty) Result → Except (Stall Empty Empty) Result → Prop
  | success (lss : List (List Text)) (s' : Text) : lss.map List.length = ns →
      Regrouped ns s (.ok (.success lss.flatten s')) (.ok (.success (lss.map List.flatten) s'))
  | fail : Regrouped ns s (.ok (.fail s)) (.ok (.fail s))
  | stall (e : Stall Empty Empty) : Regrouped ns s (.error e) (.error e)

/-- One more block in front. -/
theorem Regrouped.cons {ns : List Nat} {t : Text} {x y : Except (Stall Empty Empty) Result}
    (h : Regrouped ns t x y) (s : Text) (ls : List Text) : Regrouped (ls.length :: ns) s
      (x.map (Result.behind s ls)) (y.map (Result.behind s [ls.flatten])) := by
  cases h with
  | success lss s' hns => exact .success (ls :: lss) s' (congrArg (ls.length :: ·) hns)
  | fail => exact .fail
  | stall e => exact .stall e

/-- A sequence of one part is a block of its own. -/
theorem regrouped_singleton (p : Lexer) (s : Text) :
    ∃ n, Regrouped [n] s (p.run s) (run (.sequence [p]) s) := by
  rw [run_sequence_singleton]
  cases h : p.run s with
  | error e => exact ⟨0, .stall e⟩
  | ok r =>
    cases lossless_run p s r h with
    | @success ls s' _ =>
      have hone : [ls].flatten = ls := List.flatten_singleton
      have hgroup : Regrouped [ls.length] s (.ok (.success [ls].flatten s'))
          (.ok (.success [ls.flatten] s')) := .success [ls] s' rfl
      rw [hone] at hgroup
      exact ⟨ls.length, hgroup⟩
    | fail => exact ⟨0, .fail⟩

/-- As parts of a sequence, regrouped outcomes are the same. -/
theorem Regrouped.map_joined_eq {ns : List Nat} {x y : Except (Stall Empty Empty) Result}
    (h : Regrouped ns s x y) : y.map (Result.joined s) = x.map (Result.joined s) := by
  cases h with
  | success lss s' _ =>
    have htext : (lss.map List.flatten).flatten = lss.flatten.flatten := List.flatten_flatten.symm
    exact congrArg (fun l => Except.ok (Result.success [l] s')) htext
  | fail => rfl
  | stall e => rfl

mutual

theorem run_singleton_nested : ∀ (g : Grouping) (s : Text),
    run (.sequence [nested .sequence g]) s = run (.sequence [.sequence (leaves g)]) s
  | one p, s => by
    rw [leaves, nested, run_sequence_singleton, run_sequence_singleton]
    obtain ⟨_, hgroup⟩ := regrouped_singleton p s
    exact hgroup.map_joined_eq.symm
  | block gs, s => by
    rw [run_sequence_singleton, run_sequence_singleton]
    exact (regrouped_nestedOfAll gs s).map_joined_eq

theorem regrouped_nestedOfAll : ∀ (gs : List Grouping) (s : Text),
    Regrouped (gs.map Grouping.size) s (run (.sequence (leavesOfAll gs)) s)
      (run (.sequence (nestedOfAll .sequence gs)) s)
  | [], s => .success [] s rfl
  | g :: gs, s => by
    have hcons : nestedOfAll .sequence (g :: gs) =
        [nested .sequence g] ++ nestedOfAll .sequence gs := rfl
    rw [leavesOfAll, hcons, run_sequence_append, run_sequence_append, run_singleton_nested g,
      run_sequence_singleton]
    cases h : run (.sequence (leaves g)) s with
    | error e => exact .stall e
    | ok r =>
      cases lossless_run _ s r h with
      | fail => exact .fail
      | @success ls t _ =>
        have hsize : g.size = ls.length := (length_of_run_sequence h).symm
        rw [List.map_cons, hsize]
        exact (regrouped_nestedOfAll gs t).cons s ls

end

/-- **Blocks do not matter**, to any depth: a choice of choices has the outcome of the choice of all
alternatives, and a sequence of sequences that of the sequence of all parts, but for one lexeme for
each block in place of one for each part. -/
theorem grouping_irrelevant (gs : List Grouping) (s : Text) :
    run (nested .choice (block gs)) s = run (.choice (leaves (block gs))) s ∧
    Regrouped (gs.map Grouping.size) s (run (.sequence (leaves (block gs))) s)
      (run (nested .sequence (block gs)) s) :=
  ⟨run_choice_nestedOfAll gs s, regrouped_nestedOfAll gs s⟩

-- three parts, the last two in a block
example : run (nested .sequence (block [one (.char 'a'), block [one (.char 'b'), one (.char 'c')]]))
    "abc;".toList = .ok (.success ["a".toList, "bc".toList] ";".toList) := rfl

/-! ### Common prefixes -/

/-- Where the prefix comes to a result, alternatives that begin with it are the prefix with the
alternatives behind it. -/
theorem run_choice_map_sequence (h : run (.sequence ps) s = .ok r) (qs : List Lexer) :
    run (.choice (qs.map fun q => .sequence (ps ++ [q]))) s =
      run (.sequence (ps ++ [.choice qs])) s := by
  have hparts (q : Lexer) : run (.sequence (ps ++ [q])) s =
      if r.isSuccess then ((q.run r.remaining).map (Result.joined r.remaining)).map
        (Result.behind s r.lexemes) else .ok (.fail s) := by
    rw [run_sequence_append, h, ← run_sequence_singleton]
    rfl
  induction qs with
  | nil =>
    rw [hparts]
    split_ifs <;> rfl
  | cons q qs ih =>
    rw [List.map_cons, run_choice_cons, ih, hparts, hparts, hparts, run_choice_cons]
    by_cases hr : r.isSuccess = true
    · rw [if_pos hr, if_pos hr, if_pos hr]
      cases hq : q.run r.remaining with
      | error e => rfl
      | ok r' => cases lossless_run q _ r' hq <;> rfl
    · rw [if_neg hr, if_neg hr, if_neg hr]
      rfl

/-- **A common prefix may be factored out of a choice**: matched once in front of it, or again for
each alternative, it leads to the same outcome, and a failure of either leaves the stream whole. -/
theorem prefix_factored (ps : List Lexer) (q : Lexer) (qs : List Lexer) (s : Text) :
    run (.sequence (ps ++ [.choice (q :: qs)])) s =
      run (.choice ((q :: qs).map fun q => .sequence (ps ++ [q]))) s ∧
    ∀ r, run (.sequence (ps ++ [.choice (q :: qs)])) s = .ok r → r.isSuccess = false →
      r = .fail s := by
  refine ⟨?_, fun r h hr => (lossless_run _ s r h).eq_fail hr⟩
  cases h : run (.sequence ps) s with
  | ok r => exact (run_choice_map_sequence h (q :: qs)).symm
  | error e =>
    -- the prefix is run for the first alternative in any case
    rw [List.map_cons, run_choice_cons, run_sequence_append, run_sequence_append, h]
    rfl

-- with something behind the choice, the alternatives that were not chosen are missed
example :
    run (.sequence [.choice [.literal "a".toList, .literal "ab".toList], .char 'c']) "abc".toList =
      .ok (.fail "abc".toList) ∧
    run (.choice [.sequence [.literal "a".toList, .char 'c'],
      .sequence [.literal "ab".toList, .char 'c']]) "abc".toList =
        .ok (.success ["ab".toList, "c".toList] []) := ⟨rfl, rfl⟩

end Lexer

end LexerCombinators
