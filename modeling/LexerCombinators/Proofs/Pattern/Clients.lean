import Mathlib.Tactic.Common
import LexerCombinators.Pattern.Probe

/-!
# Lexers under clients

A client may run patterns in a monad of its own, to count, to record or to answer from a script. A
lexer has nothing foreign in it and uses none of that: under every client it comes to the outcome
that it has alone, and only the name of a stall is the client's (`matcher_ofLexer`). Each operator
commutes with lifting the matchers of its parts (`firstOf_lift` to `lookahead_lift`), and the tree
induction puts them together.

A recording wrapper around a lexer enters one call and changes nothing else
(`run_record_of_ok`, `run_record_of_error`).
-/

namespace LexerCombinators

variable {α ω β ε ε' : Type} {n : Type → Type} [Monad n]

/-- An outcome in a monad with further effects, of which it has none; `f` renames its fault. -/
def lifted (f : ε → ε') (x : Except ε α) : ExceptT ε' n α := ExceptT.mk (pure (x.mapError f))

/-- A matcher in a monad with further effects. -/
def Matcher.lift (f : ε → ε') (p : Matcher (Except ε)) : Matcher (ExceptT ε' n) :=
  fun s => lifted f (p s)

/-! ### Operators -/

section Operators

variable [LawfulMonad n] {f : ε → ε'} {p : Matcher (Except ε)} {ps : List (Matcher (Except ε))}

theorem lifted_bind (x : Except ε α) (g : α → Except ε β) :
    (lifted f (x >>= g) : ExceptT ε' n β) = lifted f x >>= fun a => lifted f (g a) := by
  have hrun : (lifted f x : ExceptT ε' n α).run = pure (x.mapError f) := rfl
  refine ExceptT.ext ?_
  rw [ExceptT.run_bind, hrun, pure_bind]
  cases x with
  | error e => rfl
  | ok a => rfl

theorem firstOf_lift (s : Text) :
    (firstOf (ps.map (Matcher.lift f)) s : ExceptT ε' n Result) = lifted f (firstOf ps s) := by
  induction ps with
  | nil => rfl
  | cons p ps ih =>
    rw [List.map_cons, firstOf, firstOf, lifted_bind]
    refine bind_congr fun r => ?_
    split_ifs
    · rfl
    · exact ih

theorem steps_lift (s : Text) :
    (steps (ps.map (Matcher.lift f)) s : ExceptT ε' n _) = lifted f (steps ps s) := by
  induction ps generalizing s with
  | nil => rfl
  | cons p ps ih =>
    rw [List.map_cons, steps, steps, lifted_bind]
    refine bind_congr fun r => ?_
    split_ifs
    · rw [ih, lifted_bind]
      rfl
    · rfl

theorem inOrder_lift (s : Text) :
    (inOrder (ps.map (Matcher.lift f)) s : ExceptT ε' n Result) = lifted f (inOrder ps s) := by
  rw [inOrder, inOrder, lifted_bind, steps_lift]
  refine bind_congr fun o => ?_
  cases o <;> rfl

theorem repeats_lift (f : ε → ε') (stall : ε) (s : Text) :
    (repeats (f stall) (p.lift f) s : ExceptT ε' n _) = lifted f (repeats stall p s) := by
  -- by induction on the length of the stream, which every match shortens
  induction hk : s.length using Nat.strongRecOn generalizing s with
  | _ k ih =>
    rw [repeats, repeats, lifted_bind]
    refine bind_congr fun r => ?_
    split_ifs with hr hlt
    · rw [ih _ (by omega) r.remaining rfl, lifted_bind]
      rfl
    · rfl
    · rfl

theorem greedy_lift (f : ε → ε') (stall : ε) (s : Text) :
    (greedy (f stall) (p.lift f) s : ExceptT ε' n Result) = lifted f (greedy stall p s) := by
  rw [greedy, greedy, lifted_bind, repeats_lift]
  refine bind_congr fun x => ?_
  obtain ⟨_ | _, _⟩ := x <;> rfl

theorem anchored_lift (s : Text) :
    (anchored (p.lift f) s : ExceptT ε' n Result) = lifted f (anchored p s) := by
  rw [anchored, anchored, lifted_bind]
  rfl

theorem lookahead_lift (expected : Bool) (s : Text) :
    (lookahead expected (p.lift f) s : ExceptT ε' n Result) =
      lifted f (lookahead expected p s) := by
  rw [lookahead, lookahead, lifted_bind]
  rfl

end Operators

/-! ### Patterns -/

section Patterns

variable {client : Client α ω ε (ExceptT ε n)}

/-- How a client reports the stall of a lexer. -/
def Client.report (client : Client α ω ε (ExceptT ε n)) (e : Stall Empty Empty) : ε :=
  client.stalled ⟨.ofLexer e.body⟩

mutual

/-- **A lexer is the same under every client.** -/
theorem matcher_ofLexer [LawfulMonad n] : ∀ p : Lexer,
    (Pattern.ofLexer p).matcher client = Matcher.lift client.report p.run
  | .range lo hi => rfl
  | .literal t => rfl
  | .nothing => rfl
  | .choice ps => by
    funext s
    exact (congrArg (firstOf · s) (matchers_ofLexers ps)).trans (firstOf_lift s)
  | .sequence ps => by
    funext s
    exact (congrArg (inOrder · s) (matchers_ofLexers ps)).trans (inOrder_lift s)
  | .oneOrMore p => by
    funext s
    exact (congrArg (greedy _ · s) (matcher_ofLexer p)).trans (greedy_lift client.report ⟨p⟩ s)
  | .fullMatch p => by
    funext s
    exact (congrArg (anchored · s) (matcher_ofLexer p)).trans (anchored_lift s)
  | .followedBy p => by
    funext s
    exact (congrArg (lookahead true · s) (matcher_ofLexer p)).trans (lookahead_lift true s)
  | .notFollowedBy p => by
    funext s
    exact (congrArg (lookahead false · s) (matcher_ofLexer p)).trans (lookahead_lift false s)
  | .foreign a => nomatch a
  | .wrapped w _ => nomatch w

theorem matchers_ofLexers [LawfulMonad n] : ∀ ps : List Lexer,
    Pattern.matchers client (Pattern.ofLexers ps) =
      (Pattern.matchers Lexer.client ps).map (Matcher.lift client.report)
  | [] => rfl
  | p :: ps => congrArg₂ List.cons (matcher_ofLexer p) (matchers_ofLexers ps)

end

end Patterns

/-! ### Recorded calls -/

section Recording

variable [LawfulMonad n]

theorem bind_of_run_ok {σ : Type} {x : ExceptT ε (StateT σ n) α} {g : α → ExceptT ε (StateT σ n) β}
    {a : α} {l l' : σ} (h : x.run.run l = pure (.ok a, l')) :
    (x >>= g).run.run l = (g a).run.run l' := by
  rw [ExceptT.run_bind, StateT.run_bind, h, pure_bind]

theorem bind_of_run_error {σ : Type} {x : ExceptT ε (StateT σ n) α}
    {g : α → ExceptT ε (StateT σ n) β} {e : ε} {l l' : σ}
    (h : x.run.run l = pure (.error e, l')) : (x >>= g).run.run l = pure (.error e, l') := by
  rw [ExceptT.run_bind, StateT.run_bind, h, pure_bind]
  rfl

variable {f : ε → ε'} {p : Matcher (Except ε)} {label s : Text} {calls : List Call}

/-- The call is entered before the matcher runs. -/
theorem run_record (q : Matcher (ExceptT ε' (StateT (List Call) n))) :
    (record label q s).run.run calls = (do
      let r ← q s
      modify fun cs => cs.modify calls.length fun c => { c with outcome := some r.isSuccess }
      pure r : ExceptT ε' (StateT (List Call) n) Result).run.run
        (calls ++ [⟨label, s, none⟩]) := by
  have hget : (get : ExceptT ε' (StateT (List Call) n) (List Call)).run.run calls =
      pure (.ok calls, calls) := pure_bind (calls, calls) _
  have hset : (set (calls ++ [⟨label, s, none⟩]) :
      ExceptT ε' (StateT (List Call) n) PUnit).run.run calls =
        pure (.ok (), calls ++ [⟨label, s, none⟩]) :=
    pure_bind ((), calls ++ [⟨label, s, none⟩]) _
  rw [record, bind_of_run_ok hget, bind_of_run_ok hset]

/-- The outcome is entered behind the run, in the place where the call was entered before it. -/
theorem run_record_of_run_ok {q : Matcher (ExceptT ε' (StateT (List Call) n))} {r : Result}
    {new : List Call} (h : (q s).run.run (calls ++ [⟨label, s, none⟩]) =
      pure (.ok r, calls ++ ⟨label, s, none⟩ :: new)) :
    (record label q s).run.run calls =
      pure (.ok r, calls ++ ⟨label, s, some r.isSuccess⟩ :: new) := by
  have hentry : (calls ++ (⟨label, s, none⟩ : Call) :: new).modify calls.length
      (fun c => { c with outcome := some r.isSuccess }) =
        calls ++ ⟨label, s, some r.isSuccess⟩ :: new := by
    rw [List.modify_eq_take_cons_drop (by simp)]
    simp
  rw [run_record, bind_of_run_ok h, bind_of_run_ok (pure_bind ((), _) _)]
  exact congrArg (fun cs => pure (Except.ok r, cs)) hentry

/-- A recorded call that comes to a result has whether it matched entered. -/
theorem run_record_of_ok {r : Result} (h : p s = .ok r) :
    (record label (p.lift f) s : ExceptT ε' (StateT (List Call) n) Result).run.run calls =
      pure (.ok r, calls ++ [⟨label, s, some r.isSuccess⟩]) := by
  refine run_record_of_run_ok ?_
  rw [Matcher.lift, h]
  rfl

theorem run_record_of_error {e : ε} (h : p s = .error e) :
    (record label (p.lift f) s : ExceptT ε' (StateT (List Call) n) Result).run.run calls =
      pure (.error (f e), calls ++ [⟨label, s, none⟩]) := by
  have hbody : (p.lift f s : ExceptT ε' (StateT (List Call) n) Result).run.run
      (calls ++ [⟨label, s, none⟩]) = pure (.error (f e), calls ++ [⟨label, s, none⟩]) := by
    rw [Matcher.lift, h]
    rfl
  rw [run_record, bind_of_run_error hbody]

end Recording

end LexerCombinators
