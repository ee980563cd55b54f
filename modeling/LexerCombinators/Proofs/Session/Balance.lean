import LexerCombinators.Proofs.Scanner.Runs
import LexerCombinators.Proofs.Session.Ledger

/-!
# The ledger balances

Every diagnostic that is registered in a session is pending or has been reported, and never both
(`Ledger.Balanced`). A part of a step ends in one of three ways (`Ends`): with a value, and what it
registered is pending with the rest; with a report of everything that is pending, what it registered
included, and nothing is left; or early for another reason, and then nothing has changed at all. A
step ends in these ways too, or prints such a report where the tool does (`StepEnds`). Whatever
follows a part that registered must not end early for another reason than a report (`OnlyReports`):
that is where the order of registering and failing matters.

A step keeps the ledger balanced (`StepEnds.balanced`), so by induction on the steps every session
does (`balanced_after`).
-/

namespace LexerCombinators

namespace Ledger

/-- Every registered diagnostic is pending or was reported, as many times as it was registered. -/
def Balanced (l : Ledger) : Prop := l.registered.Perm (l.pending ++ l.reports.flatten)

/-- From `l` to `l'` diagnostics were registered, and now they are pending with those before. -/
def Grows (l l' : Ledger) : Prop :=
  ∃ new, l'.registered = l.registered ++ new ∧ l'.reports = l.reports ∧
    l'.pending.Perm (l.pending ++ new)

/-- From `l` to `l'` diagnostics were registered, and then `ds`, which are all that were pending,
were reported, and none is left. -/
def Reports (l l' : Ledger) (ds : List Diagnostic) : Prop :=
  ∃ new, l'.registered = l.registered ++ new ∧ l'.reports = l.reports ++ [ds] ∧
    l'.pending = [] ∧ ds.Perm (l.pending ++ new)

/-- How a computation ends, with the ledgers before and after it. -/
inductive Ends {φ α : Type} (l : Ledger) : Except (Failure φ) α → Ledger → Prop
  | value {a : α} {l' : Ledger} : Grows l l' → Ends l (.ok a) l'
  | report {stage : Stage} {ds : List Diagnostic} {l' : Ledger} : Reports l l' ds →
      Ends l (.error (.reported stage ds)) l'
  | failure {e : Failure φ} : (∀ stage ds, e ≠ .reported stage ds) → Ends l (.error e) l

/-- How a step ends: as its parts do, or with the output of the tool for a report. -/
inductive StepEnds {φ : Type} (l : Ledger) : Except (Failure φ) Answer → Ledger → Prop
  | ends {r : Except (Failure φ) Answer} {l' : Ledger} : Ends l r l' → StepEnds l r l'
  | printed {ds : List Diagnostic} {l' : Ledger} : Reports l l' ds →
      StepEnds l (.ok (.output (.ofReport ds))) l'

/-- The computation ends in one of those ways from every ledger. -/
def Books {φ α : Type} (y : Booking φ α) : Prop :=
  ∀ l, Ends l (y.run.run l).1 (y.run.run l).2

/-- The step ends in one of those ways from every ledger. -/
def StepBooks {φ : Type} (y : Booking φ Answer) : Prop :=
  ∀ l, StepEnds l (y.run.run l).1 (y.run.run l).2

/-- The computation ends early only with a report. -/
def OnlyReports {φ α : Type} (y : Booking φ α) : Prop :=
  ∀ l e, (y.run.run l).1 = .error e → ∃ stage ds, e = .reported stage ds

/-! ### Ledgers -/

section Ledgers

variable {l l' l'' : Ledger} {ds : List Diagnostic}

theorem Grows.refl (l : Ledger) : Grows l l := ⟨[], by simp, rfl, by simp⟩

theorem Grows.trans (h : Grows l l') (h' : Grows l' l'') : Grows l l'' := by
  obtain ⟨new, hreg, hrep, hpend⟩ := h
  obtain ⟨new', hreg', hrep', hpend'⟩ := h'
  refine ⟨new ++ new', ?_, hrep'.trans hrep, ?_⟩
  · rw [hreg', hreg, List.append_assoc]
  · rw [← List.append_assoc]
    exact hpend'.trans (hpend.append_right new')

theorem Grows.reports (h : Grows l l') (h' : Reports l' l'' ds) : Reports l l'' ds := by
  obtain ⟨new, hreg, hrep, hpend⟩ := h
  obtain ⟨new', hreg', hrep', hnil, hds⟩ := h'
  refine ⟨new ++ new', ?_, ?_, hnil, ?_⟩
  · rw [hreg', hreg, List.append_assoc]
  · rw [hrep', hrep]
  · rw [← List.append_assoc]
    exact hds.trans (hpend.append_right new')

theorem Grows.balanced (h : Grows l l') (hl : l.Balanced) : l'.Balanced := by
  obtain ⟨new, hreg, hrep, hpend⟩ := h
  unfold Balanced
  rw [hreg, hrep]
  calc (l.registered ++ new).Perm (l.pending ++ l.reports.flatten ++ new) := hl.append_right new
    _ |>.Perm (l.pending ++ (new ++ l.reports.flatten)) := by
      rw [List.append_assoc]
      exact List.perm_append_comm.append_left l.pending
    _ |>.Perm (l'.pending ++ l.reports.flatten) := by
      rw [← List.append_assoc]
      exact hpend.symm.append_right _

theorem Reports.balanced (h : Reports l l' ds) (hl : l.Balanced) : l'.Balanced := by
  obtain ⟨new, hreg, hrep, hnil, hds⟩ := h
  unfold Balanced
  rw [hreg, hrep, hnil, List.nil_append, List.flatten_append, List.flatten_singleton]
  calc (l.registered ++ new).Perm (l.pending ++ l.reports.flatten ++ new) := hl.append_right new
    _ |>.Perm (l.reports.flatten ++ l.pending ++ new) := List.perm_append_comm.append_right new
    _ |>.Perm (l.reports.flatten ++ ds) := by
      rw [List.append_assoc]
      exact hds.symm.append_left _

end Ledgers

/-! ### Parts of a step -/

section Parts

variable {φ ψ α β : Type} {l l' l'' : Ledger} {r : Except (Failure φ) α}

theorem Ends.of_grows (h : Grows l l') (h' : Ends l' r l'')
    (hr : ∀ e, r = .error e → ∃ stage ds, e = .reported stage ds) : Ends l r l'' := by
  cases h' with
  | value h' => exact .value (h.trans h')
  | report h' => exact .report (h.reports h')
  | failure he =>
    obtain ⟨stage, ds, rfl⟩ := hr _ rfl
    exact absurd rfl (he stage ds)

theorem Ends.map (h : Ends l r l') (f : α → β) : Ends l (r.map f) l' := by
  cases h with
  | value h => exact .value h
  | report h => exact .report h
  | failure he => exact .failure he

theorem Ends.mapFault (h : Ends l r l') (f : φ → ψ) :
    Ends l (r.mapError (Failure.mapFault f)) l' := by
  cases h with
  | value h => exact .value h
  | report h => exact .report h
  | @failure e he =>
    refine .failure fun stage ds hmap => ?_
    cases e with
    | fault | bodiless => cases hmap
    | reported stage ds => exact he stage ds rfl

variable {y : Booking φ α} {g : α → Booking φ β}

theorem OnlyReports.bind (hy : OnlyReports y) (hg : ∀ a, OnlyReports (g a)) :
    OnlyReports (y >>= g) := by
  intro l e he
  have hl := hy l
  rcases hrun : y.run.run l with ⟨r, l'⟩
  rw [hrun] at hl
  cases r with
  | ok a =>
    rw [run_bind_of_ok hrun] at he
    exact hg a l' e he
  | error e' =>
    rw [run_bind_of_error hrun] at he
    cases he
    exact hl e rfl

/-- What follows a part that may have registered something must end early with a report only. -/
theorem Books.bind (hy : Books y) (hg : ∀ a, Books (g a)) (hr : ∀ a, OnlyReports (g a)) :
    Books (y >>= g) := by
  intro l
  have hl := hy l
  rcases hrun : y.run.run l with ⟨r, l'⟩
  rw [hrun] at hl
  cases hl with
  | @value a _ h =>
    rw [run_bind_of_ok hrun]
    exact (hg a l').of_grows h (hr a l')
  | report h =>
    rw [run_bind_of_error hrun]
    exact .report h
  | failure he =>
    rw [run_bind_of_error hrun]
    exact .failure he

theorem Books.map (hy : Books y) (f : α → β) : Books (f <$> y) := by
  intro l
  rw [run_map]
  exact (hy l).map f

theorem Books.adapt (hy : Books y) (f : φ → ψ) : Books (y.adapt (Failure.mapFault f)) := by
  intro l
  rw [run_adapt]
  exact (hy l).mapFault f

theorem onlyReports_pure (a : α) : OnlyReports (pure a : Booking φ α) := by
  rintro l e ⟨⟩

theorem books_pure (a : α) : Books (pure a : Booking φ α) := fun l => .value (.refl l)

theorem onlyReports_register (d : Diagnostic) : OnlyReports (register d : Booking φ Unit) := by
  rintro l e ⟨⟩

theorem books_register (d : Diagnostic) : Books (register d : Booking φ Unit) :=
  fun _ => .value ⟨[d], rfl, rfl, .refl _⟩

theorem onlyReports_forM_register (ds : List Diagnostic) :
    OnlyReports (ds.forM register : Booking φ Unit) := by
  induction ds with
  | nil => exact onlyReports_pure ()
  | cons d ds ih => exact (onlyReports_register d).bind fun _ => ih

theorem books_forM_register (ds : List Diagnostic) :
    Books (ds.forM register : Booking φ Unit) := by
  induction ds with
  | nil => exact books_pure ()
  | cons d ds ih =>
    exact (books_register d).bind (fun _ => ih) fun _ => onlyReports_forM_register ds

theorem books_throw {e : Failure φ} (he : ∀ stage ds, e ≠ .reported stage ds) :
    Books (throw e : Booking φ α) := fun _ => .failure he

theorem run_passing_communicate (stage : Stage) (l : Ledger) :
    (passing (communicate stage) : Booking φ Unit).run.run l =
      if l.pending = [] then (.ok (), l)
      else (.error (.reported stage (sorted l.pending)),
        { l with reports := l.reports ++ [sorted l.pending], pending := [] }) := by
  rw [run_passing, run_communicate]
  by_cases h : l.pending = []
  · rw [if_pos h, if_pos h, ← h]
  · rw [if_neg h, if_neg h]

theorem onlyReports_communicate (stage : Stage) :
    OnlyReports (passing (communicate stage) : Booking φ Unit) := by
  intro l e he
  rw [run_passing_communicate] at he
  split at he
  · cases he
  · cases he
    exact ⟨stage, _, rfl⟩

theorem books_communicate (stage : Stage) :
    Books (passing (communicate stage) : Booking φ Unit) := by
  intro l
  rw [run_passing_communicate]
  split
  · exact .value (.refl l)
  · refine .report ⟨[], by simp, rfl, rfl, ?_⟩
    rw [List.append_nil]
    exact List.mergeSort_perm _ _

/-- A computation that only puts the pending diagnostics in another order. -/
theorem books_passing {x : Reporting φ α}
    (h : ∀ ds, ∃ a ds', x.run.run ds = (.ok a, ds') ∧ ds'.Perm ds) : Books (passing x) := by
  intro l
  obtain ⟨a, ds, hx, hds⟩ := h l.pending
  rw [run_passing, hx]
  exact .value ⟨[], by simp, rfl, by simpa using hds⟩

end Parts

/-! ### Scanning -/

section Scanning

variable {P φ α : Type}

theorem books_lexemes (program : Text) (a : Attempt) :
    Books (lexemes program a : Booking φ (List Text)) := by
  cases a with
  | lexed ls =>
    exact (books_communicate _).bind (fun _ => books_pure ls) fun _ => onlyReports_pure ls
  | stopped remaining =>
    have hpure : ∀ _ : Unit, OnlyReports (pure [] : Booking φ (List Text)) :=
      fun _ => onlyReports_pure []
    refine (books_register _).bind (fun _ => ?_) fun _ => (onlyReports_communicate _).bind hpure
    exact (books_communicate _).bind (fun _ => books_pure []) hpure
  | bodiless k => exact books_throw nofun

theorem books_tokens (program whitespace : Text) (a : Attempt) :
    Books (tokens program whitespace a : Booking φ (List Token)) := by
  -- only the lexemes can fail for another reason, and they come first
  refine (books_lexemes program a).bind (fun ls => ?_) fun ls => ?_
  · refine (books_forM_register _).bind (fun _ => ?_) fun _ =>
      (onlyReports_communicate _).bind fun _ => onlyReports_pure _
    exact (books_communicate _).bind (fun _ => books_pure _) fun _ => onlyReports_pure _
  · exact (onlyReports_forM_register _).bind fun _ =>
      (onlyReports_communicate _).bind fun _ => onlyReports_pure _

variable [Runnable P φ]

/-- An attempt leaves the ledger as it is, so what follows it may end early in any way. -/
theorem books_attempt_bind (s : Scanner P) {g : Attempt → Booking φ α} (hg : ∀ a, Books (g a)) :
    Books (passing s.attempt >>= g) := by
  intro l
  cases ha : Runnable.attempt s.lexer s.program with
  | ok a =>
    have hrun : (passing s.attempt).run.run l = (.ok a, l) := by
      rw [run_passing, run_attempt_of_ok ha]
    rw [run_bind_of_ok hrun]
    exact hg a l
  | error e =>
    have hrun : (passing s.attempt).run.run l = (.error (.fault e), l) := by
      rw [run_passing, run_attempt_of_fault ha]
    rw [run_bind_of_error hrun]
    exact .failure nofun

theorem books_lex (s : Scanner P) : Books (lex s) :=
  books_attempt_bind s fun a => books_lexemes s.program a

theorem books_scan (s : Scanner P) : Books (scan s) :=
  books_attempt_bind s fun a => books_tokens s.program s.whitespace a

theorem books_reportFailure (program : Text) (body : P) : Books (reportFailure program body) := by
  unfold reportFailure
  cases Runnable.leftover body program with
  | ok remaining => exact books_register _
  | error e => exact books_throw nofun

end Scanning

/-! ### Steps -/

section Steps

variable {P φ : Type} {l l' : Ledger}

theorem Books.step {y : Booking φ Answer} (hy : Books y) : StepBooks y := fun l => .ends (hy l)

/-- The tool prints the reports of its scanner, and ends in all other ways as its scanner does. -/
theorem stepBooks_runTool (program : Text) : StepBooks (φ := SessionFault φ)
    (Answer.output <$> (runTool program).adapt (Failure.mapFault .inr)) := by
  intro l
  let s : Scanner Lexer := { program, lexer := Lexicon.program }
  have hscan : Books (Output.ofTokens <$> scan s) := (books_scan s).map _
  have hl := hscan l
  have hanswer {r : Except (Failure (Stall Empty Empty)) Output} {l' : Ledger} (h : Ends l r l') :
      StepEnds l ((r.mapError (Failure.mapFault (@Sum.inr φ _))).map Answer.output) l' :=
    .ends ((h.mapFault _).map _)
  rw [run_map, run_adapt]
  unfold runTool
  rcases hrun : (Output.ofTokens <$> scan s).run.run l with ⟨r, l'⟩
  rw [hrun] at hl
  cases r with
  | ok o =>
    rw [run_tryCatch_of_ok _ hrun]
    exact hanswer hl
  | error e =>
    rw [run_tryCatch_of_error _ hrun]
    cases e with
    | fault | bodiless => exact hanswer hl
    | reported stage ds =>
      cases stage with
      | scanner =>
        cases hl with
        | report h => exact .printed h
        | failure he => exact absurd rfl (he _ _)
      | lexer | combinator => exact hanswer hl

variable [Runnable P φ]

/-- **How a step ends**, unless it forgets the pending diagnostics. -/
theorem stepBooks_perform {step : Step P} (h : step ≠ .clear) : StepBooks (perform step) := by
  cases step with
  | register d =>
    exact ((books_register d).bind (fun _ => books_pure _) fun _ => onlyReports_pure _).step
  | describe i before after title =>
    refine (books_passing fun ds => ?_).step
    unfold Step.perform
    rw [run_get_bind]
    cases entry? ds i with
    | some d => exact ⟨_, _, rfl, .refl ds⟩
    | none => exact ⟨_, _, rfl, .refl ds⟩
  | compare i j =>
    refine (books_passing fun ds => ?_).step
    unfold Step.perform
    rw [run_get_bind]
    cases entry? ds i <;> cases entry? ds j <;> exact ⟨_, _, rfl, .refl ds⟩
  | communicate stage =>
    exact ((books_communicate stage).bind (fun _ => books_pure _) fun _ => onlyReports_pure _).step
  | sort => exact (books_passing fun ds => ⟨_, _, rfl, List.mergeSort_perm _ _⟩).step
  | clear => exact absurd rfl h
  | lex s => exact (((books_lex s).adapt _).map _).step
  | scan s => exact (((books_scan s).adapt _).map _).step
  | reportFailure program body =>
    have hbooks := (books_reportFailure program body).adapt (@Sum.inl φ (Stall Empty Empty))
    exact (hbooks.bind (fun _ => books_pure _) fun _ => onlyReports_pure _).step
  | tool program => exact stepBooks_runTool program
  | toolOnBytes bytes => exact stepBooks_runTool (Text.ofLatin1 bytes)

theorem StepEnds.balanced {r : Except (Failure φ) Answer} (h : StepEnds l r l')
    (hl : l.Balanced) : l'.Balanced := by
  cases h with
  | ends h =>
    cases h with
    | value h => exact h.balanced hl
    | report h => exact h.balanced hl
    | failure => exact hl
  | printed h => exact h.balanced hl

theorem balanced_after {steps : List (Step P)} (h : ∀ step ∈ steps, step ≠ .clear)
    (hl : l.Balanced) : (l.after steps).Balanced := by
  induction steps generalizing l with
  | nil => exact hl
  | cons step steps ih =>
    have hstep := stepBooks_perform (h step List.mem_cons_self) l
    exact ih (fun s hs => h s (List.mem_cons_of_mem _ hs)) (hstep.balanced hl)

/-! ### Sessions -/

theorem after_append_singleton (l : Ledger) (steps : List (Step P)) (step : Step P) :
    l.after (steps ++ [step]) = ((perform step).run.run (l.after steps)).2 := by
  unfold after
  rw [List.foldl_append]
  rfl

/-- **After every step of a session** the diagnostics that were registered are those that are
pending and those that were reported. The step may have registered some; if it reports, then all
that are pending, of which the first ten are shown and the others counted, and none is left; and if
it ends early for another reason, it has left everything as it was. -/
theorem session_balances (steps : List (Step P)) (step : Step P)
    (h : ∀ s ∈ steps ++ [step], s ≠ .clear) :
    let before := empty.after steps
    let now := empty.after (steps ++ [step])
    (∃ answer, session (steps ++ [step]) [] = session steps [] ++ [(answer, now.pending)] ∧
      StepEnds before answer now) ∧
    now.Balanced ∧
    ∀ ds ∈ now.reports, reportText ds =
      List.intercalate "\n\n".toList ((ds.take 10).map Diagnostic.shown) ++
        if 10 < ds.length then omission (ds.length - 10) else [] := by
  intro before now
  have hnow : now = ((perform step).run.run before).2 := after_append_singleton empty steps step
  have hends := stepBooks_perform (h step (by simp)) before
  refine ⟨⟨((perform step).run.run before).1, ?_, ?_⟩, ?_, fun ds _ => rfl⟩
  · rw [hnow]
    exact session_append_singleton empty steps step
  · rw [hnow]
    exact hends
  · exact balanced_after h (.refl [])

/-- A diagnostic is registered, a lexer without a body fails, and the diagnostic is reported. -/
theorem session_balances_bodiless :
    let d := Diagnostic.stuck "^".toList "^".toList
    let steps : List (Step Lexer) := [.register d, .lex ⟨"b".toList, .literal "a".toList, []⟩]
    let now := empty.after (steps ++ [.communicate .scanner])
    (empty.after steps).pending = [d] ∧ now.pending = [] ∧ now.Balanced := by
  intro d steps now
  have hsteps : ∀ s ∈ steps ++ [.communicate .scanner], s ≠ .clear := by simp [steps]
  have hbefore : (empty.after steps).pending = [d] := rfl
  refine ⟨hbefore, ?_, (session_balances steps (.communicate .scanner) hsteps).2.1⟩
  have hrun := run_passing_communicate (φ := SessionFault (Stall Empty Empty)) .scanner
    (empty.after steps)
  rw [if_neg (hbefore ▸ List.cons_ne_nil d [])] at hrun
  have hnow : now = _ := after_append_singleton empty steps _
  rw [hnow]
  unfold perform
  rw [run_bind_of_error hrun]

end Steps

end Ledger

end LexerCombinators
