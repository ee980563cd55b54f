import LexerCombinators.Report.Pending

/-!
# Runs of reporting computations

A computation runs from a list of pending diagnostics to a value or a failure, and leaves a list
behind; how its parts follow one another is the same for a state of any type. `register` adds to the
list and nothing else; `communicate` passes if the list is empty, and otherwise fails with all of it
and empties it (`run_communicate`). That the test on the shown text is a test on the list rests on
the diagnostics themselves: every one of them shows something.
-/

namespace LexerCombinators

section Runs

variable {σ ε α β : Type} {x : ExceptT ε (StateM σ) α} {f : α → ExceptT ε (StateM σ) β} {s s' : σ}

theorem run_bind_of_ok {a : α} (h : x.run.run s = (.ok a, s')) :
    (x >>= f).run.run s = (f a).run.run s' := by
  rw [ExceptT.run_bind, StateT.run_bind, h]
  rfl

theorem run_bind_of_error {e : ε} (h : x.run.run s = (.error e, s')) :
    (x >>= f).run.run s = (.error e, s') := by
  rw [ExceptT.run_bind, StateT.run_bind, h]
  rfl

theorem run_get_bind (f : σ → ExceptT ε (StateM σ) β) (s : σ) :
    (get >>= f).run.run s = (f s).run.run s := rfl

theorem run_map_of_ok {a : α} (g : α → β) (h : x.run.run s = (.ok a, s')) :
    (g <$> x).run.run s = (.ok (g a), s') := by
  rw [map_eq_pure_bind, run_bind_of_ok h]
  rfl

theorem run_map_of_error {e : ε} (g : α → β) (h : x.run.run s = (.error e, s')) :
    (g <$> x).run.run s = (.error e, s') := by
  rw [map_eq_pure_bind, run_bind_of_error h]

theorem run_map (g : α → β) (x : ExceptT ε (StateM σ) α) (s : σ) :
    (g <$> x).run.run s = ((x.run.run s).1.map g, (x.run.run s).2) := by
  rcases h : x.run.run s with ⟨_ | a, s'⟩
  · exact run_map_of_error g h
  · exact run_map_of_ok g h

theorem run_adapt {ε' : Type} (x : ExceptT ε (StateM σ) α) (g : ε → ε') (s : σ) :
    (x.adapt g).run.run s = ((x.run.run s).1.mapError g, (x.run.run s).2) := rfl

theorem run_tryCatch_of_ok {a : α} (handle : ε → ExceptT ε (StateM σ) α)
    (h : x.run.run s = (.ok a, s')) : (tryCatch x handle).run.run s = (.ok a, s') := by
  rw [ExceptT.run_tryCatch, StateT.run_bind, h]
  rfl

theorem run_tryCatch_of_error {e : ε} (handle : ε → ExceptT ε (StateM σ) α)
    (h : x.run.run s = (.error e, s')) :
    (tryCatch x handle).run.run s = (handle e).run.run s' := by
  rw [ExceptT.run_tryCatch, StateT.run_bind, h]
  rfl

end Runs

/-! ### Registering -/

section Registering

variable {φ : Type}

theorem run_register (d : Diagnostic) (ds : Pending) :
    (register d : Reporting φ Unit).run.run ds = (.ok (), ds ++ [d]) := rfl

/-- Diagnostics that are registered one after another stand behind the pending ones, in order. -/
theorem run_forM_register (new : List Diagnostic) (ds : Pending) :
    (new.forM register : Reporting φ Unit).run.run ds = (.ok (), ds ++ new) := by
  induction new generalizing ds with
  | nil =>
    rw [List.append_nil]
    rfl
  | cons d new ih =>
    have hrun : ((d :: new).forM register : Reporting φ Unit) =
        register d >>= fun _ => new.forM register := rfl
    rw [hrun, run_bind_of_ok (run_register d ds), ih, List.append_assoc, List.singleton_append]

end Registering

/-! ### What is shown -/

theorem Notice.text_ne_nil (n : Notice) : n.text ≠ [] :=
  List.append_ne_nil_of_right_ne_nil _ (List.cons_ne_nil _ _)

theorem Cause.name_ne_nil (c : Cause) : c.name ≠ [] := by
  cases c <;> exact List.cons_ne_nil _ _

/-- Every diagnostic shows something. -/
theorem Diagnostic.shown_ne_nil (d : Diagnostic) : d.shown ≠ [] := by
  have hw : d.written ≠ [] := by
    unfold Diagnostic.written
    simp [d.cause.name_ne_nil]
  unfold Diagnostic.shown
  cases d.cause with
  | lexer | scanner => exact hw
  | unlexed | unknownToken => exact Notice.text_ne_nil _

theorem shownText_eq_nil_iff {ds : List Diagnostic} : shownText ds = [] ↔ ds = [] := by
  refine ⟨fun h => ?_, fun h => h ▸ rfl⟩
  cases ds with
  | nil => rfl
  | cons d ds =>
    have hd := d.shown_ne_nil
    unfold shownText maxShown at h
    rw [List.take_succ_cons, List.map_cons] at h
    cases hrest : (ds.take 9).map Diagnostic.shown with
    | nil =>
      rw [hrest, List.intercalate_singleton] at h
      exact absurd h hd
    | cons e rest =>
      rw [hrest, List.intercalate_cons_cons] at h
      exact absurd (List.append_eq_nil_iff.mp (List.append_eq_nil_iff.mp h).1).1 hd

/-- What is said of the diagnostics that are not shown, after the ten that are. -/
theorem omission_eq (omitted : Nat) : omission omitted =
    "\n\nShowing 10 errors, omitting ".toList ++ Text.decimal omitted ++
      if 1 < omitted then " errors...".toList else " error...".toList := by
  have hfront : "\n\nShowing ".toList ++ Text.decimal maxShown ++ " errors, omitting ".toList =
      "\n\nShowing 10 errors, omitting ".toList := by decide
  have hmany : " error".toList ++ ['s'] ++ "...".toList = " errors...".toList := by decide
  have hone : " error".toList ++ [] ++ "...".toList = " error...".toList := by decide
  unfold omission
  rw [hfront, ← hmany, ← hone]
  split
  · simp only [List.append_assoc]
  · simp only [List.append_assoc]

/-- The text of a report: the first ten diagnostics with an empty line between them, and behind
another empty line how many are left out. -/
theorem message_reported {φ : Type} (faultMessage : φ → Text) (stage : Stage)
    (ds : List Diagnostic) : Failure.message faultMessage (.reported stage ds) =
      List.intercalate "\n\n".toList ((ds.take 10).map Diagnostic.shown) ++
        if 10 < ds.length then
          "\n\nShowing 10 errors, omitting ".toList ++ Text.decimal (ds.length - 10) ++
            if 1 < ds.length - 10 then " errors...".toList else " error...".toList
        else [] := by
  rw [Failure.message, reportText, shownText, omission_eq]
  rfl

/-! ### Reporting -/

theorem sorted_eq_nil_iff {ds : List Diagnostic} : sorted ds = [] ↔ ds = [] := by
  rw [← List.length_eq_zero_iff, sorted, List.length_mergeSort, List.length_eq_zero_iff]

/-- **Reporting** passes if nothing is pending; otherwise it fails with the pending diagnostics in
the order of the program, and leaves none. -/
theorem run_communicate {φ : Type} (stage : Stage) (ds : Pending) :
    (communicate stage : Reporting φ Unit).run.run ds =
      if ds = [] then (.ok (), []) else (.error (.reported stage (sorted ds)), []) := by
  have hsort : (sortPending : Reporting φ Unit).run.run ds = (.ok (), sorted ds) := rfl
  rw [communicate, run_bind_of_ok hsort, run_get_bind]
  by_cases h : ds = []
  · have hs : sorted ds = [] := sorted_eq_nil_iff.mpr h
    rw [if_pos h, hs]
    rfl
  · have hs : shownText (sorted ds) ≠ [] := fun hs =>
      h (sorted_eq_nil_iff.mp (shownText_eq_nil_iff.mp hs))
    rw [if_neg h, List.isEmpty_eq_false_iff.mpr hs]
    rfl

end LexerCombinators
