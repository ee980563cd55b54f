import LexerCombinators.Proofs.Pattern.Evaluation

/-!
# Lexers of one character, and of fixed texts

Many lexers take one character of a class, whatever ranges and choices they are built of:
`IsClass p f` says that `p` takes exactly the characters that satisfy `f`. Ranges are such lexers,
and choices between such lexers are (`IsClass.cons`, `isClass_chars`). Repeated, such a lexer takes
the longest run of characters of its class (`IsClass.takes_zeroOrMore`). A choice between texts of
one length takes the one that stands in front (`takes_literals`).
-/

namespace LexerCombinators

open Lexer

/-! ### Runs of characters -/

section Runs

variable {f : Char → Bool} {l s : Text}

theorem takeWhile_append_of_stop (hl : ∀ c ∈ l, f c = true) (hs : ∀ c ∈ s.head?, f c = false) :
    (l ++ s).takeWhile f = l := by
  rw [List.takeWhile_append_of_pos hl]
  cases s with
  | nil => simp
  | cons c s => rw [List.takeWhile_cons_of_neg (by simpa using hs c rfl), List.append_nil]

theorem dropWhile_append_of_stop (hl : ∀ c ∈ l, f c = true) (hs : ∀ c ∈ s.head?, f c = false) :
    (l ++ s).dropWhile f = s := by
  rw [List.dropWhile_append_of_pos hl]
  cases s with
  | nil => rfl
  | cons c s => rw [List.dropWhile_cons_of_neg (by simpa using hs c rfl)]

/-- Every stream is cut in two by the end of its first run. -/
theorem exists_run (f : Char → Bool) (s : Text) :
    ∃ l t, s = l ++ t ∧ (∀ c ∈ l, f c = true) ∧ ∀ c ∈ t.head?, f c = false := by
  refine ⟨s.takeWhile f, s.dropWhile f, List.takeWhile_append_dropWhile.symm, ?_, ?_⟩
  · exact List.all_eq_true.mp List.all_takeWhile
  · intro c hc
    have h := List.head?_dropWhile_not f s
    rw [Option.mem_def.mp hc] at h
    simpa using h

theorem flatten_map_singleton (s : Text) : (s.map fun c => [c]).flatten = s := by
  rw [← List.flatMap_def, List.flatMap_singleton']

end Runs

/-! ### Classes -/

/-- One character that satisfies `f`. -/
def matchClass (f : Char → Bool) : Text → Result
  | [] => .fail []
  | c :: s => if f c then .success [[c]] s else .fail (c :: s)

/-- A lexer that takes one character that satisfies `f`. -/
def IsClass (p : Lexer) (f : Char → Bool) : Prop := ∀ s, p.run s = .ok (matchClass f s)

theorem isClass_range (lo hi : Char) : IsClass (.range lo hi) fun c => lo ≤ c ∧ c ≤ hi := by
  intro s
  have hrun : Lexer.run (.range lo hi) s = .ok (matchRange lo hi s) := rfl
  rw [hrun]
  cases s with
  | nil => rfl
  | cons c s => simp only [matchRange, matchClass, decide_eq_true_eq]

theorem isClass_char (a : Char) : IsClass (.char a) (· == a) := by
  have h : (fun c : Char => decide (a ≤ c ∧ c ≤ a)) = (· == a) := by
    funext c
    rw [beq_eq_decide]
    exact decide_eq_decide.mpr ⟨fun ⟨h₁, h₂⟩ => Char.le_antisymm h₂ h₁, fun h => by simp [h]⟩
  exact h ▸ isClass_range a a

theorem isClass_nil : IsClass (.choice []) fun _ => false := by
  rintro (_ | ⟨c, s⟩) <;> rfl

namespace IsClass

variable {p : Lexer} {ps : List Lexer} {f g : Char → Bool}

theorem cons (hp : IsClass p f) (hps : IsClass (.choice ps) g) :
    IsClass (.choice (p :: ps)) fun c => f c || g c := by
  intro s
  rw [run_choice_cons, hp s, hps s]
  cases s with
  | nil => rfl
  | cons c s =>
    rw [matchClass, matchClass, matchClass]
    by_cases hf : f c = true
    · simp [hf, bind, Except.bind, pure, Except.pure, Result.success]
    · simp [hf, bind, Except.bind, Result.fail]

theorem congr (h : IsClass p f) (hfg : ∀ c, f c = g c) : IsClass p g := funext hfg ▸ h

/-! ### Repetition -/

/-- The longest run of the class, character by character. -/
theorem repeated (h : IsClass p f) :
    ∀ s, Repeated p.run s ((s.takeWhile f).map fun c => [c]) (s.dropWhile f)
  | [] => .stop (h []) rfl
  | c :: s => by
    have hrun := h (c :: s)
    rw [matchClass] at hrun
    by_cases hf : f c = true
    · rw [if_pos hf] at hrun
      rw [List.takeWhile_cons_of_pos hf, List.dropWhile_cons_of_pos hf]
      exact .more hrun rfl (Nat.lt_succ_self _) (h.repeated s)
    · rw [if_neg hf] at hrun
      rw [List.takeWhile_cons_of_neg hf, List.dropWhile_cons_of_neg hf]
      exact .stop hrun rfl

theorem repeated_append (h : IsClass p f) {l s : Text} (hl : ∀ c ∈ l, f c = true)
    (hs : ∀ c ∈ s.head?, f c = false) : Repeated p.run (l ++ s) (l.map fun c => [c]) s := by
  have hrep := h.repeated (l ++ s)
  rwa [takeWhile_append_of_stop hl hs, dropWhile_append_of_stop hl hs] at hrep

theorem takes (h : IsClass p f) {c : Char} (hc : f c = true) (s : Text) : Takes p [c] s :=
  ⟨[[c]], rfl, by rw [List.singleton_append, h, matchClass, if_pos hc]⟩

theorem fails (h : IsClass p f) {s : Text} (hs : ∀ c ∈ s.head?, f c = false) : Fails p s := by
  cases s with
  | nil => exact h []
  | cons c s =>
    unfold Fails
    rw [h, matchClass, if_neg (by simpa using hs c rfl)]

theorem takes_zeroOrMore (h : IsClass p f) {l s : Text} (hl : ∀ c ∈ l, f c = true)
    (hs : ∀ c ∈ s.head?, f c = false) : Takes (.zeroOrMore p) l s :=
  ⟨_, flatten_map_singleton l, run_zeroOrMore_eq (h.repeated_append hl hs)⟩

theorem takes_oneOrMore (h : IsClass p f) {l s : Text} (hne : l ≠ []) (hl : ∀ c ∈ l, f c = true)
    (hs : ∀ c ∈ s.head?, f c = false) : Takes (.oneOrMore p) l s := by
  refine ⟨_, flatten_map_singleton l, ?_⟩
  rw [run_oneOrMore_eq (h.repeated_append hl hs), if_neg (by simpa using hne)]

theorem fails_oneOrMore (h : IsClass p f) {s : Text} (hs : ∀ c ∈ s.head?, f c = false) :
    Fails (.oneOrMore p) s := by
  have hrep := h.repeated_append (l := []) (fun _ hc => by cases hc) hs
  unfold Fails
  rw [List.nil_append] at hrep
  rw [run_oneOrMore_eq hrep]
  rfl

end IsClass

/-- A choice between single characters takes any of them. -/
theorem isClass_chars (cs : Text) : IsClass (.choice (cs.map .char)) cs.contains := by
  induction cs with
  | nil => exact isClass_nil.congr fun _ => by simp
  | cons c cs ih => exact ((isClass_char c).cons ih).congr fun d => by rw [List.contains_cons]

/-! ### Fixed texts -/

theorem takes_literals {n : Nat} {ts : List Text} (hlen : ∀ t ∈ ts, t.length = n) {l : Text}
    (hl : l ∈ ts) (s : Text) : Takes (.choice (ts.map .literal)) l s := by
  induction ts with
  | nil => cases hl
  | cons t ts ih =>
    have hrun : Lexer.run (.literal t) (l ++ s) = .ok (matchLiteral t (l ++ s)) := rfl
    by_cases ht : t = l
    · subst ht
      refine Takes.choice ⟨[t], by simp, ?_⟩
      rw [hrun, matchLiteral, if_pos (by simp)]
      simp
    · refine Takes.choice_of_fails ?_ (ih (fun u hu => hlen u (by simp [hu])) ?_)
      · unfold Fails
        rw [hrun, matchLiteral, if_neg]
        -- a prefix of the length of `l` is `l`
        intro hp
        have hpre := List.isPrefixOf_iff_prefix.mp hp
        have heq : t.length = l.length := by rw [hlen t (by simp), hlen l hl]
        exact ht ((List.prefix_of_prefix_length_le hpre (List.prefix_append l s)
          (Nat.le_of_eq heq)).eq_of_length heq)
      · exact (List.mem_cons.mp hl).resolve_left fun h => ht h.symm

theorem fails_literals {ts : List Text} {s : Text} (hs : ∀ t ∈ ts, ¬ t <+: s) :
    Fails (.choice (ts.map .literal)) s := by
  induction ts with
  | nil => exact fails_choice_nil s
  | cons t ts ih =>
    have hrun : Lexer.run (.literal t) s = .ok (matchLiteral t s) := rfl
    refine Fails.choice ?_ (ih fun u hu => hs u (by simp [hu]))
    unfold Fails
    rw [hrun, matchLiteral, if_neg fun hp => hs t (by simp) (List.isPrefixOf_iff_prefix.mp hp)]

end LexerCombinators
