import LexerCombinators.Pattern.Written
import LexerCombinators.Proofs.Pattern.CharClass
import LexerCombinators.Proofs.Text.Quoted

/-!
# A written lexer shows the lexer

The written form of a lexer is a name and an argument in parentheses (`exists_written_eq_call`).
The name gives the constructor of the lexer (`sameKind_of_written_append`), and the argument is made
of quoted texts and written lexers, so by induction the written form is self-delimiting
(`selfDelimiting_written`). Lexers with one written form are one lexer then (`written_determines`),
and what is said about a stall names the repetition that stalled (`Stall.message_injective`).
-/

namespace LexerCombinators

namespace Pattern

variable {p q : Lexer} {ps qs : List Lexer} {s t : Text}

/-! ### Names -/

theorem call_append (name argument s : Text) :
    call name argument ++ s = name ++ '(' :: (argument ++ ')' :: s) := by
  rw [call, List.append_assoc, List.cons_append, List.append_assoc, List.singleton_append]

/-- Behind the same name, a self-delimiting argument is all there is to see. -/
theorem eq_of_call_append {α : Type} {f : α → Text} {a b : α} {name : Text}
    (ha : SelfDelimiting f a) (h : call name (f a) ++ s = call name (f b) ++ t) :
    a = b ∧ s = t := by
  rw [call_append, call_append] at h
  obtain ⟨hab, hst⟩ := ha b _ _ (List.tail_eq_of_cons_eq (List.append_cancel_left h))
  exact ⟨hab, List.tail_eq_of_cons_eq hst⟩

/-- The kind of lexer that a name before parentheses stands for. -/
def kindNamed (name : Text) : Text := if name = "Char".toList then "Range".toList else name

theorem exists_written_eq_call (p : Lexer) : ∃ name argument, p.written = call name argument ∧
    name.all Char.isAlpha = true ∧ kindNamed name = p.formName := by
  cases p with
  | range lo hi =>
    unfold written
    split_ifs
    · exact ⟨_, _, rfl, rfl, rfl⟩
    · exact ⟨_, _, rfl, rfl, rfl⟩
  | foreign a => cases a
  | wrapped w _ => cases w
  | _ => exact ⟨_, _, rfl, rfl, rfl⟩

/-- A closing bracket begins no written form. -/
theorem written_append_ne (p : Lexer) (s t : Text) : p.written ++ s ≠ ']' :: t := by
  obtain ⟨name, argument, hp, hname, -⟩ := exists_written_eq_call p
  rw [hp, call_append]
  cases name with
  | nil => exact fun h => absurd (List.head_eq_of_cons_eq h) (by decide)
  | cons c name =>
    intro h
    have hc := List.all_eq_true.mp hname c List.mem_cons_self
    rw [List.head_eq_of_cons_eq h] at hc
    exact absurd hc (by decide)

/-- Lexers made by the same constructor. -/
inductive SameKind : Lexer → Lexer → Prop
  | range (lo hi lo' hi' : Char) : SameKind (range lo hi) (range lo' hi')
  | literal (l m : Text) : SameKind (literal l) (literal m)
  | nothing : SameKind nothing nothing
  | choice (ps qs : List Lexer) : SameKind (choice ps) (choice qs)
  | sequence (ps qs : List Lexer) : SameKind (sequence ps) (sequence qs)
  | oneOrMore (p q : Lexer) : SameKind (oneOrMore p) (oneOrMore q)
  | fullMatch (p q : Lexer) : SameKind (fullMatch p) (fullMatch q)
  | followedBy (p q : Lexer) : SameKind (followedBy p) (followedBy q)
  | notFollowedBy (p q : Lexer) : SameKind (notFollowedBy p) (notFollowedBy q)

/-- The names of the kinds, in the order of their constructors. -/
def kindNames : List Text :=
  ["Range".toList, "Literal".toList, "Nothing".toList, "Choice".toList, "Sequence".toList,
    "Some".toList, "FullMatch".toList, "AssertAfter".toList, "AssertNotAfter".toList]

theorem idxOf_formName (p : Lexer) : kindNames.idxOf p.formName = p.ctorIdx := by
  cases p with
  | foreign a => cases a
  | wrapped w _ => cases w
  | _ => rfl

theorem sameKind_of_formName_eq (h : p.formName = q.formName) : SameKind p q := by
  -- numbers are told apart much faster than names
  have hidx : p.ctorIdx = q.ctorIdx := by rw [← idxOf_formName, h, idxOf_formName]
  clear h
  cases p with
  | foreign a => cases a
  | wrapped w _ => cases w
  | _ =>
    cases q with
    | foreign a => cases a
    | wrapped w _ => cases w
    | _ => first | constructor | cases hidx

/-- The name in front gives the constructor. -/
theorem sameKind_of_written_append (h : p.written ++ s = q.written ++ t) : SameKind p q := by
  obtain ⟨n, a, hp, hn, hkind⟩ := exists_written_eq_call p
  obtain ⟨m, b, hq, hm, hkind'⟩ := exists_written_eq_call q
  have hname {l x : Text} (hl : l.all Char.isAlpha = true) :
      (l ++ '(' :: x).takeWhile Char.isAlpha = l :=
    takeWhile_append_of_stop (List.all_eq_true.mp hl) fun c hc => by cases hc; rfl
  rw [hp, hq, call_append, call_append] at h
  have hnm : n = m := by rw [← hname hn, h, hname hm]
  exact sameKind_of_formName_eq (by rw [← hkind, ← hkind', hnm])

/-! ### Lists -/

theorem intercalate_writtenAll_cons (p : Lexer) (ps : List Lexer) :
    List.intercalate ", ".toList (writtenAll (p :: ps)) =
      p.written ++ ps.flatMap (", ".toList ++ written ·) := by
  induction ps generalizing p with
  | nil => exact (List.intercalate_singleton ..).trans (List.append_nil _).symm
  | cons q ps ih =>
    rw [writtenAll, writtenAll, List.intercalate_cons_cons, ← writtenAll, ih q,
      List.flatMap_cons, List.append_assoc, List.append_assoc]

theorem bracketed_cons_append (p : Lexer) (ps : List Lexer) (s : Text) :
    bracketed (writtenAll (p :: ps)) ++ s =
      '[' :: (p.written ++ (ps.flatMap (", ".toList ++ written ·) ++ ']' :: s)) := by
  rw [bracketed, intercalate_writtenAll_cons, List.cons_append, List.append_assoc,
    List.append_assoc, List.singleton_append]

/-- A list in brackets shows its entries and where it ends, if each entry does. -/
theorem selfDelimiting_bracketed (hps : ∀ p ∈ ps, SelfDelimiting written p) :
    SelfDelimiting (fun ps : List Lexer => bracketed (writtenAll ps)) ps := by
  intro qs s t h
  cases ps with
  | nil =>
    cases qs with
    | nil => exact ⟨rfl, List.append_cancel_left h⟩
    | cons q qs =>
      rw [bracketed_cons_append] at h
      exact absurd (List.tail_eq_of_cons_eq h).symm (written_append_ne q _ s)
  | cons p ps =>
    rw [bracketed_cons_append] at h
    cases qs with
    | nil => exact absurd (List.tail_eq_of_cons_eq h) (written_append_ne p _ t)
    | cons q qs =>
      rw [bracketed_cons_append] at h
      obtain ⟨rfl, hrest⟩ := hps p List.mem_cons_self q _ _ (List.tail_eq_of_cons_eq h)
      -- the entries behind the first begin with a comma, so the bracket begins none of them
      have hcomma (r : Lexer) (x y : Text) : ", ".toList ++ written r ++ x ≠ ']' :: y :=
        fun h' => by cases h'
      have hps' (r) (hr : r ∈ ps) : SelfDelimiting (", ".toList ++ written ·) r :=
        (hps r (List.mem_cons_of_mem _ hr)).append_left _
      obtain ⟨rfl, hst⟩ := flatMap_append_inj hcomma hps' hrest
      exact ⟨rfl, hst⟩

/-! ### Lexers -/

/-- A constructor whose written form is a call shows what it is applied to. -/
theorem selfDelimiting_written_of_call {α : Type} {f : α → Text} {make : α → Lexer} {name : Text}
    {a : α} (hmake : ∀ a, written (make a) = call name (f a))
    (hkind : ∀ q, SameKind (make a) q → ∃ b, q = make b) (ha : SelfDelimiting f a) :
    SelfDelimiting written (make a) := by
  intro q s t h
  obtain ⟨b, rfl⟩ := hkind q (sameKind_of_written_append h)
  rw [hmake, hmake] at h
  obtain ⟨hab, hst⟩ := eq_of_call_append ha h
  exact ⟨congrArg make hab, hst⟩

theorem selfDelimiting_bounds (r : Char × Char) : SelfDelimiting (fun r : Char × Char =>
    Text.quoted [r.1] ++ ", ".toList ++ Text.quoted [r.2]) r := by
  intro r' s t h
  simp only [List.append_assoc] at h
  obtain ⟨hlo, hrest⟩ := Text.selfDelimiting_quoted [r.1] _ _ _ h
  obtain ⟨hhi, hst⟩ := Text.selfDelimiting_quoted [r.2] _ _ _ (List.append_cancel_left hrest)
  exact ⟨Prod.ext (List.head_eq_of_cons_eq hlo) (List.head_eq_of_cons_eq hhi), hst⟩

/-- A range of one character has a name of its own, and any other range shows both bounds. -/
theorem selfDelimiting_written_range (lo hi : Char) :
    SelfDelimiting written (range lo hi : Lexer) := by
  intro q s t h
  cases sameKind_of_written_append h with
  | range _ _ lo' hi' =>
    unfold written at h
    split_ifs at h with heq heq' heq'
    · obtain ⟨hlo, hst⟩ := eq_of_call_append (Text.selfDelimiting_quoted [lo]) h
      rw [← heq, ← heq', List.head_eq_of_cons_eq hlo]
      exact ⟨rfl, hst⟩
    · exact absurd (List.head_eq_of_cons_eq h) (by decide)
    · exact absurd (List.head_eq_of_cons_eq h) (by decide)
    · obtain ⟨hr, hst⟩ := eq_of_call_append (b := (lo', hi')) (selfDelimiting_bounds (lo, hi)) h
      cases hr
      exact ⟨rfl, hst⟩

mutual

/-- **A written lexer shows the lexer and where it ends.** -/
theorem selfDelimiting_written : ∀ p : Lexer, SelfDelimiting written p
  | range lo hi => selfDelimiting_written_range lo hi
  | literal l => selfDelimiting_written_of_call (fun _ => rfl)
      (by rintro _ ⟨⟩; exact ⟨_, rfl⟩) (Text.selfDelimiting_quoted l)
  | nothing => fun q s t h => by
    cases sameKind_of_written_append h with
    | nothing => exact ⟨rfl, List.append_cancel_left h⟩
  | choice ps => selfDelimiting_written_of_call (fun _ => rfl)
      (by rintro _ ⟨⟩; exact ⟨_, rfl⟩) (selfDelimiting_bracketed (selfDelimiting_each ps))
  | sequence ps => selfDelimiting_written_of_call (fun _ => rfl)
      (by rintro _ ⟨⟩; exact ⟨_, rfl⟩) (selfDelimiting_bracketed (selfDelimiting_each ps))
  | oneOrMore p => selfDelimiting_written_of_call (fun _ => rfl)
      (by rintro _ ⟨⟩; exact ⟨_, rfl⟩) (selfDelimiting_written p)
  | fullMatch p => selfDelimiting_written_of_call (fun _ => rfl)
      (by rintro _ ⟨⟩; exact ⟨_, rfl⟩) (selfDelimiting_written p)
  | followedBy p => selfDelimiting_written_of_call (fun _ => rfl)
      (by rintro _ ⟨⟩; exact ⟨_, rfl⟩) (selfDelimiting_written p)
  | notFollowedBy p => selfDelimiting_written_of_call (fun _ => rfl)
      (by rintro _ ⟨⟩; exact ⟨_, rfl⟩) (selfDelimiting_written p)
  | foreign a => by cases a
  | wrapped w _ => by cases w

theorem selfDelimiting_each : ∀ ps : List Lexer, ∀ p ∈ ps, SelfDelimiting written p
  | [] => fun p hp => by cases hp
  | q :: qs => fun p hp => by
    obtain hpq | hp := List.mem_cons.mp hp
    · rw [hpq]
      exact selfDelimiting_written q
    · exact selfDelimiting_each qs p hp

end

/-- **The written form determines a lexer**, and with it the outcome on every stream. -/
theorem written_determines (p q : Lexer) :
    (p.written = q.written ↔ p = q) ∧
      (p.written = q.written → ∀ s, Lexer.run p s = Lexer.run q s) := by
  have hinj : p.written = q.written → p = q := fun h =>
    (selfDelimiting_written p q [] [] (congrArg (· ++ []) h)).1
  refine ⟨⟨hinj, fun h => by rw [h]⟩, fun h s => ?_⟩
  rw [hinj h]

-- a literal that looks like the end of a call does not end it
example : (choice [char 'a', literal "')".toList] : Lexer).written =
    "Choice([Char('a'), Literal(\"')\")])".toList := by decide +kernel

end Pattern

/-- What is said about a stall tells which repetition stalled. -/
theorem Stall.message_injective :
    Function.Injective (Stall.message : Stall Empty Empty → Text) := by
  intro e e' h
  unfold Stall.message at h
  rw [List.append_assoc, List.append_assoc] at h
  have hbody := (Pattern.selfDelimiting_written e.body e'.body _ _ h).1
  cases e
  cases e'
  exact congrArg Stall.mk hbody

end LexerCombinators
