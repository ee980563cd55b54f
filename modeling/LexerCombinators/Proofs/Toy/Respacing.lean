import Mathlib.Data.List.Forall2
import Mathlib.Data.List.GetD
import LexerCombinators.Proofs.Toy.ToolRun

/-!
# White space between tokens

How much white space stands between two tokens does not matter, and whether any does matters only
where it was: a program may be written again with other gaps, as long as no gap is closed that
separated two tokens (`Gaps`), and it has the same tokens (`respaced_program`). The induction is on
the munch of the program. What follows a lexeme in the new text is what followed it before, or white
space (`head?_spaced`), and in front of white space every lexeme is one (`Lexeme.before_blank`).
-/

namespace LexerCombinators.Lexicon

/-- The lexemes that are not white space. -/
def visible (ls : List Text) : List Text := ls.filter fun l => !isWhitespaceIn whitespace l

/-- The texts `ts` with the gaps `w 0`, `w 1` and so on in front of them, between them and behind
them. -/
def spaced : (Nat → Text) → List Text → Text
  | w, [] => w 0
  | w, t :: ts => w 0 ++ (t ++ spaced (fun i => w (i + 1)) ts)

/-- White space stands behind the first `i` visible lexemes, and in front of the next one. -/
def Separated (ls : List Text) (i : Nat) : Prop :=
  ∃ before l after, ls = before ++ l :: after ∧ isWhitespaceIn whitespace l = true ∧
    (visible before).length = i

theorem separated_iff {ls : List Text} {i : Nat} : Separated ls i ↔
    ∃ k < ls.length, isWhitespaceIn whitespace (ls.getD k []) = true ∧
      (visible (ls.take k)).length = i := by
  constructor
  · rintro ⟨before, l, after, rfl, hl, hi⟩
    exact ⟨before.length, by simp, by simpa using hl, by simpa using hi⟩
  · rintro ⟨k, hk, hl, hi⟩
    refine ⟨ls.take k, ls.getD k [], ls.drop (k + 1), ?_, hl, hi⟩
    rw [List.getD_eq_getElem _ _ hk, List.getElem_cons_drop, List.take_append_drop]

instance (ls : List Text) (i : Nat) : Decidable (Separated ls i) :=
  decidable_of_iff _ separated_iff.symm

/-- Gaps for the visible lexemes of `ls`: white space, and some of it wherever some separated two of
them. -/
structure Gaps (ls : List Text) (w : Nat → Text) : Prop where
  blank : ∀ i ≤ (visible ls).length, ∀ c ∈ w i, c ∈ whitespace
  kept : ∀ i, 0 < i → i < (visible ls).length → Separated ls i → w i ≠ []

/-- Two programs have the same tokens, spans apart, or neither has any. -/
inductive SameTokens (s s' : Text) : Prop
  | tokens {ts ts' : List Token} : (tokenize s).run.run [] = (.ok ts, []) →
      (tokenize s').run.run [] = (.ok ts', []) →
      List.Forall₂ (fun t t' => t.same t' = true) ts ts' → SameTokens s s'
  | reports {ds ds' : List Diagnostic} :
      (tokenize s).run.run [] = (.error (.reported .scanner ds), []) →
      (tokenize s').run.run [] = (.error (.reported .scanner ds'), []) → SameTokens s s'

variable {s s' g l : Text} {ls ls' : List Text} {w : Nat → Text}

/-! ### Lexemes in front of white space -/

theorem Lexeme.not_mem_whitespace {next : Option Char} (h : Lexeme l next)
    (hl : isWhitespaceIn whitespace l = false) : ∀ c ∈ l, c ∉ whitespace := by
  rcases h.sort with ha | hw | ho
  · intro c hc hcw
    have := ha c hc
    rw [not_isAlphanum_of_mem_whitespace c hcw] at this
    cases this
  · rw [all_whitespace_iff.mpr hw] at hl
    cases hl
  · exact fun c hc => not_mem_whitespace_of_mem_operatorCharacters c (ho c hc)

/-- A visible lexeme is one in front of white space and at the end of a program. -/
theorem Lexeme.before_blank {next next' : Option Char} (h : Lexeme l next)
    (hl : isWhitespaceIn whitespace l = false) (hn : ∀ d ∈ next', d ∈ whitespace) :
    Lexeme l next' := by
  have halnum : ∀ d ∈ next', d.isAlphanum = false := fun d hd =>
    not_isAlphanum_of_mem_whitespace d (hn d hd)
  cases h with
  | name hc hd => exact .name hc hd halnum
  | number hc h0 hd => exact .number hc h0 hd fun d hd => isDigit_eq_false (halnum d hd)
  | zero => exact .zero halnum
  | double hp => exact .double hp
  | single hc =>
    refine .single hc fun d hd hp => ?_
    have hop := mem_operatorCharacters_of_mem_pair _ hp d (by simp)
    exact not_mem_whitespace_of_mem_operatorCharacters d hop (hn d hd)
  | spaces _ hw =>
    rw [all_whitespace_iff.mpr hw] at hl
    cases hl

/-! ### Visible lexemes and gaps -/

theorem visible_cons_of_blank (hl : isWhitespaceIn whitespace l = true) :
    visible (l :: ls) = visible ls := by
  simp [visible, hl]

theorem visible_cons (hl : isWhitespaceIn whitespace l = false) :
    visible (l :: ls) = l :: visible ls := by
  simp [visible, hl]

theorem Separated.cons_of_blank {i : Nat} (h : Separated ls i)
    (hl : isWhitespaceIn whitespace l = true) : Separated (l :: ls) i := by
  obtain ⟨before, k, after, rfl, hk, rfl⟩ := h
  exact ⟨l :: before, k, after, rfl, hk, by rw [visible_cons_of_blank hl]⟩

theorem Separated.cons {i : Nat} (h : Separated ls i)
    (hl : isWhitespaceIn whitespace l = false) : Separated (l :: ls) (i + 1) := by
  obtain ⟨before, k, after, rfl, hk, rfl⟩ := h
  exact ⟨l :: before, k, after, rfl, hk, by rw [visible_cons hl, List.length_cons]⟩

theorem Gaps.of_cons_blank (h : Gaps (l :: ls) w) (hl : isWhitespaceIn whitespace l = true) :
    Gaps ls w := by
  obtain ⟨hblank, hkept⟩ := h
  rw [visible_cons_of_blank hl] at hblank hkept
  exact ⟨hblank, fun i h0 hi hsep => hkept i h0 hi (hsep.cons_of_blank hl)⟩

theorem Gaps.of_cons (h : Gaps (l :: ls) w) (hl : isWhitespaceIn whitespace l = false) :
    Gaps ls fun i => w (i + 1) := by
  obtain ⟨hblank, hkept⟩ := h
  rw [visible_cons hl, List.length_cons] at hblank hkept
  exact ⟨fun i hi => hblank (i + 1) (by omega),
    fun i _ hi hsep => hkept (i + 1) (by omega) (by omega) (hsep.cons hl)⟩

/-- White space in front of a text that does not begin with any adds nothing visible. -/
theorem Munch.blank_append {r : Text} (h : Munch s ls r) (hg : ∀ c ∈ g, c ∈ whitespace)
    (hs : ∀ c ∈ s.head?, c ∉ whitespace) :
    ∃ ls', Munch (g ++ s) ls' r ∧ visible ls' = visible ls := by
  by_cases hnil : g = []
  · subst hnil
    exact ⟨ls, h, rfl⟩
  · have hblank : g.all whitespace.contains := all_whitespace_iff.mpr hg
    exact ⟨g :: ls, .lexeme (.spaces hnil hg hs) h, visible_cons_of_blank hblank⟩

/-- What the visible lexemes with their gaps begin with: the same as before, or white space. A gap
that was there in front of a visible lexeme must not be closed. -/
theorem head?_spaced (h : Munch s ls []) (hblank : ∀ c ∈ w 0, c ∈ whitespace)
    (hkept : visible ls ≠ [] → Separated ls 0 → w 0 ≠ []) :
    (spaced w (visible ls)).head? = s.head? ∨
      ∀ d ∈ (spaced w (visible ls)).head?, d ∈ whitespace := by
  cases hv : visible ls with
  | nil => exact Or.inr fun d hd => hblank d (List.mem_of_mem_head? hd)
  | cons t ts =>
    rw [spaced]
    by_cases h0 : w 0 = []
    · left
      cases ls with
      | nil => cases hv
      | cons l ls =>
        have hne : l ≠ [] := by
          obtain ⟨next, hl⟩ := h.isLexeme l (by simp)
          exact hl.ne_nil
        by_cases hl : isWhitespaceIn whitespace l = true
        · exact absurd h0 (hkept (by rw [hv]; simp) ⟨[], l, ls, rfl, hl, rfl⟩)
        · rw [visible_cons (by simpa using hl)] at hv
          obtain ⟨rfl, -⟩ := List.cons.inj hv
          obtain ⟨c, l, rfl⟩ := List.exists_cons_of_ne_nil hne
          rw [← h.append, h0]
          rfl
    · right
      obtain ⟨c, g, hg⟩ := List.exists_cons_of_ne_nil h0
      rw [hg]
      intro d hd
      cases hd
      exact hblank c (by rw [hg]; simp)

/-- **Other gaps**, the same visible lexemes. -/
theorem Munch.respaced {r : Text} (h : Munch s ls r) (hr : r = []) (hw : Gaps ls w) :
    ∃ ls', Munch (spaced w (visible ls)) ls' [] ∧ visible ls' = visible ls := by
  induction h generalizing w with
  | done =>
    obtain ⟨ls', hm, hv⟩ := Munch.done.blank_append (hw.blank 0 (Nat.zero_le _)) (by simp)
    rw [List.append_nil] at hm
    exact ⟨ls', hm, hv⟩
  | stuck => cases hr
  | @lexeme l s r ls hl hm ih =>
    subst hr
    by_cases hspace : isWhitespaceIn whitespace l = true
    · rw [visible_cons_of_blank hspace]
      exact ih rfl (hw.of_cons_blank hspace)
    · have hvis : isWhitespaceIn whitespace l = false := by simpa using hspace
      have hw' := hw.of_cons hvis
      obtain ⟨ls', hm', hv'⟩ := ih rfl hw'
      rw [visible_cons hvis]
      -- the lexeme itself, in front of what follows it now
      have hlex : Lexeme l (spaced (fun i => w (i + 1)) (visible ls)).head? := by
        have hkept : visible ls ≠ [] → Separated ls 0 → w 1 ≠ [] := fun hne hsep => by
          refine hw.kept 1 Nat.one_pos ?_ (hsep.cons hvis)
          rw [visible_cons hvis, List.length_cons]
          have := List.length_pos_iff.mpr hne
          omega
        have hblank := hw'.blank 0 (Nat.zero_le _)
        rcases head?_spaced (w := fun i => w (i + 1)) hm hblank hkept with hhead | hhead
        · rwa [hhead]
        · exact hl.before_blank hvis hhead
      obtain ⟨c, l, rfl⟩ := List.exists_cons_of_ne_nil hl.ne_nil
      have hc := hl.not_mem_whitespace hvis c (by simp)
      obtain ⟨ls'', hm'', hv''⟩ := (Munch.lexeme hlex hm').blank_append
        (hw.blank 0 (Nat.zero_le _)) (forall_head_cons hc)
      refine ⟨ls'', hm'', ?_⟩
      rw [hv'', visible_cons hvis, hv']

/-! ### Tokens -/

/-- Tokens whose kinds are those of their texts are the same if their texts are. -/
theorem forall₂_same {ts ts' : List Token} (htext : ts.map Token.text = ts'.map Token.text)
    (hk : ∀ t ∈ ts, Kind.classify t.text = some t.kind)
    (hk' : ∀ t ∈ ts', Kind.classify t.text = some t.kind) :
    List.Forall₂ (fun t t' => t.same t' = true) ts ts' := by
  induction ts generalizing ts' with
  | nil =>
    rw [List.map_eq_nil_iff.mp htext.symm]
    exact .nil
  | cons t ts ih =>
    cases ts' with
    | nil => cases htext
    | cons t' ts' =>
      obtain ⟨hhead, htail⟩ := List.cons.inj htext
      have hkind : t.kind = t'.kind := by
        have h := hk t (by simp)
        rw [hhead, hk' t' (by simp)] at h
        exact (Option.some.inj h).symm
      refine .cons (by simp [Token.same, hhead, hkind]) (ih htail ?_ ?_)
      · exact fun u hu => hk u (by simp [hu])
      · exact fun u hu => hk' u (by simp [hu])

/-- What tokenizing a munched program makes is settled by its visible lexemes. -/
theorem run_tokenize_of_visible (h : Munch s ls []) :
    (∃ ts, (tokenize s).run.run [] = (.ok ts, []) ∧ ts.map Token.text = visible ls ∧
      (∀ l ∈ visible ls, (Kind.classify l).isSome = true) ∧
      ∀ t ∈ ts, Kind.classify t.text = some t.kind) ∨
    ∃ ds, (tokenize s).run.run [] = (.error (.reported .scanner ds), []) ∧
      ¬ ∀ l ∈ visible ls, (Kind.classify l).isSome = true := by
  have hfst : (words s whitespace ls).map Prod.fst = visible ls := map_fst_words s whitespace ls
  have hrun := run_tokenize_of_munch h
  have hu : unknownTokens s (words s whitespace ls) = [] ↔
      ∀ l ∈ visible ls, (Kind.classify l).isSome = true := by
    rw [unknownTokens_eq_nil_iff, hfst]
  rw [if_pos rfl, run_tokens_lexed] at hrun
  split_ifs at hrun with hnil
  · refine Or.inl ⟨_, hrun, ?_, hu.mp hnil, fun t ht => classify_of_mem_knownTokens ht⟩
    rw [map_text_knownTokens, hfst, List.filter_eq_self.mpr (hu.mp hnil)]
  · exact Or.inr ⟨_, hrun, fun hall => hnil (hu.mpr hall)⟩

theorem sameTokens_of_visible (h : Munch s ls []) (h' : Munch s' ls' [])
    (hv : visible ls' = visible ls) : SameTokens s s' := by
  rcases run_tokenize_of_visible h with ⟨ts, hrun, htext, hall, hk⟩ | ⟨ds, hrun, hall⟩
  · rcases run_tokenize_of_visible h' with ⟨ts', hrun', htext', -, hk'⟩ | ⟨ds', -, hall'⟩
    · exact .tokens hrun hrun' (forall₂_same (by rw [htext, htext', hv]) hk hk')
    · exact absurd (hv ▸ hall) hall'
  · rcases run_tokenize_of_visible h' with ⟨ts', -, -, hall', -⟩ | ⟨ds', hrun', -⟩
    · exact absurd (hv ▸ hall') hall
    · exact .reports hrun hrun'

/-! ### Single blanks -/

theorem spaced_blank {ts : List Text} (hmid : ∀ i, 0 < i → i < ts.length → w i = [' '])
    (hlast : ts ≠ [] → w ts.length = []) : spaced w ts = w 0 ++ List.intercalate [' '] ts := by
  induction ts generalizing w with
  | nil => simp [spaced]
  | cons t ts ih =>
    rw [List.length_cons] at hmid hlast
    rw [spaced, ih (fun i h0 hi => hmid (i + 1) (by omega) (by omega))
      fun _ => hlast (List.cons_ne_nil _ _)]
    cases ts with
    | nil =>
      have h1 : w (0 + 1) = [] := hlast (List.cons_ne_nil _ _)
      simp [h1]
    | cons u ts =>
      have h1 : w (0 + 1) = [' '] := hmid 1 Nat.one_pos (by simp)
      rw [h1, List.intercalate_cons_cons]
      simp

/-- Single blanks between the visible lexemes are gaps for them. -/
theorem gaps_blank (ls : List Text) :
    Gaps ls fun i => if i = 0 ∨ i = (visible ls).length then [] else [' '] := by
  refine ⟨fun i _ c hc => ?_, fun i h0 hi _ => ?_⟩
  · split_ifs at hc
    · cases hc
    · rw [List.mem_singleton.mp hc]
      decide
  · rw [if_neg (by omega)]
    exact List.cons_ne_nil _ _

theorem spaced_gaps_blank (ts : List Text) :
    spaced (fun i => if i = 0 ∨ i = ts.length then [] else [' ']) ts =
      List.intercalate [' '] ts := by
  rw [spaced_blank]
  · simp
  · intro i h0 hi
    rw [if_neg (by omega)]
  · intro _
    rw [if_pos (Or.inr rfl)]

/-- **White space does not matter.** A program written again with other gaps is accepted, has the
same visible lexemes, and has the same tokens or none, as before; and the texts of its tokens, with
single blanks between them, have its tokens. -/
theorem respaced_program (s : Text) (ls : List Text) (w : Nat → Text)
    (h : program.run s = .ok (.success ls [])) (hw : Gaps ls w) :
    (∃ ls', program.run (spaced w (visible ls)) = .ok (.success ls' []) ∧
      visible ls' = visible ls) ∧
    SameTokens s (spaced w (visible ls)) ∧
    ∀ ts, (tokenize s).run.run [] = (.ok ts, []) →
      ∃ ts', (tokenize (List.intercalate [' '] (ts.map Token.text))).run.run [] = (.ok ts', []) ∧
        List.Forall₂ (fun t t' => t.same t' = true) ts ts' := by
  have hm := run_program_eq_success_iff.mp h
  obtain ⟨ls', hm', hv⟩ := hm.respaced rfl hw
  refine ⟨⟨ls', run_program_eq_success_iff.mpr hm', hv⟩, sameTokens_of_visible hm hm' hv, ?_⟩
  intro ts hts
  obtain ⟨ls'', hm'', hv''⟩ := hm.respaced rfl (gaps_blank ls)
  rw [spaced_gaps_blank] at hm''
  have htext : ts.map Token.text = visible ls := by
    rcases run_tokenize_of_visible hm with ⟨ts₀, hrun, htext, -⟩ | ⟨ds, hrun, -⟩
    · rw [hts] at hrun
      cases hrun
      exact htext
    · rw [hts] at hrun
      cases hrun
  rw [htext]
  rcases sameTokens_of_visible hm hm'' hv'' with ⟨hrun, hrun', hsame⟩ | ⟨hrun, -⟩
  · rw [hts] at hrun
    cases hrun
    exact ⟨_, hrun', hsame⟩
  · rw [hts] at hrun
    cases hrun

/-- The law for `"a= =0"`: the gap that keeps two operators apart stays open, a new gap parts the
name from the operator behind it, and zero stays where it is. -/
theorem respaced_program_assign :
    program.run "a= =0".toList =
      .ok (.success ["a".toList, "=".toList, " ".toList, "=".toList, "0".toList] []) ∧
    SameTokens "a= =0".toList "\ta  =\n=0 ".toList := by
  set ls := ["a".toList, "=".toList, " ".toList, "=".toList, "0".toList]
  set w : Nat → Text := fun i => ["\t".toList, "  ".toList, "\n".toList, []].getD i [' ']
  have hname : Lexeme ['a'] (some '=') := .name rfl (by simp) (by simp)
  have hfirst : Lexeme ['='] (some ' ') := .single (by decide) (by simp [operatorPairs])
  have hspace : Lexeme [' '] (some '=') := .spaces (by simp) (by simp [whitespace])
    (by simp [whitespace])
  have hsecond : Lexeme ['='] (some '0') := .single (by decide) (by simp [operatorPairs])
  have hzero : Lexeme ['0'] none := .zero (by simp)
  have h := run_program_eq_success_iff.mpr (Munch.lexeme (s := "= =0".toList) hname
    (Munch.lexeme (s := " =0".toList) hfirst (Munch.lexeme (s := "=0".toList) hspace
      (Munch.lexeme (s := "0".toList) hsecond (Munch.lexeme (s := []) hzero .done)))))
  have hall : ∀ i ≤ 4, (w i).all whitespace.contains = true := by decide
  have hblank : ∀ i ≤ 4, ∀ c ∈ w i, c ∈ whitespace := fun i hi => all_whitespace_iff.mp (hall i hi)
  have hkept : ∀ i < 4, 0 < i → Separated ls i → w i ≠ [] := by decide
  have hw : Gaps ls w := ⟨hblank, fun i h0 hi => hkept i hi h0⟩
  exact ⟨h, (respaced_program _ ls w h hw).2.1⟩

end LexerCombinators.Lexicon
