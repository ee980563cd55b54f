import Mathlib.Data.List.Forall2
import LexerCombinators.Proofs.Pattern.Lossless
import LexerCombinators.Proofs.Scanner.Runs
import LexerCombinators.Proofs.Source.Positions
import LexerCombinators.Proofs.Toy.Kinds

/-!
# Where tokens stand

Scanning loses nothing and tells where it found what (`scan_tokens_placed`). The offsets of lexemes
are running sums of their lengths, so by the suffix law each lexeme is the piece of the program at
its offset (`eq_append_of_mem_placed`), the pieces follow one another (`pairwise_placed`), and every
character is in one of them (`exists_mem_placed`). What the classifier accepts has no line breaks
(`not_isLineBreak_of_classify`), so a token stands on one line, and its span cuts it out there.
-/

namespace LexerCombinators

/-- The position at which a span begins. -/
def Span.start (s : Span) : Position := ⟨s.startLine, s.startColumn⟩

/-- The token `t` stands at the offsets from `a` up to `b` of the program: that piece of the program
is its text, its kind is that of its text, and its span cuts its text out of one line. -/
structure Token.StandsAt (program : Text) (t : Token) (a b : Nat) : Prop where
  text : t.text = slice program a b
  kind : Kind.classify t.text = some t.kind
  oneLine : 1 ≤ t.span.startLine ∧ t.span.startLine = t.span.endLine
  columns : 0 ≤ t.span.startColumn
  shown : ∃ content, entry? program.lines (t.span.startLine - 1) = some content ∧
    slice content t.span.startColumn t.span.endColumn = t.text

/-- The tokens `ts` stand at the ranges of offsets `rs` of the program, in order, and nothing but
white space stands between them. -/
structure Placement (program whitespace : Text) (ts : List Token) (rs : List (Nat × Nat)) :
    Prop where
  stands : List.Forall₂ (fun t r => t.StandsAt program r.1 r.2) ts rs
  bounds : ∀ r ∈ rs, r.1 < r.2 ∧ r.2 ≤ program.length
  ordered : rs.Pairwise fun r r' => r.2 ≤ r'.1
  grows : ts.Pairwise fun t t' => t.span.start.Before t'.span.start
  between : ∀ i, ∀ c ∈ program[i]?, (∀ r ∈ rs, ¬ (r.1 ≤ i ∧ i < r.2)) → c ∈ whitespace

/-! ### Offsets of lexemes -/

theorem eq_append_of_mem_placed {x : Text} {ls : List Text} {p : Nat × Text}
    (hp : p ∈ placed x.length ls) :
    ∃ y z, x ++ ls.flatten = y ++ p.2 ++ z ∧ p.1 = y.length := by
  induction ls generalizing x with
  | nil => cases hp
  | cons l ls ih =>
    rw [placed, ← List.length_append] at hp
    rcases List.mem_cons.mp hp with rfl | hp
    · exact ⟨x, ls.flatten, by simp, rfl⟩
    · obtain ⟨y, z, hyz, hlen⟩ := ih hp
      exact ⟨y, z, by rw [← hyz]; simp, hlen⟩

theorem le_of_mem_placed {o : Nat} {ls : List Text} {p : Nat × Text} (hp : p ∈ placed o ls) :
    o ≤ p.1 := by
  induction ls generalizing o with
  | nil => cases hp
  | cons l ls ih =>
    rcases List.mem_cons.mp hp with rfl | hp
    · exact Nat.le_refl _
    · have := ih hp
      omega

theorem pairwise_placed (o : Nat) (ls : List Text) :
    (placed o ls).Pairwise fun p q => p.1 + p.2.length ≤ q.1 := by
  induction ls generalizing o with
  | nil => exact .nil
  | cons l ls ih => exact .cons (fun q hq => le_of_mem_placed hq) (ih _)

theorem exists_mem_placed {o i : Nat} {c : Char} {ls : List Text} (hc : c ∈ ls.flatten[i]?) :
    ∃ p ∈ placed o ls, p.1 ≤ o + i ∧ o + i < p.1 + p.2.length ∧ c ∈ p.2 := by
  induction ls generalizing o i with
  | nil => simp at hc
  | cons l ls ih =>
    rw [List.flatten_cons] at hc
    by_cases hi : i < l.length
    · rw [List.getElem?_append_left hi] at hc
      exact ⟨(o, l), List.mem_cons_self, by dsimp only; omega, by dsimp only; omega,
        List.mem_of_getElem? hc⟩
    · rw [List.getElem?_append_right (by omega)] at hc
      obtain ⟨p, hp, hle, hlt, hmem⟩ := ih (o := o + l.length) hc
      exact ⟨p, List.mem_cons_of_mem _ hp, by omega, by omega, hmem⟩

/-! ### Texts of tokens -/

theorem isLineBreak_eq_false {c : Char} (h : c.isAlphanum = true) : isLineBreak c = false := by
  by_contra hb
  have hbreaks : ∀ d ∈ "\n\x0b\x0c\r\x1c\x1d\x1e\u0085\u2028\u2029".toList,
      d.isAlphanum = false := Lexicon.forall_mem_of_all (by decide)
  have hc := hbreaks c (List.contains_iff_mem.mp (Bool.of_not_eq_false hb))
  rw [h] at hc
  cases hc

theorem not_isLineBreak_of_spelling :
    ∀ k : Kind, ∀ s ∈ k.spelling?, s ≠ [] ∧ ∀ c ∈ s, isLineBreak c = false := by
  intro k s hs
  have h : ∀ s ∈ k.spelling?, s ≠ [] ∧ (s.all fun c => decide (isLineBreak c = false)) = true := by
    cases k <;> decide
  exact ⟨(h s hs).1, Lexicon.forall_mem_of_all (h s hs).2⟩

/-- A text of some kind is not empty and has no line breaks. -/
theorem not_isLineBreak_of_classify {l : Text} (h : (Kind.classify l).isSome = true) :
    l ≠ [] ∧ ∀ c ∈ l, isLineBreak c = false := by
  obtain ⟨k, hk⟩ := Option.isSome_iff_exists.mp h
  rcases Kind.classify_eq_some hk with hspell | ⟨-, hnumber⟩ | ⟨-, hname⟩
  · exact not_isLineBreak_of_spelling k l hspell
  · obtain ⟨hne, hdigits⟩ := Bool.and_eq_true_iff.mp hnumber
    refine ⟨by simpa using hne, fun c hc => isLineBreak_eq_false ?_⟩
    exact Lexicon.isAlphanum_of_isDigit (List.all_eq_true.mp hdigits c hc)
  · cases l with
    | nil => cases hname
    | cons c l =>
      obtain ⟨hc, hl⟩ := Bool.and_eq_true_iff.mp hname
      have hall := Lexicon.forall_isAlphanum_name hc (List.all_eq_true.mp hl)
      exact ⟨List.cons_ne_nil _ _, fun d hd => isLineBreak_eq_false (hall d hd)⟩

/-! ### Tokens of lexemes -/

theorem start_ofTable (table : List Int) (a b : Int) :
    (Span.ofTable table a b).start = locate table a := by
  unfold Span.ofTable
  split_ifs <;> rfl

/-- The token of a piece of the program stands where the piece stands. -/
theorem standsAt_of_piece {program y l z : Text} {k : Kind} (hs : program = y ++ l ++ z)
    (hk : Kind.classify l = some k) : Token.StandsAt program
      ⟨l, k, Span.ofTable (lineStarts program) y.length (y.length + l.length)⟩
      y.length (y.length + l.length) := by
  subst hs
  obtain ⟨hne, hb⟩ := not_isLineBreak_of_classify (l := l) (by rw [hk]; rfl)
  obtain ⟨n, column, content, -, hspan, hentry, hslice⟩ := ofTable_of_piece hne hb y z
  refine ⟨?_, hk, ?_, ?_, content, ?_, ?_⟩
  · exact (slice_append y l z).symm
  · rw [hspan]
    exact ⟨by dsimp only; omega, rfl⟩
  · rw [hspan]
    exact Int.natCast_nonneg _
  · rw [hspan]
    simpa using hentry
  · rw [hspan]
    exact hslice

/-- A word of the program with its span, from its offset. -/
def wordAt (program : Text) (p : Nat × Text) : Text × Span :=
  (p.2, Span.ofTable (lineStarts program) p.1 (p.1 + p.2.length))

theorem forall₂_knownTokens {program : Text} {ps : List (Nat × Text)}
    (hpieces : ∀ p ∈ ps, ∃ y z, program = y ++ p.2 ++ z ∧ p.1 = y.length)
    (hkinds : ∀ p ∈ ps, (Kind.classify p.2).isSome = true) :
    List.Forall₂ (fun t r => Token.StandsAt program t r.1 r.2)
      (knownTokens (ps.map (wordAt program))) (ps.map fun p => (p.1, p.1 + p.2.length)) := by
  induction ps with
  | nil => exact .nil
  | cons p ps ih =>
    obtain ⟨⟨y, z, hyz, hy⟩, hpieces⟩ := List.forall_mem_cons.mp hpieces
    obtain ⟨hkind, hkinds⟩ := List.forall_mem_cons.mp hkinds
    obtain ⟨k, hk⟩ := Option.isSome_iff_exists.mp hkind
    have hstands := standsAt_of_piece hyz hk
    have htoken : knownTokens ((p :: ps).map (wordAt program)) =
        ⟨p.2, k, (wordAt program p).2⟩ :: knownTokens (ps.map (wordAt program)) := by
      simp [knownTokens, wordAt, Token.ofLexeme?, hk]
    rw [htoken, List.map_cons]
    refine .cons ?_ (ih hpieces hkinds)
    rw [wordAt, hy]
    exact hstands

/-- Tokens of pieces one behind another have growing positions. -/
theorem pairwise_knownTokens {program : Text} {ps : List (Nat × Text)}
    (hpieces : ∀ p ∈ ps, p.2 ≠ [] ∧ p.1 + p.2.length ≤ program.length)
    (hps : ps.Pairwise fun p q => p.1 + p.2.length ≤ q.1) :
    (knownTokens (ps.map (wordAt program))).Pairwise
      fun t t' => t.span.start.Before t'.span.start := by
  unfold knownTokens
  rw [List.pairwise_filterMap, List.pairwise_map]
  refine hps.imp_of_mem fun {p q} hp hq hpq t ht t' ht' => ?_
  obtain ⟨k, -, rfl⟩ := Option.map_eq_some_iff.mp ht
  obtain ⟨k', -, rfl⟩ := Option.map_eq_some_iff.mp ht'
  obtain ⟨hne, -⟩ := hpieces p hp
  obtain ⟨hne', hlen'⟩ := hpieces q hq
  have hpos := List.length_pos_iff.mpr hne
  have hpos' := List.length_pos_iff.mpr hne'
  dsimp only [wordAt]
  rw [start_ofTable, start_ofTable]
  exact locate_before (by omega) (by omega)

/-- **The tokens of a program** that is cut into lexemes, if all words are tokens, stand in it in
order with nothing but white space between them. -/
theorem exists_placement {program whitespace : Text} {ls : List Text} (hls : ls.flatten = program)
    (hu : unknownTokens program (words program whitespace ls) = []) :
    ∃ rs, Placement program whitespace (knownTokens (words program whitespace ls)) rs := by
  set ps := (placed 0 ls).filter fun p => !isWhitespaceIn whitespace p.2 with hps
  have hwords : words program whitespace ls = ps.map (wordAt program) := rfl
  have hpieces : ∀ p ∈ ps, ∃ y z, program = y ++ p.2 ++ z ∧ p.1 = y.length := by
    intro p hp
    have h := eq_append_of_mem_placed (x := []) (List.mem_of_mem_filter hp)
    rwa [List.nil_append, hls] at h
  have hkinds : ∀ p ∈ ps, (Kind.classify p.2).isSome = true := by
    intro p hp
    refine unknownTokens_eq_nil_iff.mp hu p.2 ?_
    rw [hwords, List.map_map]
    exact List.mem_map.mpr ⟨p, hp, rfl⟩
  have hbounds : ∀ p ∈ ps, p.2 ≠ [] ∧ p.1 + p.2.length ≤ program.length := by
    intro p hp
    obtain ⟨y, z, hyz, hy⟩ := hpieces p hp
    refine ⟨(not_isLineBreak_of_classify (hkinds p hp)).1, ?_⟩
    rw [hyz, hy]
    simp
  have hordered : ps.Pairwise fun p q => p.1 + p.2.length ≤ q.1 :=
    (pairwise_placed 0 ls).sublist List.filter_sublist
  refine ⟨ps.map fun p => (p.1, p.1 + p.2.length), ?_, ?_, ?_, ?_, ?_⟩
  · exact hwords ▸ forall₂_knownTokens hpieces hkinds
  · intro r hr
    obtain ⟨p, hp, rfl⟩ := List.mem_map.mp hr
    obtain ⟨hne, hlen⟩ := hbounds p hp
    have hpos := List.length_pos_iff.mpr hne
    exact ⟨by dsimp only; omega, hlen⟩
  · exact List.pairwise_map.mpr hordered
  · exact hwords ▸ pairwise_knownTokens hbounds hordered
  · -- the lexeme with the character is white space, or it would have been a word
    intro i c hc hout
    obtain ⟨p, hp, hle, hlt, hmem⟩ := exists_mem_placed (o := 0) (hls ▸ hc)
    rw [Nat.zero_add] at hle hlt
    by_cases hw : isWhitespaceIn whitespace p.2 = true
    · exact List.contains_iff_mem.mp (List.all_eq_true.mp hw c hmem)
    · have hpmem : p ∈ ps := List.mem_filter.mpr ⟨hp, by simpa using hw⟩
      exact absurd ⟨hle, hlt⟩ (hout _ (List.mem_map.mpr ⟨p, hpmem, rfl⟩))

/-! ### Scans -/

/-- **Scanning loses nothing**, and every span points at its token: when a scan with an anchored
lexer returns tokens, they stand in the program at ranges of offsets one behind another, on one line
each and cut out there by their spans, at growing positions, with only white space between them. -/
theorem scan_tokens_placed (p : Lexer) (program whitespace : Text) (ts : List Token) (ds : Pending)
    (h : ({ program, lexer := .fullMatch p, whitespace } : Scanner Lexer).scan.run.run [] =
      (.ok ts, ds)) : ∃ rs, Placement program whitespace ts rs := by
  obtain ⟨ls, hattempt, hu, rfl, -⟩ := run_scan_eq_ok_iff.mp h
  have hrun := run_of_attempt_fullMatch hattempt
  have hflat := (Lexer.lossless_run p _ _ hrun).append rfl
  refine exists_placement ?_ hu
  rwa [Result.text, Result.remaining, Result.success, List.append_nil] at hflat

/-- The law for a keyword, a line break of two characters and an operator behind it. -/
theorem scan_tokens_placed_crlf : ∃ ts,
    (Scanner.mk "if\r\n<=".toList (.fullMatch (.sequence [.literal "if".toList,
      .literal "\r\n".toList, .literal "<=".toList])) "\n\r".toList :
        Scanner Lexer).scan.run.run [] = (.ok ts, []) ∧
    ts.map Token.text = ["if".toList, "<=".toList] ∧
    ∃ rs, Placement "if\r\n<=".toList "\n\r".toList ts rs := by
  set ls : List Text := ["if".toList, "\r\n".toList, "<=".toList] with hls
  set ws := words "if\r\n<=".toList "\n\r".toList ls with hws
  have hwords : ws.map Prod.fst = ["if".toList, "<=".toList] := by
    rw [hws, map_fst_words]
    rfl
  have hu : unknownTokens "if\r\n<=".toList ws = [] := by
    rw [unknownTokens_eq_nil_iff, hwords]
    decide
  refine ⟨knownTokens ws, ?hscan, ?_, scan_tokens_placed _ _ _ _ _ ?hscan⟩
  · exact run_scan_eq_ok_iff.mpr ⟨ls, rfl, hu, rfl, rfl⟩
  · rw [map_text_knownTokens, hwords]
    decide

end LexerCombinators
