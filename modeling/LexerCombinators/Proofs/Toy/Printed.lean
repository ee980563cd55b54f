import Mathlib.Data.List.DropRight
import LexerCombinators.Proofs.Scanner.Placement
import LexerCombinators.Proofs.Toy.Respacing

/-!
# Printed tokens are read back

The text of a printed token stands between quotation marks as it is, marks and all, so it is found
from the end of the line: the name of a kind has letters only, and the last character in front of it
is the blank behind the closing mark and the comma. `Token.read` reads a line from there
(`read_written`). Texts of tokens have no line breaks, so the lines of an output are the printed
tokens, and the output shows the tokens of the program (`shownTokens_stdout`). Equal outputs come
from equal tokens, and the texts that an output shows are, with blanks between them, a program with
the same output (`output_determines_tokens`).
-/

namespace LexerCombinators

open Lexicon

/-! ### Reading a token -/

section Ends

variable {f : Char → Bool} {c : Char} {l : Text}

theorem reverse_concat_append (x : Text) (c : Char) (l : Text) :
    (x ++ [c] ++ l).reverse = l.reverse ++ c :: x.reverse := by
  rw [List.reverse_append, List.reverse_concat]

theorem rtakeWhile_append_of_stop (hc : f c = false) (hl : ∀ d ∈ l, f d = true) (x : Text) :
    (x ++ [c] ++ l).rtakeWhile f = l := by
  rw [List.rtakeWhile, reverse_concat_append, takeWhile_append_of_stop, List.reverse_reverse]
  · exact fun d hd => hl d (List.mem_reverse.mp hd)
  · exact fun d hd => by rwa [← Option.some.inj hd]

theorem rdropWhile_append_of_stop (hc : f c = false) (hl : ∀ d ∈ l, f d = true) (x : Text) :
    (x ++ [c] ++ l).rdropWhile f = x ++ [c] := by
  rw [List.rdropWhile, reverse_concat_append, dropWhile_append_of_stop, List.reverse_cons,
    List.reverse_reverse]
  · exact fun d hd => hl d (List.mem_reverse.mp hd)
  · exact fun d hd => by rwa [← Option.some.inj hd]

end Ends

namespace Kind

theorem isAlpha_of_mem_name (k : Kind) : ∀ c ∈ k.name, c.isAlpha = true := by
  refine List.all_eq_true.mp ?_
  cases k <;> rfl

/-- A kind is found by its name. -/
theorem ofName?_name (k : Kind) : ofName? k.name = some k := by
  cases k <;> decide

end Kind

namespace Token

/-- Reads a printed token, from the end: the name of its kind and, up to the opening, its text. -/
def read (line : Text) : Text × Option Kind :=
  let front := line.dropLast
  (((front.rdropWhile Char.isAlpha).rdrop 3).drop 7,
    Kind.ofName? (front.rtakeWhile Char.isAlpha))

/-- **A printed token is read back**, whatever its text is. -/
theorem read_written (t : Token) : read t.written = (t.text, some t.kind) := by
  set x := "Token(\"".toList ++ t.text ++ ['"', ','] with hx
  have hfront : t.written.dropLast = x ++ [' '] ++ t.kind.name := by
    have hline : t.written = x ++ [' '] ++ t.kind.name ++ [')'] := by
      rw [hx, List.append_assoc _ ['"', ','] [' ']]
      rfl
    rw [hline, List.dropLast_concat]
  have hname := t.kind.isAlpha_of_mem_name
  have hspace : Char.isAlpha ' ' = false := rfl
  have htext : (x ++ [' ']).rdrop 3 = "Token(\"".toList ++ t.text := by
    rw [hx, List.append_assoc]
    exact List.rdrop_append_length
  rw [read, hfront, rdropWhile_append_of_stop hspace hname, rtakeWhile_append_of_stop hspace hname,
    htext, Kind.ofName?_name]
  rfl

-- a text that looks like the end of a printed token does not end it
example : read "Token(\"a\", KeywordIf)\", GenericName)".toList =
    ("a\", KeywordIf)".toList, some .genericName) := by decide +kernel

theorem written_eq_iff {t t' : Token} :
    t.written = t'.written ↔ t.text = t'.text ∧ t.kind = t'.kind := by
  constructor
  · intro h
    have hread : (t.text, some t.kind) = (t'.text, some t'.kind) := by
      rw [← read_written, h, read_written]
    exact ⟨congrArg Prod.fst hread, Option.some.inj (congrArg Prod.snd hread)⟩
  · rintro ⟨htext, hkind⟩
    unfold written
    rw [htext, hkind]

end Token

/-! ### Reading an output -/

namespace Text

/-- A line feed ends a line, and what stands behind it begins another. -/
theorem split_append_lineFeed {l : Text} (hl : ∀ c ∈ l, isLineBreak c = false) (s : Text) :
    split (l ++ '\n' :: s) = ⟨l, ['\n']⟩ :: s.split := by
  induction l with
  | nil => exact split_cons_of_break rfl fun h => absurd h (by decide)
  | cons c l ih =>
    rw [List.cons_append, split_cons_of_not_break (hl c List.mem_cons_self),
      ih fun d hd => hl d (List.mem_cons_of_mem _ hd)]
    rfl

theorem lines_flatMap_lineFeed {α : Type} {f : α → Text} {as : List α}
    (h : ∀ a ∈ as, ∀ c ∈ f a, isLineBreak c = false) :
    lines (as.flatMap fun a => f a ++ ['\n']) = as.map f := by
  induction as with
  | nil => rfl
  | cons a as ih =>
    obtain ⟨ha, has⟩ := List.forall_mem_cons.mp h
    rw [List.flatMap_cons, List.append_assoc, List.singleton_append, lines,
      split_append_lineFeed ha, List.map_cons, ← lines, ih has, List.map_cons]

end Text

/-- The tokens that an output shows, each with its text and its kind. -/
def shownTokens (stdout : Text) : List (Text × Option Kind) := stdout.lines.map Token.read

/-- The texts that an output shows. -/
def shownTexts (stdout : Text) : List Text := (shownTokens stdout).map Prod.fst

section Output

variable {ts ts' : List Token}

theorem not_isLineBreak_of_mem_written {t : Token} (h : Kind.classify t.text = some t.kind) :
    ∀ c ∈ t.written, isLineBreak c = false := by
  have htext := (not_isLineBreak_of_classify (l := t.text) (by rw [h]; rfl)).2
  have hopen : ∀ c ∈ "Token(\"".toList, isLineBreak c = false := forall_mem_of_all rfl
  have hclose : ∀ c ∈ "\", ".toList, isLineBreak c = false := forall_mem_of_all rfl
  have hname : ∀ c ∈ t.kind.name, isLineBreak c = false := fun c hc =>
    isLineBreak_eq_false (isAlphanum_of_isAlpha (t.kind.isAlpha_of_mem_name c hc))
  intro c hc
  unfold Token.written at hc
  iterate 4 rw [List.mem_append] at hc
  obtain (((hc | hc) | hc) | hc) | hc := hc
  · exact hopen c hc
  · exact htext c hc
  · exact hclose c hc
  · exact hname c hc
  · rw [List.mem_singleton.mp hc]
    rfl

/-- An output shows the tokens that were printed. -/
theorem shownTokens_stdout (h : ∀ t ∈ ts, Kind.classify t.text = some t.kind) :
    shownTokens (Output.ofTokens ts).stdout = ts.map fun t => (t.text, some t.kind) := by
  have hlines : (Output.ofTokens ts).stdout.lines = ts.map Token.written :=
    Text.lines_flatMap_lineFeed fun t ht => not_isLineBreak_of_mem_written (h t ht)
  rw [shownTokens, hlines, List.map_map]
  exact List.map_congr_left fun t _ => t.read_written

theorem shownTexts_stdout (h : ∀ t ∈ ts, Kind.classify t.text = some t.kind) :
    shownTexts (Output.ofTokens ts).stdout = ts.map Token.text := by
  rw [shownTexts, shownTokens_stdout h, List.map_map]
  rfl

/-- Tokens that agree in text and kind are printed alike. -/
theorem ofTokens_eq_of_same (h : List.Forall₂ (fun t t' => t.same t' = true) ts ts') :
    Output.ofTokens ts = Output.ofTokens ts' := by
  have hwritten : ts.map Token.written = ts'.map Token.written := by
    induction h with
    | nil => rfl
    | cons hsame _ ih =>
      rw [Token.same, Bool.and_eq_true, decide_eq_true_eq, decide_eq_true_eq] at hsame
      rw [List.map_cons, List.map_cons, Token.written_eq_iff.mpr hsame, ih]
  have hflat (us : List Token) : Output.ofTokens us =
      ⟨0, (us.map Token.written).flatMap (· ++ ['\n']), []⟩ := by
    rw [List.flatMap_map]
    rfl
  rw [hflat, hflat, hwritten]

end Output

/-! ### Programs and their outputs -/

/-- On the program `s`, with no diagnostics before it, the tool ends with 0 and the output `o`. -/
def Succeeds (s : Text) (o : Output) : Prop := ((runTool s).run.run []).1 = .ok o ∧ o.code = 0

section Programs

variable {s : Text} {o : Output} {ts : List Token}

/-- The output of a success is that of the tokens of the program. -/
theorem succeeds_iff :
    Succeeds s o ↔ ∃ ts, (tokenize s).run.run [] = (.ok ts, []) ∧ o = .ofTokens ts := by
  constructor
  · rintro ⟨hrun, hcode⟩
    by_cases hs : Clean s
    · obtain ⟨ts, hts, -⟩ := run_tokenize_of_clean hs
      rw [run_runTool_of_ok hts] at hrun
      exact ⟨ts, hts, (Except.ok.inj hrun).symm⟩
    · obtain ⟨ds, hds⟩ := run_tokenize_of_not_clean hs
      rw [run_runTool_of_report hds] at hrun
      rw [← Except.ok.inj hrun] at hcode
      cases hcode
  · rintro ⟨ts, hts, rfl⟩
    exact ⟨congrArg Prod.fst (run_runTool_of_ok hts), rfl⟩

theorem tokensOf_of_run (h : (tokenize s).run.run [] = (.ok ts, [])) : TokensOf s ts := by
  by_cases hs : Clean s
  · obtain ⟨ts', hts', htokens⟩ := run_tokenize_of_clean hs
    rw [h] at hts'
    cases hts'
    exact htokens
  · obtain ⟨ds, hds⟩ := run_tokenize_of_not_clean hs
    rw [h] at hds
    cases hds

/-- The texts of the tokens, with single blanks between them, are a program with these tokens. -/
theorem exists_run_tokenize_intercalate (h : (tokenize s).run.run [] = (.ok ts, [])) :
    ∃ ts', (tokenize (List.intercalate [' '] (ts.map Token.text))).run.run [] = (.ok ts', []) ∧
      List.Forall₂ (fun t t' => t.same t' = true) ts ts' := by
  obtain ⟨ls, hrun, htexts⟩ := (tokensOf_of_run h).texts
  have hmunch := run_program_eq_success_iff.mp hrun
  obtain ⟨ls', hmunch', hvisible⟩ := hmunch.respaced rfl (gaps_blank ls)
  rw [spaced_gaps_blank] at hmunch'
  have htexts' : ts.map Token.text = visible ls := htexts
  rw [htexts']
  cases sameTokens_of_visible hmunch hmunch' hvisible with
  | tokens hts hts' hsame =>
    rw [h] at hts
    cases hts
    exact ⟨_, hts', hsame⟩
  | reports hds _ =>
    rw [h] at hds
    cases hds

end Programs

/-- **The output shows the tokens.** A printed token shows its text and its kind, whatever they are.
Two programs that are tokenized have the same output exactly if their tokens agree in text and kind.
And the texts of the tokens are found in the output; with blanks between them they are a program
that has this output again. -/
theorem output_determines_tokens :
    (∀ t t' : Token, t.written = t'.written ↔ t.text = t'.text ∧ t.kind = t'.kind) ∧
    (∀ s s' o o', Succeeds s o → Succeeds s' o' → ∃ ts ts',
      (tokenize s).run.run [] = (.ok ts, []) ∧ (tokenize s').run.run [] = (.ok ts', []) ∧
      (o.stdout = o'.stdout ↔ List.Forall₂ (fun t t' => t.same t' = true) ts ts')) ∧
    ∀ s o, Succeeds s o → ∃ ts, (tokenize s).run.run [] = (.ok ts, []) ∧
      shownTexts o.stdout = ts.map Token.text ∧
      Succeeds (List.intercalate [' '] (shownTexts o.stdout)) o := by
  refine ⟨fun _ _ => Token.written_eq_iff, fun s s' o o' hs hs' => ?_, fun s o hs => ?_⟩
  · obtain ⟨ts, hts, rfl⟩ := succeeds_iff.mp hs
    obtain ⟨ts', hts', rfl⟩ := succeeds_iff.mp hs'
    have hkinds := (tokensOf_of_run hts).kinds
    have hkinds' := (tokensOf_of_run hts').kinds
    refine ⟨ts, ts', hts, hts', fun h => ?_, fun h => congrArg Output.stdout (ofTokens_eq_of_same h)⟩
    have htexts := congrArg shownTexts h
    rw [shownTexts_stdout hkinds, shownTexts_stdout hkinds'] at htexts
    exact forall₂_same htexts hkinds hkinds'
  · obtain ⟨ts, hts, rfl⟩ := succeeds_iff.mp hs
    have htexts := shownTexts_stdout (tokensOf_of_run hts).kinds
    obtain ⟨ts', hts', hsame⟩ := exists_run_tokenize_intercalate hts
    refine ⟨ts, hts, htexts, ?_⟩
    rw [htexts]
    exact succeeds_iff.mpr ⟨ts', hts', ofTokens_eq_of_same hsame⟩

end LexerCombinators
