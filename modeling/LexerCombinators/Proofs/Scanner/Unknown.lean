import LexerCombinators.Proofs.Scanner.Failures
import LexerCombinators.Proofs.Scanner.Placement
import LexerCombinators.Proofs.Session.Balance
import LexerCombinators.Proofs.Source.Offsets

/-!
# Unknown lexemes

A scan reports everything that was lexed and could not be classified, and all of it at once
(`unknown_tokens_reported`). The lexemes of a program are numbered; the lexeme with number `k`
begins behind the `k` lexemes in front of it (`lexemeOffset`), so what is said about it is settled
by its number (`complaint`), and the diagnostics of a scan are the complaints about the unknown
numbers in order (`unknownTokens_words`). Positions grow with the offset, so these complaints are in
the order of the program before they are sorted (`pairwise_complaints`, `sorted_eq_self`).
-/

namespace LexerCombinators

/-! ### Numbered lexemes -/

/-- A lexeme is unknown if it is of no kind and is not white space. -/
def IsUnknown (whitespace l : Text) : Prop :=
  (∃ c ∈ l, c ∉ whitespace) ∧ Kind.classify l = none

theorem isUnknown_iff {whitespace l : Text} :
    IsUnknown whitespace l ↔ isWhitespaceIn whitespace l = false ∧ (Kind.classify l).isNone := by
  unfold IsUnknown isWhitespaceIn
  simp

instance (whitespace l : Text) : Decidable (IsUnknown whitespace l) :=
  decidable_of_iff _ isUnknown_iff.symm

/-- The offset at which the lexeme with number `k` begins. -/
def lexemeOffset (ls : List Text) (k : Nat) : Nat := (ls.take k).flatten.length

/-- What is said about the lexeme with number `k` of a program. -/
def complaint (program : Text) (ls : List Text) (k : Nat) : Diagnostic where
  program := program
  span := Span.ofOffsets program (lexemeOffset ls k) (lexemeOffset ls (k + 1))
  cause := .unknownToken (ls.getD k [])

/-- The numbers of the unknown lexemes. -/
def unknownNumbers (whitespace : Text) (ls : List Text) : List Nat :=
  (List.range ls.length).filter fun k => IsUnknown whitespace (ls.getD k [])

section Numbers

variable {ls : List Text} {k : Nat}

theorem lexemeOffset_succ (hk : k < ls.length) :
    lexemeOffset ls (k + 1) = lexemeOffset ls k + (ls.getD k []).length := by
  rw [lexemeOffset, lexemeOffset, List.take_add_one, List.getElem?_eq_getElem hk,
    List.getD_eq_getElem _ _ hk, List.flatten_append, List.length_append]
  simp

theorem lexemeOffset_mono (ls : List Text) {i : Nat} (h : k ≤ i) :
    lexemeOffset ls k ≤ lexemeOffset ls i := by
  rw [lexemeOffset, lexemeOffset, ← Nat.add_sub_cancel' h, List.take_add, List.flatten_append,
    List.length_append]
  exact Nat.le_add_right _ _

theorem lexemeOffset_le (ls : List Text) (k : Nat) : lexemeOffset ls k ≤ ls.flatten.length := by
  have h := lexemeOffset_mono ls (Nat.le_max_left k ls.length)
  have hall : lexemeOffset ls (max k ls.length) = ls.flatten.length := by
    rw [lexemeOffset, List.take_of_length_le (Nat.le_max_right _ _)]
  omega

/-- A lexeme is the piece of the program between its offset and the next. -/
theorem slice_lexemeOffset (hk : k < ls.length) :
    slice ls.flatten (lexemeOffset ls k) (lexemeOffset ls (k + 1)) = ls.getD k [] := by
  have hls : ls.flatten =
      (ls.take k).flatten ++ ls.getD k [] ++ (ls.drop (k + 1)).flatten := by
    have hcut := List.take_append_drop k ls
    rw [List.drop_eq_getElem_cons hk] at hcut
    conv_lhs => rw [← hcut, List.flatten_append, List.flatten_cons]
    rw [List.getD_eq_getElem _ _ hk, List.append_assoc]
  rw [lexemeOffset_succ hk, Int.natCast_add]
  conv_lhs => rw [hls]
  exact slice_append _ _ _

/-- Lexemes with their offsets, by their numbers. -/
theorem placed_eq_map (o : Nat) (ls : List Text) : placed o ls =
    (List.range ls.length).map fun k => (o + lexemeOffset ls k, ls.getD k []) := by
  induction ls generalizing o with
  | nil => rfl
  | cons l ls ih =>
    have hnext : ∀ k, lexemeOffset (l :: ls) (k + 1) = l.length + lexemeOffset ls k := by
      intro k
      simp [lexemeOffset]
    rw [placed, ih, List.length_cons, List.range_succ_eq_map, List.map_cons, List.map_map]
    simp [lexemeOffset, Function.comp_def, Nat.add_assoc]

end Numbers

/-- **The diagnostics of a scan** are the complaints about the unknown lexemes, in order. -/
theorem unknownTokens_words (program whitespace : Text) (ls : List Text) :
    unknownTokens program (words program whitespace ls) =
      (unknownNumbers whitespace ls).map (complaint program ls) := by
  have hspan : ∀ k ∈ List.range ls.length,
      Span.ofTable (lineStarts program) (lexemeOffset ls k : Nat)
        ((lexemeOffset ls k : Nat) + (ls.getD k []).length) =
      Span.ofOffsets program (lexemeOffset ls k) (lexemeOffset ls (k + 1)) := by
    intro k hk
    rw [Span.ofOffsets, lexemeOffset_succ (List.mem_range.mp hk), Int.natCast_add]
  have hnumbers : unknownNumbers whitespace ls = (List.range ls.length).filter fun k =>
      (Kind.classify (ls.getD k [])).isNone && !isWhitespaceIn whitespace (ls.getD k []) := by
    refine List.filter_congr fun k _ => ?_
    rw [Bool.eq_iff_iff]
    simp [isUnknown_iff, and_comm]
  rw [unknownTokens, words, placed_eq_map, hnumbers]
  simp only [List.filter_map, List.map_map, List.filter_filter, Nat.zero_add]
  refine List.map_congr_left fun k hk => ?_
  simp only [Function.comp_apply, complaint]
  rw [hspan k (List.mem_of_mem_filter hk)]

/-! ### Complaints in order -/

section Complaints

variable {program whitespace : Text} {ls : List Text} {k : Nat}

theorem map_getD_unknownNumbers (whitespace : Text) (ls : List Text) :
    (unknownNumbers whitespace ls).map (fun k => ls.getD k []) =
      ls.filter fun l => IsUnknown whitespace l := by
  have hls : (List.range ls.length).map (fun k => ls.getD k []) = ls := by
    refine List.ext_getElem (by simp) fun k hk hk' => ?_
    simp [List.getElem?_eq_getElem hk']
  conv_rhs => rw [← hls, List.filter_map]
  rfl

/-- An unknown lexeme has a place in the program. -/
theorem lexemeOffset_lt_succ (hk : k ∈ unknownNumbers whitespace ls) :
    k < ls.length ∧ lexemeOffset ls k < lexemeOffset ls (k + 1) := by
  obtain ⟨hmem, hunknown⟩ := List.mem_filter.mp hk
  obtain ⟨⟨c, hc, -⟩, -⟩ := of_decide_eq_true hunknown
  have hlt := List.mem_range.mp hmem
  have hpos := List.length_pos_of_mem hc
  have := lexemeOffset_succ hlt
  exact ⟨hlt, by omega⟩

theorem covers_complaint (hls : ls.flatten = program) (hk : k ∈ unknownNumbers whitespace ls) :
    (complaint program ls k).span.Covers program (lexemeOffset ls k) (lexemeOffset ls (k + 1)) :=
  covers_ofOffsets (lexemeOffset_lt_succ hk).2 (hls ▸ lexemeOffset_le ls (k + 1))

/-- The complaints about unknown lexemes stand at growing positions. -/
theorem pairwise_complaints (hls : ls.flatten = program) :
    ((unknownNumbers whitespace ls).map (complaint program ls)).Pairwise fun d d' =>
      d.span.start.Before d'.span.start := by
  have hordered : (unknownNumbers whitespace ls).Pairwise (· < ·) :=
    List.pairwise_lt_range.sublist List.filter_sublist
  refine List.pairwise_map.mpr (hordered.imp_of_mem fun {i k} hi hk hlt => ?_)
  have hfirst : (complaint program ls i).span.start = _ := (covers_complaint hls hi).first
  have hfirst' : (complaint program ls k).span.start = _ := (covers_complaint hls hk).first
  have hle := lexemeOffset_mono ls (show i + 1 ≤ k by omega)
  have hend := hls ▸ lexemeOffset_le ls (k + 1)
  have hi' := (lexemeOffset_lt_succ hi).2
  have hk' := (lexemeOffset_lt_succ hk).2
  rw [hfirst, hfirst']
  exact positionAt_before (by omega) (by omega)

/-- Diagnostics at growing positions are sorted. -/
theorem sorted_eq_self {ds : List Diagnostic}
    (h : ds.Pairwise fun d d' => d.span.start.Before d'.span.start) : sorted ds = ds := by
  refine List.mergeSort_of_pairwise (h.imp fun {d d'} hbefore => ?_)
  simp only [Position.Before, Span.start] at hbefore
  simp only [Diagnostic.startsBefore, Bool.or_eq_true, Bool.and_eq_true, decide_eq_true_eq]
  omega

end Complaints

/-! ### What is registered -/

namespace Ledger

variable {P φ : Type}

theorem run_forM_register (new : List Diagnostic) (l : Ledger) :
    (new.forM register : Booking φ Unit).run.run l =
      (.ok (), { l with registered := l.registered ++ new, pending := l.pending ++ new }) := by
  induction new generalizing l with
  | nil =>
    rw [List.append_nil, List.append_nil]
    rfl
  | cons d new ih =>
    have hfirst : (register d : Booking φ Unit).run.run l =
        (.ok (), { l with registered := l.registered ++ [d], pending := l.pending ++ [d] }) := rfl
    have hrun : ((d :: new).forM register : Booking φ Unit) =
        register d >>= fun _ => new.forM register := rfl
    rw [hrun, run_bind_of_ok hfirst, ih]
    simp

/-- **A scan on a ledger** enters the diagnostics for its unknown lexemes, each once and in order,
and if there are any, reports them together. -/
theorem run_scan_lexed [Runnable P φ] {s : Scanner P} {ls : List Text} {ds : List Diagnostic}
    (h : Runnable.attempt s.lexer s.program = .ok (.lexed ls))
    (hds : unknownTokens s.program (words s.program s.whitespace ls) = ds) :
    (scan s).run.run empty =
      if ds = [] then (.ok (knownTokens (words s.program s.whitespace ls)), empty)
      else (.error (.reported .scanner (sorted ds)), ⟨ds, [sorted ds], []⟩) := by
  have hattempt : (passing s.attempt).run.run empty = (.ok (.lexed ls), empty) := by
    rw [run_passing, run_attempt_of_ok h]
  have hreport := run_passing_communicate (φ := φ) .scanner empty
  have hlexemes : (lexemes s.program (.lexed ls) : Booking φ _).run.run empty =
      (.ok ls, empty) := by
    rw [lexemes, run_bind_of_ok (hreport.trans (if_pos rfl))]
    rfl
  have hnew : ((unknownTokens s.program (words s.program s.whitespace ls)).forM register :
      Booking φ Unit).run.run empty = (.ok (), ⟨ds, [], ds⟩) := hds ▸ run_forM_register _ empty
  have hreport' := run_passing_communicate (φ := φ) .scanner ⟨ds, [], ds⟩
  rw [scan, run_bind_of_ok hattempt, tokens, run_bind_of_ok hlexemes, run_bind_of_ok hnew]
  split_ifs with hnil
  · subst hnil
    rw [run_bind_of_ok hreport']
    rfl
  · rw [if_neg hnil] at hreport'
    rw [run_bind_of_error hreport']
    rfl

end Ledger

/-! ### Scans -/

/-- **Scanning with unknown lexemes.** Let an anchored lexer match all of a program. With nothing
pending, a scan ends with a report exactly when some lexeme is unknown, and then returns no token.
It registers and reports one diagnostic for every unknown lexeme, in order, whose span covers the
place of the lexeme; the spans begin at growing positions, so sorting changes nothing. The first ten
are shown, with the number of the others. -/
theorem unknown_tokens_reported (p : Lexer) (program whitespace : Text) (ls : List Text)
    (h : p.run program = .ok (.success ls [])) :
    let scanner : Scanner Lexer := { program, lexer := .fullMatch p, whitespace }
    let us := ls.filter fun l => IsUnknown whitespace l
    let ks := unknownNumbers whitespace ls
    let ds := ks.map (complaint program ls)
    ((∃ reported now, scanner.scan.run.run [] = (.error (.reported .scanner reported), now)) ↔
      1 ≤ us.length) ∧
    (us = [] → ∃ ts, scanner.scan.run.run [] = (.ok ts, [])) ∧
    (1 ≤ us.length → scanner.scan.run.run [] = (.error (.reported .scanner ds), [])) ∧
    (∃ outcome ledger, (Ledger.scan scanner).run.run .empty = (outcome, ledger) ∧
      scanner.scan.run.run [] = (outcome, ledger.pending) ∧ ledger.registered = ds) ∧
    ds.map Diagnostic.cause = us.map Cause.unknownToken ∧
    (∀ k ∈ ks, lexemeOffset ls k < lexemeOffset ls (k + 1) ∧
      slice program (lexemeOffset ls k) (lexemeOffset ls (k + 1)) = ls.getD k [] ∧
      (complaint program ls k).span.Covers program (lexemeOffset ls k) (lexemeOffset ls (k + 1))) ∧
    ds.Pairwise (fun d d' => d.span.start.Before d'.span.start) ∧ sorted ds = ds ∧
    ∀ faultMessage : Stall Empty Empty → Text,
      Failure.message faultMessage (.reported .scanner ds) =
        List.intercalate "\n\n".toList ((ds.take 10).map Diagnostic.shown) ++
          if 10 < us.length then
            "\n\nShowing 10 errors, omitting ".toList ++ Text.decimal (us.length - 10) ++
              if 1 < us.length - 10 then " errors...".toList else " error...".toList
          else [] := by
  intro scanner us ks ds
  have hls : ls.flatten = program := flatten_lexemes h ⟨rfl, rfl⟩
  have hattempt : Runnable.attempt scanner.lexer scanner.program = .ok (.lexed ls) :=
    attempt_fullMatch h
  have hds : unknownTokens program (words program whitespace ls) = ds :=
    unknownTokens_words program whitespace ls
  have hus : us = ks.map fun k => ls.getD k [] := (map_getD_unknownNumbers whitespace ls).symm
  have hlen : ds.length = us.length := by
    rw [hus, List.length_map, List.length_map]
  have hordered : ds.Pairwise fun d d' => d.span.start.Before d'.span.start :=
    pairwise_complaints hls
  have hsorted : sorted ds = ds := sorted_eq_self hordered
  have hrun : scanner.scan.run.run [] =
      if ds = [] then (.ok (knownTokens (words program whitespace ls)), [])
      else (.error (.reported .scanner ds), []) := by
    rw [run_scan_of_attempt hattempt, run_tokens_lexed, hds, hsorted]
  have hnil : ds = [] ↔ us = [] := by
    rw [← List.length_eq_zero_iff, hlen, List.length_eq_zero_iff]
  refine ⟨?fails, ?passes, ?reports, ?registers, ?causes, ?places, hordered, hsorted, ?message⟩
  case fails =>
    rw [hrun, Nat.one_le_iff_ne_zero, ne_eq, List.length_eq_zero_iff, ← hnil]
    split_ifs with hds'
    · exact iff_of_false nofun fun hne => hne hds'
    · exact iff_of_true ⟨_, _, rfl⟩ hds'
  case passes =>
    intro hempty
    exact ⟨_, hrun.trans (if_pos (hnil.mpr hempty))⟩
  case reports =>
    intro hpos
    exact hrun.trans (if_neg fun hempty => by simp [hnil.mp hempty] at hpos)
  case registers =>
    refine ⟨((Ledger.scan scanner).run.run .empty).1, ((Ledger.scan scanner).run.run .empty).2, rfl,
      Ledger.erases_scan scanner .empty, ?_⟩
    rw [Ledger.run_scan_lexed hattempt hds]
    split_ifs with hempty
    · exact hempty.symm
    · rfl
  case causes =>
    rw [hus, List.map_map, List.map_map]
    rfl
  case places =>
    intro k hk
    obtain ⟨hlt, hoffset⟩ := lexemeOffset_lt_succ hk
    refine ⟨hoffset, ?_, covers_complaint hls hk⟩
    rw [← hls]
    exact slice_lexemeOffset hlt
  case message =>
    intro faultMessage
    rw [message_reported, hlen]

/-- Two unknown lexemes with a line break of two characters between them. -/
theorem unknown_tokens_reported_crlf : ∃ d d',
    ({ program := "^\r\n~".toList
       lexer := .fullMatch (.sequence [.literal "^".toList, .literal "\r\n".toList,
         .literal "~".toList])
       whitespace := "\n\r".toList } : Scanner Lexer).scan.run.run [] =
      (.error (.reported .scanner [d, d']), []) ∧
    d.cause = .unknownToken "^".toList ∧ d'.cause = .unknownToken "~".toList ∧
    d.span.start.Before d'.span.start := by
  have h : Lexer.run (.sequence [.literal "^".toList, .literal "\r\n".toList,
      .literal "~".toList]) "^\r\n~".toList =
    .ok (.success ["^".toList, "\r\n".toList, "~".toList] []) := rfl
  have hks : unknownNumbers "\n\r".toList ["^".toList, "\r\n".toList, "~".toList] = [0, 2] := by
    decide
  obtain ⟨-, -, hreports, -, -, -, hordered, -⟩ := unknown_tokens_reported _ _ "\n\r".toList _ h
  rw [hks] at hreports hordered
  exact ⟨_, _, hreports (by decide), rfl, rfl, List.rel_of_pairwise_cons hordered (by simp)⟩

end LexerCombinators
