import LexerCombinators.Pattern.Probe
import LexerCombinators.Proofs.Pattern.Repetition

/-!
# Which parts a pattern runs

A pattern that is run on a stream runs some of its parts, in order, each on a stream of its own
(`Calls`). Which ones depends on nothing but what these parts come to, and there is no choice in it
(`Calls.unique`). What recording wrappers enter is settled by this alone: `Records` puts the entries
of a list of calls one behind another, those of the calls inside a call behind its own, and only one
record is left by a call (`Records.unique`). No part is run on anything but a suffix of the stream,
so there is nothing else in a record (`Records.suffix`).

The patterns here have wrappers but no foreign leaves, and what a pattern comes to is what it comes
to when its wrappers only pass on the run of what they wrap (`Pattern.outcome`). -/

namespace LexerCombinators

variable {ε ω : Type}

/-! ### Outcomes -/

/-- The matcher succeeds on `s` and leaves `s'`. -/
def Leaves (p : Matcher (Except ε)) (s s' : Text) : Prop :=
  ∃ r, p s = .ok r ∧ r.isSuccess = true ∧ r.remaining = s'

/-- The matcher ends early on `s`. -/
def EndsEarly (p : Matcher (Except ε)) (s : Text) : Prop := ∃ e, p s = .error e

section Outcomes

variable {p : Matcher (Except ε)} {s s' s'' : Text}

theorem Leaves.unique (h : Leaves p s s') (h' : Leaves p s s'') : s' = s'' := by
  obtain ⟨r, hr, -, rfl⟩ := h
  obtain ⟨r', hr', -, rfl⟩ := h'
  rw [hr] at hr'
  cases hr'
  rfl

theorem Leaves.not_refuses (h : Leaves p s s') : ¬ Refuses p s := by
  rintro ⟨r', hr', hfail⟩
  obtain ⟨r, hr, hsuccess, -⟩ := h
  rw [hr] at hr'
  cases hr'
  rw [hsuccess] at hfail
  cases hfail

theorem EndsEarly.ne_ok (h : EndsEarly p s) (r : Result) : p s ≠ .ok r := by
  obtain ⟨e, he⟩ := h
  rw [he]
  nofun

/-- Where a choice stops, its alternative does not fail. -/
theorem not_refuses_of_leaves_or_endsEarly (h : (∃ s', Leaves p s s') ∨ EndsEarly p s) :
    ¬ Refuses p s := by
  rcases h with ⟨s', hleaves⟩ | hends
  · exact hleaves.not_refuses
  · exact fun ⟨r, hr, _⟩ => hends.ne_ok r hr

/-- Where a sequence stops short, its part does not match. -/
theorem not_leaves_of_refuses_or_endsEarly (h : Refuses p s ∨ EndsEarly p s) :
    ¬ Leaves p s s' := by
  rcases h with hrefuses | hends
  · exact fun hleaves => hleaves.not_refuses hrefuses
  · exact fun ⟨r, hr, _⟩ => hends.ne_ok r hr

/-- Where a repetition stops, no match of its body leaves less. -/
theorem ChainEnd.not_leaves (h : ChainEnd p s) (hlt : s'.length < s.length) : ¬ Leaves p s s' := by
  rcases h with hrefuses | ⟨r, hr, hsuccess, hle⟩ | hends
  · exact not_leaves_of_refuses_or_endsEarly (Or.inl hrefuses)
  · intro hleaves
    have heq : r.remaining = s' := Leaves.unique ⟨r, hr, hsuccess, rfl⟩ hleaves
    rw [heq] at hle
    omega
  · exact not_leaves_of_refuses_or_endsEarly (Or.inr hends)

end Outcomes

/-- Wrappers that only pass on the run of what they wrap. -/
def Client.forwarding : Client Empty ω (Stall Empty ω) (Except (Stall Empty ω)) :=
  ⟨nofun, fun _ q => q, id⟩

/-- What a pattern comes to when nobody records it. -/
def Pattern.outcome (p : Pattern Empty ω) : Matcher (Except (Stall Empty ω)) :=
  p.matcher Client.forwarding

theorem lossless_outcome (p : Pattern Empty ω) : Lossless p.outcome :=
  lossless_matcher ⟨nofun, fun _ _ h => h⟩ p

/-- What a match leaves is a suffix of the stream. -/
theorem Leaves.suffix {p : Pattern Empty ω} {s s' : Text} (h : Leaves p.outcome s s') :
    s' <:+ s := by
  obtain ⟨r, hr, -, rfl⟩ := h
  exact (lossless_outcome p s r hr).suffix

/-! ### Calls -/

/-- The parts that a pattern runs when it is run on `t`, in order, each with its stream. A choice
runs its alternatives on `t` up to the first that succeeds or ends early; a sequence runs each of
its parts on what the one before left, up to the first that fails or ends early; a repetition runs
its body on `t` and then on what each match left, until the body fails, ends early or matches and
consumes nothing. Any other pattern runs its only part, if it has one, once and on `t`. -/
inductive Calls : Pattern Empty ω → Text → List (Pattern Empty ω × Text) → Prop
  | range (lo hi : Char) (t : Text) : Calls (.range lo hi) t []
  | literal (u t : Text) : Calls (.literal u) t []
  | nothing (t : Text) : Calls .nothing t []
  | choice_nil (t : Text) : Calls (.choice []) t []
  | choice_last {p : Pattern Empty ω} {ps : List (Pattern Empty ω)} {t : Text} :
      (∃ t', Leaves p.outcome t t') ∨ EndsEarly p.outcome t → Calls (.choice (p :: ps)) t [(p, t)]
  | choice_next {p : Pattern Empty ω} {ps : List (Pattern Empty ω)} {t : Text}
      {calls : List (Pattern Empty ω × Text)} :
      Refuses p.outcome t → Calls (.choice ps) t calls →
      Calls (.choice (p :: ps)) t ((p, t) :: calls)
  | sequence_nil (t : Text) : Calls (.sequence []) t []
  | sequence_last {p : Pattern Empty ω} {ps : List (Pattern Empty ω)} {t : Text} :
      Refuses p.outcome t ∨ EndsEarly p.outcome t → Calls (.sequence (p :: ps)) t [(p, t)]
  | sequence_next {p : Pattern Empty ω} {ps : List (Pattern Empty ω)} {t t' : Text}
      {calls : List (Pattern Empty ω × Text)} :
      Leaves p.outcome t t' → Calls (.sequence ps) t' calls →
      Calls (.sequence (p :: ps)) t ((p, t) :: calls)
  | oneOrMore_last {p : Pattern Empty ω} {t : Text} :
      ChainEnd p.outcome t → Calls (.oneOrMore p) t [(p, t)]
  | oneOrMore_next {p : Pattern Empty ω} {t t' : Text} {calls : List (Pattern Empty ω × Text)} :
      Leaves p.outcome t t' → t'.length < t.length → Calls (.oneOrMore p) t' calls →
      Calls (.oneOrMore p) t ((p, t) :: calls)
  | fullMatch (p : Pattern Empty ω) (t : Text) : Calls (.fullMatch p) t [(p, t)]
  | followedBy (p : Pattern Empty ω) (t : Text) : Calls (.followedBy p) t [(p, t)]
  | notFollowedBy (p : Pattern Empty ω) (t : Text) : Calls (.notFollowedBy p) t [(p, t)]
  | wrapped (w : ω) (p : Pattern Empty ω) (t : Text) : Calls (.wrapped w p) t [(p, t)]

section Calls

variable {p : Pattern Empty ω} {t : Text} {calls calls' : List (Pattern Empty ω × Text)}

/-- **What is run is determined.** -/
theorem Calls.unique (h : Calls p t calls) (h' : Calls p t calls') : calls = calls' := by
  induction h generalizing calls' with
  | choice_last hlast =>
    cases h' with
    | choice_last _ => rfl
    | choice_next hrefuses _ =>
      exact absurd hrefuses (not_refuses_of_leaves_or_endsEarly hlast)
  | choice_next hrefuses _ ih =>
    cases h' with
    | choice_last hlast =>
      exact absurd hrefuses (not_refuses_of_leaves_or_endsEarly hlast)
    | choice_next _ h' => rw [ih h']
  | sequence_last hlast =>
    cases h' with
    | sequence_last _ => rfl
    | sequence_next hleaves _ =>
      exact absurd hleaves (not_leaves_of_refuses_or_endsEarly hlast)
  | sequence_next hleaves _ ih =>
    cases h' with
    | sequence_last hlast =>
      exact absurd hleaves (not_leaves_of_refuses_or_endsEarly hlast)
    | sequence_next hleaves' h' =>
      obtain rfl := hleaves.unique hleaves'
      rw [ih h']
  | oneOrMore_last hend =>
    cases h' with
    | oneOrMore_last _ => rfl
    | oneOrMore_next hleaves hlt _ => exact absurd hleaves (hend.not_leaves hlt)
  | oneOrMore_next hleaves hlt _ ih =>
    cases h' with
    | oneOrMore_last hend => exact absurd hleaves (hend.not_leaves hlt)
    | oneOrMore_next hleaves' _ h' =>
      obtain rfl := hleaves.unique hleaves'
      rw [ih h']
  | range | literal | nothing | choice_nil | sequence_nil | fullMatch | followedBy
  | notFollowedBy | wrapped =>
    cases h'
    rfl

/-- Parts are run on suffixes of the stream. -/
theorem Calls.suffix (h : Calls p t calls) : ∀ c ∈ calls, c.2 <:+ t := by
  induction h with
  | range | literal | nothing | choice_nil | sequence_nil => exact List.forall_mem_nil _
  | choice_next _ _ ih => exact List.forall_mem_cons.mpr ⟨List.suffix_rfl, ih⟩
  | sequence_next hleaves _ ih | oneOrMore_next hleaves _ _ ih =>
    exact List.forall_mem_cons.mpr ⟨List.suffix_rfl, fun c hc => (ih c hc).trans hleaves.suffix⟩
  | choice_last | sequence_last | oneOrMore_last | fullMatch | followedBy | notFollowedBy
  | wrapped => exact List.forall_mem_singleton.mpr List.suffix_rfl

end Calls

/-! ### Records -/

/-- What is entered when a pattern is run on `t`: a recording wrapper enters its label, the stream
and whether the pattern in it matches, and nothing else is entered. -/
def Pattern.entry : Pattern Empty Probe.Label → Text → List Call
  | .wrapped l p, t => [⟨l.text, t, (p.outcome t).toOption.map Result.isSuccess⟩]
  | _, _ => []

/-- The record that calls leave, made one after another: of each call its own entry and behind it
the record of the calls inside it. -/
inductive Records : List (Pattern Empty Probe.Label × Text) → List Call → Prop
  | nil : Records [] []
  | cons {p : Pattern Empty Probe.Label} {t : Text}
      {inner calls : List (Pattern Empty Probe.Label × Text)} {record rest : List Call} :
      Calls p t inner → Records inner record → Records calls rest →
      Records ((p, t) :: calls) (p.entry t ++ record ++ rest)

section Records

variable {calls calls' : List (Pattern Empty Probe.Label × Text)} {record record' : List Call}

theorem Records.append (h : Records calls record) (h' : Records calls' record') :
    Records (calls ++ calls') (record ++ record') := by
  induction h with
  | nil => exact h'
  | cons hcalls hinner _ _ ih =>
    rw [List.append_assoc]
    exact .cons hcalls hinner ih

/-- The record of a single call. -/
theorem Records.single {p : Pattern Empty Probe.Label} {t : Text} (hcalls : Calls p t calls)
    (h : Records calls record) : Records [(p, t)] (p.entry t ++ record) := by
  have hrecord := Records.cons hcalls h .nil
  rwa [List.append_nil] at hrecord

/-- **There is one record.** -/
theorem Records.unique (h : Records calls record) (h' : Records calls record') :
    record = record' := by
  induction h generalizing record' with
  | nil =>
    cases h'
    rfl
  | cons hcalls _ _ ih ihrest =>
    cases h' with
    | cons hcalls' hinner' hrest' =>
      obtain rfl := hcalls.unique hcalls'
      rw [ih hinner', ihrest hrest']

theorem Pattern.stream_of_mem_entry {p : Pattern Empty Probe.Label} {t : Text} {c : Call}
    (hc : c ∈ p.entry t) : c.stream = t := by
  cases p with
  | wrapped l p =>
    obtain rfl := List.mem_singleton.mp hc
    rfl
  | _ => cases hc

/-- **A record holds suffixes** of the streams of the calls that left it. -/
theorem Records.suffix (h : Records calls record) :
    ∀ c ∈ record, ∃ call ∈ calls, c.stream <:+ call.2 := by
  induction h with
  | nil => exact List.forall_mem_nil _
  | @cons p t inner calls record rest hcalls _ _ ih ihrest =>
    intro c hc
    rcases List.mem_append.mp hc with hc | hc
    · refine ⟨(p, t), List.mem_cons_self, ?_⟩
      rcases List.mem_append.mp hc with hc | hc
      · rw [Pattern.stream_of_mem_entry hc]
      · obtain ⟨call, hcall, hsuffix⟩ := ih c hc
        exact hsuffix.trans (hcalls.suffix call hcall)
    · obtain ⟨call, hcall, hsuffix⟩ := ihrest c hc
      exact ⟨call, List.mem_cons_of_mem _ hcall, hsuffix⟩

end Records

end LexerCombinators
