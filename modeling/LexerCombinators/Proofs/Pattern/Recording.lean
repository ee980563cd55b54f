import LexerCombinators.Proofs.Pattern.Calls

/-!
# The order of evaluation

A probe writes down which wrapped parts are run, on which streams and in which order. For a pattern
without scripted leaves this is the record of its call (`calls_recorded_in_order`), so the parts of a
pattern are run in order and no further than needed, however they are nested and wherever a run ends
early.

A run of a probe has an outcome and adds something to the record (`Adds`). Both are had together from
the parts of the run: a bind adds what its two computations add, and nothing behind an early end. Each
operator adds what the calls of its pattern leave (`follows_choice` to `follows_wrapped`), and the tree
induction puts them together. -/

namespace LexerCombinators

open Probe

variable {ω α β : Type}

/-! ### Patterns without leaves -/

namespace Pattern

mutual

/-- A pattern without foreign leaves as a pattern over any leaves. -/
def ofLeafless : Pattern Empty ω → Pattern α ω
  | range lo hi => range lo hi
  | literal s => literal s
  | nothing => nothing
  | choice ps => choice (ofLeaflessAll ps)
  | sequence ps => sequence (ofLeaflessAll ps)
  | oneOrMore p => oneOrMore (ofLeafless p)
  | fullMatch p => fullMatch (ofLeafless p)
  | followedBy p => followedBy (ofLeafless p)
  | notFollowedBy p => notFollowedBy (ofLeafless p)
  | foreign a => nomatch a
  | wrapped w p => wrapped w (ofLeafless p)

/-- The same for a list of patterns. -/
def ofLeaflessAll : List (Pattern Empty ω) → List (Pattern α ω)
  | [] => []
  | p :: ps => ofLeafless p :: ofLeaflessAll ps

end

end Pattern

/-- The run of a pattern of recording wrappers. -/
def recorded (p : Pattern Empty Label) : Matcher Run := Pattern.matcher Probe.client (.ofLeafless p)

/-- How a probe reports the stall of a pattern. -/
def stallFault (e : Stall Empty Label) : Fault := .stalled ⟨.ofLeafless e.body⟩

/-! ### What a run adds to the record -/

/-- The run comes to the outcome `y`, adds the calls `new` to the record and does nothing else. -/
def Adds (x : Run α) (y : Except (Stall Empty Label) α) (new : List Call) : Prop :=
  ∀ calls, x.run.run calls = pure (y.mapError stallFault, calls ++ new)

theorem error_or_ok {ε : Type} (x : Except ε α) : (∃ e, x = .error e) ∨ ∃ a, x = .ok a := by
  cases x with
  | error e => exact Or.inl ⟨e, rfl⟩
  | ok a => exact Or.inr ⟨a, rfl⟩

section Adds

variable {x : Run α} {y : Except (Stall Empty Label) α} {k : α → Run β}
variable {k' : α → Except (Stall Empty Label) β} {a : α} {e : Stall Empty Label}
variable {new new' : List Call}

theorem adds_pure (a : α) : Adds (pure a) (pure a) [] := by
  intro calls
  rw [List.append_nil]
  rfl

theorem adds_throw (e : Stall Empty Label) :
    Adds (throw (stallFault e) : Run α) (throw e) [] := by
  intro calls
  rw [List.append_nil]
  rfl

theorem Adds.bind_ok (hx : Adds x y new) (hy : y = .ok a) (hk : Adds (k a) (k' a) new') :
    Adds (x >>= k) (y >>= k') (new ++ new') := by
  subst hy
  intro calls
  rw [bind_of_run_ok (hx calls), hk, List.append_assoc]
  rfl

theorem Adds.bind_error (hx : Adds x y new) (hy : y = .error e) :
    Adds (x >>= k) (y >>= k') new := by
  subst hy
  intro calls
  exact bind_of_run_error (hx calls)

/-- What adds nothing may stand behind a run that comes to a result. -/
theorem Adds.bind_ok_silent (hx : Adds x y new) (hy : y = .ok a) (hk : Adds (k a) (k' a) []) :
    Adds (x >>= k) (y >>= k') new := by
  have h := hx.bind_ok hy hk
  rwa [List.append_nil] at h

theorem Adds.bind_silent (hx : Adds x y new) (hk : ∀ a, Adds (k a) (k' a) []) :
    Adds (x >>= k) (y >>= k') new := by
  rcases error_or_ok y with ⟨e, hy⟩ | ⟨a, hy⟩
  · exact hx.bind_error hy
  · exact hx.bind_ok_silent hy (hk a)

end Adds

/-- The run of the pattern comes to its outcome and adds the record of its call. -/
def Follows (p : Pattern Empty Label) : Prop :=
  ∀ s, ∃ new, Records [(p, s)] new ∧ Adds (recorded p s) (p.outcome s) new

/-! ### Operators -/

section Operators

variable {p : Pattern Empty Label} {ps : List (Pattern Empty Label)}

/-- A pattern that enters nothing of its own adds what the calls inside it leave. -/
theorem follows_of_calls (hentry : ∀ s, p.entry s = []) (h : ∀ s, ∃ inner new, Calls p s inner ∧
    Records inner new ∧ Adds (recorded p s) (p.outcome s) new) : Follows p := by
  intro s
  obtain ⟨inner, new, hcalls, hrecords, hadds⟩ := h s
  have hsingle := Records.single hcalls hrecords
  rw [hentry, List.nil_append] at hsingle
  exact ⟨new, hsingle, hadds⟩

theorem follows_choice (hps : ∀ p ∈ ps, Follows p) : Follows (.choice ps) := by
  refine follows_of_calls (fun _ => rfl) fun s => ?_
  induction ps with
  | nil => exact ⟨_, _, .choice_nil s, .nil, adds_pure (Result.fail s)⟩
  | cons p ps ih =>
    obtain ⟨new, hrecords, hadds⟩ := hps p List.mem_cons_self s
    have hrun : recorded (.choice (p :: ps)) s = (recorded p s >>= fun r =>
        if r.isSuccess then pure r else recorded (.choice ps) s) := rfl
    have hplain : Pattern.outcome (.choice (p :: ps)) s = (p.outcome s >>= fun r =>
        if r.isSuccess then pure r else Pattern.outcome (.choice ps) s) := rfl
    rw [hrun, hplain]
    rcases error_or_ok (p.outcome s) with ⟨e, hout⟩ | ⟨r, hout⟩
    · exact ⟨_, _, .choice_last (Or.inr ⟨e, hout⟩), hrecords, hadds.bind_error hout⟩
    · by_cases hr : r.isSuccess = true
      · refine ⟨_, _, .choice_last (Or.inl ⟨_, r, hout, hr, rfl⟩), hrecords,
          hadds.bind_ok_silent hout ?_⟩
        rw [if_pos hr, if_pos hr]
        exact adds_pure r
      · obtain ⟨inner, new', hcalls, hrest, hadds'⟩ :=
          ih fun q hq => hps q (List.mem_cons_of_mem _ hq)
        refine ⟨_, _, .choice_next ⟨r, hout, by simpa using hr⟩ hcalls, hrecords.append hrest,
          hadds.bind_ok hout ?_⟩
        rw [if_neg hr, if_neg hr]
        exact hadds'

/-- The parts of a sequence, before their lexemes are put together. -/
theorem exists_calls_steps (hps : ∀ p ∈ ps, Follows p) (s : Text) : ∃ inner new,
    Calls (.sequence ps) s inner ∧ Records inner new ∧
      Adds (steps (Pattern.matchers Probe.client (Pattern.ofLeaflessAll ps)) s)
        (steps (Pattern.matchers Client.forwarding ps) s) new := by
  induction ps generalizing s with
  | nil => exact ⟨_, _, .sequence_nil s, .nil, adds_pure _⟩
  | cons p ps ih =>
    obtain ⟨new, hrecords, hadds⟩ := hps p List.mem_cons_self s
    rw [Pattern.ofLeaflessAll, Pattern.matchers, Pattern.matchers, steps, steps]
    rcases error_or_ok (p.outcome s) with ⟨e, hout⟩ | ⟨r, hout⟩
    · exact ⟨_, _, .sequence_last (Or.inr ⟨e, hout⟩), hrecords, hadds.bind_error hout⟩
    · by_cases hr : r.isSuccess = true
      · obtain ⟨inner, new', hcalls, hrest, hadds'⟩ :=
          ih (fun q hq => hps q (List.mem_cons_of_mem _ hq)) r.remaining
        refine ⟨_, _, .sequence_next ⟨r, hout, hr, rfl⟩ hcalls, hrecords.append hrest,
          hadds.bind_ok hout ?_⟩
        rw [if_pos hr, if_pos hr]
        exact hadds'.bind_silent fun _ => adds_pure _
      · refine ⟨_, _, .sequence_last (Or.inl ⟨r, hout, by simpa using hr⟩), hrecords,
          hadds.bind_ok_silent hout ?_⟩
        rw [if_neg hr, if_neg hr]
        exact adds_pure none

theorem follows_sequence (hps : ∀ p ∈ ps, Follows p) : Follows (.sequence ps) := by
  refine follows_of_calls (fun _ => rfl) fun s => ?_
  obtain ⟨inner, new, hcalls, hrecords, hadds⟩ := exists_calls_steps hps s
  refine ⟨inner, new, hcalls, hrecords, hadds.bind_silent fun o => ?_⟩
  cases o with
  | none => exact adds_pure _
  | some o => exact adds_pure _

/-- The matches of the body of a repetition, up to the one that ends it. -/
theorem exists_calls_repeats (hp : Follows p) (s : Text) : ∃ inner new,
    Calls (.oneOrMore p) s inner ∧ Records inner new ∧
      Adds (repeats (stallFault ⟨p⟩) (recorded p) s)
        (repeats (⟨p⟩ : Stall Empty Label) p.outcome s) new := by
  -- by induction on the length of the stream, which every match shortens
  induction hn : s.length using Nat.strongRecOn generalizing s with
  | _ n ih =>
    obtain ⟨new, hrecords, hadds⟩ := hp s
    rw [repeats, repeats]
    rcases error_or_ok (p.outcome s) with ⟨e, hout⟩ | ⟨r, hout⟩
    · exact ⟨_, _, .oneOrMore_last (Or.inr (Or.inr ⟨e, hout⟩)), hrecords, hadds.bind_error hout⟩
    · by_cases hr : r.isSuccess = true
      · by_cases hlt : r.remaining.length < s.length
        · obtain ⟨inner, new', hcalls, hrest, hadds'⟩ := ih _ (by omega) r.remaining rfl
          refine ⟨_, _, .oneOrMore_next ⟨r, hout, hr, rfl⟩ hlt hcalls, hrecords.append hrest,
            hadds.bind_ok hout ?_⟩
          rw [if_pos hr, if_pos hr, if_pos hlt, if_pos hlt]
          exact hadds'.bind_silent fun _ => adds_pure _
        · refine ⟨_, _, .oneOrMore_last (Or.inr (Or.inl ⟨r, hout, hr, by omega⟩)), hrecords,
            hadds.bind_ok_silent hout ?_⟩
          rw [if_pos hr, if_pos hr, if_neg hlt, if_neg hlt]
          exact adds_throw _
      · refine ⟨_, _, .oneOrMore_last (Or.inl ⟨r, hout, by simpa using hr⟩), hrecords,
          hadds.bind_ok_silent hout ?_⟩
        rw [if_neg hr, if_neg hr]
        exact adds_pure _

theorem follows_oneOrMore (hp : Follows p) : Follows (.oneOrMore p) := by
  refine follows_of_calls (fun _ => rfl) fun s => ?_
  obtain ⟨inner, new, hcalls, hrecords, hadds⟩ := exists_calls_repeats hp s
  refine ⟨inner, new, hcalls, hrecords, hadds.bind_silent fun x => ?_⟩
  obtain ⟨_ | _, _⟩ := x
  · exact adds_pure _
  · exact adds_pure _

/-- A pattern that runs one part, on its own stream, and then does something with the result. -/
theorem follows_of_single {q : Pattern Empty Label} (hentry : ∀ s, q.entry s = [])
    (hcalls : ∀ s, Calls q s [(p, s)]) (hp : Follows p)
    (hrun : ∀ s new, Adds (recorded p s) (p.outcome s) new → Adds (recorded q s) (q.outcome s) new) :
    Follows q := by
  refine follows_of_calls hentry fun s => ?_
  obtain ⟨new, hrecords, hadds⟩ := hp s
  exact ⟨_, new, hcalls s, hrecords, hrun s new hadds⟩

theorem follows_fullMatch (hp : Follows p) : Follows (.fullMatch p) :=
  follows_of_single (fun _ => rfl) (.fullMatch p) hp fun _ _ h => h.bind_silent fun _ => adds_pure _

theorem follows_followedBy (hp : Follows p) : Follows (.followedBy p) :=
  follows_of_single (fun _ => rfl) (.followedBy p) hp fun _ _ h => h.bind_silent fun _ => adds_pure _

theorem follows_notFollowedBy (hp : Follows p) : Follows (.notFollowedBy p) :=
  follows_of_single (fun _ => rfl) (.notFollowedBy p) hp fun _ _ h =>
    h.bind_silent fun _ => adds_pure _

/-- A recording wrapper enters its call in front of what the wrapped pattern adds. -/
theorem follows_wrapped (l : Label) (hp : Follows p) : Follows (.wrapped l p) := by
  intro s
  obtain ⟨new, hrecords, hadds⟩ := hp s
  refine ⟨_, Records.single (.wrapped l p s) hrecords, fun calls => ?_⟩
  have hrun : recorded (.wrapped l p) s = record l.text (recorded p) s := rfl
  have hplain : Pattern.outcome (.wrapped l p) s = p.outcome s := rfl
  have hentered := hadds (calls ++ [⟨l.text, s, none⟩])
  rw [hrun, hplain]
  rw [List.append_assoc, List.singleton_append] at hentered
  rcases error_or_ok (p.outcome s) with ⟨e, hout⟩ | ⟨r, hout⟩
  · rw [hout] at hentered ⊢
    rw [run_record, bind_of_run_error hentered, Pattern.entry, hout]
    rfl
  · rw [hout] at hentered ⊢
    rw [run_record_of_run_ok hentered, Pattern.entry, hout]
    rfl

end Operators

/-! ### Patterns -/

mutual

/-- **Every pattern** adds the record of its call. -/
theorem follows : ∀ p : Pattern Empty Label, Follows p
  | .range lo hi => follows_of_calls (fun _ => rfl) fun s =>
    ⟨_, _, .range lo hi s, .nil, adds_pure _⟩
  | .literal u => follows_of_calls (fun _ => rfl) fun s => ⟨_, _, .literal u s, .nil, adds_pure _⟩
  | .nothing => follows_of_calls (fun _ => rfl) fun s => ⟨_, _, .nothing s, .nil, adds_pure _⟩
  | .choice ps => follows_choice (follows_of_mem ps)
  | .sequence ps => follows_sequence (follows_of_mem ps)
  | .oneOrMore p => follows_oneOrMore (follows p)
  | .fullMatch p => follows_fullMatch (follows p)
  | .followedBy p => follows_followedBy (follows p)
  | .notFollowedBy p => follows_notFollowedBy (follows p)
  | .foreign a => nomatch a
  | .wrapped l p => follows_wrapped l (follows p)

theorem follows_of_mem : ∀ ps : List (Pattern Empty Label), ∀ p ∈ ps, Follows p
  | [] => List.forall_mem_nil _
  | q :: qs => List.forall_mem_cons.mpr ⟨follows q, follows_of_mem qs⟩

end

/-- **Parts are run in order and no further than needed.** A probe of recording wrappers comes, on
every stream and whatever it was run on before, to the outcome that it has when nobody records. What
it writes down is the only record of its call: of every part that is run, in the order of `Calls`,
the entry of the part and behind it those of the parts inside. So every stream that is written down
is a suffix of the stream of the run. -/
theorem calls_recorded_in_order (p : Pattern Empty Label) : ∃ log : Text → List Call,
    (∀ scripts streams, Probe.runAll ⟨.ofLeafless p, scripts⟩ streams =
      streams.map fun s => ((p.outcome s).mapError stallFault, log s)) ∧
    ∀ s, (∀ calls, Records [(p, s)] calls ↔ calls = log s) ∧ ∀ c ∈ log s, c.stream <:+ s := by
  choose log hrecords hadds using follows p
  refine ⟨log, fun scripts streams => ?_, fun s => ⟨fun calls => ⟨fun h => ?_, ?_⟩, fun c hc => ?_⟩⟩
  · have hrun : ∀ s, Pattern.matcher Probe.client (.ofLeafless p) s [] =
        pure ((p.outcome s).mapError stallFault, log s) := fun s => hadds s []
    rw [Probe.runAll]
    simp only [hrun, List.mapM_pure]
    rfl
  · exact h.unique (hrecords s)
  · rintro rfl
    exact hrecords s
  · obtain ⟨call, hcall, hsuffix⟩ := (hrecords s).suffix c hc
    obtain rfl := List.mem_singleton.mp hcall
    exact hsuffix

/-- The second alternative is run on `b` only, where the first one fails. -/
example : (Probe.runAll ⟨.choice [.wrapped ⟨['x']⟩ (.char 'a'), .wrapped ⟨['y']⟩ (.char 'b')], []⟩
    [['a'], ['b']]).map Prod.snd =
      [[⟨['x'], ['a'], some true⟩], [⟨['x'], ['b'], some false⟩, ⟨['y'], ['b'], some true⟩]] := rfl

end LexerCombinators
