import Mathlib.Data.List.Forall2
import Mathlib.Data.List.Induction
import LetDef.Diagnostic.Collector

/-!
# What is collected, and who hears of it

A diagnostic is put together by a chain of calls, each of which gives a part of it.  The order of
the calls matters, and not in the same way for all parts: of the messages the last one counts, of
the errors whose text stands in for a message the first one, and of the errors behind the diagnostic
the last one.  `Draft.Chain.Says` says so for the chain as a whole, and a draft that is made part by
part becomes exactly that diagnostic (`Draft.Chain.diagnostic?_eq_some_iff`).

A collector is told of such chains and of listeners, in any order (`Collector.Event`).
`Collector.history_isFaithful` says what it holds after any history and what the next event does to
it.  The listener of the moment is not asked from the collector there: it is the one that the
history has named last.
-/

namespace LetDef

/-- What the last element that has something gives. -/
lemma getLast?_filterMap_append {α β : Type} (f : α → Option β) (as : List α) (a : α) :
    ((as ++ [a]).filterMap f).getLast? = (f a).or (as.filterMap f).getLast? := by
  rw [List.filterMap_append, List.getLast?_append]
  cases h : f a <;> simp [h]

/-! ## Chains of calls -/

namespace Draft

/-- What a call gives to a draft. -/
inductive Part where
  /-- A message, with a place or without. -/
  | message (text : String) (location : Option Location)
  /-- The text of an error behind it. -/
  | reason (text : String)
  /-- The text of an error behind it that knows its place. -/
  | error (text : String) (location : Location)

/-- The message of a call that gives one. -/
def Part.message? : Part → Option (String × Option Location)
  | message text location => some (text, location)
  | _ => none

/-- The text and the place of a call that gives an error with its place. -/
def Part.error? : Part → Option (String × Location)
  | error text location => some (text, location)
  | _ => none

/-- The text of the error of a call that gives one, with its place or without. -/
def Part.reason? : Part → Option String
  | message _ _ => none
  | reason text | error text _ => some text

/-- The draft after a call. -/
def give (draft : Draft) : Part → Draft
  | .message text location => draft.withMessage text location
  | .reason text => draft.withReason text
  | .error text location => draft.withError text location

/-- The calls that put a diagnostic together, in order. -/
structure Chain where
  /-- How serious the diagnostic is. -/
  severity : Severity
  /-- What the calls give. -/
  parts : List Part

namespace Chain

/-- The draft after all calls. -/
def draft (chain : Chain) : Draft := chain.parts.foldl give (blank chain.severity)

/-- The message that was given last. -/
def lastMessage? (chain : Chain) : Option (String × Option Location) :=
  (chain.parts.filterMap Part.message?).getLast?

/-- The error with a place that was given first. -/
def firstError? (chain : Chain) : Option (String × Location) :=
  (chain.parts.filterMap Part.error?).head?

/-- The text of the error that was given last. -/
def lastReason? (chain : Chain) : Option String :=
  (chain.parts.filterMap Part.reason?).getLast?

/-- Whether some call gives a message or an error with its place. -/
def speaks (chain : Chain) : Bool :=
  chain.parts.any fun part => part.message?.isSome || part.error?.isSome

/-- The chain says the diagnostic. -/
inductive Says (chain : Chain) : Diagnostic → Prop where
  /-- The last message counts, whether errors were given before or after it. -/
  | told {text : String} {location : Option Location} :
      chain.lastMessage? = some (text, location) →
      Says chain ⟨chain.severity, text, location, chain.lastReason?⟩
  /-- Where no message was given, the first error with a place says what it is about. -/
  | noticed {text : String} {location : Location} :
      chain.lastMessage? = none → chain.firstError? = some (text, location) →
      Says chain ⟨chain.severity, text, some location, chain.lastReason?⟩

section Parts

variable (severity : Severity) (parts : List Part) (part : Part)

lemma draft_append :
    (Chain.mk severity (parts ++ [part])).draft = (Chain.mk severity parts).draft.give part := by
  rw [draft, List.foldl_append]
  rfl

lemma lastMessage?_append : (Chain.mk severity (parts ++ [part])).lastMessage? =
    part.message?.or (Chain.mk severity parts).lastMessage? :=
  getLast?_filterMap_append Part.message? parts part

lemma lastReason?_append : (Chain.mk severity (parts ++ [part])).lastReason? =
    part.reason?.or (Chain.mk severity parts).lastReason? :=
  getLast?_filterMap_append Part.reason? parts part

lemma firstError?_append : (Chain.mk severity (parts ++ [part])).firstError? =
    (Chain.mk severity parts).firstError?.or part.error? := by
  rw [firstError?, List.filterMap_append, List.head?_append]
  cases hpart : part.error? <;> simp [firstError?, hpart]

end Parts

lemma draft_severity (chain : Chain) : chain.draft.severity = chain.severity := by
  obtain ⟨severity, parts⟩ := chain
  induction parts using List.reverseRecOn with
  | nil => rfl
  | append_singleton parts part ih => rw [draft_append]; cases part <;> exact ih

/-- A message is there if one was given, or else if an error with its place was. -/
lemma draft_message (chain : Chain) : chain.draft.message = chain.lastMessage?.or
    (chain.firstError?.map fun (text, location) => (text, some location)) := by
  obtain ⟨severity, parts⟩ := chain
  induction parts using List.reverseRecOn with
  | nil => rfl
  | append_singleton parts part ih =>
    rw [draft_append, lastMessage?_append, firstError?_append]
    cases part with
    | message text location => rfl
    | reason text =>
      have hnone : (Part.reason text).error? = none := rfl
      rw [hnone, Option.or_none]
      exact ih
    | error text location =>
      -- The error only matters if nothing was said and no other one was noticed before.
      rw [give, withError, ih, Option.or_assoc]
      cases (Chain.mk severity parts).firstError? <;> rfl

lemma draft_reason (chain : Chain) : chain.draft.reason = chain.lastReason? := by
  obtain ⟨severity, parts⟩ := chain
  induction parts using List.reverseRecOn with
  | nil => rfl
  | append_singleton parts part ih =>
    rw [draft_append, lastReason?_append]
    cases part with
    | message text location => exact ih
    | reason text | error text location => rfl

/-- The draft of a chain is a diagnostic exactly if the chain says it. -/
theorem diagnostic?_eq_some_iff {chain : Chain} {d : Diagnostic} :
    chain.draft.diagnostic? = some d ↔ chain.Says d := by
  rw [diagnostic?, draft_message, draft_severity, draft_reason]
  constructor
  · intro h
    cases hlast : chain.lastMessage? with
    | some told =>
      rw [hlast] at h
      obtain rfl := Option.some.inj h
      exact .told hlast
    | none =>
      cases hfirst : chain.firstError? with
      | some noticed =>
        rw [hlast, hfirst] at h
        obtain rfl := Option.some.inj h
        exact .noticed hlast hfirst
      | none =>
        rw [hlast, hfirst] at h
        cases h
  · rintro (hlast | ⟨hlast, hfirst⟩)
    · rw [hlast]
      rfl
    · rw [hlast, hfirst]
      rfl

lemma speaks_eq_false_iff {chain : Chain} :
    chain.speaks = false ↔ chain.lastMessage? = none ∧ chain.firstError? = none := by
  simp only [speaks, lastMessage?, firstError?, List.any_eq_false, List.getLast?_eq_none_iff,
    List.head?_eq_none_iff, List.filterMap_eq_nil_iff, ← forall_and]
  refine forall₂_congr fun part _ => ?_
  cases part <;> simp [Part.message?, Part.error?]

/-- A chain says nothing unless some call gives a message or an error with its place. -/
theorem diagnostic?_eq_none_iff {chain : Chain} :
    chain.draft.diagnostic? = none ↔ chain.speaks = false := by
  rw [diagnostic?, Option.map_eq_none_iff, draft_message, Option.or_eq_none_iff,
    Option.map_eq_none_iff, speaks_eq_false_iff]

end Chain

end Draft

/-! ## Histories of a collector -/

namespace Collector

variable {L : Type}

/-- What a collector is told. -/
inductive Event (L : Type) where
  /-- A listener takes the place of the one before. -/
  | listen (listener : L)
  /-- A chain of calls has come to its end. -/
  | emit (chain : Draft.Chain)

/-- The listener of an event that names one. -/
def Event.listener? : Event L → Option L
  | listen listener => some listener
  | emit _ => none

/-- The chain of an event that brings one. -/
def Event.chain? : Event L → Option Draft.Chain
  | listen _ => none
  | emit chain => some chain

/-- What the event does to the collector, and whether it is accepted.  A chain that is refused
leaves the collector as it is. -/
def perform (c : Collector L) : Event L → Bool × Collector L
  | .listen listener => (true, c.listen listener)
  | .emit chain =>
    match c.emit? chain.draft with
    | some c' => (true, c')
    | none => (false, c)

/-- The collector after events, beginning with an empty one. -/
def after (events : List (Event L)) : Collector L :=
  events.foldl (fun c event => (c.perform event).2) empty

/-- The listener that the events have named last. -/
def lastListener? (events : List (Event L)) : Option L :=
  (events.filterMap Event.listener?).getLast?

/-- The chains of the events that say something. -/
def spoken (events : List (Event L)) : List Draft.Chain :=
  (events.filterMap Event.chain?).filter Draft.Chain.speaks

/-! ### One event -/

lemma perform_emit_spoken {chain : Draft.Chain} {d : Diagnostic} (h : chain.Says d)
    (c : Collector L) : c.perform (.emit chain) = (true, c.add d) := by
  rw [perform, emit?, Draft.Chain.diagnostic?_eq_some_iff.2 h]
  rfl

lemma perform_emit_refused {chain : Draft.Chain} (h : chain.speaks = false)
    (c : Collector L) : c.perform (.emit chain) = (false, c) := by
  rw [perform, emit?, Draft.Chain.diagnostic?_eq_none_iff.2 h]
  rfl

lemma exists_says_of_speaks {chain : Draft.Chain} (h : chain.speaks = true) :
    ∃ d, chain.Says d := by
  have hsome : chain.draft.diagnostic? ≠ none := fun hnone => by
    rw [Draft.Chain.diagnostic?_eq_none_iff.1 hnone] at h
    cases h
  obtain ⟨d, hd⟩ := Option.ne_none_iff_exists'.1 hsome
  exact ⟨d, Draft.Chain.diagnostic?_eq_some_iff.1 hd⟩

/-! ### Any events -/

/-- What the collector holds after the events. -/
structure Holds (events : List (Event L)) (c : Collector L) : Prop where
  /-- The diagnostics are what the chains have said, in order. -/
  said : List.Forall₂ Draft.Chain.Says (spoken events) c.diagnostics
  /-- The errors among them have been counted. -/
  counted : c.errorCount = c.diagnostics.countP fun d => d.severity = .error
  /-- The listener is the one named last. -/
  listener_eq : c.listener = lastListener? events

lemma after_append (events : List (Event L)) (event : Event L) :
    after (events ++ [event]) = ((after events).perform event).2 := by
  rw [after, List.foldl_append]
  rfl

lemma lastListener?_append (events : List (Event L)) (event : Event L) :
    lastListener? (events ++ [event]) = event.listener?.or (lastListener? events) :=
  getLast?_filterMap_append Event.listener? events event

lemma spoken_append (events : List (Event L)) (event : Event L) :
    spoken (events ++ [event]) =
      spoken events ++ event.chain?.toList.filter Draft.Chain.speaks := by
  rw [spoken, List.filterMap_append, List.filter_append]
  cases event <;> rfl

/-- What one event preserves. -/
theorem Holds.perform {events : List (Event L)} {c : Collector L} (h : Holds events c)
    (event : Event L) : Holds (events ++ [event]) (c.perform event).2 := by
  cases event with
  | listen listener =>
    refine ⟨?_, h.counted, ?_⟩
    · rw [spoken_append]
      exact (List.append_nil (spoken events)).symm ▸ h.said
    · rw [lastListener?_append]
      rfl
  | emit chain =>
    have hlistener : c.listener = lastListener? (events ++ [.emit chain]) := by
      rw [lastListener?_append]
      exact h.listener_eq
    have hspoken : spoken (events ++ [.emit chain]) =
        spoken events ++ [chain].filter Draft.Chain.speaks := spoken_append events (.emit chain)
    cases hspeaks : chain.speaks with
    | true =>
      obtain ⟨d, hd⟩ := exists_says_of_speaks hspeaks
      rw [perform_emit_spoken hd]
      refine ⟨?_, ?_, hlistener⟩
      · rw [hspoken, List.filter_singleton, hspeaks]
        exact List.rel_append h.said (.cons hd .nil)
      · simp only [add, h.counted, List.countP_append, List.countP_singleton, decide_eq_true_eq]
    | false =>
      rw [perform_emit_refused hspeaks]
      refine ⟨?_, h.counted, hlistener⟩
      rw [hspoken, List.filter_singleton, hspeaks]
      exact (List.append_nil (spoken events)).symm ▸ h.said

theorem holds_after (events : List (Event L)) : Holds events (after events) := by
  induction events using List.reverseRecOn with
  | nil => exact ⟨.nil, rfl, rfl⟩
  | append_singleton events event ih =>
    rw [after_append]
    exact ih.perform event

lemma Holds.hasErrors_iff {events : List (Event L)} {c : Collector L} (h : Holds events c) :
    c.hasErrors ↔ ∃ d ∈ c.diagnostics, d.severity = .error := by
  rw [hasErrors, h.counted, decide_eq_true_iff, List.countP_pos_iff]
  simp only [decide_eq_true_eq]

/-- After any events, the diagnostics are what the chains among them have said, in order, and there
are errors exactly if one of them is an error.  A further chain that says something is accepted: its
diagnostic comes last, and the listener that was named last, and nobody else, hears of it once.  A
chain that says nothing is refused and changes nothing, and a new listener changes nothing but who
will be told. -/
theorem history_isFaithful (events : List (Event L)) :
    let c := after events
    List.Forall₂ Draft.Chain.Says (spoken events) c.diagnostics ∧
    (c.hasErrors ↔ ∃ d ∈ c.diagnostics, d.severity = .error) ∧
    (∀ chain d, chain.Says d → ∃ c', c.perform (.emit chain) = (true, c') ∧
      c'.diagnostics = c.diagnostics ++ [d] ∧
      c'.calls = c.calls ++ ((lastListener? events).map fun listener => (listener, d)).toList) ∧
    (∀ chain, chain.speaks = false → c.perform (.emit chain) = (false, c)) ∧
    ∀ listener, ∃ c', c.perform (.listen listener) = (true, c') ∧
      c'.diagnostics = c.diagnostics ∧ c'.hasErrors = c.hasErrors ∧ c'.calls = c.calls := by
  intro c
  have h : Holds events c := holds_after events
  refine ⟨h.said, h.hasErrors_iff, fun chain d hd => ?_, fun chain hspeaks => ?_,
    fun listener => ?_⟩
  · refine ⟨c.add d, perform_emit_spoken hd c, rfl, ?_⟩
    rw [← h.listener_eq]
    rfl
  · exact perform_emit_refused hspeaks c
  · exact ⟨c.listen listener, rfl, rfl, rfl, rfl⟩

end Collector

end LetDef
