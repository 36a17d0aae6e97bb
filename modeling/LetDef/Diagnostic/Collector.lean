import LetDef.Diagnostic.Basic

/-!
# Collecting diagnostics

A collector keeps the diagnostics that it is given, in order, and counts the errors among them.  It
may have a listener, which hears of each diagnostic once, at the time when it is collected; the
calls made to listeners are kept too, so that one can say who heard what.
-/

namespace LetDef

/-- The diagnostics so far, and who was told of them.  Listeners are known by
values of type `L`. -/
structure Collector (L : Type) where
  /-- The diagnostics, in order. -/
  diagnostics : List Diagnostic
  /-- How many of them are errors. -/
  errorCount : Nat
  /-- Who is told of the next one. -/
  listener : Option L
  /-- Who was told of what, in order. -/
  calls : List (L × Diagnostic)

namespace Collector

variable {L : Type}

/-- A collector that has collected nothing and has no listener. -/
def empty : Collector L := ⟨[], 0, none, []⟩

/-- Puts a listener in place of the one before. -/
def listen (c : Collector L) (listener : L) : Collector L :=
  { c with listener := some listener }

/-- Whether an error has been collected. -/
def hasErrors (c : Collector L) : Bool := 0 < c.errorCount

/-- Collects a diagnostic and tells the listener. -/
def add (c : Collector L) (d : Diagnostic) : Collector L :=
  { c with
    diagnostics := c.diagnostics ++ [d]
    errorCount := c.errorCount + (if d.severity = .error then 1 else 0)
    calls := c.calls ++ (c.listener.map fun listener => (listener, d)).toList }

/-- Collects what a draft has become; a draft without a message is refused. -/
def emit? (c : Collector L) (draft : Draft) : Option (Collector L) :=
  draft.diagnostic?.map c.add

end Collector

end LetDef
