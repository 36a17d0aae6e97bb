import LetDef.Fault
import LetDef.File.Position
import LetDef.File.Store

/-!
# Diagnostics

A diagnostic is a message for the user, with a severity, possibly a place in a loaded file and
possibly the text of the error behind it.  It is put together as a `Draft`, whose parts may be given
in any order: a message that is given replaces an earlier one, whereas a fault only provides a
message and a place if there is none yet.  A draft without a message is no diagnostic.

`Diagnostic.render` is the line that the user sees.
-/

namespace LetDef

/-- How serious a diagnostic is. -/
inductive Severity where
  /-- Something went wrong. -/
  | error
  /-- Something may be wrong. -/
  | warning
deriving DecidableEq

/-- The name under which a severity is written down. -/
def Severity.name : Severity → String
  | error => "Error"
  | warning => "Warn"

/-- The word that starts a line about something of the severity; all of them are equally wide. -/
def Severity.label : Severity → String
  | error => "ERROR"
  | warning => "WARN "

/-- A place in a loaded file. -/
structure Location where
  /-- The file. -/
  file : FileId
  /-- The index of a character in it. -/
  offset : Nat
deriving DecidableEq

/-- A message for the user. -/
structure Diagnostic where
  /-- How serious it is. -/
  severity : Severity
  /-- What it says. -/
  message : String
  /-- The place it is about, if it is about one. -/
  location : Option Location
  /-- The text of the error behind it, if there is one. -/
  reason : Option String
deriving DecidableEq

namespace Diagnostic

/-- A fault in a loaded file. -/
def ofFault (file : FileId) (fault : Fault) : Diagnostic :=
  ⟨.error, fault.message, some ⟨file, fault.offset⟩, some fault.message⟩

/-- An error that is about no place in a file. -/
def unplaced (message : String) : Diagnostic :=
  ⟨.error, message, none, none⟩

end Diagnostic

/-! ## Drafts -/

/-- A diagnostic that is being put together. -/
structure Draft where
  /-- How serious it is. -/
  severity : Severity
  /-- What it says so far, and where. -/
  message : Option (String × Option Location)
  /-- The text of the error behind it, as far as one was given. -/
  reason : Option String

namespace Draft

/-- A draft without a message. -/
def blank (severity : Severity) : Draft := ⟨severity, none, none⟩

/-- Says something, with a place or without, in place of what was said before. -/
def withMessage (draft : Draft) (text : String) (location : Option Location) : Draft :=
  { draft with message := some (text, location) }

/-- Gives the text of the error behind it, in place of an earlier one. -/
def withReason (draft : Draft) (text : String) : Draft :=
  { draft with reason := some text }

/-- Gives the text of an error behind it that knows its place.  The text is also said, at that
place, unless something was said before. -/
def withError (draft : Draft) (text : String) (location : Location) : Draft :=
  { draft with
    message := draft.message.or (some (text, some location))
    reason := some text }

/-- Gives a fault as the error behind it. -/
def withFault (draft : Draft) (file : FileId) (fault : Fault) : Draft :=
  draft.withError fault.message ⟨file, fault.offset⟩

/-- The diagnostic, once there is a message. -/
def diagnostic? (draft : Draft) : Option Diagnostic :=
  draft.message.map fun (text, location) => ⟨draft.severity, text, location, draft.reason⟩

end Draft

/-- A draft with nothing but a fault becomes the diagnostic of that fault. -/
theorem diagnostic?_withFault_blank (file : FileId) (fault : Fault) :
    ((Draft.blank .error).withFault file fault).diagnostic? =
      some (Diagnostic.ofFault file fault) := rfl

/-! ## Lines for the user -/

/-- The place as it is shown: path, line and column, or the mere index if the store has no such
file. -/
def Location.render (store : FileStore) (location : Location) : String :=
  match store.get? location.file with
  | some file => file.path ++ ":" ++ (Position.locate file.text location.offset).render
  | none => "<unknown>@" ++ toString location.offset

/-- The line that the user sees, without its line break. -/
def Diagnostic.render (store : FileStore) (d : Diagnostic) : String :=
  d.severity.label ++ " " ++
    (match d.location with
      | some location => location.render store ++ " "
      | none => "") ++ d.message

end LetDef
