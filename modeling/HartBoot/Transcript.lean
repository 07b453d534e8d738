/-!
Contract: what a run says while it works.

Owns:
- `Severity`, the five levels of a message, and their order;
- `Note`, a printed line or a message of some severity;
- `Transcript`, notes in the order in which they were made, and the views that a reader of the
  console or of the log has of them.

Does not own: when a note is made, and where it is written to.
-/

namespace HartBoot

/-- How serious a message is, from the most serious to the most detailed. -/
inductive Severity where
  | error
  | warn
  | info
  | debug
  | trace
  deriving DecidableEq, Repr

namespace Severity

/-- Position in the order; a larger rank is more detailed. -/
def rank : Severity → Nat
  | .error => 0
  | .warn => 1
  | .info => 2
  | .debug => 3
  | .trace => 4

/-- The word that stands in front of a message. -/
def label : Severity → String
  | .error => "ERROR"
  | .warn => "WARN"
  | .info => "INFO"
  | .debug => "DEBUG"
  | .trace => "TRACE"

end Severity

/-- One thing that a run says. -/
inductive Note where
  /-- A line of the program's own output. -/
  | line (text : String)
  /-- A message for the log. -/
  | message (severity : Severity) (text : String)
  deriving DecidableEq, Repr

/-- Notes in the order in which they were made. -/
abbrev Transcript := List Note

namespace Note

def info (text : String) : Note := .message .info text

/-- A message about a value that was read or written. -/
def debug (text : String) : Note := .message .debug text

def trace (text : String) : Note := .message .trace text

/-- A message about something unusual that is no error. -/
def warn (text : String) : Note := .message .warn text

/-- The text of a note on the console: a message carries its severity. -/
def console : Note → String
  | .line text => text
  | .message severity text => severity.label ++ " " ++ text

end Note

namespace Transcript

def lines (transcript : Transcript) : List String :=
  transcript.filterMap fun
    | .line text => some text
    | .message _ _ => none

/-- The messages up to a level of detail, each with its severity. -/
def messages (transcript : Transcript) (limit : Severity) : List String :=
  transcript.filterMap fun
    | .line _ => none
    | .message severity text =>
      if severity.rank ≤ limit.rank then some (Note.message severity text).console else none

/-- Everything that the console shows when messages up to a level of detail are wanted. -/
def console (transcript : Transcript) (limit : Severity) : List String :=
  transcript.filterMap fun note =>
    match note with
    | .line text => some text
    | .message severity _ =>
      if severity.rank ≤ limit.rank then some note.console else none

end Transcript

end HartBoot
