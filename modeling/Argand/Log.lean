import Argand.Text.Lines

/-!
# The message log

Messages go to a stream at once and, unless they are only for debugging, wait in
a buffer until somebody asks for them.  The buffer keeps the most recent messages
and forgets the oldest.

## Main definitions

* `Level`, `Message` — a text and how grave it is.
* `Report` — something to be logged; an error may have a cause.
* `Report.streamText`, `Report.message?` — what goes to the stream, what into the
  buffer.
* `Log` — the buffer, the newest message first.
* `Log.record`, `Log.clear`, `Log.coalesce` — logging, forgetting, handing over.
-/

namespace Argand

/-- How grave a message is. -/
inductive Level
  | debug
  | info
  | warning
  | error
  deriving DecidableEq, Repr

/-- The name of a level. -/
def Level.name : Level → String
  | .debug => "DEBUG"
  | .info => "INFO"
  | .warning => "WARNING"
  | .error => "ERROR"

/-- A text and its level. -/
structure Message where
  level : Level
  text : String
  deriving DecidableEq, Repr

/-- The lines of a message, each without blanks at its ends and with the level of
the message. -/
def Message.lines (m : Message) : List Message :=
  (Text.splitAtNewlines m.text.toList).map fun line => ⟨m.level, String.ofList (Text.trim line)⟩

/-- Something to be logged. -/
inductive Report
  | debug (text : String)
  | info (text : String)
  | warning (text : String)
  | error (text : String)
  | failure (text cause : String)
  deriving DecidableEq, Repr

namespace Report

/-- The level something is logged at. -/
def level : Report → Level
  | debug _ => .debug
  | info _ => .info
  | warning _ => .warning
  | error _ => .error
  | failure _ _ => .error

/-- The text of a report, without the cause of a failure. -/
def text : Report → String
  | debug text => text
  | info text => text
  | warning text => text
  | error text => text
  | failure text _ => text

/-- The line that a report has on the stream. -/
def headline (r : Report) : String := "[CGRAPH] [" ++ r.level.name ++ "] " ++ r.text

/-- A line and below it the traceback of a cause; nothing is below it if the traceback is empty. -/
def withTraceback (line traceback : String) : String :=
  if traceback = "" then line
  else if line.toList.getLast? = some '\n' then line ++ traceback
  else line ++ "\n" ++ traceback

/-- What goes to the stream.  The cause of a failure is shown below its line by a
traceback, whose text is not made here; reports without a cause have none. -/
def streamText (r : Report) (traceback : String) : String :=
  match r with
  | debug _ | info _ | warning _ | error _ => r.headline ++ "\n"
  | failure _ _ => withTraceback r.headline traceback ++ "\n"

/-- What waits in the buffer; debugging messages do not.  The cause of a failure is
told behind its text. -/
def message? : Report → Option Message
  | debug _ => none
  | info text => some ⟨.info, text⟩
  | warning text => some ⟨.warning, text⟩
  | error text => some ⟨.error, text⟩
  | failure text cause => some ⟨.error, text ++ ": " ++ cause⟩

end Report

/-- The messages that wait to be handed over, the newest first. -/
structure Log where
  buffer : List Message
  deriving DecidableEq, Repr

namespace Log

/-- How many messages the buffer keeps. -/
def capacity : Nat := 20

/-- The log without messages. -/
def empty : Log := ⟨[]⟩

/-- Puts a message into the buffer; the oldest has to go if it is full. -/
def push (l : Log) (m : Message) : Log := ⟨(m :: l.buffer).take capacity⟩

/-- Logs a report. -/
def record (l : Log) (r : Report) : Log :=
  match r.message? with
  | some m => l.push m
  | none => l

/-- Forgets the waiting messages. -/
def clear (_ : Log) : Log := empty

/-- How many messages there are, and their lines, the newest message first; after
that the buffer is empty. -/
def coalesce (l : Log) : (Nat × List Message) × Log :=
  ((l.buffer.length, l.buffer.flatMap (·.lines)), empty)

@[simp] theorem record_debug (l : Log) (text : String) : l.record (.debug text) = l := rfl

@[simp] theorem buffer_push (l : Log) (m : Message) :
    (l.push m).buffer = (m :: l.buffer).take capacity := rfl

/-- The buffer never grows beyond its capacity. -/
theorem length_buffer_push_le (l : Log) (m : Message) : (l.push m).buffer.length ≤ capacity := by
  simp only [buffer_push, List.length_take]
  omega

example : (Message.mk .warning "  a  \n\n\tb").lines.map (·.text) = ["a", "", "b"] := by decide

end Log

end Argand
