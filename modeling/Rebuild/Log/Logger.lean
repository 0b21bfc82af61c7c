/-
  The logger: a gate and the sinks that passing entries go to.

  A sink never writes by itself; it says what is to be written where (`Emission`),
  and the host does it.  A file sink holds its lines back: up to an error, up to a
  flush, or until a line no longer fits its buffer.
-/
import Rebuild.Log.Options

namespace Rebuild.Log

/-- Where entries go. -/
inductive Sink
  /-- The error stream. -/
  | stderr
  /-- The end of a file, with the lines that are still held back. -/
  | file (path : Text) (pending : Text)
  /-- Whoever watches. -/
  | capture

/-- What a sink wants done. -/
inductive Emission
  | stderr (text : Text)
  | append (path text : Text)
  | entry (e : Entry)
  | flush

namespace Sink

/-- The number of bytes that a file sink can hold back. -/
def bufferSize : Nat := 8191

/-- A line of this length is never held back. -/
def longLine : Nat := 1024

/-- Takes an entry.  A file sink holds its line back unless it is an error, is long,
    or does not fit beside what is held back already. -/
def write (stamp : Text) (e : Entry) : Sink → Sink × List Emission
  | stderr => (stderr, [.stderr (e.line stamp)])
  | capture => (capture, [.entry e])
  | file path pending =>
    let line := e.line stamp
    if Level.error ≤ e.level ∨ min longLine (bufferSize - pending.length) ≤ line.length then
      (file path [], [.append path (pending ++ line)])
    else (file path (pending ++ line), [])

/-- Lets go of what is held back. -/
def flush : Sink → Sink × List Emission
  | stderr => (stderr, [])
  | capture => (capture, [.flush])
  | file path pending => (file path [], [.append path pending])

/-- What a sink still writes when it is closed. -/
def close : Sink → List Emission
  | file path pending => [.append path pending]
  | _ => []

end Sink

/-- A gate, and sinks in the order in which they get an entry. -/
structure Logger where
  gate : Gate := {}
  sinks : List Sink := [.stderr]

namespace Logger

/-- Lets every sink do its part, in order. -/
private def each (l : Logger) (act : Sink → Sink × List Emission) : Logger × List Emission :=
  let done := l.sinks.map act
  ({ l with sinks := done.map (·.1) }, done.flatMap (·.2))

/-- Gives an entry to every sink, whatever the gate says. -/
def write (l : Logger) (stamp : Text) (e : Entry) : Logger × List Emission :=
  l.each (Sink.write stamp e)

/-- Gives an entry to every sink if it passes the gate. -/
def report (l : Logger) (stamp : Text) (e : Entry) : Logger × List Emission :=
  if l.gate.passes e.level e.topic then l.write stamp e else (l, [])

/-- Lets every sink write what it holds back. -/
def flush (l : Logger) : Logger × List Emission := l.each Sink.flush

/-- Adds a sink behind the others. -/
def addSink (l : Logger) (s : Sink) : Logger := { l with sinks := l.sinks ++ [s] }

/-- Closes all sinks. -/
def clearSinks (l : Logger) : Logger × List Emission :=
  ({ l with sinks := [] }, l.sinks.flatMap Sink.close)

/-- Sets the level of the topics without one of their own. -/
def setLevel (l : Logger) (level : Level) : Logger := { l with gate := l.gate.setLevel level }

/-- Replaces the levels of the topics. -/
def setFilter (l : Logger) (spec : Text) : Logger := { l with gate := l.gate.setFilter spec }

/-- Starts over with the gate of the options and the error stream, and with the log
    file if there is one and it could be opened; closes the old sinks. -/
def init (l : Logger) (o : Options) (fileOpen : Bool) : Logger × List Emission :=
  let file := if o.file = [] then [] else if fileOpen then [Sink.file o.file []] else []
  let warning := if o.file = [] ∨ fileOpen then [] else
    [Emission.stderr ("warning: could not open log file: " ++ o.file ++ "\n")]
  ({ gate := .init o.level o.filter, sinks := .stderr :: file }, warning ++ l.clearSinks.2)

end Logger

end Rebuild.Log
