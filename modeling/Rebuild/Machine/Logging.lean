/-
  Logging on a machine: what loggers want to have written is written to its files, and what
  goes to the error stream is kept.
-/
import Rebuild.Log.Logger
import Rebuild.Machine.FileTree.Change
import Rebuild.Machine.Process

namespace Rebuild

/-- A logger on a machine. -/
structure LoggedMachine where
  machine : Machine
  logger : Log.Logger := {}
  /-- What went to the error stream. -/
  errors : Text := []
  /-- What went to sinks that are watched: entries, and none for a flush. -/
  watched : List (Option Log.Entry) := []

namespace LoggedMachine

/-- Does what a sink wants. -/
def emit (l : LoggedMachine) : Log.Emission → LoggedMachine
  | .stderr t => { l with errors := l.errors ++ t }
  | .append _ [] => l
  | .append path t => { l with machine.tree := (l.machine.tree.attempt (l.machine.tree.append path t)).1 }
  | .entry e => { l with watched := l.watched ++ [some e] }
  | .flush => { l with watched := l.watched ++ [none] }

/-- Takes a change of the logger and does what its sinks want. -/
def after (l : LoggedMachine) (change : Log.Logger × List Log.Emission) : LoggedMachine :=
  change.2.foldl emit { l with logger := change.1 }

/-- Opens a file to log to, which makes it if there is none; whether that worked. -/
def openFile (l : LoggedMachine) (path : Text) : Bool × LoggedMachine :=
  match l.machine.tree.openAtEnd path with
  | .ok tree => (true, { l with machine.tree := tree })
  | .error _ => (false, l)

/-- Starts logging anew. -/
def init (l : LoggedMachine) (o : Log.Options) : LoggedMachine :=
  let (isOpen, l) := if o.file = [] then (false, l) else l.openFile o.file
  l.after (l.logger.init o isOpen)

/-- Logs an entry if it passes. -/
def log (l : LoggedMachine) (stamp : Text) (e : Log.Entry) : LoggedMachine :=
  l.after (l.logger.report stamp e)

end LoggedMachine

end Rebuild
