/-
  Log levels and log entries.

  * levels are ordered from `trace` to `off`; `Level.parse` reads a name in any case;
  * an entry has a level, the topic it belongs to and a message; `Entry.line` is its
    written form behind a time stamp.
-/
import Rebuild.Text

namespace Rebuild.Log

/-- How important an entry is.  `off` stands above every level. -/
inductive Level
  | trace | debug | info | warn | error | off
deriving DecidableEq, Repr

namespace Level

/-- The levels, the least important first. -/
def all : List Level := [trace, debug, info, warn, error, off]

/-- The place of a level in the order. -/
def rank : Level → Nat
  | trace => 0
  | debug => 1
  | info => 2
  | warn => 3
  | error => 4
  | off => 5

instance : LE Level := ⟨fun a b => a.rank ≤ b.rank⟩

instance (a b : Level) : Decidable (a ≤ b) := inferInstanceAs (Decidable (a.rank ≤ b.rank))

/-- The lower of two levels. -/
def least (a b : Level) : Level := if a ≤ b then a else b

/-- The displayed name of a level. -/
def name : Level → Text
  | trace => "TRACE"
  | debug => "DEBUG"
  | info => "INFO"
  | warn => "WARN"
  | error => "ERROR"
  | off => "OFF"

/-- The level of a name in any case; `info` for a text that names none. -/
def parse (t : Text) : Level :=
  (all.find? fun l => l.name.toLower == t.toLower).getD info

end Level

/-- Something worth telling. -/
structure Entry where
  level : Level
  /-- The part of the program that speaks, such as `worker` or `store`. -/
  topic : Text
  message : Text
deriving DecidableEq, Repr

/-- The written form of an entry: stamp, level in five columns, topic, message. -/
def Entry.line (stamp : Text) (e : Entry) : Text :=
  stamp ++ " " ++ e.level.name.padEnd 5 ++ " [" ++ e.topic ++ "] " ++ e.message ++ "\n"

end Rebuild.Log
