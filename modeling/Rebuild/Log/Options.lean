/-
  The logging options of a command line, with an environment variable behind them.

  * `Options.ofArguments` reads `--log-level=`, `--log-filter=`, `--log-file=`, `-v`,
    `-vv`, `-vvv`, `--verbose`, `-q` and `--quiet`, and skips every other argument.
-/
import Rebuild.Log.Filter

namespace Rebuild.Log

/-- Where to log and what. -/
structure Options where
  level : Level := .info
  /-- Levels of topics, in the form that `Filter.parse` reads. -/
  filter : Text := []
  /-- A file to log to as well; empty for none. -/
  file : Text := []
deriving DecidableEq, Repr

namespace Options

/-- What the arguments read so far have said. -/
private structure Seen where
  level : Option Level := none
  filter : Option Text := none
  file : Text := []
  /-- How verbose `-v` and its repeats ask to be. -/
  verbosity : Nat := 0

/-- The number of letters in `-` followed by letters `v` only, at least one. -/
private def verbosityOf (arg : Text) : Option Nat :=
  match arg with
  | dash :: first :: more =>
    if dash = Text.byte '-' ∧ (first :: more).all (· == Text.byte 'v') then some (more.length + 1)
    else none
  | _ => none

/-- Takes one argument into account; a later level, filter or file replaces an
    earlier one. -/
private def read (s : Seen) (arg : Text) : Seen :=
  if let some name := Text.after? "--log-level=" arg then { s with level := some (Level.parse name) }
  else if let some spec := Text.after? "--log-filter=" arg then { s with filter := some spec }
  else if let some path := Text.after? "--log-file=" arg then { s with file := path }
  else if arg = "-q" ∨ arg = "--quiet" then { s with level := some .error }
  else if arg = "--verbose" then { s with verbosity := max s.verbosity 1 }
  else match verbosityOf arg with
    | some n => { s with verbosity := max s.verbosity n }
    | none => s

/-- The level that a number of letters `v` asks for. -/
def levelOfVerbosity (n : Nat) : Level := if n ≥ 3 then .trace else if n = 2 then .debug else .info

/-- The options of the arguments.  An explicit level wins over `-v`; the variable
    `env` counts only if the arguments give neither a level nor a filter, as a
    filter if it holds `=` or `,` and as a level otherwise. -/
def ofArguments (args : List Text) (env : Text) : Options :=
  let s := args.foldl read {}
  let level := s.level <|> (if s.verbosity > 0 then some (levelOfVerbosity s.verbosity) else none)
  let base : Options := ⟨level.getD .warn, s.filter.getD [], s.file⟩
  if level.isSome ∨ s.filter.isSome ∨ env = [] then base
  else if env.contains (Text.byte '=') ∨ env.contains (Text.byte ',') then { base with filter := env }
  else { base with level := Level.parse env }

end Options

end Rebuild.Log
