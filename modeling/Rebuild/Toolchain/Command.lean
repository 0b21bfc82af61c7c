/-
  Commands: the command line of a request, and what running one came to.

  * `CompileRequest.commandLine` puts sources, units, destination and manifest in place of
    the arguments that stand for them;
  * `Machine.runCommand` runs a command line within a time limit, if there is one.
-/
import Rebuild.Machine.Process
import Rebuild.Toolchain.Request

namespace Rebuild

/-- The arguments that one argument of a command stands for. -/
def CompileRequest.expandArgument (r : CompileRequest) (argument : Text) : List Text :=
  if argument = "\x7bsources\x7d" then r.sources.toList
  else if argument = "\x7bunits\x7d" then r.units.map (·.1)
  else if argument = "\x7bdest\x7d" then [r.destination]
  else if argument = "\x7bmanifest\x7d" then [r.manifest]
  else [argument]

/-- The command line of a request.  Only whole arguments are replaced. -/
def CompileRequest.commandLine (r : CompileRequest) : List Text :=
  r.command.flatMap r.expandArgument

/-- What running a command came to. -/
structure CommandResult where
  launched : Bool
  timedOut : Bool := false
  /-- The exit code; none unless the command ended by itself. -/
  exit : Option Nat := none
  /-- What the command printed, errors included. -/
  output : Text
  /-- Milliseconds that it took. -/
  elapsed : Nat := 0
deriving DecidableEq, Repr

namespace CommandResult

/-- The exit code, with -1 for none. -/
def code (r : CommandResult) : Int := (r.exit.map Int.ofNat).getD (-1)

/-- The command ended by itself with code 0. -/
def success (r : CommandResult) : Bool := r.launched && !r.timedOut && r.exit == some 0

end CommandResult

/-- The exit code of a command that could not be executed. -/
def notExecuted : Nat := 127

namespace Machine

/-- What is told of a command that could not be executed. -/
def cannotExecute (name : Text) : Text := "Cannot execute '" ++ name ++ "'"

/-- Runs a command line until its output ends; no limit unless `limit` is positive.  What a
    command printed before the limit is kept.  A command whose output has ended is waited for
    without a limit. -/
def runCommand (m : Machine) (command : List Text) (limit : Int) : CommandResult × Machine :=
  match command with
  | [] => ({ launched := false, output := "Empty command" }, m)
  | name :: _ =>
    let deadline := if 0 < limit then some limit.toNat else none
    match m.launch command { errorsToo := true, deadline } with
    | .error _ =>
      ({ launched := true, exit := some notExecuted, output := cannotExecute name }, m)
    | .ok (r, m) =>
      match r.closed with
      | none =>
        let told : Text := "\nCommand timed out after " ++ Text.ofInt limit ++ " ms"
        ({ launched := true, timedOut := true, output := r.output ++ told
           elapsed := deadline.getD r.time }, m)
      | some closed =>
        let elapsed := max closed r.time
        match r.ended with
        | .exited code =>
          let silent := code == notExecuted && r.output.isEmpty
          ({ launched := true, exit := some code, elapsed
             output := if silent then cannotExecute name else r.output }, m)
        | _ => ({ launched := true, output := r.output, elapsed }, m)

end Machine

end Rebuild
