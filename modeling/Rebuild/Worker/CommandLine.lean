/-
  The command line of a worker.

      worker [--command-timeout-ms=N] [--log-level=LEVEL] [-v|-q]

  * `WorkerMode.ofArguments` says what the arguments ask for;
  * `Machine.worker` is a worker from its start to its end, with compile requests coming in
    on its input.
-/
import Rebuild.Machine.Logging
import Rebuild.Numeral
import Rebuild.Toolchain.Compile
import Rebuild.Worker.Loop

namespace Rebuild

/-- The version that a worker tells. -/
def version : Text := "0.3.0"

/-- What a worker is started for. -/
inductive WorkerMode
  /-- To tell how it is used. -/
  | usage
  /-- To tell its version. -/
  | version
  /-- To refuse this argument. -/
  | refuse (argument : Text)
  /-- To serve requests, with a time limit for commands in milliseconds if it is positive. -/
  | serve (limit : Int)
deriving DecidableEq, Repr

namespace WorkerMode

/-- The beginning of the argument with the time limit. -/
def limitOption : Text := "--command-timeout-ms="

/-- The time limit that a text gives: none if it is no numeral, or a negative one.  The
    empty text stands for zero.  The number is cut to 32 bits. -/
def limit? (t : Text) : Option Int :=
  if t = [] then some 0
  else match Numeral.read? t with
    | some n =>
      if n.rest = [] ∧ 0 ≤ n.clamped then some (Int32.ofInt n.clamped).toInt else none
    | none => none

/-- The mode by the arguments from here on, with the time limit so far.  The first argument
    that ends the reading wins, and unknown arguments are skipped. -/
def ofArgumentsFrom (limit : Int) : List Text → WorkerMode
  | [] => serve limit
  | a :: as =>
    if a = "--help" ∨ a = "-h" then usage
    else if a = "--version" then version
    else match Text.after? limitOption a with
      | none => ofArgumentsFrom limit as
      | some value =>
        match limit? value with
        | some limit => ofArgumentsFrom limit as
        | none => refuse a

/-- The mode by the arguments. -/
def ofArguments (args : List Text) : WorkerMode := ofArgumentsFrom 0 args

end WorkerMode

/-- The lines about the use of a worker. -/
def workerUsage : Text :=
  "Usage: kiln-worker [--command-timeout-ms=N] [--log-level=LEVEL] [-v|-q]\n" ++
    "Serves kiln compile requests on stdin/stdout.\n"

/-- What a worker did. -/
structure WorkerRun where
  /-- The exit code; none while it waits for more requests. -/
  code : Option Nat
  responses : List Response := []
  /-- What went to the error stream. -/
  errors : Text
  machine : Machine

/-- Answers compile requests on a machine. -/
def compileHandler (limit : Int) : Handler Machine := fun m payload =>
  let (r, _, m) := m.compile limit payload
  (r, m)

/-- The name of the variable with the fingerprint of a worker. -/
def fingerprintVariable : Text := "KILN_WORKER_FINGERPRINT"

/-- What a worker tells when it begins. -/
def servingEntry (process : Text) (fingerprint : Option Text) : Log.Entry :=
  ⟨.debug, "worker", "kiln-worker " ++ process ++ " serving fingerprint " ++
    fingerprint.getD "(none)"⟩

/-- What a worker tells when it ends. -/
def exitingEntry (process : Text) (code : Nat) : Log.Entry :=
  ⟨.debug, "worker", "kiln-worker " ++ process ++ " exiting with " ++ Text.ofNat code⟩

namespace Machine

/-- Serves requests. -/
def serve (m : Machine) (process stamp : Text) (args : List Text) (limit : Int) (s : Inflow) :
    WorkerRun :=
  let options := Log.Options.ofArguments args (m.environment.getD "KILN_LOG" [])
  let l := ({ machine := m : LoggedMachine }).init options
  let l := l.log stamp (servingEntry process m.environment[fingerprintVariable]?)
  let trace := WorkerLoop.serve (compileHandler limit) true l.machine s
  let l := { l with machine := trace.state }
  match trace.code with
  | none => ⟨none, trace.responses, l.errors, l.machine⟩
  | some code =>
    let l := l.log stamp (exitingEntry process code)
    let l := l.after l.logger.flush
    ⟨some code, trace.responses, l.errors, l.machine⟩

/-- A worker with these arguments and requests.  `process` is the number of its process,
    and `stamp` the time that its log lines bear. -/
def worker (m : Machine) (process stamp : Text) (args : List Text) (s : Inflow) : WorkerRun :=
  match WorkerMode.ofArguments args with
  | .usage => { code := some 0, errors := workerUsage, machine := m }
  | .version => { code := some 0, errors := "kiln-worker " ++ version ++ "\n", machine := m }
  | .refuse a => { code := some 2, errors := "kiln-worker: invalid " ++ a ++ "\n", machine := m }
  | .serve limit => m.serve process stamp args limit s

end Machine

end Rebuild
