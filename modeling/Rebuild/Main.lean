/-
  The program of a worker: it serves the requests that come in on the standard input, on a
  machine of its own that holds nothing but the directories and programs of a fresh one.

  Everything that it answers is `Machine.worker`; this module only moves bytes.
-/
import Rebuild.Machine.Shell.Launch
import Rebuild.Worker.CommandLine

namespace Rebuild

/-- Reads a stream up to its end. -/
partial def readToEnd (s : IO.FS.Stream) (read : ByteArray) : IO ByteArray := do
  let more ← s.read 65536
  if more.isEmpty then return read else readToEnd s (read ++ more)

/-- The variables that a worker looks at. -/
def workerVariables : List String := ["KILN_LOG", "KILN_WORKER_FINGERPRINT"]

/-- The environment of the process, as far as a worker looks at it. -/
def workerEnvironment : IO (TextMap Text) :=
  workerVariables.foldlM (fun m name => do
    match ← IO.getEnv name with
    | some value => return m.insert (Text.ofString name) (Text.ofString value)
    | none => return m) ∅

/-- Writes bytes to a stream. -/
def writeText (s : IO.FS.Stream) (t : Text) : IO Unit := do
  s.write ⟨t.toArray⟩
  s.flush

end Rebuild

open Rebuild in
/-- Serves the requests on the standard input. -/
def main (args : List String) : IO UInt32 := do
  let input ← readToEnd (← IO.getStdin) .empty
  let machine : Machine := ⟨.start, ← workerEnvironment⟩
  let requests : Inflow := ⟨[input.data.toList], true⟩
  let run := machine.worker "1" "00:00:00.000" (args.map Text.ofString) requests
  writeText (← IO.getStdout) (run.responses.flatMap fun r => Frame.encode r.encode)
  writeText (← IO.getStderr) run.errors
  return UInt32.ofNat (run.code.getD 1)
