/-
  Compiling: what a worker does with a compile request.

  It makes the destination, removes an old manifest, runs the command and reads what the
  command wrote into the manifest.

  * `CompileRequest.response` is the response to a request by what the command and the
    manifest said; a unit that the manifest does not tell of counts as depending on
    everything;
  * `Machine.compile` answers a payload.
-/
import Rebuild.Machine.FileScript
import Rebuild.Toolchain.Command
import Rebuild.Toolchain.Manifest

namespace Rebuild

/-- Why a payload has no response. -/
inductive CompileError
  /-- The payload is no request. -/
  | malformed
  /-- The command did not succeed. -/
  | command (result : CommandResult)
  /-- The manifest is there and cannot be opened. -/
  | unreadable (manifest : Text)
  | manifest (error : ManifestError)

/-- What is told about a command that did not succeed. -/
def CommandResult.complaint (r : CommandResult) : Text :=
  let first : Text :=
    if r.timedOut then "Toolchain timed out"
    else if r.launched then "Toolchain exited with code " ++ Text.ofInt r.code
    else "Toolchain could not be started"
  if r.output = [] then first else first ++ "\n" ++ r.output

/-- The wording of an error. -/
def CompileError.message : CompileError → Text
  | malformed => "Malformed compile request"
  | command result => result.complaint
  | unreadable file => "Cannot read dependency manifest " ++ file
  | manifest error => error.message

/-- The dependency of a unit that depends on everything. -/
def unreported (unit source : Text) : UnitRecord :=
  { name := unit, source, dependencies := TextSet.ofTexts [wildcard] }

/-- The records with one for this unit at their end unless it has one already. -/
def addUnreported (records : List UnitRecord) (unit : Text × Text) : List UnitRecord :=
  if records.any (·.name == unit.1) then records else records ++ [unreported unit.1 unit.2]

namespace CompileRequest

/-- The records that a manifest has. -/
def reported (manifest : FileReading) (file : Text) : Except CompileError (List UnitRecord) :=
  match manifest.bytes? with
  | some t => (Manifest.parse t).mapError .manifest
  | none => if manifest = .absent then .ok [] else .error (.unreadable file)

/-- The response by what the command and the manifest said. -/
def response (r : CompileRequest) (result : CommandResult) (manifest : FileReading) :
    Except CompileError CompileResponse := do
  if !result.success then throw (.command result)
  let records ← reported manifest r.manifest
  return ⟨r.units.foldl addUnreported records, result.output⟩

end CompileRequest

namespace Machine

/-- Carries out a request: what the command came to, and what the manifest then has. -/
def carryOut (m : Machine) (limit : Int) (r : CompileRequest) :
    CommandResult × FileReading × Machine :=
  let tree := if r.destination = [] then m.tree else
    (m.tree.attempt (m.tree.makeDirectories r.destination)).1
  let tree := if r.manifest = [] then tree else
    (tree.attempt ((tree.remove r.manifest).map (·.2))).1
  let (result, m) := { m with tree }.runCommand r.commandLine limit
  (result, if r.manifest = [] then .absent else m.tree.reading r.manifest, m)

/-- Answers a payload, with a time limit for the command if it is positive: the answer, the
    milliseconds that it took, and the machine after it. -/
def compile (m : Machine) (limit : Int) (payload : Text) : Except Text Text × Nat × Machine :=
  match CompileRequest.decode? payload with
  | none => (.error CompileError.malformed.message, 0, m)
  | some r =>
    let (result, manifest, m) := m.carryOut limit r
    match r.response result manifest with
    | .ok response => (.ok response.encode, result.elapsed, m)
    | .error e => (.error e.message, result.elapsed, m)

end Machine

end Rebuild
