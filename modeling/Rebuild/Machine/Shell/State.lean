/-
  The state of a shell: its variables, its open files, its place in time.

  * an open file is a `Handle`, and descriptors lead to handles; commands that share a
    handle share its position;
  * `Run` is what a command does: it changes the state, and it may stop the script;
  * time passes only where a command waits, and a script does not go on behind its
    deadline.
-/
import Rebuild.Machine.FileTree.Change
import Rebuild.Machine.Shell.Syntax

namespace Rebuild

/-- An open file. -/
inductive Handle
  /-- A text to read; `more` if more of it may come some day. -/
  | input (rest : Text) (more : Bool)
  /-- Zero bytes without end. -/
  | zeros
  /-- What is written is kept with the time of writing, the latest first. -/
  | sink (written : List (Nat × Text))
  /-- The end of the file at a place. -/
  | file (up : List Text)
  /-- Nothing to read, and nothing is kept. -/
  | null

/-- Why a script does not go on. -/
inductive Stop
  | exit (code : Nat)
  /-- A signal ended the process. -/
  | signal (number : Nat)
  /-- It waits for input that has not come yet. -/
  | waiting
  /-- The deadline has passed. -/
  | late
  /-- Leaves so many loops; the last of them goes on if `again` is set. -/
  | leave (loops : Nat) (again : Bool)
  /-- Leaves a function. -/
  | back (status : Nat)

/-- A shell at work. -/
structure Shell where
  tree : FileTree
  /-- Milliseconds since the process was started. -/
  time : Nat := 0
  deadline : Option Nat := none
  handles : Array Handle := #[]
  /-- The handle of each open descriptor. -/
  descriptors : List (Nat × Nat) := []
  /-- The values of variables. -/
  bindings : TextMap Text := ∅
  /-- The variables that programs see. -/
  exported : TextSet := ∅
  /-- The name that the script goes by. -/
  name : Text := []
  arguments : List Text := []
  functions : TextMap Rebuild.Shell.Command := ∅
  /-- Within a function, what the variables of its own had for values outside. -/
  locals : Option (List (Text × Option Text)) := none
  status : Nat := 0
  directory : Text := "/"
  /-- The line of the command that runs. -/
  line : Nat := 1
  /-- The script ends when a command fails of which the status is not looked at. -/
  ending : Bool := false
  /-- The status of the command that runs is looked at. -/
  tested : Bool := false
  /-- A variable without a value ends the script. -/
  strict : Bool := false
  /-- What is run at the end. -/
  atExit : Text := []
  /-- The signals that have no effect. -/
  ignored : List Nat := []
  /-- This is the process itself and not one that it has started. -/
  isMain : Bool := true
  /-- When the process let go of its output, if it did before its end. -/
  released : Option Nat := none
  /-- When the last of the commands beside it let go of the output. -/
  holders : Nat := 0
  /-- When the last of the commands beside it ends. -/
  children : Nat := 0

/-- What a command does. -/
abbrev Run (α : Type) := ExceptT Stop (StateM Shell) α

namespace Shell

/-- The handle of a descriptor, with its number. -/
def handle? (s : Shell) (fd : Nat) : Option (Nat × Handle) := do
  let i ← s.descriptors.lookup fd
  return (i, ← s.handles[i]?)

/-- A path as seen from the directory of the shell. -/
def path (s : Shell) (p : Text) : Text := if p = [] then [] else Path.join s.directory p

/-- The value of a variable. -/
def value (s : Shell) (name : Text) : Text := s.bindings.getD name []

/-! ## Reading and writing -/

/-- Replaces a handle. -/
def setHandle (i : Nat) (h : Handle) : Run Unit :=
  modify fun s => { s with handles := s.handles.setIfInBounds i h }

/-- Writes to a descriptor. -/
def write (fd : Nat) (t : Text) : Run Unit := do
  let s ← get
  match s.handle? fd with
  | some (i, .sink written) => if t ≠ [] then setHandle i (.sink ((s.time, t) :: written))
  | some (_, .file up) =>
    match s.tree.node? up with
    | some (.file old _) => set { s with tree := s.tree.putFile up (old ++ t) }
    | _ => return
  | _ => return

/-- Prints to the standard output. -/
def print (t : Text) : Run Unit := write 1 t

/-- What is left to read at a descriptor, or nothing if that does not end. -/
def available (fd : Nat) : Run (Option (Text × Bool)) := do
  match (← get).handle? fd with
  | some (_, .input rest more) => return some (rest, more)
  | some (_, .zeros) => return none
  | _ => return some ([], false)

/-- Leaves this text at a descriptor. -/
def leave (fd : Nat) (rest : Text) : Run Unit := do
  match (← get).handle? fd with
  | some (i, .input _ more) => setHandle i (.input rest more)
  | _ => return

/-- Reads up to `n` bytes; waits as long as fewer are there and more may come. -/
def readBytes (fd n : Nat) : Run Text := do
  match ← available fd with
  | none => return List.replicate n 0
  | some (rest, more) =>
    leave fd (rest.drop n)
    if more && !rest.hasAtLeast n then throw .waiting
    return rest.take n

/-- Reads a line, and tells whether it ended with a newline. -/
def readLine (fd : Nat) : Run (Text × Bool) := do
  match ← available fd with
  | none => throw .waiting
  | some (rest, more) =>
    match rest.cut newline with
    | (before, some after) =>
      leave fd after
      return (before, true)
    | (before, none) =>
      leave fd []
      if more then throw .waiting
      return (before, false)

/-- Reads all that is there; what comes before a wait is given to `each`. -/
def readAll (fd : Nat) (each : Text → Run Unit) : Run Unit := do
  match ← available fd with
  | none => throw .late
  | some (rest, more) =>
    leave fd []
    each rest
    if more then throw .waiting

/-! ## Files and descriptors -/

/-- Opens a file for reading. -/
def openInput (s : Shell) (p : Text) : Except FileFault Handle := do
  match ← s.tree.find (s.path p) with
  | .file content _ => return .input content false
  | .zeros => return .zeros
  | .fifo => return .input [] true
  | _ => return .null

/-- Opens a file for writing, at its end or anew. -/
def openOutput (s : Shell) (p : Text) (append : Bool) : Except FileFault (Handle × FileTree) := do
  match ← s.tree.openForWriting (s.path p) with
  | (up, some old) => return (.file up, if append ∧ old ≠ [] then s.tree else
      s.tree.putFile up (if append then old else []))
  | (_, none) => return (.null, s.tree)

/-- Lets a descriptor lead to a new handle. -/
def connect (fd : Nat) (h : Handle) : Run Unit :=
  modify fun s => { s with
    handles := s.handles.push h
    descriptors := (fd, s.handles.size) :: s.descriptors.filter (·.1 ≠ fd) }

/-- Runs with the descriptors of the moment, whatever happens to them. -/
def keepingDescriptors {α : Type} (r : Run α) : Run α := fun s =>
  let (a, t) := r.run.run s
  (a, { t with descriptors := s.descriptors })

/-- Runs as a shell of its own: what it changes in itself does not come back. -/
def separately {α : Type} (r : Run α) : Run α := fun s =>
  let (a, t) := r.run.run { s with isMain := false, children := 0 }
  (a, { s with
    tree := t.tree, time := t.time, handles := t.handles, status := t.status
    released := t.released, holders := t.holders, deadline := t.deadline })

/-- Runs a part of which the end is not the end of the script: its status. -/
def untilExit (r : Run Unit) : Run Nat := fun s =>
  match r.run.run s with
  | (.error (.exit code), t) | (.error (.back code), t) => (.ok code, { t with status := code })
  | (.error stop, t) => (.error stop, t)
  | (.ok (), t) => (.ok t.status, t)

/-- Gives variables back the values that they had. -/
def restore (values : List (Text × Option Text)) (s : Shell) : Shell :=
  { s with bindings := values.foldl (fun m (name, value) => m.alter name fun _ => value) s.bindings }

/-- Runs the body of a function with arguments and variables of its own. -/
def withArguments (args : List Text) (r : Run Unit) : Run Unit := fun s =>
  let (a, t) := r.run.run { s with arguments := args, locals := some [] }
  let t := { restore (t.locals.getD []) t with arguments := s.arguments, locals := s.locals }
  match a with
  | .error (.back code) => (.ok (), { t with status := code })
  | a => (a, t)

/-- What a part prints. -/
def captured (r : Run Unit) : Run Text := do
  let i := (← get).handles.size
  keepingDescriptors do
    connect 1 (.sink [])
    r
  match (← get).handles[i]? with
  | some (.sink written) => return (written.reverse.map (·.2)).flatten
  | _ => return []

/-- Lets time pass, up to the deadline. -/
def wait (millis : Nat) : Run Unit := do
  let s ← get
  let time := s.time + millis
  match s.deadline with
  | some deadline =>
    if deadline ≤ time then
      set { s with time := deadline }
      throw .late
    else set { s with time }
  | none => set { s with time }

/-- The handle that the output of the process goes to. -/
def outputHandle : Nat := 1

/-- Takes note if the process has let go of its output; nobody waits for it then. -/
def noteRelease : Run Unit :=
  modify fun s =>
    if s.isMain && s.released.isNone && !s.descriptors.any (·.2 == outputHandle) then
      { s with released := some s.time, deadline := none }
    else s

/-- Runs beside what follows, with the output of the process in its hands or not. -/
def beside (holds : Bool) (r : Run Unit) : Run Unit := fun s =>
  let (_, t) := r.run.run s
  (.ok (), { s with
    tree := t.tree, handles := t.handles, status := 0
    children := max s.children t.time
    holders := if holds then max t.holders t.time else t.holders })

/-- Waits for the commands that run beside. -/
def waitForChildren : Run Unit := do
  let s ← get
  if s.time < s.children then wait (s.children - s.time)

/-- Runs a command of which the status is looked at. -/
def looking (r : Run Unit) : Run Unit := fun s =>
  let (a, t) := r.run.run { s with tested := true }
  (a, { t with tested := s.tested })

/-- Ends the script if the last command has failed and that is to end it. -/
def endOnFailure : Run Unit := do
  let s ← get
  if s.ending && !s.tested && s.status ≠ 0 then throw (.exit s.status)

/-- Complains on the error output. -/
def complain (message : Text) : Run Unit := do
  let s ← get
  write 2 (s.name ++ ": " ++ Text.ofNat s.line ++ ": " ++ message ++ "\n")

/-- Gives a variable a value. -/
def assign (name value : Text) : Run Unit :=
  modify fun s => { s with bindings := s.bindings.insert name value }

/-- Sets the status of the last command. -/
def setStatus (n : Nat) : Run Unit := modify fun s => { s with status := n }

end Shell

end Rebuild
