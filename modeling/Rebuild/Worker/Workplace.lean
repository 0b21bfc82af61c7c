/-
  Workers on a machine.

  * `WorkerKind.compiling` has workers that answer compile requests;
  * `WorkerKind.executing` has workers that are processes of a program of their own, which
    speak for themselves on their streams.
-/
import Rebuild.Worker.CommandLine
import Rebuild.Worker.PoolRun

namespace Rebuild

/-- A process that serves items. -/
structure Servant where
  /-- When it was started, in milliseconds from the beginning of the run. -/
  started : Nat
  fingerprint : Text
  /-- What was sent to it so far. -/
  received : Text := []
  /-- The number of bytes that it printed so far. -/
  heard : Nat := 0
  /-- The files when it was started. -/
  before : FileTree
  /-- The files when it was left. -/
  left : FileTree

/-- A machine with the processes that serve items there. -/
structure Workplace where
  machine : Machine
  servants : Std.ExtTreeMap Nat Servant := ∅

namespace Workplace

/-- The program that a command names. -/
def programOf (command : List Text) : Text := command.headD []

/-- Runs a servant from its start, with all that it received and up to a deadline.  If
    nothing but itself has changed the files since then, it finds them as they were. -/
def replay (w : Workplace) (command : List Text) (s : Servant) (more : Bool) (deadline : Nat) :
    Except FileFault (ProcessRun × Servant) :=
  let tree := if w.machine.tree.nodes == s.left.nodes then s.before else w.machine.tree
  let fingerprint := s.fingerprint.takeWhile (· ≠ 0)
  let environment := w.machine.environment.insert fingerprintVariable fingerprint
  let m := { w.machine with tree, environment }
  let setting : ProcessSetting := { input := s.received, more, deadline := some deadline }
  (m.launch command setting).map fun (r, m) => (r, { s with left := m.tree })

/-- A servant was run. -/
def put (w : Workplace) (process : Nat) (s : Servant) : Workplace :=
  { w with machine.tree := s.left, servants := w.servants.insert process s }

/-- How a run ended, if it did, so many milliseconds after its start. -/
def endOf (r : ProcessRun) (since : Nat) : Option (Nat × Text) :=
  r.ended.description.map fun how => (r.time - since, how)

/-- What was printed behind the first `n` bytes. -/
def unheard (since : Nat) : Nat → List (Nat × Text) → List (Nat × Text)
  | _, [] => []
  | n, (time, t) :: rest =>
    if n < t.length then (time - since, t.drop n) :: unheard since 0 rest
    else unheard since (n - t.length) rest

/-- The number of bytes that a pipe holds. -/
def pipeSize : Nat := 65536

/-- What a servant does with an item. -/
def send (w : Workplace) (command : List Text) (process : Nat) (s : Servant) (item : Item)
    (now patience : Nat) : WorkerReply × Workplace :=
  let since := now - s.started
  let gone := match w.replay command s true since with
    | .ok (r, _) => if r.time < since then endOf r since else none
    | .error _ => none
  if gone.isSome then ({ accepts := false, ended := gone }, w)
  else
    let request := Frame.encode (WorkerLink.request item).encode
    let s := { s with received := s.received ++ request }
    match w.replay command s true (since + patience) with
    | .error fault => ({ accepts := false, ended := some (0, fault.message) }, w)
    | .ok (r, s) =>
      ({ accepts := r.unread ≤ pipeSize, printed := unheard since s.heard r.printed
         ended := endOf r since },
        w.put process { s with heard := r.output.length })

/-- Asks a servant to stop. -/
def dismiss (w : Workplace) (command : List Text) (process : Nat) (s : Servant) (now grace : Nat) :
    Option Nat × Workplace :=
  let since := now - s.started
  let request := Frame.encode (Request.encode ⟨.shutdown, 0, []⟩)
  match w.replay command { s with received := s.received ++ request } false (since + grace) with
  | .ok (r, s) => ((endOf r since).map (·.1), w.put process s)
  | .error _ => (none, w)

end Workplace

namespace WorkerKind

/-- A day, for who waits without a limit. -/
def noLimit : Nat := 86400000

/-- Workers that run a command of their own, in a pool with these limits. -/
def executing (command : List Text) (settings : PoolSettings) : WorkerKind Workplace where
  launch w process fingerprint now :=
    let tree := w.machine.tree
    match w.replay command ⟨now, fingerprint, [], 0, tree, tree⟩ true 0 with
    | .ok (_, s) => .ok (w.put process s)
    | .error fault =>
      .error (Machine.cannotExecute (Workplace.programOf command) ++ ": " ++ fault.message)
  call w process item now :=
    let patience := if settings.callLimit < 0 then noLimit else settings.callLimit.toNat
    match w.servants[process]? with
    | some s => w.send command process s item now patience
    | none => ({ accepts := false }, w)
  stop w process now :=
    match w.servants[process]? with
    | some s => w.dismiss command process s now settings.grace.toNat
    | none => (none, w)

/-- Workers that answer compile requests, with a time limit for commands if it is positive,
    in a pool with these limits.  What a command would do behind the end of the call is not
    done, for its worker is ended. -/
def compiling (limit : Int) (settings : PoolSettings) : WorkerKind Workplace where
  launch w _ _ _ := .ok w
  call w _ item _ :=
    let (answer, elapsed, m) := w.machine.compile limit item.payload
    let patience := settings.callLimit
    let m := if 0 < patience ∧ patience < elapsed then
        (w.machine.compile patience item.payload).2.2 else m
    (.ofResponse elapsed (WorkerLoop.response item.id answer), { w with machine := m })
  stop w _ _ := (some 0, w)

end WorkerKind

end Rebuild
