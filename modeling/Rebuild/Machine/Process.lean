/-
  Machines: a file tree, the variables that processes get, and the programs that there are.

  What a program does is not known here.  A machine has it from outside, as `Programs`: what
  running a command line comes to, for all files and variables that it may find.  Nothing is
  assumed of that, so whatever holds of all machines holds with every program.

  * `Machine.launch` runs a program with some input up to a deadline;
  * a process that waits for input it does not get is no failure: it just has not ended.
-/
import Rebuild.Machine.FileTree

namespace Rebuild

/-- What became of a process. -/
inductive ProcessEnd
  | exited (code : Nat)
  | killed (signal : Nat)
  /-- It waits for more input. -/
  | waiting
  /-- It was still at work at the deadline. -/
  | late
deriving DecidableEq, Repr

/-- A process up to its end, or up to where it was left. -/
structure ProcessRun where
  ended : ProcessEnd
  /-- Milliseconds from the start. -/
  time : Nat
  /-- When its output ended, unless that was behind the deadline.  It may end earlier than
      the process does, and later if commands that the process has left behind still have
      it in their hands. -/
  closed : Option Nat
  /-- What it printed, with the times. -/
  printed : List (Nat × Text)
  /-- The number of bytes of its input that it did not read. -/
  unread : Nat

/-- How messages tell the end of a process; none if it goes on. -/
def ProcessEnd.description : ProcessEnd → Option Text
  | exited code => some ("exit " ++ Text.ofNat code)
  | killed signal => some ("signal " ++ Text.ofNat signal)
  | waiting | late => none

/-- What a process finds when it is started. -/
structure ProcessSetting where
  input : Text := []
  /-- More input may come. -/
  more : Bool := false
  /-- The error output goes to where the output goes. -/
  errorsToo : Bool := false
  /-- Milliseconds from the start.  A process whose output ends earlier is not held to it. -/
  deadline : Option Nat := none

namespace ProcessRun

/-- All that was printed. -/
def output (r : ProcessRun) : Text := (r.printed.map (·.2)).flatten

end ProcessRun

/-- The programs that there are: what becomes of a command line that is run with these
    variables on these files, and of the files, or why it cannot be executed. -/
class Programs where
  run : FileTree → TextMap Text → List Text → ProcessSetting →
    Except FileFault (ProcessRun × FileTree)

/-- A place to run processes. -/
structure Machine where
  tree : FileTree
  /-- The variables that processes get. -/
  environment : TextMap Text := ∅
  /-- What processes do. -/
  [programs : Programs]

namespace Machine

/-- Runs a program. -/
def launch (m : Machine) (command : List Text) (setting : ProcessSetting) :
    Except FileFault (ProcessRun × Machine) :=
  (m.programs.run m.tree m.environment command setting).map fun (r, tree) => (r, { m with tree })

end Machine

end Rebuild
