/-
  Letting descriptors lead elsewhere.
-/
import Rebuild.Machine.Shell.Expansion

namespace Rebuild.Shell

/-- Lets descriptors lead elsewhere; whether that worked. -/
def redirectTo (fd : Nat) (direction : Direction) (target : Text) : Run Bool := do
  let s ← get
  match direction with
  | .input =>
    match s.openInput target with
    | .ok h =>
      connect fd h
      return true
    | .error fault =>
      complain (openFault "open" target "No such file" fault)
      return false
  | .duplicate =>
    if target = "-" then
      set { s with descriptors := s.descriptors.filter (·.1 ≠ fd) }
      return true
    match s.descriptors.lookup (decimal target) with
    | some i =>
      set { s with descriptors := (fd, i) :: s.descriptors.filter (·.1 ≠ fd) }
      return true
    | none =>
      complain (target ++ ": Bad file descriptor")
      return false
  | _ =>
    match s.openOutput target (direction = .append) with
    | .ok (h, tree) =>
      set { s with tree }
      connect fd h
      return true
    | .error fault =>
      complain (openFault "create" target "Directory nonexistent" fault)
      return false

/-- Whether a command that runs beside has the output of the process in its hands. -/
def holdsOutput (s : Shell) (c : Command) : Bool :=
  let redirects := match c with
    | .simple _ _ _ rs | .redirected _ rs => rs
    | _ => []
  let held := (s.descriptors.filter (·.2 == outputHandle)).map (·.1)
  let held := redirects.foldl (fun (held : List Nat) r =>
    match r with
    | .mk fd .duplicate [.plain target] =>
      if held.contains (decimal target) then fd :: held else held.filter (· ≠ fd)
    | .mk fd _ _ => held.filter (· ≠ fd)) held
  !held.isEmpty

end Rebuild.Shell
