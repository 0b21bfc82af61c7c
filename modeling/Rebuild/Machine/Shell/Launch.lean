/-
  The programs of a machine of shell scripts: a shell, and the tools that scripts call.

  These are the `Programs` of the machines that run here, where no others are given.  They
  stand in for what an operating system has, and what is proved of machines does not look at
  them.
-/
import Rebuild.Machine.Process
import Rebuild.Machine.Shell.Run

namespace Rebuild

namespace Shell

/-- The bound on the depth of scripts. -/
def depth : Nat := 100000

/-- The end of a process whose script stopped. -/
def endOf : Except Stop Unit → Nat → ProcessEnd
  | .ok (), status => .exited status
  | .error (.exit code), _ | .error (.back code), _ => .exited code
  | .error (.signal number), _ => .killed number
  | .error .waiting, _ => .waiting
  | .error .late, _ => .late
  | .error (.leave _ _), status => .exited status

/-- Runs a program.  Arguments end in front of their first zero byte. -/
def launch (tree : FileTree) (environment : TextMap Text) (command : List Text)
    (setting : ProcessSetting) : Except FileFault (ProcessRun × FileTree) := do
  let words := command.map fun a => a.takeWhile (· ≠ 0)
  let start : Shell :=
    { tree, deadline := setting.deadline, bindings := environment
      exported := TextSet.ofTexts environment.keys, name := words.headD []
      handles := #[.input setting.input setting.more, .sink [], .null]
      descriptors := [(0, 0), (1, 1), (2, if setting.errorsToo then 1 else 2)]
      directory := tree.current.path }
  let _ ← findProgram start (words.headD [])
  let (stop, s) : Except Stop Unit × Shell :=
    (call depth true (words.headD []) words.tail).run.run start
  let ended := endOf stop s.status
  let printed := match (s.handles[outputHandle]? : Option Handle) with
    | some (.sink written) => written.reverse.mergeSort fun a b => a.1 ≤ b.1
    | _ => []
  let unread := match (s.handles[0]? : Option Handle) with
    | some (.input rest _) => rest.length
    | _ => 0
  let closed := (s.released.or (ended.description.map fun _ => s.time)).map (max s.holders)
  let closed := closed.filter fun t => setting.deadline.all (t < ·)
  return (⟨ended, s.time, closed, printed, unread⟩, s.tree)

end Shell

instance : Programs := ⟨Shell.launch⟩

end Rebuild
