/-
  Commands that work on the shell itself: its variables, options and place, and the way to
  its end.

  `builtin?` finds such a command by its name.
-/
import Rebuild.Machine.Shell.Expansion
import Rebuild.Machine.Shell.Programs

namespace Rebuild.Shell

/-- The options that one argument of `set` switches. -/
def setFlags (on : Bool) (flags : Text) (s : Shell) : Shell :=
  { s with
    ending := if flags.contains (Text.byte 'e') then on else s.ending
    strict := if flags.contains (Text.byte 'u') then on else s.strict }

/-- Sets options and arguments. -/
def setOptions : List Text → Run Unit
  | [] => return
  | a :: rest => do
    if a = "--" then modify fun s => { s with arguments := rest }
    else if a.head? == some (Text.byte '-') || a.head? == some (Text.byte '+') then
      modify (setFlags (a.head? == some (Text.byte '-')) (a.drop 1))
      setOptions rest
    else modify fun s => { s with arguments := a :: rest }

/-- Commands whose failure ends a script when they cannot be redirected. -/
def isSpecial (name : Text) : Bool :=
  ([":", "exec", "exit", "export", "set", "shift", "unset", "eval", "break", "continue",
    "return"] : List Text).contains name

/-- Commands that work on the shell itself and need no other command; none for the rest. -/
def builtin? (name : Text) (args : List Text) : Option (Run Nat) :=
  if name = ":" ∨ name = "true" then some (return 0)
  else if name = "false" then some (return 1)
  else if name = "echo" then some (echo true args)
  else if name = "exit" ∨ name = "return" then some do
    let stop (code : Nat) : Stop := if name = "exit" then .exit code else .back code
    match args with
    | [] => throw (stop (← get).status)
    | a :: _ =>
      unless a.all isDigit do
        complain (name ++ ": Illegal number: " ++ a)
        throw (.exit 2)
      throw (stop (decimal a % 256))
  else if name = "break" ∨ name = "continue" then
    some (throw (.leave (max 1 (decimal (args.headD "1"))) (name = "continue")))
  else if name = "shift" then some do
    let s ← get
    let n := decimal (args.headD "1")
    if s.arguments.length < n then
      complain "shift: can't shift that many"
      throw (.exit 2)
    set { s with arguments := s.arguments.drop n }
    return 0
  else if name = "set" then some do
    setOptions args
    return 0
  else if name = "wait" then some do
    waitForChildren
    return 0
  else if name = "trap" then some do
    match args with
    | action :: signs =>
      if signs.any fun t => t = "EXIT" ∨ t = "0" then modify fun s => { s with atExit := action }
      let numbers := signs.filterMap signal?
      modify fun s => { s with
        ignored := if action = "-" then s.ignored.filter (!numbers.contains ·)
          else numbers ++ s.ignored }
    | [] => pure ()
    return 0
  else if name = "local" then some do
    args.forM fun a => do
      let (v, value) := a.cut (Text.byte '=')
      match (← get).locals with
      | none =>
        complain "local: not in a function"
        throw (.exit 2)
      | some outer =>
        modify fun s => { s with locals := some ((v, s.bindings[v]?) :: outer) }
      if let some value := value then assign v value
    return 0
  else if name = "umask" ∨ name = "ulimit" then some (return 0)
  else if name = "unset" then some do
    if args.head? = some "-f" then
      modify fun s => { s with functions := (args.drop 1).foldl (fun m f => m.erase f) s.functions }
    else modify fun s => { s with
      bindings := (operands args).foldl (fun m v => m.erase v) s.bindings
      exported := (operands args).foldl (fun m v => m.erase v) s.exported }
    return 0
  else if name = "export" then some do
    args.forM fun a => do
      let (v, value) := a.cut (Text.byte '=')
      if let some value := value then assign v value
      modify fun s => { s with exported := s.exported.insert v }
    return 0
  else if name = "cd" then some do
    let s ← get
    let target := Path.normalize s.tree.current (s.path (args.headD "/"))
    if s.tree.isDirectory target then
      set { s with directory := target }
      return 0
    else
      complain ("cd: can't cd to " ++ args.headD "/")
      return 2
  else if name = "kill" then some do
    let (sign, pids) : Option Nat × List Text := match args with
      | first :: rest =>
        if first = "-s" then (signal? (rest.headD []), rest.drop 1)
        else if first.head? == some (Text.byte '-') then (signal? (first.drop 1), rest)
        else (some 15, args)
      | [] => (none, [])
    match sign, pids with
    | some number, pid :: _ =>
      if some pid ≠ parameter? (← get) "$" then
        complain "kill: No such process\n"
        return 1
      if number ≠ 0 ∧ (number = 9 ∨ !(← get).ignored.contains number) then
        throw (.signal number)
      return 0
    | _, _ => return 2
  else if name = "read" then some do
    let raw := hasOption 'r' args
    let names := operands args
    let (line, whole) ← readLine 0
    let words := lineWords (separators (← get)) names.length (if raw then line else unprotected line)
    (names.zip words).forM fun (v, value) => assign v value
    return if whole then 0 else 1
  else none

end Rebuild.Shell
