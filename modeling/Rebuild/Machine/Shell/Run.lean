/-
  Running commands.

  The number in front of each function is a bound on the depth of commands in commands and
  on the rounds of loops; a script that exceeds it never ends.
-/
import Rebuild.Machine.Shell.Builtins
import Rebuild.Machine.Shell.Reader
import Rebuild.Machine.Shell.Redirection

namespace Rebuild.Shell

/-- The word expands what a command prints. -/
def printsWithin (w : Word) : Bool :=
  w.any fun p => match p with
    | .output _ _ => true
    | _ => false

/-- A word without its trailing ends of lines, and without zero bytes. -/
def outputValue (t : Text) : Text := (Text.dropEndWhile (· == newline) t).filter (· ≠ 0)

/-- Leaves one loop less when a stop comes out of the body of a loop: whether the loop goes
    on. -/
def aroundBody (r : Run Unit) : Run Bool := fun s =>
  match r.run.run s with
  | (.ok (), t) => (.ok true, t)
  | (.error (.leave loops again), t) =>
    if loops ≤ 1 then (.ok again, { t with status := 0 })
    else (.error (.leave (loops - 1) again), t)
  | (.error stop, t) => (.error stop, t)

mutual

/-- The parts of a word.  Values are cut into fields only if `split` is set. -/
def expand (n : Nat) (split : Bool) (w : Word) : Run (List Part) :=
  match n with
  | 0 => throw .late
  | n + 1 => w.foldlM (fun ps p => return ps ++ (← expandPiece n split p)) []

/-- The text of a word that is not cut. -/
def expandText (n : Nat) (w : Word) : Run Text :=
  match n with
  | 0 => throw .late
  | n + 1 => return joined (← expand n false w)

/-- The pattern of a word. -/
def expandPattern (n : Nat) (w : Word) : Run Pattern :=
  match n with
  | 0 => throw .late
  | n + 1 => w.foldlM (fun pattern p => do
    let literal := match p with
      | .plain _ => false
      | .quoted _ => true
      | .variable _ _ _ inQuotes | .output _ inQuotes | .number _ inQuotes => inQuotes
    return pattern ++ (joined (← expandPiece n false p)).map fun b => (b, literal)) []

/-- The parts of a piece. -/
def expandPiece (n : Nat) (split : Bool) (p : Piece) : Run (List Part) :=
  match n with
  | 0 => throw .late
  | n + 1 =>
    match p with
    | .plain t | .quoted t => return [.kept t]
    | .output body inQuotes => do
      let value := outputValue (← captured (separately do
        let _ ← untilExit (run n body)))
      return valueParts (← get) [] split inQuotes value
    | .number expression inQuotes => do
      let t ← expandText n expression
      let s ← get
      match arithmetic? s.value t with
      | some i => return valueParts s [] split inQuotes (Text.ofInt i)
      | none =>
        complain "arithmetic expression: syntax error"
        throw (.exit 2)
    | .variable name change word inQuotes => do
      let s ← get
      let value := parameter? s name
      let plain (v : Text) : List Part := valueParts s name split inQuotes v
      if s.strict && value.isNone && change == .keep && name != ("@" : Text) then
        complain (name ++ ": parameter not set")
        throw (.exit 2)
      let missing (orEmpty : Bool) : Bool := value.isNone || (orEmpty && value == some [])
      match change with
      | .keep => return match value with
        | some v => plain v
        | none => if inQuotes && name != ("@" : Text) then [.kept []] else []
      | .length => return [.kept (Text.ofNat (value.getD []).length)]
      | .otherwise orEmpty =>
        if missing orEmpty then expand n (split && !inQuotes) word else return plain (value.getD [])
      | .assign orEmpty =>
        if missing orEmpty then
          let v ← expandText n word
          Shell.assign name v
          return plain v
        else return plain (value.getD [])
      | .demand orEmpty =>
        if missing orEmpty then
          complain (name ++ ": " ++ (← expandText n word))
          throw (.exit 2)
        else return plain (value.getD [])
      | .instead orEmpty =>
        if missing orEmpty then return if inQuotes then [.kept []] else []
        else expand n (split && !inQuotes) word
      | .dropStart longest => return plain ((← expandPattern n word).dropStart longest (value.getD []))
      | .dropEnd longest => return plain ((← expandPattern n word).dropEnd longest (value.getD []))

/-- Lets descriptors lead elsewhere, one after the other; whether that worked. -/
def redirect (n : Nat) (rs : List Redirect) : Run Bool :=
  match n with
  | 0 => throw .late
  | n + 1 => rs.foldlM (fun (ok : Bool) r => do
    match r with
    | .mk fd direction target =>
      if ok then redirectTo fd direction (← expandText n target) else return false) true

/-- Runs a program or a command of the shell, perhaps in place of the shell. -/
def call (n : Nat) (inPlace : Bool) (name : Text) (args : List Text) : Run Unit :=
  match n with
  | 0 => throw .late
  | n + 1 => do
    if let some body := (← get).functions[name]? then
      withArguments args (run n body)
    else if name = "eval" then
      script n (Text.join [Text.byte ' '] args)
    else match builtin? name args with
    | some r => setStatus (← r)
    | none =>
      match findProgram (← get) name with
      | .error fault =>
        complain (name ++ ": " ++ if fault.isAbsence then ("not found" : Text) else fault.message)
        setStatus (if fault.isAbsence then 127 else 126)
      | .ok program =>
        if program = "sh" then shell n inPlace name args
        else match program? program args with
          | some r => setStatus (← separately r)
          | none => setStatus 127

/-- Runs a shell with these arguments, perhaps in place of the one at work. -/
def shell (n : Nat) (inPlace : Bool) (name : Text) (args : List Text) : Run Unit :=
  match n with
  | 0 => throw .late
  | n + 1 => do
    let isMain := inPlace && (← get).isMain
    separately do
      modify fun s => { s with
        bindings := s.bindings.filter fun v _ => s.exported.contains v
        functions := ∅, locals := none, status := 0, isMain, ending := false, tested := false, strict := false, atExit := [] }
      let status ← untilExit do
        match args with
        | flag :: body :: rest =>
          if flag = "-c" then
            modify fun s => { s with name := rest.headD name, arguments := rest.drop 1 }
            script n body
          else file n flag (body :: rest)
        | [path] => file n path []
        | [] => readAll 0 fun t => script n t
      let _ ← untilExit (script n (← get).atExit)
      setStatus status

/-- Runs the script in a file. -/
def file (n : Nat) (path : Text) (args : List Text) : Run Unit :=
  match n with
  | 0 => throw .late
  | n + 1 => do
    let s ← get
    match s.tree.read (s.path path) with
    | .ok body =>
      set { s with name := path, arguments := args }
      script n body
    | .error fault =>
      write 2 (s.name ++ ": 0: " ++ openFault "open" path "No such file" fault ++ "\n")
      throw (.exit 2)

/-- Runs a script. -/
def script (n : Nat) (body : Text) : Run Unit :=
  match n with
  | 0 => throw .late
  | n + 1 =>
    match read? body with
    | some c => run n c
    | none => do
      complain "Syntax error"
      throw (.exit 2)

/-- Runs a simple command. -/
def simpleCommand (n : Nat) (assignments : List (Text × Word)) (words : List Word)
    (rs : List Redirect) : Run Unit :=
  match n with
  | 0 => throw .late
  | n + 1 => do
    let words ← words.foldlM (fun ws w => return ws ++ fields (← expand n true w)) []
    match words with
    | [] =>
      let ok ← keepingDescriptors (redirect n rs)
      assignments.forM fun (name, w) => do Shell.assign name (← expandText n w)
      unless assignments.any fun a => printsWithin a.2 do
        setStatus (if ok then 0 else 2)
    | name :: args =>
      if name = "exec" then
        if !(← redirect n rs) then throw (.exit 2)
        match args with
        | [] =>
          noteRelease
          setStatus 0
        | name :: args =>
          noteRelease
          if let .error fault := findProgram (← get) name then
            let absent := fault.isAbsence
            complain ("exec: " ++ name ++ ": " ++ if absent then ("not found" : Text) else fault.message)
            throw (.exit (if absent then 127 else 126))
          call n true name args
          throw (.exit (← get).status)
      else
        let saved ← assignments.mapM fun (v, w) => do
          let old := (← get).bindings[v]?
          Shell.assign v (← expandText n w)
          modify fun s => { s with exported := s.exported.insert v }
          return (v, old)
        keepingDescriptors do
          if ← redirect n rs then call n false name args
          else if isSpecial name then throw (.exit 2)
          else setStatus 2
        modify (restore saved.reverse)

/-- Repeats a body while its condition comes out as wanted. -/
def loop (n : Nat) (wanted : Bool) (condition body : Command) : Run Unit :=
  match n with
  | 0 => throw .late
  | n + 1 => do
    let last := (← get).status
    looking (run n condition)
    if ((← get).status == 0) == wanted then
      if ← aroundBody (run n body) then loop n wanted condition body
    else setStatus last

/-- Repeats a body for each of some values. -/
def forEach (n : Nat) (name : Text) (values : List Text) (body : Command) : Run Unit :=
  match n with
  | 0 => throw .late
  | n + 1 =>
    match values with
    | [] => return
    | v :: vs => do
      Shell.assign name v
      if ← aroundBody (run n body) then forEach n name vs body

/-- Runs the first arm with a matching pattern. -/
def choose (n : Nat) (subject : Text) (arms : List (List Word × Command)) : Run Unit :=
  match n with
  | 0 => throw .late
  | n + 1 =>
    match arms with
    | [] => setStatus 0
    | (patterns, body) :: more => do
      let hit ← patterns.anyM fun w => return (← expandPattern n w).accepts subject
      if hit then run n body else choose n subject more

/-- Runs commands of which each reads what the one in front of it prints. -/
def pipe (n : Nat) (input : Option Text) (parts : List Command) : Run Unit :=
  match n with
  | 0 => throw .late
  | n + 1 => do
    let part (c : Command) : Run Unit := separately do
      if let some t := input then connect 0 (.input t false)
      setStatus (← untilExit (run n c))
    match parts with
    | [] => return
    | [c] => part c
    | c :: more => pipe n (some (← captured (part c))) more

/-- Runs a command. -/
def run (n : Nat) (c : Command) : Run Unit :=
  match n with
  | 0 => throw .late
  | n + 1 =>
    match c with
    | .nothing => return
    | .simple line assignments words rs => do
      modify fun s => { s with line }
      simpleCommand n assignments words rs
      endOnFailure
    | .pipeline true parts => do
      looking (match parts with
        | [c] => run n c
        | _ => pipe n none parts)
      setStatus (if (← get).status = 0 then 1 else 0)
    | .pipeline false parts => do
      pipe n none parts
      endOnFailure
    | .sequence a b => do
      run n a
      run n b
    | .andThen a b => do
      looking (run n a)
      if (← get).status = 0 then run n b
    | .orElse a b => do
      looking (run n a)
      if (← get).status ≠ 0 then run n b
    | .ifThen condition body other => do
      looking (run n condition)
      if (← get).status = 0 then run n body
      else match other with
        | .nothing => setStatus 0
        | _ => run n other
    | .loop wanted condition body => do
      setStatus 0
      loop n wanted condition body
    | .forEach name words body => do
      let values ← match words with
        | some ws => ws.foldlM (fun vs w => do pure (vs ++ fields (← expand n true w))) []
        | none => pure (← get).arguments
      setStatus 0
      forEach n name values body
    | .choose subject arms => do choose n (← expandText n subject) arms
    | .subshell body => do
      separately do setStatus (← untilExit (run n body))
      endOnFailure
    | .define name body => do
      modify fun s => { s with functions := s.functions.insert name body }
      setStatus 0
    | .background body => do
      beside (holdsOutput (← get) body) (separately do
        connect 0 .null
        setStatus (← untilExit (run n body)))
    | .redirected body rs => keepingDescriptors do
      if ← redirect n rs then run n body else setStatus 2

end

end Rebuild.Shell
