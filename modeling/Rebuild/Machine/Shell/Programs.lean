/-
  The programs that a shell finds: small tools on texts and files.

  A program gets its arguments and ends with a status.  `program?` finds a program by its
  name.
-/
import Rebuild.Machine.Shell.Condition
import Rebuild.Machine.Shell.Printing

namespace Rebuild.Shell

/-- Complains in the name of a tool. -/
def toolFault (tool about : Text) (fault : FileFault) : Run Nat := do
  write 2 (tool ++ ": " ++ about ++ ": " ++ fault.message ++ "\n")
  return 1

/-- Reads files one after the other, or the input if there are none. -/
def readFiles (tool : Text) (files : List Text) (each : Text → Run Unit) : Run Nat := do
  if files.isEmpty then
    readAll 0 each
    return 0
  files.foldlM (fun (status : Nat) (file : Text) => do
    match (← get).tree.read ((← get).path file) with
    | .ok content =>
      each content
      return status
    | .error fault => toolFault tool file fault) 0

/-- The lines of a text, each with the newline behind it if it has one. -/
def wholeLines (t : Text) : List Text :=
  let ls := t.split newline
  ls.dropLast.map (· ++ [newline]) ++ (ls.getLast?.toList.filter (· ≠ []))

/-- The arguments that are no options. -/
def operands (args : List Text) : List Text := args.filter fun a => a.head? ≠ some (Text.byte '-')

/-- Some option has this letter. -/
def hasOption (c : Char) (args : List Text) : Bool :=
  args.any fun a => a.head? == some (Text.byte '-') && a.contains (Text.byte c)

/-- How much is asked for in front of a list of files: whether bytes are counted, and the
    number. -/
def amount (args : List Text) : Bool × Nat × List Text :=
  match args with
  | first :: n :: rest =>
    if first = "-c" then (true, decimal n, rest)
    else if first = "-n" then (false, decimal n, rest) else (false, 10, args)
  | _ => (false, 10, args)

/-- Runs with a file as the input, if one is given. -/
def withInput (tool : Text) (files : List Text) (r : Run Nat) : Run Nat := do
  match files with
  | [] => r
  | file :: _ =>
    match (← get).openInput file with
    | .error fault => toolFault tool ("cannot open '" ++ file ++ "' for reading") fault
    | .ok h => keepingDescriptors do
      connect 0 h
      r

/-- Prints the first bytes or lines. -/
def head (args : List Text) : Run Nat :=
  let (bytes, count, files) := amount args
  withInput "head" files do
    if bytes then print (← readBytes 0 count)
    else readAll 0 fun t => print ((wholeLines t).take count).flatten
    return 0

/-- Prints the last bytes or lines. -/
def tail (args : List Text) : Run Nat :=
  let (bytes, count, files) := amount args
  withInput "tail" files do
    readAll 0 fun t =>
      if bytes then print (t.drop (t.length - count))
      else
        let ls := wholeLines t
        print (ls.drop (ls.length - count)).flatten
    return 0

/-- Counts bytes or lines. -/
def countText (args : List Text) : Run Nat :=
  readFiles "wc" (operands args) fun t => do
    let n := if hasOption 'c' args then t.length else t.count newline
    print (Text.join [Text.byte ' '] (Text.ofNat n :: operands args) ++ [newline])

/-- Whether a line has a text in it; a `^` in front and a `$` behind stand for its ends. -/
def hasText (wanted line : Text) : Bool :=
  let fromStart := wanted.head? == some (Text.byte '^')
  let toEnd := wanted.getLast? == some (Text.byte '$')
  let wanted := if fromStart then wanted.drop 1 else wanted
  let wanted := if toEnd then wanted.dropLast else wanted
  let fits (n : Nat) : Bool :=
    let rest := line.drop n
    if toEnd then rest == wanted else wanted.isPrefixOf rest
  if fromStart then fits 0 else (List.range (line.length + 1)).any fits

/-- Prints the lines that have a text in them, or counts them. -/
def search (args : List Text) : Run Nat := do
  match operands args with
  | [] => return 2
  | wanted :: files =>
    let hit (l : Text) : Bool := hasText wanted l != hasOption 'v' args
    let mut text : Text := []
    if files.isEmpty then
      if let some (rest, _) ← available 0 then text := rest
    for file in files do
      match (← get).tree.read ((← get).path file) with
      | .ok content => text := text ++ content
      | .error fault =>
        let _ ← toolFault "grep" file fault
        return 2
    let lines := (wholeLines text).filter fun l => hit (Text.dropEndWhile (· == newline) l)
    if hasOption 'c' args then print (Text.ofNat lines.length ++ [newline])
    else if !hasOption 'q' args then
      print (lines.flatMap fun l => Text.dropEndWhile (· == newline) l ++ [newline])
    return if lines.isEmpty then 1 else 0

/-- Lists the names in directories. -/
def listNames (args : List Text) : Run Nat := do
  let here := (← get).directory
  let dirs := if (operands args).isEmpty then [here] else operands args
  dirs.foldlM (fun (status : Nat) (dir : Text) => do
    let s ← get
    match s.tree.locate true (s.path dir) with
    | .ok ⟨up, some (.directory _), _⟩ =>
      let names := (s.tree.below up).filterMap fun (rest, _) =>
        if rest.contains Path.slash ∨ rest.head? = some (Text.byte '.') then none else some rest
      print (names.flatMap (· ++ [newline]))
      return status
    | .ok ⟨_, some _, _⟩ =>
      print (dir ++ [newline])
      return status
    | .ok ⟨_, none, _⟩ | .error _ =>
      let _ ← toolFault "ls" ("cannot access '" ++ dir ++ "'") .noEntry
      return 2) 0

/-- The bytes that a set of `tr` lists, with ranges and escapes. -/
def byteSet (bound : Nat) (t : Text) : Text :=
  match bound, t with
  | 0, _ | _, [] => []
  | bound + 1, b :: rest =>
    if b = Text.byte '\\' then
      let (bytes, rest) := (escape false rest).getD ([], rest)
      bytes ++ byteSet bound rest
    else match rest with
      | dash :: hi :: more =>
        if dash = Text.byte '-' ∧ b ≤ hi then
          (List.range (hi.toNat - b.toNat + 1)).map (fun i => UInt8.ofNat (b.toNat + i)) ++
            byteSet bound more
        else b :: byteSet bound rest
      | _ => b :: byteSet bound rest

/-- Replaces or deletes bytes. -/
def translate (args : List Text) : Run Nat := do
  let set (t : Text) : Text := byteSet (t.length + 1) t
  match args with
  | [a, b] =>
    let change : UInt8 → List UInt8 :=
      if a = "-d" then fun x => if (set b).contains x then [] else [x]
      else fun x => match (set a).idxOf? x with
        | some i => [(set b).getD i ((set b).getLast?.getD x)]
        | none => [x]
    readAll 0 fun t => print (t.flatMap change)
    return 0
  | _ => return 1

/-- The milliseconds that a duration in seconds writes, with a fraction perhaps. -/
def duration (t : Text) : Nat :=
  let (whole, fraction) := t.cut (Text.byte '.')
  let digits := ((fraction.getD []).takeWhile isDigit ++ ("000" : Text)).take 3
  1000 * decimal (whole.takeWhile isDigit) + decimal digits

/-- Changes the tree, or complains. -/
def change (tool about : Text) (f : Shell → Except FileFault FileTree) : Run Nat := do
  let s ← get
  match f s with
  | .ok tree =>
    set { s with tree }
    return 0
  | .error fault => toolFault tool about fault

/-- Does one thing for each operand; the worst status. -/
def forOperands (args : List Text) (f : Text → Run Nat) : Run Nat :=
  (operands args).foldlM (fun status a => return max status (← f a)) 0

/-- Removes files, and directories on demand. -/
def removeFiles (args : List Text) : Run Nat := forOperands args fun a =>
  change "rm" ("cannot remove '" ++ a ++ "'") fun s => do
    let p := s.path a
    if hasOption 'r' args then return s.tree.removeAll p
    else match s.tree.locate false p with
      | .ok ⟨_, some (.directory _), _⟩ => .error .isDirectory
      | .ok ⟨_, some _, _⟩ => return (← s.tree.remove p).2
      | .ok ⟨_, none, _⟩ => if hasOption 'f' args then return s.tree else .error .noEntry
      | .error fault => if hasOption 'f' args then return s.tree else .error fault

/-- Removes empty directories. -/
def removeDirectories (args : List Text) : Run Nat := forOperands args fun a =>
  change "rmdir" ("failed to remove '" ++ a ++ "'") fun s => do
    let node ← s.tree.find (s.path a)
    if node.isDirectory then return (← s.tree.remove (s.path a)).2 else .error .notDirectory

/-- Makes a symbolic link. -/
def linkFile (args : List Text) : Run Nat := do
  match operands args with
  | [target, link] =>
    change "ln" ("failed to create symbolic link '" ++ link ++ "'") fun s =>
      s.tree.make (s.path link) (.link target)
  | _ => return 1

/-- Where a file goes that is copied or moved to a path: into it if it is a directory. -/
def destination (s : Shell) (source target : Text) : Text :=
  if s.tree.isDirectory (s.path target) then Path.join (s.path target) (Path.fileName source)
  else s.path target

/-- Copies or moves a file. -/
def transfer (tool : Text) (args : List Text) : Run Nat := do
  match operands args with
  | [a, b] => change tool ("cannot stat '" ++ a ++ "'") fun s =>
    if tool = "mv" then s.tree.rename (s.path a) (destination s a b)
    else do s.tree.create (destination s a b) (← s.tree.read (s.path a))
  | _ => return 1

/-- The numbers from one to another. -/
def sequenceOf (a b : Nat) : Text :=
  ((List.range (b + 1 - a)).map fun i => Text.ofNat (a + i) ++ "\n").flatten

/-- Sorts lines. -/
def sortLines (args : List Text) (t : Text) : Text :=
  let ls := t.split newline
  let ls := (if ls.getLast? == some [] then ls.dropLast else ls).mergeSort
  let ls := if hasOption 'u' args then ls.eraseDups else ls
  (if hasOption 'r' args then ls.reverse else ls).flatMap (· ++ [newline])

/-- Runs the program of this name, if there is one. -/
def program? (name : Text) (args : List Text) : Option (Run Nat) :=
  if name = "cat" then some (readFiles name (operands args) print)
  else if name = "echo" then some (echo false args)
  else if name = "printf" then some (printf args)
  else if name = "true" then some (return 0)
  else if name = "false" then some (return 1)
  else if name = "sleep" then some do
    args.forM fun a => wait (duration a)
    return 0
  else if name = "head" then some (head args)
  else if name = "tr" then some (translate args)
  else if name = "test" then some (test args)
  else if name = "[" then some do
    if args.getLast? = some "]" then test args.dropLast
    else
      complain "[: missing ]"
      return 2
  else if name = "pwd" then some do
    print ((← get).directory ++ "\n")
    return 0
  else if name = "touch" then some (forOperands args fun a =>
    change name ("cannot touch '" ++ a ++ "'") fun s => s.tree.append (s.path a) [])
  else if name = "mkdir" then some (forOperands args fun a =>
    change name ("cannot create directory '" ++ a ++ "'") fun s =>
      if hasOption 'p' args then s.tree.makeDirectories (s.path a)
      else s.tree.make (s.path a) .folder)
  else if name = "rm" then some (removeFiles args)
  else if name = "cp" ∨ name = "mv" then some (transfer name args)
  else if name = "seq" then some do
    match args.map decimal with
    | [b] => print (sequenceOf 1 b)
    | a :: bs => print (sequenceOf a (bs.getLast?.getD a))
    | [] => print []
    return 0
  else if name = "basename" then some do
    let last := Path.fileName (args.headD [])
    let ending := args.getD 1 []
    let cut := ending ≠ last && ending.isSuffixOf last
    print ((if cut then last.take (last.length - ending.length) else last) ++ [newline])
    return 0
  else if name = "dirname" then some do
    let d := Path.directory (args.headD [])
    print (if d = [] then ".\n" else d ++ "\n")
    return 0
  else if name = "sort" then some (readFiles name (operands args) fun t =>
    print (sortLines args t))
  else if name = "tail" then some (tail args)
  else if name = "wc" then some (countText args)
  else if name = "grep" then some (search args)
  else if name = "ls" then some (listNames args)
  else if name = "tee" then some (readFiles name [] fun t => do
    print t
    (operands args).forM fun file => do
      let s ← get
      set { s with tree := (s.tree.create (s.path file) t).toOption.getD s.tree })
  else if name = "rmdir" then some (removeDirectories args)
  else if name = "ln" then some (linkFile args)
  else if name = "env" then some do
    let s ← get
    s.exported.toList.forM fun v => print (v ++ "=" ++ s.value v ++ "\n")
    return 0
  else none

end Rebuild.Shell
