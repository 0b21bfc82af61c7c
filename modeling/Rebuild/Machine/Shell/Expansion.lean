/-
  What expanded words are made of.

  An expanded word is a list of parts, which `fields` puts together: a word may become
  several fields, or none.
-/
import Rebuild.Machine.Shell.State
import Rebuild.Machine.Shell.Pattern

namespace Rebuild.Shell

/-- A part of an expanded word. -/
inductive Part
  /-- Text that makes a field even if it is empty. -/
  | kept (t : Text)
  /-- Text that makes a field only if it is not empty. -/
  | loose (t : Text)
  /-- The border of two fields. -/
  | cut

/-- Adds a part to the fields so far, the latest first, and to the field at work. -/
def Part.add (state : List Text × Option Text) (p : Part) : List Text × Option Text :=
  match p, state with
  | kept t, (done, field) => (done, some (field.getD [] ++ t))
  | loose t, (done, field) => if t = [] then (done, field) else (done, some (field.getD [] ++ t))
  | cut, (done, some field) => (field :: done, none)
  | cut, (done, none) => (done, none)

/-- The fields that parts make. -/
def fields (ps : List Part) : List Text :=
  match ps.foldl Part.add ([], none) with
  | (done, some field) => (field :: done).reverse
  | (done, none) => done.reverse

/-- The text that parts make where nothing is cut. -/
def joined (ps : List Part) : Text :=
  ps.flatMap fun p => match p with
    | .kept t | .loose t => t
    | .cut => [Text.byte ' ']

/-- The bytes that separate fields. -/
def separators (s : Shell) : Text := s.bindings.getD "IFS" " \t\n"

/-- A separator that does not count when it is repeated. -/
def isSpace (b : UInt8) : Bool := isBlank b || b == newline

/-- A value cut into fields. -/
def cutValue (ifs value : Text) : List Part :=
  value.flatMap fun b =>
    if !ifs.contains b then [.loose [b]]
    else if isSpace b then [.cut]
    else [.kept [], .cut]

/-- The value of a name or sign; none if it has none. -/
def parameter? (s : Shell) (name : Text) : Option Text :=
  if name.all isDigit then
    match decimal name with
    | 0 => some s.name
    | i + 1 => s.arguments[i]?
  else if name = "#" then some (Text.ofNat s.arguments.length)
  else if name = "?" then some (Text.ofNat s.status)
  else if name = "$" then some "4242"
  else if name = "-" then some []
  else if name = "@" ∨ name = "*" then
    if s.arguments.isEmpty then none else some (Text.join [Text.byte ' '] s.arguments)
  else s.bindings[name]?

/-- The parts of the value of a parameter. -/
def valueParts (s : Shell) (name : Text) (split inQuotes : Bool) (value : Text) : List Part :=
  let between (each : Text → List Part) : List Part :=
    (s.arguments.map each).intersperse [.cut] |>.flatten
  if split && name == ("@" : Text) then
    between fun a => if inQuotes then [.kept a] else cutValue (separators s) a
  else if split && name == ("*" : Text) && !inQuotes then between (cutValue (separators s))
  else if inQuotes || !split then [.kept value]
  else cutValue (separators s) value

/-- The words of a line for a number of names; the last name gets the rest of the line. -/
def lineWords (ifs : Text) : Nat → Text → List Text
  | 0, _ => []
  | 1, t => [Text.dropEndWhile (fun b => ifs.contains b && isSpace b)
      (t.dropWhile fun b => ifs.contains b && isSpace b)]
  | n + 1, t =>
    let space (b : UInt8) : Bool := ifs.contains b && isSpace b
    let t := t.dropWhile space
    let word := t.takeWhile fun b => !ifs.contains b
    let rest := (t.drop word.length).dropWhile space
    let rest := if rest.head?.any fun b => ifs.contains b && !isSpace b then rest.drop 1 else rest
    word :: lineWords ifs n rest

/-- A line without the backslashes that protect bytes. -/
def unprotected : Text → Text
  | a :: b :: t => if a = Text.byte '\\' then b :: unprotected t else a :: unprotected (b :: t)
  | t => t

/-- The signals that have names. -/
def signals : List (Text × Nat) :=
  [("HUP", 1), ("INT", 2), ("QUIT", 3), ("ABRT", 6), ("KILL", 9), ("USR1", 10), ("SEGV", 11),
   ("USR2", 12), ("PIPE", 13), ("ALRM", 14), ("TERM", 15)]

/-- The number of a signal given by name or number. -/
def signal? (t : Text) : Option Nat :=
  if t ≠ [] ∧ t.all isDigit then some (decimal t)
  else signals.lookup ((Text.after? "SIG" t).getD t)

/-- The wording of a fault when a file is opened: the shell has its own words for what is
    not there. -/
def openFault (what path absent : Text) (fault : FileFault) : Text :=
  "cannot " ++ what ++ " " ++ path ++ ": " ++ (if fault.isAbsence then absent else fault.message)

/-- The directories that programs are looked for in. -/
def searchPath (s : Shell) : List Text :=
  (s.bindings.getD "PATH" "/usr/local/bin:/usr/bin:/bin").split (Text.byte ':')

/-- The program that a name calls. -/
def findProgram (s : Shell) (name : Text) : Except FileFault Text :=
  let program (p : Text) : Except FileFault Text := do
    match ← s.tree.find p with
    | .program name => return name
    | _ => .error .denied
  if name = [] then .error .noEntry
  else if name.contains Path.slash then program (s.path name)
  else match (searchPath s).filterMap fun dir => (program (Path.join dir name)).toOption with
    | found :: _ => .ok found
    | [] => .error .noEntry

end Rebuild.Shell
