/-
  Conditions: what `test` finds out about files, texts and numbers.

  A condition of up to four words is read by their number; a longer one is cut at the words
  that join conditions.
-/
import Rebuild.Machine.Shell.Arithmetic
import Rebuild.Machine.Shell.State

namespace Rebuild.Shell

/-- Whether a path stands for something of a kind. -/
def fileTest (s : Shell) (kind : UInt8) (p : Text) : Bool :=
  let node := (s.tree.find (s.path p)).toOption
  if kind = Text.byte 'f' then node.any Node.isFile
  else if kind = Text.byte 'd' then node.any Node.isDirectory
  else if kind = Text.byte 'p' then node.any (· == .fifo)
  else if kind = Text.byte 's' then
    node.any fun n => match n with | .file content _ => content ≠ [] | _ => true
  else if kind = Text.byte 'x' then
    node.any fun n => match n with | .directory _ | .program _ => true | _ => false
  else if kind = Text.byte 'L' ∨ kind = Text.byte 'h' then
    match s.tree.locate false (s.path p) with
    | .ok ⟨_, some (.link _), _⟩ => true
    | _ => false
  else node.isSome

/-- Whether two operands stand in a relation; none if that is no relation. -/
def relation? (a operator b : Text) : Option Bool :=
  let compare (p : Int → Int → Bool) : Option Bool := do return p (← integer? a) (← integer? b)
  if operator = "=" ∨ operator = "==" then some (a = b)
  else if operator = "!=" then some (a ≠ b)
  else if operator = "-eq" then compare (· == ·)
  else if operator = "-ne" then compare (· != ·)
  else if operator = "-lt" then compare (· < ·)
  else if operator = "-le" then compare (· ≤ ·)
  else if operator = "-gt" then compare (· > ·)
  else if operator = "-ge" then compare (· ≥ ·)
  else none

/-- Whether a condition of up to four words holds; none if it is malformed. -/
def condition? (s : Shell) : List Text → Option Bool
  | [] => some false
  | [a] => some (a ≠ [])
  | [a, b] =>
    if a = "!" then some (b = [])
    else if a = "-n" then some (b ≠ [])
    else if a = "-z" then some (b = [])
    else match a with
      | [dash, kind] =>
        if dash = Text.byte '-' ∧ ("defhLprswx" : Text).contains kind then some (fileTest s kind b)
        else none
      | _ => none
  | a :: rest =>
    match rest with
    | [operator, c] =>
      match relation? a operator c with
      | some r => some r
      | none => if a = "!" then (condition? s rest).map not else none
    | _ => if a = "!" then (condition? s rest).map not else none

/-- A condition of parts of which each is tried in turn. -/
def conditions? (s : Shell) (args : List Text) : Option Bool :=
  let parts (word : Text) (ts : List Text) : List (List Text) :=
    ts.foldr (fun t acc => if t = word then [] :: acc else match acc with
      | [] => [[t]]
      | p :: ps => (t :: p) :: ps) [[]]
  if args.length ≤ 4 then condition? s args
  else
    let each := (parts "-o" args).map fun p => (parts "-a" p).map (condition? s)
    if each.flatten.any (·.isNone) then none
    else some (each.any fun p => p.all fun c => c == some true)

/-- Tests a condition. -/
def test (args : List Text) : Run Nat := do
  return match conditions? (← get) args with
    | some true => 0
    | some false => 1
    | none => 2

end Rebuild.Shell
