/-
  Paths as texts, worked on without a look at any file.

  * `Path.normalForm` takes out `.`, `..` and doubled slashes where that is possible
    without knowing what the names stand for;
  * `Path.normalize` does so for the place a path denotes: relative paths start at
    the current directory, and a trailing slash is dropped;
  * `Path.join` puts one path behind another.
-/
import Rebuild.Text

namespace Rebuild

/-- A path taken apart: names from left to right. -/
structure Path where
  /-- Starts at the root directory. -/
  absolute : Bool
  names : List Text
  /-- Ends with a slash behind the last name. -/
  trailing : Bool
deriving DecidableEq, Repr

namespace Path

/-- The separator of names. -/
def slash : UInt8 := Text.byte '/'

/-- What a file can be called: nothing that stands for another place, or that cuts a path. -/
structure IsName (n : Text) : Prop where
  ne_nil : n ≠ []
  ne_here : n ≠ "."
  ne_up : n ≠ ".."
  slash : slash ∉ n
  zero : 0 ∉ n

/-- Whether a path starts at the root directory. -/
def isAbsolute (t : Text) : Bool := t.head? == some slash

/-- Takes one more part.  An empty part or `.` leaves the names as they are, `..`
    takes the last name away if there is one to take; at the root directory it has
    no effect, and in front of a relative path it stays. -/
def step (p : Path) (part : Text) : Path :=
  if part = [] ∨ part = "." then { p with trailing := !p.names.isEmpty }
  else if part = ".." ∧ p.names.getLast?.getD ".." ≠ ("..": Text) then
    { p with names := p.names.dropLast, trailing := !p.names.dropLast.isEmpty }
  else if part = ".." ∧ p.absolute then p
  else { p with names := p.names ++ [part], trailing := false }

/-- The parts of `t` worked off from left to right.  Slashes in a row are one separator wherever
    they stand, also where nothing else does: the standard has it so, and there are libraries
    that keep a path of nothing but slashes as it is. -/
def ofText (t : Text) : Path := (t.split slash).foldl step ⟨isAbsolute t, [], false⟩

/-- The written form.  A path without names is `/` or `.`. -/
def toText (p : Path) : Text :=
  if p.absolute then slash :: Text.join [slash] p.names ++ (if p.trailing then [slash] else [])
  else if p.names = [] then "."
  else Text.join [slash] p.names ++
    (if p.trailing ∧ p.names.getLast? ≠ some ".." then [slash] else [])

/-- The normal form of a path; the empty path stays empty. -/
def normalForm (t : Text) : Text := if t = [] then [] else (ofText t).toText

/-- The path from the root directory along `names`. -/
def ofNames (names : List Text) : Text := slash :: Text.join [slash] names

end Path

/-- Where relative paths start: the names on the way from the root directory to there. -/
class CurrentDirectory where
  names : List Text
  isName : ∀ n ∈ names, Path.IsName n
deriving DecidableEq, Repr

/-- Where nothing else is said, relative paths start at the root directory. -/
instance : CurrentDirectory := ⟨[], fun _ h => absurd h List.not_mem_nil⟩

namespace CurrentDirectory

/-- The current directory as a path. -/
def path (d : CurrentDirectory) : Text := Path.ofNames d.names

end CurrentDirectory

namespace Path

/-- The names on the way from the root directory to the place that `t` denotes; none for the
    empty path, which denotes no place. -/
def namesOf (d : CurrentDirectory) (t : Text) : List Text :=
  let start := if isAbsolute t ∨ t = [] then [] else d.names
  ((t.split slash).foldl step ⟨true, start, false⟩).names

/-- The place that `t` denotes, as an absolute path without a trailing slash.
    The empty path stays empty. -/
def normalize (d : CurrentDirectory) (t : Text) : Text :=
  if t = [] then [] else ofNames (namesOf d t)

/-- `b` taken from the directory `a`: `b` itself if it is absolute. -/
def join (a b : Text) : Text :=
  if isAbsolute b ∨ a = [] then b
  else if a.getLast? = some slash then a ++ b
  else a ++ slash :: b

/-- What stands in front of the last name of a path that has no trailing slash. -/
def parent (t : Text) : Text :=
  match (t.split slash).dropLast with
  | [[]] => [slash]
  | parts => Text.join [slash] parts

/-- The path to the place `b` that leads from the place `a`, both given by their names. -/
def relative : List Text → List Text → Text
  | x :: a, y :: b => if x = y then relative a b else upwards (x :: a) (y :: b)
  | a, b => upwards a b
where
  /-- Out of all of `a`, then along `b`. -/
  upwards (a b : List Text) : Text :=
    if a = [] ∧ b = [] then "." else Text.join [slash] (List.replicate a.length (".." : Text) ++ b)

/-- A path without its last name, and without the slashes in front of that. -/
def directory (t : Text) : Text :=
  let front := (t.reverse.dropWhile (· ≠ slash)).reverse
  let bare := Text.dropEndWhile (· == slash) front
  if bare = [] ∧ front ≠ [] then [slash] else bare

/-- The last name of a path; empty if the path ends with a slash. -/
def fileName (t : Text) : Text := (t.reverse.takeWhile (· ≠ slash)).reverse

end Path

end Rebuild
