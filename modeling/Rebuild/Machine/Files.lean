/-
  What may become of the files while a script goes on.

  A step is one operation with one of the outcomes that it may have.  Each may fail and then
  change nothing, except that directories may be made in part and that a write may stop part
  way.  Renaming is one step, with nothing between the old file and the new one.

  A script can be interrupted between any two steps.  If that is during a write, the files are
  as after a write that stops there.

  Different paths stand for different files here, whatever directories there are, and a directory
  is known only as something that is there and cannot be read, through which other paths lead.
-/
import Rebuild.Machine.FileScript

namespace Rebuild

namespace Path

/-- A path leads through another one, which is a directory then. -/
def Through (path around : Text) : Prop := around ++ [slash] <+: path

instance (path around : Text) : Decidable (Through path around) :=
  inferInstanceAs (Decidable (_ <+: _))

/-- Making a directory may make one at the path. -/
def OnWay (path dir : Text) : Prop := path = dir ∨ Through dir path

end Path

/-- What reading comes to, path by path. -/
abbrev Files := Text → FileReading

namespace Files

/-- Puts something else at a path. -/
def set (f : Files) (path : Text) (r : FileReading) : Files := fun p => if p = path then r else f p

/-- Takes away what is at a path; if that is a directory, also what paths through it led to. -/
def remove (f : Files) (path : Text) : Files := fun p =>
  if p = path ∨ f path = .broken ∧ Path.Through p path then .absent else f p

/-- Directories were made where nothing was, some of those on the way to a path. -/
def Paved (f f' : Files) (dir : Text) : Prop :=
  ∀ p, f' p = f p ∨ f p = .absent ∧ f' p = .broken ∧ Path.OnWay p dir

end Files

namespace FileScript

variable {α : Type}

/-- The first operation of a script comes to something. -/
inductive Step : Files → FileScript α → Files → FileScript α → Prop
  | directories {f f' : Files} {path : Text} {next : Option FileFault → FileScript α}
      (r : Option FileFault) (h : f.Paved f' path) : Step f (.makeDirectories path next) f' (next r)
  | opened {f : Files} {path : Text} {next : Bool → FileScript α} :
      Step f (.openEmpty path next) (f.set path (.content [])) (next true)
  | notOpened {f : Files} {path : Text} {next : Bool → FileScript α} :
      Step f (.openEmpty path next) f (next false)
  | written {f : Files} {path content : Text} {next : Bool → FileScript α} :
      Step f (.write path content next) (f.set path (.content content)) (next true)
  | cutShort {f : Files} {path content : Text} {next : Bool → FileScript α} (n : Nat) :
      Step f (.write path content next) (f.set path (.content (content.take n))) (next false)
  | notWritten {f : Files} {path content : Text} {next : Bool → FileScript α} :
      Step f (.write path content next) f (next false)
  | renamed {f : Files} {source target : Text} {next : Option FileFault → FileScript α} :
      Step f (.rename source target next) ((f.set source .absent).set target (f source)) (next none)
  | notRenamed {f : Files} {source target : Text} {next : Option FileFault → FileScript α}
      (fault : FileFault) : Step f (.rename source target next) f (next (some fault))
  | removed {f : Files} {path : Text} {next : FileScript α} :
      Step f (.remove path next) (f.remove path) next
  | notRemoved {f : Files} {path : Text} {next : FileScript α} : Step f (.remove path next) f next
  | read {f : Files} {path : Text} {next : FileReading → FileScript α} :
      Step f (.read path next) f (next (f path))

/-- The files, and what is left of a script, wherever it may be interrupted. -/
inductive Reaches : Files → FileScript α → Files → FileScript α → Prop
  | here {f : Files} {s : FileScript α} : Reaches f s f s
  | next {f f' f'' : Files} {s s' s'' : FileScript α} :
      Step f s f' s' → Reaches f' s' f'' s'' → Reaches f s f'' s''

/-- A script comes to its end with a value, and leaves the files like this. -/
def Ends (f : Files) (s : FileScript α) (a : α) (f' : Files) : Prop := Reaches f s f' (.done a)

end FileScript

end Rebuild
