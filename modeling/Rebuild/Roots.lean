/-
  Source roots: which unit a source file defines by its place, and back.

      roots = [/work/src/main/lang]   extension = lang
      /work/src/main/lang/org/acme/Widget.lang  <->  org.acme.Widget

  * `Roots.unitName` names the unit of a path after the deepest root that holds it;
  * `Roots.sourcePath` finds the file of a unit name, trying the roots in order;
  * `Roots.discover` lists the sources under the roots;
  * `Roots.identity` is a checksum that tells sets of roots apart.

  Roots are compared name by name, so `/src/main` never claims `/src/mainline/A.lang`.
-/
import Rebuild.Path
import Rebuild.Checksum
import Rebuild.Log.Level

namespace Rebuild

/-- The source roots in order, with the extension of the sources in them. -/
structure Roots where
  roots : List Text
  /-- With or without a leading dot. -/
  extension : Text
  /-- Where relative paths start. -/
  [current : CurrentDirectory]
deriving DecidableEq, Repr

/-- Why roots, a path or a unit name are refused. -/
inductive RootsError
  /-- There are no roots. -/
  | noRoots
  /-- The extension is empty. -/
  | noExtension
  /-- A root does not start at the root directory. -/
  | relativeRoot (root : Text)
  /-- The path lies under none of the roots. -/
  | outside (path : Text) (roots : List Text)
  /-- The path is one of the roots. -/
  | isRoot (path : Text)
  /-- The name denotes no source path. -/
  | invalidUnit (unit : Text)
deriving DecidableEq, Repr

/-- The separator of the parts of a unit name. -/
def unitSeparator : UInt8 := Text.byte '.'

namespace RootsError

/-- The roots in quotes, as an error lists them. -/
private def listed (roots : List Text) : Text :=
  "[" ++ Text.join ", " (roots.map fun r => "'" ++ r ++ "'") ++ "]"

/-- The wording of an error. -/
def message : RootsError → Text
  | noRoots => "No source roots configured"
  | noExtension => "Source extension must not be empty"
  | relativeRoot root => "Source root '" ++ root ++ "' is not an absolute path"
  | outside path roots => "Unable to find source unit: '" ++ path ++
      "' because it does not belong to any of the source roots: " ++ listed roots
  | isRoot path => "'" ++ path ++ "' is a source root, not a source file"
  | invalidUnit unit => "Invalid unit name '" ++ unit ++ "'"

end RootsError

namespace Roots

/-- The extension without its leading dot. -/
def bareExtension (r : Roots) : Text := (Text.after? "." r.extension).getD r.extension

/-- What a source name ends with. -/
def suffix (r : Roots) : Text := "." ++ r.bareExtension

/-- The byte string that the identity is the checksum of: the normalized roots, each
    before a zero byte, then the bare extension. -/
def identityInput (r : Roots) : Text :=
  r.roots.flatMap (fun root => Path.normalize r.current root ++ [0]) ++ r.bareExtension

/-- A checksum of the roots in their order and of the extension. -/
def identity (r : Roots) : UInt32 :=
  let roots := r.roots.foldl (fun crc root =>
    Checksum.extend (Checksum.extend crc (Path.normalize r.current root)) [0]) 0
  Checksum.extend roots r.bareExtension

/-- The first thing that is wrong with the roots, if any. -/
def validate (r : Roots) : Except RootsError Unit :=
  if r.roots = [] then .error .noRoots
  else if r.bareExtension = [] then .error .noExtension
  else match r.roots.find? (!Path.isAbsolute ·) with
    | some root => .error (.relativeRoot root)
    | none => .ok ()

/-! ## From a path to a unit name -/

/-- A place: the root directory and the names below it, or nothing for the empty path. -/
def steps (r : Roots) (t : Text) : List Text :=
  if t = [] then [] else [Path.slash] :: Path.namesOf r.current t

/-- The deeper of two roots for a path, the earlier one if they are equally deep.  A
    root counts only if the path lies at it or below it. -/
def deeper (r : Roots) (path : List Text) (best : Option (List Text)) (root : Text) :
    Option (List Text) :=
  let candidate := r.steps root
  if candidate.isPrefixOf path ∧ best.all (·.length < candidate.length) then some candidate
  else best

/-- The deepest of the roots that hold the path. -/
def deepest (r : Roots) (path : List Text) : Option (List Text) :=
  r.roots.foldl (r.deeper path) none

/-- The unit of a source: the names below the deepest root that holds it, joined by
    dots, without the extension. -/
def unitName (r : Roots) (source : Text) : Except RootsError Text :=
  let path := r.steps source
  match r.deepest path with
  | none => .error (.outside (Path.normalize r.current source) r.roots)
  | some root =>
    match root, path.drop root.length with
    | [], _ | _, [] => .error (.isRoot (Path.normalize r.current source))
    | _, below =>
      let name := Text.join [unitSeparator] below
      .ok (if name.endsWith r.suffix then name.take (name.length - r.suffix.length) else name)

/-- What is told about the naming of a source. -/
def namingEntry (r : Roots) (source unit : Text) : Log.Entry :=
  ⟨.trace, "resolve", Path.normalize r.current source ++ " -> " ++ unit⟩

/-- What is told when a source is to be named. -/
def namingLog (r : Roots) (source : Text) : List Log.Entry :=
  match r.unitName source with
  | .ok unit => [r.namingEntry source unit]
  | .error _ => []

/-! ## From a unit name to a path -/

/-- The parts of a unit name, if they can be names of files and directories. -/
def segments? (unit : Text) : Option (List Text) :=
  let parts := unit.split unitSeparator
  if parts.all fun part => part ≠ [] ∧ !part.contains Path.slash then some parts else none

/-- The path of a unit below a root. -/
def relativePath (r : Roots) (segments : List Text) : Text :=
  Text.join [Path.slash] segments ++ r.suffix

/-- The source of a unit: below the first root where the file exists, else below the
    first root. -/
def sourcePath (r : Roots) (isFile : Text → Bool) (unit : Text) : Except RootsError Text :=
  match r.roots, segments? unit with
  | [], _ => .error .noRoots
  | _, none => .error (.invalidUnit unit)
  | first :: _, some segments =>
    let under (root : Text) : Text :=
      Path.join (Path.normalize r.current root) (r.relativePath segments)
    .ok (((r.roots.map under).find? isFile).getD (under first))

/-! ## Discovery -/

/-- The sources under the roots, given the regular files below each directory. -/
def discover (r : Roots) (filesBelow : Text → List Text) : TextSet :=
  let files := r.roots.flatMap fun root => filesBelow (Path.normalize r.current root)
  TextSet.ofTexts (files.filter (·.endsWith r.suffix))

end Roots

end Rebuild
