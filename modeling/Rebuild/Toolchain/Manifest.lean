/-
  Manifests: what a toolchain reports about the units that it compiled.

      unit org.acme.Widget /work/src/org/acme/Widget.lang
      dep org.acme.Widget org.acme.Base
      fact org.acme.Widget const:MAX_SIZE=16
      artifact org.acme.Widget /work/out/org/acme/Widget.o

  One directive stands on a line; empty lines and lines that begin with `#` say nothing.
  A value goes to the end of its line.  A unit is declared before anything is said of it.

  * `Manifest.parse` reads a manifest, or names the first line that is wrong;
  * `Manifest.render` writes one.
-/
import Rebuild.Analysis

namespace Rebuild

/-- What is wrong with a line. -/
inductive ManifestFault
  /-- The unit or the value is missing. -/
  | incomplete
  /-- The unit has a line of its own already. -/
  | declaredTwice (unit : Text)
  /-- The unit has no line of its own yet. -/
  | undeclared (unit : Text)
  | unknownDirective (directive : Text)
deriving DecidableEq, Repr

/-- What is wrong with a manifest: the number of a line, the first being 1, and its
    fault. -/
structure ManifestError where
  line : Nat
  fault : ManifestFault
deriving DecidableEq, Repr

/-- The wording of a fault. -/
def ManifestFault.message : ManifestFault → Text
  | incomplete => "expected '<directive> <unit> <value>'"
  | declaredTwice unit => "unit '" ++ unit ++ "' declared twice"
  | undeclared unit => "unit '" ++ unit ++ "' used before its 'unit' line"
  | unknownDirective directive => "unknown directive '" ++ directive ++ "'"

/-- The wording of an error. -/
def ManifestError.message (e : ManifestError) : Text :=
  "manifest line " ++ Text.ofNat e.line ++ ": " ++ e.fault.message

namespace Manifest

/-- A blank between words. -/
def isBlank (b : UInt8) : Bool := b == Text.byte ' ' || b == Text.byte '\t'

/-- A blank at the end of a line. -/
def isEndBlank (b : UInt8) : Bool := isBlank b || b == Text.byte '\r'

/-- A text without blanks at its ends. -/
def trim (t : Text) : Text := Text.dropEndWhile isEndBlank (t.dropWhile isBlank)

/-- The first word of a text, and the rest without blanks at its ends. -/
def word (t : Text) : Text × Text :=
  let t := trim t
  (t.takeWhile (!isBlank ·), trim (t.dropWhile (!isBlank ·)))

/-- The records read so far, in the order in which their units are declared, and the places of
    their names counted from the first. -/
structure Reading where
  records : Array UnitRecord := #[]
  places : TextMap Nat := ∅

/-- Declares a unit. -/
def Reading.declare (r : Reading) (unit source : Text) : Reading :=
  ⟨r.records.push { name := unit, source }, r.places.insert unit r.records.size⟩

/-- The change that a directive other than `unit` makes to a record. -/
def directive? (name value : Text) : Option (UnitRecord → UnitRecord) :=
  if name = "dep" then some fun r => { r with dependencies := r.dependencies.insert value }
  else if name = "fact" then some fun r => { r with facts := r.facts.insert value }
  else if name = "artifact" then some fun r => { r with artifacts := r.artifacts ++ [value] }
  else none

/-- Does what a directive says of a unit. -/
def Reading.follow (r : Reading) (directive unit value : Text) : Except ManifestFault Reading :=
  match r.places[unit]? with
  | none =>
    if directive = "unit" then .ok (r.declare unit value) else .error (.undeclared unit)
  | some place =>
    if directive = "unit" then .error (.declaredTwice unit)
    else match directive? directive value with
    | some change => .ok { r with records := r.records.modify place change }
    | none => .error (.unknownDirective directive)

/-- Reads one line. -/
def Reading.line (r : Reading) (t : Text) : Except ManifestFault Reading :=
  let t := trim t
  if t = [] ∨ t.head? = some (Text.byte '#') then .ok r
  else
    let (directive, rest) := word t
    let (unit, value) := word rest
    if unit = [] ∨ value = [] then .error .incomplete else r.follow directive unit value

/-- Reads lines, of which the first has this number. -/
def Reading.lines (r : Reading) (number : Nat) : List Text → Except ManifestError Reading
  | [] => .ok r
  | t :: ts =>
    match r.line t with
    | .error fault => .error ⟨number, fault⟩
    | .ok r => r.lines (number + 1) ts

/-- The lines of a manifest, one more than it has line ends. -/
def linesOf (t : Text) : List Text := t.split (Text.byte '\n')

/-- The records of a manifest in the order in which the units are declared. -/
def parse (t : Text) : Except ManifestError (List UnitRecord) :=
  (({} : Reading).lines 1 (linesOf t)).map (·.records.toList)

/-- One line of a manifest. -/
def renderLine (directive unit value : Text) : Text :=
  directive ++ " " ++ unit ++ " " ++ value ++ "\n"

/-- The lines of a unit. -/
def renderUnit (r : UnitRecord) : Text :=
  renderLine "unit" r.name r.source ++
    r.dependencies.toList.flatMap (renderLine "dep" r.name) ++
    r.facts.toList.flatMap (renderLine "fact" r.name) ++
    r.artifacts.flatMap (renderLine "artifact" r.name)

/-- The manifest of some records. -/
def render (rs : List UnitRecord) : Text := rs.flatMap renderUnit

end Manifest

end Rebuild
