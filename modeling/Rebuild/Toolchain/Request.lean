/-
  Compile requests and responses: the payloads that workers get and answer.

  A request names the units of one group with their sources, where outputs go, the command
  with its placeholders, and where the toolchain writes its manifest.  A response has the
  records of the units and what the toolchain printed.

  * `encode` writes a payload, `decode?` reads one;
  * `filler` reads one into a payload that the caller has already, field by field.
-/
import Rebuild.Analysis.Record
import Rebuild.Encoding.Filler

namespace Rebuild

/-- What is to be compiled together. -/
structure CompileRequest where
  /-- The units, each with its source. -/
  units : List (Text × Text)
  /-- Where outputs go. -/
  destination : Text
  command : List Text
  /-- The file that the toolchain writes its manifest to. -/
  manifest : Text
deriving DecidableEq, Repr

/-- What compiling came to. -/
structure CompileResponse where
  units : List UnitRecord
  /-- What the toolchain printed. -/
  diagnostics : Text
deriving DecidableEq

namespace CompileRequest

/-- The sources, sorted and without repeats. -/
def sources (r : CompileRequest) : TextSet := TextSet.ofTexts (r.units.map (·.2))

/-- The bytes of a request. -/
def encode (r : CompileRequest) : Text :=
  Encode.list (fun u => Encode.text u.1 ++ Encode.text u.2) r.units ++
    Encode.text r.destination ++ Encode.texts r.command ++ Encode.text r.manifest

/-- Reads a unit and its source. -/
def decodeUnit : Decoder (Text × Text) := do return (← Decoder.text, ← Decoder.text)

/-- Reads a request. -/
def decoder : Decoder CompileRequest := do
  let units ← Decoder.list 1 decodeUnit
  return ⟨units, ← Decoder.text, ← Decoder.texts, ← Decoder.text⟩

/-- The request that all of the bytes are. -/
def decode? (t : Text) : Option CompileRequest := decoder.exactly t

/-- Reads the fields of a request in their order. -/
def filler : Filler CompileRequest :=
  ((Filler.list 1 decodeUnit).within (·.units) fun r units => { r with units }).andThen <|
  ((Filler.ofDecoder Decoder.text).within (·.destination)
    fun r destination => { r with destination }).andThen <|
  ((Filler.list 4 Decoder.text).within (·.command) fun r command => { r with command }).andThen <|
  (Filler.ofDecoder Decoder.text).within (·.manifest) fun r manifest => { r with manifest }

end CompileRequest

namespace CompileResponse

/-- The bytes of a response. -/
def encode (r : CompileResponse) : Text :=
  Encode.list Record.encodeUnit r.units ++ Encode.text r.diagnostics

/-- Reads a response. -/
def decoder : Decoder CompileResponse := do
  let units ← Decoder.list 1 Record.decodeUnit
  return ⟨units, ← Decoder.text⟩

/-- The response that all of the bytes are. -/
def decode? (t : Text) : Option CompileResponse := decoder.exactly t

/-- Reads the fields of a response in their order. -/
def filler : Filler CompileResponse :=
  ((Filler.list 1 Record.decodeUnit).within (·.units) fun r units => { r with units }).andThen <|
  (Filler.ofDecoder Decoder.text).within (·.diagnostics)
    fun r diagnostics => { r with diagnostics }

end CompileResponse

end Rebuild
