/-
  The messages between a coordinator and a worker.

      u8    kind
      u64   number of the item
      text  payload, or answer

  * `Request.encode` and `Response.encode` write a message; `decode?` reads one, and takes
    nothing but all of a message.
-/
import Rebuild.Encoding.Decoder

namespace Rebuild

/-- What a worker is asked. -/
inductive RequestKind
  /-- To work on a payload. -/
  | work
  /-- To stop. -/
  | shutdown
deriving DecidableEq, Repr

/-- How a worker answers. -/
inductive ResponseKind
  | ok
  | error
deriving DecidableEq, Repr

/-- A message to a worker. -/
structure Request where
  kind : RequestKind
  id : UInt64
  payload : Text
deriving DecidableEq, Repr

/-- A message from a worker. -/
structure Response where
  kind : ResponseKind
  id : UInt64
  data : Text
deriving DecidableEq, Repr

/-- The number of a kind. -/
def RequestKind.code : RequestKind → UInt8
  | work => 1
  | shutdown => 2

/-- The kind with a number. -/
def RequestKind.ofCode? : UInt8 → Option RequestKind
  | 1 => some work
  | 2 => some shutdown
  | _ => none

/-- The number of a kind. -/
def ResponseKind.code : ResponseKind → UInt8
  | ok => 1
  | error => 2

/-- The kind with a number. -/
def ResponseKind.ofCode? : UInt8 → Option ResponseKind
  | 1 => some ok
  | 2 => some error
  | _ => none

/-- The bytes of a message. -/
def encodeMessage (kind : UInt8) (id : UInt64) (body : Text) : Text :=
  Encode.u8 kind ++ Encode.u64 id ++ Encode.text body

/-- Reads the parts of a message whose kind is known. -/
def decodeMessage {κ : Type} (ofCode? : UInt8 → Option κ) : Decoder (κ × UInt64 × Text) := do
  let code ← Decoder.u8
  let id ← Decoder.u64
  let body ← Decoder.text
  match ofCode? code with
  | some kind => return (kind, id, body)
  | none => Decoder.fail

namespace Request

/-- The bytes of a request. -/
def encode (r : Request) : Text := encodeMessage r.kind.code r.id r.payload

/-- The request that all of the bytes are. -/
def decode? (t : Text) : Option Request :=
  ((decodeMessage RequestKind.ofCode?).exactly t).map fun (kind, id, payload) =>
    ⟨kind, id, payload⟩

end Request

namespace Response

/-- The bytes of a response. -/
def encode (r : Response) : Text := encodeMessage r.kind.code r.id r.data

/-- The response that all of the bytes are. -/
def decode? (t : Text) : Option Response :=
  ((decodeMessage ResponseKind.ofCode?).exactly t).map fun (kind, id, data) => ⟨kind, id, data⟩

end Response

end Rebuild
