/-
  Printing: texts with escapes, and formats with conversions.

  * `echo` prints words, `printf` prints by a format;
  * a format is used again and again as long as arguments are left.
-/
import Rebuild.Machine.Shell.Arithmetic
import Rebuild.Machine.Shell.State

namespace Rebuild.Shell

/-! ## Escapes -/

/-- The value of up to `n` octal digits in front of a text, and the rest. -/
def octal : Nat → Nat → Text → Nat × Text
  | 0, v, t => (v, t)
  | n + 1, v, t =>
    match t with
    | b :: rest =>
      if Text.byte '0' ≤ b ∧ b ≤ Text.byte '7' then octal n (8 * v + (b - Text.byte '0').toNat) rest
      else (v, t)
    | [] => (v, [])

/-- The letters that stand for control bytes behind a backslash. -/
def controls : List (Char × UInt8) :=
  [('n', 10), ('t', 9), ('r', 13), ('a', 7), ('b', 8), ('f', 12), ('v', 11), ('\\', 92)]

/-- The bytes that an escape stands for, its backslash left out, and the rest; none for the
    escape that ends all output. -/
def escape (leadingZero : Bool) (t : Text) : Option (Text × Text) :=
  match t with
  | [] => some ([Text.byte '\\'], [])
  | b :: rest =>
    match controls.find? fun c => Text.byte c.1 == b with
    | some (_, code) => some ([code], rest)
    | none =>
      if b = Text.byte 'c' ∧ leadingZero then none
      else if leadingZero ∧ b = Text.byte '0' then
        let (v, rest) := octal 3 0 rest
        some ([UInt8.ofNat v], rest)
      else if !leadingZero ∧ Text.byte '0' ≤ b ∧ b ≤ Text.byte '7' then
        let (v, rest) := octal 3 0 t
        some ([UInt8.ofNat v], rest)
      else some ([Text.byte '\\', b], rest)

/-- A text with its escapes replaced, and whether output goes on behind it. -/
def unescape (bound : Nat) (leadingZero : Bool) (t : Text) : Text × Bool :=
  match bound, t with
  | 0, _ | _, [] => ([], true)
  | bound + 1, b :: rest =>
    if b = Text.byte '\\' then
      match escape leadingZero rest with
      | none => ([], false)
      | some (bytes, rest) =>
        let (more, goesOn) := unescape bound leadingZero rest
        (bytes ++ more, goesOn)
    else
      let (more, goesOn) := unescape bound leadingZero rest
      (b :: more, goesOn)

/-- Prints words with blanks between them. -/
def echo (escapes : Bool) (args : List Text) : Run Nat := do
  let silent := args.head? == some "-n"
  let line := Text.join [Text.byte ' '] (if silent then args.drop 1 else args)
  let (line, goesOn) := if escapes then unescape (line.length + 1) true line else (line, true)
  if ((← get).handle? 1).isNone then
    complain "echo: echo: I/O error"
    return 1
  print (if silent || !goesOn then line else line ++ [newline])
  return 0

/-! ## Formats -/

/-- A text filled up to a width, on the left unless its end is to be filled. -/
def padded (flags : Text) (width : Nat) (t : Text) : Text :=
  let fill := List.replicate (width - t.length)
  if flags.contains (Text.byte '-') then t ++ fill (Text.byte ' ')
  else if flags.contains (Text.byte '0') then
    if t.head? == some (Text.byte '-') then Text.byte '-' :: fill (Text.byte '0') ++ t.drop 1
    else fill (Text.byte '0') ++ t
  else fill (Text.byte ' ') ++ t

/-- The text of a conversion. -/
def converted (kind : UInt8) (flags : Text) (width : Nat) (precision : Option Nat) (arg : Text) :
    Text :=
  let number : Int := (integer? arg).getD 0
  let based (base : Nat) : Text := (Nat.toDigits base number.toNat).map Text.byte
  if kind = Text.byte 's' then
    padded (flags.filter (· ≠ Text.byte '0')) width (arg.take (precision.getD arg.length))
  else if kind = Text.byte 'b' then padded flags width (unescape (arg.length + 1) true arg).1
  else if kind = Text.byte 'c' then padded flags width (arg.take 1)
  else if kind = Text.byte 'x' then padded flags width (based 16)
  else if kind = Text.byte 'o' then padded flags width (based 8)
  else padded flags width (Text.ofInt number)

/-- Writes a format once: the text, the arguments that are left, and whether any was asked
    for. -/
def format (bound : Nat) (t : Text) (args : List Text) (used : Bool) : Text × List Text × Bool :=
  match bound, t with
  | 0, _ | _, [] => ([], args, used)
  | bound + 1, b :: rest =>
    if b = Text.byte '\\' then
      let (bytes, rest) := (escape false rest).getD ([], rest)
      let (more, args, used) := format bound rest args used
      (bytes ++ more, args, used)
    else if b = Text.byte '%' then
      if rest.head? == some (Text.byte '%') then
        let (more, args, used) := format bound (rest.drop 1) args used
        (b :: more, args, used)
      else
        let flags := rest.takeWhile fun c => ("-0+ #" : Text).contains c
        let rest := rest.drop flags.length
        let width := rest.takeWhile isDigit
        let rest := rest.drop width.length
        let (precision, rest) :=
          if rest.head? == some (Text.byte '.') then
            (some (decimal ((rest.drop 1).takeWhile isDigit)), (rest.drop 1).dropWhile isDigit)
          else (none, rest)
        match rest with
        | [] => ([], args, used)
        | kind :: rest =>
          let text := converted kind flags (decimal width) precision (args.headD [])
          let (more, args, _) := format bound rest (args.drop 1) true
          (text ++ more, args, true)
    else
      let (more, args, used) := format bound rest args used
      (b :: more, args, used)

/-- Writes a format again and again as long as arguments are left. -/
def formatAll : Nat → Text → List Text → Text
  | 0, _, _ => []
  | bound + 1, t, args =>
    let (text, rest, used) := format (t.length + 1) t args false
    if used ∧ rest ≠ [] then text ++ formatAll bound t rest else text

/-- Prints by a format. -/
def printf (args : List Text) : Run Nat := do
  match args with
  | [] => return 2
  | t :: args =>
    print (formatAll (args.length + 1) t args)
    return 0

end Rebuild.Shell
