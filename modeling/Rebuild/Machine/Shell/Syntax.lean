/-
  The syntax of shell scripts.

  A script is one command; commands are put together from simple ones.  A word is a list of
  pieces, which are expanded when the command that it stands in is run.
-/
import Rebuild.Text

namespace Rebuild.Shell

/-- What is made of the value of a variable.  `orEmpty` tells whether an empty value counts
    as none. -/
inductive Change
  | keep
  /-- The number of its bytes. -/
  | length
  /-- Another word if there is no value. -/
  | otherwise (orEmpty : Bool)
  /-- The same, and the word becomes the value. -/
  | assign (orEmpty : Bool)
  /-- The end of the script if there is no value. -/
  | demand (orEmpty : Bool)
  /-- Another word if there is a value. -/
  | instead (orEmpty : Bool)
  /-- Without a beginning that matches a pattern. -/
  | dropStart (longest : Bool)
  /-- Without an end that matches a pattern. -/
  | dropEnd (longest : Bool)
deriving DecidableEq, Repr, Inhabited

/-- The word is a pattern, for which quotes around the variable do not count. -/
def Change.takesPattern : Change → Bool
  | dropStart _ | dropEnd _ => true
  | _ => false

/-- Where a redirection leads. -/
inductive Direction
  | input
  | output
  | append
  /-- To where another descriptor leads. -/
  | duplicate
deriving DecidableEq, Repr, Inhabited

mutual

/-- A piece of a word. -/
inductive Piece where
  /-- Literal text outside of quotes. -/
  | plain (t : Text)
  /-- Literal text in quotes. -/
  | quoted (t : Text)
  | variable (name : Text) (change : Change) (word : List Piece) (inQuotes : Bool)
  /-- What a command prints. -/
  | output (body : Command) (inQuotes : Bool)
  /-- The value of an arithmetic expression. -/
  | number (expression : List Piece) (inQuotes : Bool)

/-- A redirection of a descriptor. -/
inductive Redirect where
  | mk (descriptor : Nat) (direction : Direction) (target : List Piece)

/-- A command. -/
inductive Command where
  | nothing
  | simple (line : Nat) (assignments : List (Text × List Piece)) (words : List (List Piece))
      (redirects : List Redirect)
  /-- Each command reads what the one in front of it prints. -/
  | pipeline (negated : Bool) (parts : List Command)
  | sequence (first second : Command)
  | andThen (first second : Command)
  | orElse (first second : Command)
  | ifThen (condition body other : Command)
  /-- Repeats the body while the condition comes out as wanted. -/
  | loop (wanted : Bool) (condition body : Command)
  /-- Repeats the body for each word, or for each argument if there are no words. -/
  | forEach (name : Text) (words : Option (List (List Piece))) (body : Command)
  /-- Runs the first arm with a matching pattern. -/
  | choose (subject : List Piece) (arms : List (List (List Piece) × Command))
  | subshell (body : Command)
  | redirected (body : Command) (redirects : List Redirect)
  /-- Goes on beside what follows. -/
  | background (body : Command)
  /-- Gives a command a name. -/
  | define (name : Text) (body : Command)

end

/-- The pieces of a word. -/
abbrev Word := List Piece

instance : Inhabited Command := ⟨.nothing⟩
instance : Inhabited Piece := ⟨.plain []⟩

/-! ## Bytes -/

/-- A blank between words. -/
def isBlank (b : UInt8) : Bool := b == Text.byte ' ' || b == Text.byte '\t'

/-- The end of a line. -/
def newline : UInt8 := Text.byte '\n'

/-- A byte that ends a word outside of quotes. -/
def endsWord (b : UInt8) : Bool :=
  isBlank b || b == newline || (";&|<>()" : Text).contains b

/-- A decimal digit. -/
def isDigit (b : UInt8) : Bool := Text.byte '0' ≤ b && b ≤ Text.byte '9'

/-- A byte that the name of a variable begins with. -/
def startsName (b : UInt8) : Bool :=
  b == Text.byte '_' || (Text.byte 'a' ≤ b && b ≤ Text.byte 'z') ||
    (Text.byte 'A' ≤ b && b ≤ Text.byte 'Z')

/-- A byte in the name of a variable. -/
def inName (b : UInt8) : Bool := startsName b || isDigit b

/-- The number that decimal digits write; every other byte counts as zero. -/
def decimal (t : Text) : Nat :=
  t.foldl (fun n b => 10 * n + (if isDigit b then (b - Text.byte '0').toNat else 0)) 0

end Rebuild.Shell
