/-
  Arithmetic expressions over integers.

  Names stand for the values of variables, with zero for those without one.  A comparison
  is one or zero.
-/
import Rebuild.Machine.Shell.Syntax

namespace Rebuild.Shell

/-- The operators by how tightly they bind, the loosest first. -/
def operators : List (List Text) :=
  [["||"], ["&&"], ["=="], ["!="], ["<=", ">=", "<", ">"], ["+", "-"], ["*", "/", "%"]]

/-- The value of an operator; none if it has none. -/
def operate (operator : Text) (a b : Int) : Option Int :=
  let bit (p : Bool) : Option Int := some (if p then 1 else 0)
  if operator = "||" then bit (a ≠ 0 ∨ b ≠ 0)
  else if operator = "&&" then bit (a ≠ 0 ∧ b ≠ 0)
  else if operator = "==" then bit (a = b)
  else if operator = "!=" then bit (a ≠ b)
  else if operator = "<=" then bit (a ≤ b)
  else if operator = ">=" then bit (a ≥ b)
  else if operator = "<" then bit (a < b)
  else if operator = ">" then bit (a > b)
  else if operator = "+" then some (a + b)
  else if operator = "-" then some (a - b)
  else if operator = "*" then some (a * b)
  else if b = 0 then none
  else if operator = "/" then some (a.tdiv b)
  else some (a.tmod b)

/-- The integer that a text writes, with zero for the empty text. -/
def integer? (t : Text) : Option Int :=
  let t : Text := t.dropWhile isBlank
  let negative := t.head? == some (Text.byte '-')
  let digits := if negative then t.drop 1 else t
  if !digits.all isDigit then none
  else if negative then some (-(decimal digits : Int)) else some (decimal digits)

mutual

/-- The value of an expression of operators from this level on, and the rest. -/
def level (lookup : Text → Text) (n : Nat) (levels : List (List Text)) (t : Text) :
    Option (Int × Text) :=
  match n with
  | 0 => none
  | n + 1 =>
    match levels with
    | [] => operand lookup n t
    | ops :: tighter => do
      let (a, rest) ← level lookup n tighter t
      operations lookup n ops tighter a rest

/-- Goes on with operators of one level from the left to the right. -/
def operations (lookup : Text → Text) (n : Nat) (ops : List Text) (tighter : List (List Text))
    (a : Int) (t : Text) : Option (Int × Text) :=
  match n with
  | 0 => none
  | n + 1 =>
    let t := t.dropWhile isBlank
    match ops.find? (·.isPrefixOf t) with
    | none => some (a, t)
    | some operator => do
      let (b, rest) ← level lookup n tighter (t.drop operator.length)
      operations lookup n ops tighter (← operate operator a b) rest

/-- The value of a number, a name, a sign or a bracketed expression, and the rest. -/
def operand (lookup : Text → Text) (n : Nat) (t : Text) : Option (Int × Text) :=
  match n with
  | 0 => none
  | n + 1 =>
    match t.dropWhile isBlank with
    | [] => none
    | b :: rest =>
      if b = Text.byte '(' then do
        let (a, rest) ← level lookup n operators rest
        let rest := rest.dropWhile isBlank
        if rest.head? == some (Text.byte ')') then return (a, rest.drop 1) else none
      else if b = Text.byte '-' then do
        let (a, rest) ← operand lookup n rest
        return (-a, rest)
      else if b = Text.byte '+' then operand lookup n rest
      else if b = Text.byte '!' then do
        let (a, rest) ← operand lookup n rest
        return (if a = 0 then 1 else 0, rest)
      else if isDigit b then
        some (decimal ((b :: rest).takeWhile isDigit), (b :: rest).dropWhile isDigit)
      else if startsName b then do
        let a ← integer? (lookup ((b :: rest).takeWhile inName))
        return (a, (b :: rest).dropWhile inName)
      else none

end

/-- The value of an expression. -/
def arithmetic? (lookup : Text → Text) (t : Text) : Option Int := do
  if t.all isBlank then return 0
  let (a, rest) ← level lookup (20 * t.length + 100) operators t
  if rest.all isBlank then return a else none

end Rebuild.Shell
