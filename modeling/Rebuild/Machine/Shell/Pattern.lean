/-
  Patterns: `*` stands for any text, `?` for any byte, `[…]` for one of some bytes.

  A pattern is a list of bytes, each with the note whether it was quoted; quoted bytes stand
  for themselves.
-/
import Rebuild.Machine.Shell.Syntax

namespace Rebuild.Shell

/-- A pattern; the note of a byte tells whether it stands for itself. -/
abbrev Pattern := List (UInt8 × Bool)

namespace Pattern

/-- The byte of a pattern has its special meaning. -/
def special (c : Char) (p : UInt8 × Bool) : Bool := p.1 == Text.byte c && !p.2

/-- Whether a byte is one of those between brackets; ranges are written with a dash. -/
def inRange (b : UInt8) : Pattern → Bool
  | lo :: dash :: hi :: rest =>
    if special '-' dash then (lo.1 ≤ b && b ≤ hi.1) || inRange b rest
    else lo.1 == b || inRange b (dash :: hi :: rest)
  | lo :: rest => lo.1 == b || inRange b rest
  | [] => false

/-- What stands between brackets, and what follows them. -/
def bracket (p : Pattern) : Option (Pattern × Pattern) :=
  let skipped := if p.head?.any (special '!') then 1 else 0
  let first := p.take (skipped + 1)
  let rest := p.drop (skipped + 1)
  let inner := rest.takeWhile fun q => !special ']' q
  let behind := rest.drop inner.length
  if behind.isEmpty then none else some (first ++ inner, behind.tail)

/-- Whether a byte is one of those that a bracket stands for. -/
def inBracket (b : UInt8) (p : Pattern) : Bool :=
  if p.head?.any (special '!') then !inRange b p.tail else inRange b p

theorem bracket_length {p inner rest : Pattern} (h : bracket p = some (inner, rest)) :
    rest.length ≤ p.length := by
  simp only [bracket, Option.ite_none_left_eq_some, Option.some.injEq, Prod.mk.injEq] at h
  obtain ⟨_, _, rfl⟩ := h
  simp only [List.length_tail, List.length_drop]
  omega

/-- Whether all of a text matches. -/
def accepts (p : Pattern) (t : Text) : Bool :=
  match p with
  | [] => t.isEmpty
  | q :: rest =>
    if special '*' q then
      accepts rest t ||
        match t with
        | [] => false
        | _ :: u => accepts (q :: rest) u
    else match t with
      | [] => false
      | b :: u =>
        if special '?' q then accepts rest u
        else if special '[' q then
          match _h : bracket rest with
          | some (inner, behind) => inBracket b inner && accepts behind u
          | none => q.1 == b && accepts rest u
        else q.1 == b && accepts rest u
termination_by (p.length, t.length)
decreasing_by
  all_goals simp_wf
  · exact Prod.Lex.left _ _ (by omega)
  · exact Prod.Lex.right _ (by omega)
  · exact Prod.Lex.left _ _ (by omega)
  · exact Prod.Lex.left _ _ (by have := bracket_length _h; omega)
  · exact Prod.Lex.left _ _ (by omega)
  · exact Prod.Lex.left _ _ (by omega)

/-- A text without its shortest or longest beginning that matches. -/
def dropStart (p : Pattern) (longest : Bool) (t : Text) : Text :=
  let sizes := List.range (t.length + 1)
  match (if longest then sizes.reverse else sizes).find? fun n => p.accepts (t.take n) with
  | some n => t.drop n
  | none => t

/-- A text without its shortest or longest end that matches. -/
def dropEnd (p : Pattern) (longest : Bool) (t : Text) : Text :=
  let sizes := List.range (t.length + 1)
  match (if longest then sizes else sizes.reverse).find? fun n => p.accepts (t.drop n) with
  | some n => t.take n
  | none => t

end Pattern

end Rebuild.Shell
