/-
  Reading into what is there already.

  The caller of a reader keeps one value and lets each message be read into it, field by
  field.  A read that fails half-way leaves behind what it had written until then.

  * a `Filler` is given the old value, and says whether everything could be read;
  * `Filler.within` reads into one field, `Filler.andThen` goes on with the next;
  * `Filler.exactly` fills from all of a byte string.
-/
import Rebuild.Encoding.Decoder

namespace Rebuild

/-- Reads into a value that is there: whether everything could be read, then the value and the
    reader as the read leaves them. -/
def Filler (σ : Type) : Type := σ → Reader → Bool × σ × Reader

namespace Filler

variable {σ α : Type}

/-- Puts what is read in place of the old value. -/
def ofDecoder (d : Decoder α) : Filler α := fun old r =>
  match d r with
  | (some a, r) => (true, a, r)
  | (none, r) => (false, old, r)

/-- Puts `n` values behind those that are there, one after the other. -/
def push (item : Decoder α) : Nat → Filler (List α)
  | 0 => fun xs r => (true, xs, r)
  | n + 1 => fun xs r =>
    match item r with
    | (some a, r) => push item n (xs ++ [a]) r
    | (none, r) => (false, xs, r)

/-- A count and as many values.  The old ones are dropped as soon as the bytes left can suffice
    for the count, each value taking at least `least` of them. -/
def list (least : Nat) (item : Decoder α) : Filler (List α) := fun old r =>
  match Decoder.u32 r with
  | (some n, r) =>
    if r.rest.hasAtLeast (least * n.toNat) then push item n.toNat [] r
    else (false, old, { r with ok := false })
  | (none, r) => (false, old, r)

/-- Reads into a part of a value. -/
def within (f : Filler α) (get : σ → α) (set : σ → α → σ) : Filler σ := fun s r =>
  let (all, a, r) := f (get s) r
  (all, set s a, r)

/-- Goes on with `g` unless `f` failed. -/
def andThen (f g : Filler σ) : Filler σ := fun s r =>
  match f s r with
  | (true, s, r) => g s r
  | (false, s, r) => (false, s, r)

/-- Whether a value can be read that takes all of the bytes, and the old value after that. -/
def exactly (f : Filler σ) (t : Text) (old : σ) : Bool × σ :=
  let (all, s, r) := f old (Reader.start t)
  (all && r.atEnd, s)

end Filler

end Rebuild
