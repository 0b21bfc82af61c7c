/-
  Frames: byte strings sent one after the other over a byte stream.

      u32   length of the body
            body

  * an `Inflow` is what one end of a stream has to read: pieces in the order in which they
    arrive, and whether the stream ends behind them;
  * `Inflow.take` collects a number of bytes over as many pieces as it needs;
  * `Frame.read` reads a frame, within a deadline if there is one.
-/
import Rebuild.Encoding

namespace Rebuild

/-- The largest body of a frame: 256 MiB. -/
def maxFrame : Nat := 256 * 1024 * 1024

/-- How reading or writing a frame ended. -/
inductive IoStatus
  | ok
  /-- The other end is closed. -/
  | eof
  /-- The deadline passed. -/
  | timeout
  /-- The frame is malformed, too large or broken off. -/
  | error
deriving DecidableEq, Repr

/-- The displayed name of a status. -/
def IoStatus.name : IoStatus → Text
  | ok => "ok"
  | eof => "eof"
  | timeout => "timeout"
  | error => "error"

/-- How long to wait for the other end. -/
inductive Patience
  | forever
  /-- So many milliseconds. -/
  | millis (n : Nat)
deriving DecidableEq, Repr

/-- No limit for a negative number of milliseconds. -/
def Patience.ofInt : Int → Patience
  | .ofNat n => .millis n
  | .negSucc _ => .forever

/-- What is to be read from a stream. -/
structure Inflow where
  /-- What arrives, piece by piece. -/
  pieces : List Text
  /-- The stream ends behind the pieces; otherwise nothing more comes. -/
  closed : Bool
deriving DecidableEq, Repr

namespace Inflow

/-- All bytes that arrive. -/
def bytes (s : Inflow) : Text := s.pieces.flatten

/-- The number of bytes that arrive. -/
def size (s : Inflow) : Nat := s.bytes.length

/-- What comes of asking for bytes. -/
inductive Taken
  | bytes (t : Text)
  /-- The stream ended first. -/
  | ended
  /-- Nothing came any more. -/
  | silent
deriving DecidableEq, Repr

/-- Collects `n` bytes on top of those in `got`, the last first.  Bytes collected before
    the stream ends or falls silent are lost. -/
def takePieces (closed : Bool) (n : Nat) (got : Text) : List Text → Taken × List Text
  | [] => if n = 0 then (.bytes got.reverse, []) else (if closed then .ended else .silent, [])
  | p :: ps =>
    if p.hasAtLeast n then (.bytes (got.reverse ++ p.take n), p.drop n :: ps)
    else takePieces closed (n - p.length) (p.reverse ++ got) ps

/-- Takes the next `n` bytes. -/
def take (s : Inflow) (n : Nat) : Taken × Inflow :=
  let (t, ps) := takePieces s.closed n [] s.pieces
  (t, { s with pieces := ps })

/-- Taking bytes leaves fewer. -/
theorem take_eq_bytes {s : Inflow} {n : Nat} {t : Text} (h : (s.take n).1 = .bytes t) :
    n ≤ s.size ∧ (s.take n).2.size ≤ s.size - n := by
  have key : ∀ (n : Nat) (got : Text) (ps : List Text),
      (takePieces s.closed n got ps).1 = .bytes t →
      n ≤ ps.flatten.length ∧
        (takePieces s.closed n got ps).2.flatten.length ≤ ps.flatten.length - n := by
    intro n got ps
    induction ps generalizing n got with
    | nil =>
      simp only [takePieces]
      intro h
      split at h
      · next hn => simp [hn]
      · split at h <;> cases h
    | cons p ps ih =>
      simp only [takePieces]
      split
      · next hp =>
        intro _
        rw [Text.hasAtLeast_iff] at hp
        simp only [List.flatten_cons, List.length_append, List.length_drop]
        omega
      · intro h
        have := ih _ _ h
        simp only [List.flatten_cons, List.length_append]
        omega
  simpa [take, size, bytes] using key n [] s.pieces h

end Inflow

/-! ## Frames -/

/-- What reading a frame comes to. -/
inductive FrameRead
  | body (t : Text)
  /-- The reading ended without a body. -/
  | stopped (status : IoStatus)
  /-- It has not ended: more bytes are waited for, without a deadline. -/
  | waiting
deriving DecidableEq, Repr

namespace Frame

/-- The bytes of a frame. -/
def encode (body : Text) : Text := Encode.text body

/-- What falling silent means to who waits so long. -/
def silence : Patience → FrameRead
  | .forever => .waiting
  | .millis _ => .stopped .timeout

/-- Reads the body, of which the length is known.  A stream that ends here is broken
    off. -/
def readBody (p : Patience) (n : Nat) (s : Inflow) : FrameRead × Inflow :=
  if maxFrame < n then (.stopped .error, s)
  else match s.take n with
    | (.bytes body, s) => (.body body, s)
    | (.ended, s) => (.stopped .error, s)
    | (.silent, s) => (silence p, s)

/-- Reads a frame.  Without any time nothing is read. -/
def read (p : Patience) (s : Inflow) : FrameRead × Inflow :=
  if p = .millis 0 then (.stopped .timeout, s)
  else match s.take 4 with
    | (.bytes header, s) => readBody p (leValue header) s
    | (.ended, s) => (.stopped .eof, s)
    | (.silent, s) => (silence p, s)

/-- A frame that was read takes bytes from the stream. -/
theorem size_read_lt {p : Patience} {s : Inflow} {t : Text} (h : (read p s).1 = .body t) :
    (read p s).2.size < s.size := by
  unfold read at h ⊢
  split at h
  · cases h
  · next hp =>
    simp only [hp, if_false]
    have hh := @Inflow.take_eq_bytes s 4
    revert h hh
    rcases s.take 4 with ⟨_ | _ | _, s'⟩
    · next header =>
      intro h hh
      obtain ⟨h4, hle⟩ := hh rfl
      simp only at h hle ⊢
      unfold readBody at h ⊢
      split at h
      · cases h
      · next hn =>
        simp only [hn, if_false]
        have hb := @Inflow.take_eq_bytes s' (leValue header)
        revert h hb
        rcases s'.take (leValue header) with ⟨_ | _ | _, s''⟩
        · intro _ hb
          have := (hb rfl).2
          simp only at this ⊢
          omega
        · intro h _
          cases h
        · intro h _
          cases p <;> cases h
    · intro h _
      cases h
    · intro h _
      cases p <;> cases h

end Frame

end Rebuild
