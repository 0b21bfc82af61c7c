/-
  Pipes: byte streams between two processes, with room for a number of pages.

  A write fills the last page up only if what would fill no page by itself fits there, and
  takes new pages for the rest.  A page is free again once all of it was read.

  * `Pipe.write` writes as much as there is room for, without waiting;
  * `Pipe.inflow` is what the reader finds.
-/
import Rebuild.Worker.Frame

namespace Rebuild

/-- The number of bytes in a page. -/
def pageSize : Nat := 4096

/-- The number of pages in a pipe. -/
def pipePages : Nat := 16

/-- A page of a pipe that was not read to its end. -/
structure PipePage where
  /-- Bytes of the page that were read already. -/
  start : Nat
  content : Text
deriving DecidableEq, Repr

/-- A pipe. -/
structure Pipe where
  pages : List PipePage := []
  writerOpen : Bool := true
  readerOpen : Bool := true
deriving DecidableEq, Repr

namespace Pipe

/-- What the reader finds. -/
def inflow (p : Pipe) : Inflow := ⟨p.pages.map (·.content), !p.writerOpen⟩

/-- The pages when so many bytes of them were read. -/
def drop : Nat → List PipePage → List PipePage
  | _, [] => []
  | n, page :: pages =>
    if page.content.hasAtLeast (n + 1) then
      ⟨page.start + n, page.content.drop n⟩ :: pages
    else drop (n - page.content.length) pages

/-- The pipe when all but so many bytes were read. -/
def keep (p : Pipe) (left : Nat) : Pipe :=
  let length := p.pages.foldl (fun n page => n + page.content.length) 0
  { p with pages := drop (length - left) p.pages }

/-- Puts a text on new pages as far as there is room; what is left over. -/
def fill : Nat → Text → List PipePage × Text
  | 0, t => ([], t)
  | room + 1, t =>
    if t = [] then ([], [])
    else
      let (pages, rest) := fill room (t.drop pageSize)
      (⟨0, t.take pageSize⟩ :: pages, rest)

/-- The last page with the beginning of a text in front of its full pages, if that fits
    there; and the rest of the text. -/
def fillLast (pages : List PipePage) (t : Text) : List PipePage × Text :=
  let n := t.length % pageSize
  match pages.getLast? with
  | some page =>
    if n ≠ 0 ∧ page.start + page.content.length + n ≤ pageSize then
      (pages.dropLast ++ [{ page with content := page.content ++ t.take n }], t.drop n)
    else (pages, t)
  | none => (pages, t)

/-- Writes as much of a text as there is room for: the pipe and what is left over. -/
def write (p : Pipe) (t : Text) : Pipe × Text :=
  let (pages, t) := fillLast p.pages t
  let (more, rest) := fill (pipePages - pages.length) t
  ({ p with pages := pages ++ more }, rest)

/-- Writes a frame within a deadline that nothing is read before. -/
def writeFrame (patience : Patience) (p : Pipe) (body : Text) : IoStatus × Pipe :=
  if maxFrame < body.length then (.error, p)
  else if patience = .millis 0 then (.timeout, p)
  else if !p.readerOpen then (.eof, p)
  else if pipePages ≤ p.pages.length then (.timeout, p)
  else
    let (p, rest) := p.write (Frame.encode body)
    (if rest = [] then .ok else .timeout, p)

/-- Reads a frame within a deadline that nothing is written before. -/
def readFrame (patience : Patience) (p : Pipe) : FrameRead × Pipe :=
  let (r, s) := Frame.read patience p.inflow
  (r, p.keep s.size)

end Pipe

end Rebuild
