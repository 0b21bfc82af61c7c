/-
  A link and its worker, byte by byte.

  A call writes its request into one stream and reads the answer from the other; the worker
  takes turns of its loop.  A run is any order of their steps.

      link ── write ──▸ requests ── receive ──▸ worker
      link ◂── hear ── responses ◂── say ── worker

  * bytes go into a stream and come out of it in their order, any number of them at a time;
  * the worker may end at any point, and so may a call that has a time limit;
  * others may kill the link at any point, also during a call.
-/
import Rebuild.Worker.Link
import Rebuild.Worker.Loop

namespace Rebuild

/-- What comes of an item when a handler has answered it. -/
def WorkResult.ofAnswer (id : UInt64) : Except Text Text → WorkResult
  | .ok value => .answered id value
  | .error message => .failed id .reported message

/-- A call that has begun. -/
structure Calling where
  item : Item
  /-- The time limit in milliseconds, none if it is negative. -/
  limit : Int
  /-- The link when the call began. -/
  link : WorkerLink
  /-- What is still to be written of the request. -/
  unwritten : Text
  /-- What has arrived since, piece by piece. -/
  arrived : List Text := []
deriving DecidableEq, Repr

/-- A worker in its loop. -/
structure Serving (σ : Type) where
  /-- What its handler remembers. -/
  state : σ
  /-- What has come in and was not read, piece by piece. -/
  received : List Text := []
  /-- What is still to be written of a response. -/
  unsaid : Text := []

/-- A link and its worker, with the streams between them. -/
structure Dialogue (σ : Type) where
  link : WorkerLink
  call : Option Calling := none
  /-- The bytes on their way to the worker. -/
  requests : Text := []
  /-- None once it has ended. -/
  worker : Option (Serving σ)
  /-- The bytes on their way from the worker. -/
  responses : Text := []

namespace Dialogue

variable {σ : Type}

/-- A step of someone. -/
inductive Move (σ : Type)
  | call (item : Item)
  | write (t : Text)
  | hear (t : Text)
  | returned (r : WorkResult)
  | receive (t : Text)
  /-- The handler was given a payload in a state. -/
  | handled (state : σ) (payload : Text)
  | say (t : Text)
  | ended
  | kill

/-- A worker that was launched. -/
def start (process : Nat) (fingerprint : Text) (state : σ) : Dialogue σ :=
  { link := { process, fingerprint }, worker := some { state } }

/-- The bytes of the request for an item. -/
def requestFrame (item : Item) : Text := Frame.encode (WorkerLink.request item).encode

/-- Someone goes on. -/
inductive Step (handler : Handler σ) : Dialogue σ → Move σ → Dialogue σ → Prop
  | call {d : Dialogue σ} (item : Item) (limit : Int) :
      d.call = none →
      Step handler d (.call item)
        { d with call := some ⟨item, limit, d.link, requestFrame item, []⟩ }
  /-- Nothing is written over a broken link, and nothing of a request that is too large. -/
  | write {d : Dialogue σ} {k : Calling} {t u : Text} :
      d.call = some k → k.link.broken = false →
      (WorkerLink.request k.item).encode.length ≤ maxFrame → k.unwritten = t ++ u →
      Step handler d (.write t)
        { d with call := some { k with unwritten := u }, requests := d.requests ++ t }
  | hear {d : Dialogue σ} {k : Calling} {t u : Text} :
      d.call = some k → d.responses = t ++ u →
      Step handler d (.hear t)
        { d with call := some { k with arrived := k.arrived ++ [t] }, responses := u }
  /-- A worker that was waited for has ended. -/
  | returned {d : Dialogue σ} {k : Calling} {r : WorkResult} {after : WorkerLink}
      (x : Exchange) :
      d.call = some k → (x.written = .ok → k.unwritten = []) → x.arriving = k.arrived →
      k.link.call k.item k.limit x = some (r, after) →
      Step handler d (.returned r)
        { d with call := none
                 link := { after with broken := after.broken || d.link.broken }
                 worker := if after.reaped then none else d.worker }
  | receive {d : Dialogue σ} {w : Serving σ} {t u : Text} :
      d.worker = some w → d.requests = t ++ u →
      Step handler d (.receive t)
        { d with requests := u, worker := some { w with received := w.received ++ [t] } }
  /-- The worker handles a request as soon as the last response is written. -/
  | handle {d : Dialogue σ} {w : Serving σ} {payload : Text} {r : Response} {state : σ}
      {rest : Inflow} (closed : Bool) :
      d.worker = some w → w.unsaid = [] →
      WorkerLoop.turn handler w.state ⟨w.received, closed⟩ = .handled payload r state rest →
      WorkerLoop.fits r = true →
      Step handler d (.handled w.state payload)
        { d with worker := some ⟨state, rest.pieces, Frame.encode r.encode⟩ }
  /-- It cannot write this response, and ends. -/
  | giveUp {d : Dialogue σ} {w : Serving σ} {payload : Text} {r : Response} {state : σ}
      {rest : Inflow} (closed : Bool) :
      d.worker = some w → w.unsaid = [] →
      WorkerLoop.turn handler w.state ⟨w.received, closed⟩ = .handled payload r state rest →
      WorkerLoop.fits r = false →
      Step handler d (.handled w.state payload) { d with worker := none }
  | say {d : Dialogue σ} {w : Serving σ} {t u : Text} :
      d.worker = some w → w.unsaid = t ++ u →
      Step handler d (.say t)
        { d with responses := d.responses ++ t, worker := some { w with unsaid := u } }
  /-- The worker dies, or its loop is over. -/
  | ended {d : Dialogue σ} : Step handler d .ended { d with worker := none }
  | kill {d : Dialogue σ} : Step handler d .kill { d with link := d.link.kill }

/-- One after the other goes on; the moves in their order. -/
inductive Run (handler : Handler σ) (d : Dialogue σ) : List (Move σ) → Dialogue σ → Prop
  | nil : Run handler d [] d
  | snoc {moves : List (Move σ)} {d' d'' : Dialogue σ} {m : Move σ} :
      Run handler d moves d' → Step handler d' m d'' → Run handler d (moves ++ [m]) d''

end Dialogue

end Rebuild
