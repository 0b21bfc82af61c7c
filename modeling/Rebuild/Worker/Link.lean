/-
  Links: what a coordinator holds of a worker process.

  * `WorkerLink.call` sends an item over a link and makes a result of what comes back within
    the time limit; a call that ends without a whole answer to its item breaks the link;
  * a broken link is never used again.
-/
import Rebuild.Worker.Frame
import Rebuild.Worker.Item
import Rebuild.Worker.Message

namespace Rebuild

/-- A worker process as its coordinator knows it. -/
structure WorkerLink where
  /-- The number of the process. -/
  process : Nat
  /-- What the worker was started for. -/
  fingerprint : Text
  /-- The number of items that it answered. -/
  served : Nat := 0
  /-- It takes no more items. -/
  broken : Bool := false
  /-- Its end was waited for. -/
  reaped : Bool := false
  /-- What has arrived from it and was not read. -/
  unread : List Text := []
deriving DecidableEq, Repr

/-- What the streams of a worker bring during one call. -/
structure Exchange where
  /-- How writing the request ended. -/
  written : IoStatus
  /-- What arrives within the time limit, piece by piece. -/
  arriving : List Text
  /-- The stream of answers ends behind that. -/
  closed : Bool
  /-- How the process ended, or ends when the link is broken. -/
  exit : Text

namespace WorkerLink

/-- How messages speak of the worker. -/
def title (l : WorkerLink) : Text := "worker " ++ Text.ofNat l.process

/-- Ends the process at once. -/
def kill (l : WorkerLink) : WorkerLink := { l with broken := true }

/-- Waits for the end of the process. -/
def reap (l : WorkerLink) : WorkerLink := { l with broken := true, reaped := true }

/-- A failure after which the worker is not used again. -/
def lose (l : WorkerLink) (item : Item) (kind : FailureKind) (message : Text) :
    WorkResult × WorkerLink :=
  (.failed item.id kind message, l.reap)

/-- The request for an item. -/
def request (item : Item) : Request := ⟨.work, item.id, item.payload⟩

/-- The result that a response gives, if it is one to this item. -/
def judge (l : WorkerLink) (item : Item) (body : Text) (rest : List Text) :
    WorkResult × WorkerLink :=
  match Response.decode? body with
  | none => l.lose item .crashed ("malformed response from " ++ l.title)
  | some r =>
    if r.id ≠ item.id then
      l.lose item .crashed ("response correlation mismatch: expected " ++
        Text.ofNat item.id.toNat ++ ", got " ++ Text.ofNat r.id.toNat)
    else
      let l := { l with served := l.served + 1, unread := rest }
      match r.kind with
      | .ok => (.answered item.id r.data, l)
      | .error => (.failed item.id .reported r.data, l)

/-- Sends an item with a time limit in milliseconds, none if it is negative.  There is no
    result as long as an answer is waited for. -/
def call (l : WorkerLink) (item : Item) (limit : Int) (x : Exchange) :
    Option (WorkResult × WorkerLink) :=
  let within : Text := " within " ++ Text.ofInt limit ++ " ms"
  if l.broken then some (.failed item.id .crashed (l.title ++ " is not usable"), l)
  else match x.written with
    | .timeout => some (l.lose item .timedOut (l.title ++ " did not accept work" ++ within))
    | .ok =>
      match Frame.read (.ofInt limit) ⟨l.unread ++ x.arriving, x.closed⟩ with
      | (.body body, rest) => some (l.judge item body rest.pieces)
      | (.stopped .timeout, _) =>
        some (l.lose item .timedOut ("no response from " ++ l.title ++ within))
      | (.stopped _, _) => some (l.lose item .crashed (l.title ++ " died (" ++ x.exit ++ ")"))
      | (.waiting, _) => none
    | _ => some (l.lose item .crashed (l.title ++ " stopped accepting work (" ++ x.exit ++ ")"))

end WorkerLink

end Rebuild
