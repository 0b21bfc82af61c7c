/-
  Pools with all who use them at once.

  Whoever submits an item is a visit, which goes through the phases of its item.  What it
  does under the lock of the pool is one step, and so is what it does without it: ending a
  worker, launching one, calling one.  Others call `cancel` and `close` the pool.  A run is
  any order of such steps, with any filter that leaves the numbers of items alone and any
  outcome of launches and calls.

      awake → asleep → awake
      awake → calling → awake

  * a visit that finds no place or no slot sleeps until it is told of a change, and so does
    who closes the pool as long as items are admitted; now and then someone wakes for nothing;
  * changes are told under the lock, but for a slot that was given back: that is told after
    the lock was left, and is `untold` until then.

  Only in this it is wider than a lock allows: between taking note of an item, admitting it
  and giving it a slot, which a visit does in one go if it need not wait, others may come in.
-/
import Rebuild.Worker.Pool

namespace Rebuild

/-! ## Visits -/

/-- How a visit is engaged. -/
inductive Stance
  /-- It goes on as soon as it can. -/
  | awake
  /-- It waits to be told of a change. -/
  | asleep
  /-- It waits for a worker, whose link was this one when the call began. -/
  | calling (link : WorkerLink)
deriving DecidableEq, Repr

/-- A change was told. -/
def Stance.wake : Stance → Stance
  | .asleep => .awake
  | s => s

/-- Someone who submits an item. -/
structure Visit where
  /-- The number of the item that was handed in. -/
  id : UInt64
  phase : Phase
  stance : Stance := .awake
deriving DecidableEq, Repr

namespace Visit

/-- What others may note when a visit goes on. -/
inductive Event
  | inner
  /-- Its item was admitted. -/
  | admitted (ticket : Nat)
  /-- It left the queue for a slot. -/
  | dispatched (ticket slot : Nat)
  /-- It left the queue without a slot. -/
  | withdrawn
  /-- A worker was launched and put into its slot. -/
  | launched (slot link : Nat) (fingerprint : Text)
  /-- Its item went out to a worker. -/
  | sent (item : Item) (link : Nat)
  /-- The call of the worker came to this result. -/
  | replied (link : Nat) (result : WorkResult)
  /-- It gave its slot back. -/
  | freed
deriving DecidableEq, Repr

/-- A change was told. -/
def wake (v : Visit) : Visit := { v with stance := v.stance.wake }

/-- A visit goes on in a pool. -/
inductive Step (p : Pool) : Visit → Event → Pool → Visit → Prop
  | register {id : UInt64} {item : Item} {p' : Pool} {next : Phase} :
      p.register item = (p', next) →
      Step p ⟨id, .arrived item, .awake⟩ .inner p' ⟨id, next, .awake⟩
  | accept {id : UInt64} {item : Item} {ticket : Nat} {p' : Pool} :
      p.admit? item = some (p', .queued item ticket) →
      Step p ⟨id, .registered item, .awake⟩ (.admitted ticket) p'
        ⟨id, .queued item ticket, .awake⟩
  | sendAway {id : UInt64} {item : Item} {r : WorkResult} {p' : Pool} :
      p.admit? item = some (p', .done r) →
      Step p ⟨id, .registered item, .awake⟩ .inner p' ⟨id, .done r, .awake⟩
  | awaitPlace {id : UInt64} {item : Item} :
      p.admit? item = none →
      Step p ⟨id, .registered item, .awake⟩ .inner p ⟨id, .registered item, .asleep⟩
  | dispatch {id : UInt64} {item : Item} {ticket slot : Nat} {p' : Pool} :
      p.dispatch? item ticket = some (p', .dispatched item slot) →
      Step p ⟨id, .queued item ticket, .awake⟩ (.dispatched ticket slot) p'
        ⟨id, .dispatched item slot, .awake⟩
  | withdraw {id : UInt64} {item : Item} {ticket : Nat} {r : WorkResult} {p' : Pool} :
      p.dispatch? item ticket = some (p', .done r) →
      Step p ⟨id, .queued item ticket, .awake⟩ .withdrawn p' ⟨id, .done r, .awake⟩
  | awaitSlot {id : UInt64} {item : Item} {ticket : Nat} :
      p.dispatch? item ticket = none →
      Step p ⟨id, .queued item ticket, .awake⟩ .inner p ⟨id, .queued item ticket, .asleep⟩
  | prepare {id : UInt64} {item : Item} {slot : Nat} {p' : Pool} {next : Phase} :
      p.prepare item slot = (p', next) →
      Step p ⟨id, .dispatched item slot, .awake⟩ .inner p' ⟨id, next, .awake⟩
  | retire {id : UInt64} {item : Item} {slot link : Nat} {recycled : Bool} {p' : Pool}
      {next : Phase} :
      p.retired item slot link = (p', next) →
      Step p ⟨id, .retiring item slot link recycled, .awake⟩ .inner p' ⟨id, next, .awake⟩
  | launch {id : UInt64} {item : Item} {slot : Nat} {p' : Pool} {next : Phase} (process : Nat) :
      p.install item slot process = (p', next) →
      Step p ⟨id, .launching item slot, .awake⟩
        (.launched slot p.links.length item.fingerprint) p' ⟨id, next, .awake⟩
  | launchFailed {id : UInt64} {item : Item} {slot : Nat} (why : Text) :
      Step p ⟨id, .launching item slot, .awake⟩ .inner p
        ⟨id, Pool.unlaunched item slot why, .awake⟩
  | fetch {id : UInt64} {item : Item} {slot : Nat} {p' : Pool} {next : Phase} :
      p.fetch item slot = (p', next) →
      Step p ⟨id, .ready item slot, .awake⟩ .inner p' ⟨id, next, .awake⟩
  | send {id : UInt64} {item : Item} {slot link : Nat} {l : WorkerLink} :
      p.links[link]? = some l → l.broken = false →
      Step p ⟨id, .calling item slot link, .awake⟩ (.sent item link) p
        ⟨id, .calling item slot link, .calling l⟩
  /-- Nothing is sent over a broken link. -/
  | keep {id : UInt64} {item : Item} {slot link : Nat} {l : WorkerLink} :
      p.links[link]? = some l → l.broken = true →
      Step p ⟨id, .calling item slot link, .awake⟩ .inner p
        ⟨id, .calling item slot link, .calling l⟩
  | reply {id : UInt64} {item : Item} {slot link : Nat} {l after : WorkerLink} {r : WorkResult}
      (limit : Int) (x : Exchange) :
      l.call item limit x = some (r, after) →
      Step p ⟨id, .calling item slot link, .calling l⟩ (.replied link r)
        (p.updateLink link fun now => { after with broken := after.broken || now.broken })
        ⟨id, .settling slot r, .awake⟩
  | settle {id : UInt64} {slot : Nat} {r : WorkResult} {p' : Pool} {next : Phase} :
      p.settle slot r = (p', next) →
      Step p ⟨id, .settling slot r, .awake⟩ .inner p' ⟨id, next, .awake⟩
  | bury {id : UInt64} {slot link : Nat} {respawn : Option Text} {r : WorkResult} {p' : Pool}
      {next : Phase} :
      p.buried slot link respawn r = (p', next) →
      Step p ⟨id, .burying slot link respawn r, .awake⟩ .inner p' ⟨id, next, .awake⟩
  | replace {id : UInt64} {slot : Nat} {fingerprint : Text} {r : WorkResult} {p' : Pool}
      {next : Phase} (process : Nat) :
      p.replace slot process fingerprint r = (p', next) →
      Step p ⟨id, .replacing slot fingerprint r, .awake⟩
        (.launched slot p.links.length fingerprint) p' ⟨id, next, .awake⟩
  | replaceFailed {id : UInt64} {slot : Nat} {fingerprint : Text} {r : WorkResult} :
      Step p ⟨id, .replacing slot fingerprint r, .awake⟩ .inner p ⟨id, .freeing slot r, .awake⟩
  | free {id : UInt64} {slot : Nat} {r : WorkResult} {p' : Pool} {next : Phase} :
      p.free slot r = (p', next) →
      Step p ⟨id, .freeing slot r, .awake⟩ .freed p' ⟨id, next, .awake⟩

end Visit

/-! ## All together -/

/-- Someone who closes a pool. -/
inductive Closing
  /-- It waits until no item is admitted. -/
  | waiting (asleep : Bool)
  /-- It stops the workers behind these links. -/
  | stopping (links : List Nat)
  | returned
deriving DecidableEq, Repr

/-- A change was told. -/
def Closing.wake : Closing → Closing
  | .waiting _ => .waiting false
  | c => c

/-- A pool with all who use it. -/
structure Traffic where
  pool : Pool
  visits : List Visit := []
  closings : List Closing := []
  /-- The number of changes that were not told yet. -/
  untold : Nat := 0

namespace Traffic

/-- A step of someone. -/
inductive Move
  /-- An item is handed in, and this is what the filter makes of it. -/
  | come (item : Item) (passed : Dispatch)
  | visit (i : Nat) (e : Visit.Event)
  /-- A slot that was given back is told of. -/
  | tell
  /-- A visit wakes for nothing, untold. -/
  | stir (i : Nat)
  | cancel
  /-- Someone begins to close the pool. -/
  | close
  | closing (i : Nat)
deriving DecidableEq, Repr

/-- A pool that no one uses yet. -/
def start (settings : PoolSettings) (processors : Nat) : Traffic :=
  { pool := .make settings processors }

/-- A change is told to all who wait for one. -/
def wake (c : Traffic) : Traffic :=
  { c with visits := c.visits.map Visit.wake, closings := c.closings.map Closing.wake }

/-- An item came in. -/
def enter (c : Traffic) (id : UInt64) (next : Pool × Phase) : Traffic :=
  { c with pool := next.1, visits := c.visits ++ [⟨id, next.2, .awake⟩] }

/-- Visit `i` has gone on.  Who leaves the queue tells it. -/
def pass (c : Traffic) (i : Nat) (e : Visit.Event) (p : Pool) (v : Visit) :
    Traffic :=
  let c := { c with pool := p, visits := c.visits.set i v }
  match e with
  | .dispatched _ _ | .withdrawn => c.wake
  | .freed => { c with untold := c.untold + 1 }
  | _ => c

/-- Someone goes on. -/
inductive Step : Traffic → Move → Traffic → Prop
  | come {c : Traffic} {item : Item} {d : Dispatch} :
      d.item.id = item.id → d.skipped = false →
      Step c (.come item d) (c.enter item.id (c.pool, .arrived d.item))
  | skip {c : Traffic} {item : Item} {d : Dispatch} :
      d.item.id = item.id → d.skipped = true →
      Step c (.come item d) (c.enter item.id (c.pool.skip d.item.id))
  | visit {c : Traffic} {i : Nat} {e : Visit.Event} {v v' : Visit} {p : Pool} :
      c.visits[i]? = some v → v.Step c.pool e p v' → Step c (.visit i e) (c.pass i e p v')
  | tell {c : Traffic} {n : Nat} :
      c.untold = n + 1 → Step c .tell { c.wake with untold := n }
  | stir {c : Traffic} {i : Nat} {v : Visit} :
      c.visits[i]? = some v → v.stance = .asleep →
      Step c (.stir i) { c with visits := c.visits.set i v.wake }
  /-- Only the first call of `cancel` does anything. -/
  | cancel {c : Traffic} :
      c.pool.cancelled = false → Step c .cancel { c.wake with pool := c.pool.cancel }
  | close {c : Traffic} :
      Step c .close
        { c.wake with pool := c.pool.close, closings := c.wake.closings ++ [.waiting false] }
  | rest {c : Traffic} {i : Nat} :
      c.closings[i]? = some (.waiting false) → c.pool.drain? = none →
      Step c (.closing i) { c with closings := c.closings.set i (.waiting true) }
  | stirClosing {c : Traffic} {i : Nat} :
      c.closings[i]? = some (.waiting true) →
      Step c (.closing i) { c with closings := c.closings.set i (.waiting false) }
  | drain {c : Traffic} {i : Nat} {p : Pool} {links : List Nat} :
      c.closings[i]? = some (.waiting false) → c.pool.drain? = some (p, links) →
      Step c (.closing i) { c with pool := p, closings := c.closings.set i (.stopping links) }
  | stop {c : Traffic} {i link : Nat} {links : List Nat} :
      c.closings[i]? = some (.stopping (link :: links)) →
      Step c (.closing i)
        { c with pool := c.pool.updateLink link WorkerLink.reap
                 closings := c.closings.set i (.stopping links) }
  | stopped {c : Traffic} {i : Nat} :
      c.closings[i]? = some (.stopping []) →
      Step c (.closing i) { c with closings := c.closings.set i .returned }

/-- One after the other goes on; the moves in their order. -/
inductive Run (c : Traffic) : List Move → Traffic → Prop
  | nil : Run c [] c
  | snoc {moves : List Move} {c' c'' : Traffic} {m : Move} :
      Run c moves c' → Step c' m c'' → Run c (moves ++ [m]) c''

end Traffic

end Rebuild
