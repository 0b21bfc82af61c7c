/-
  A pool of workers: slots for worker processes, and items on their way through them.

  Every item that is submitted goes through phases.  What happens under the lock of the pool
  is a function on the pool; between two of them others get their turn, so a run of the pool
  is any order of such steps.

      register → admit → dispatch → prepare (→ install) → fetch → settle (→ replace) → free

  * at most as many items are admitted as there are slots and places in the queue;
  * admitted items get slots in the order of their tickets;
  * a slot is busy with one item from `dispatch` to `free`;
  * `cancel` ends the work of busy slots, and `close` lets no more items in.
-/
import Rebuild.Config
import Rebuild.Worker.Link
import Std.Data.ExtTreeMap

namespace Rebuild

/-- A place for a worker. -/
structure Slot where
  /-- The number of the link to the worker, if there is one. -/
  link : Option Nat := none
  busy : Bool := false
deriving DecidableEq, Repr

/-- What has become of the items so far, and of the workers. -/
structure PoolStats where
  submitted : Nat := 0
  succeeded : Nat := 0
  failed : Nat := 0
  skipped : Nat := 0
  rejected : Nat := 0
  spawned : Nat := 0
  recycled : Nat := 0
  crashed : Nat := 0
deriving DecidableEq, Repr

/-- The phase of an item that was submitted. -/
inductive Phase
  /-- It has passed the filter. -/
  | arrived (item : Item)
  /-- It is known, and waits for admission. -/
  | registered (item : Item)
  /-- It is admitted, and waits for a slot. -/
  | queued (item : Item) (ticket : Nat)
  /-- It has a slot, and the worker there is to be looked at. -/
  | dispatched (item : Item) (slot : Nat)
  /-- The worker of its slot is stopped first, gently if it is recycled. -/
  | retiring (item : Item) (slot link : Nat) (recycled : Bool)
  /-- A worker is launched for it. -/
  | launching (item : Item) (slot : Nat)
  /-- The worker of its slot can take it. -/
  | ready (item : Item) (slot : Nat)
  /-- The worker has it. -/
  | calling (item : Item) (slot link : Nat)
  /-- It has a result. -/
  | settling (slot : Nat) (result : WorkResult)
  /-- The lost worker of its slot is put away, and replaced if a fingerprint is given. -/
  | burying (slot link : Nat) (respawn : Option Text) (result : WorkResult)
  /-- A worker is launched in place of the lost one. -/
  | replacing (slot : Nat) (fingerprint : Text) (result : WorkResult)
  /-- Its slot is given back. -/
  | freeing (slot : Nat) (result : WorkResult)
  | done (result : WorkResult)
deriving DecidableEq, Repr

/-- A pool of workers with all that its lock protects. -/
structure Pool where
  settings : PoolSettings
  slots : List Slot
  /-- The links to all workers that were ever launched. -/
  links : List WorkerLink := []
  /-- The tickets of the items that wait for a slot, in the order of arrival. -/
  waiting : List Nat := []
  /-- The items on their way, with their slots once they have some. -/
  inFlight : Std.ExtTreeMap UInt64 (Option Nat) := ∅
  nextTicket : Nat := 0
  admitted : Nat := 0
  closing : Bool := false
  cancelled : Bool := false
  stats : PoolStats := {}

namespace Pool

/-- A pool on a machine with so many processors. -/
def make (settings : PoolSettings) (processors : Nat) : Pool :=
  { settings, slots := List.replicate (settings.workers processors) {} }

/-- The link of a slot. -/
def linkOf (p : Pool) (slot : Nat) : Option Nat := p.slots[slot]?.bind (·.link)

/-- Changes a link. -/
def updateLink (p : Pool) (link : Nat) (f : WorkerLink → WorkerLink) : Pool :=
  { p with links := p.links.modify link f }

/-- Changes a slot. -/
def updateSlot (p : Pool) (slot : Nat) (f : Slot → Slot) : Pool :=
  { p with slots := p.slots.modify slot f }

/-- Counts. -/
def count (p : Pool) (f : PoolStats → PoolStats) : Pool := { p with stats := f p.stats }

/-- The number of workers that can take items. -/
def live (p : Pool) : Nat :=
  p.slots.countP fun s => (s.link.bind (p.links[·]?)).any (!·.broken)

/-- The number of items that may be admitted at once, in a word. -/
def limit (p : Pool) : UInt64 := UInt64.ofNat p.slots.length + p.settings.queueCapacity

/-! ## Coming in -/

/-- A filter dropped the item. -/
def skip (p : Pool) (id : UInt64) : Pool × Phase :=
  (p.count fun s => { s with skipped := s.skipped + 1 }, .done ⟨id, .skipped⟩)

/-- The item is not taken. -/
def reject (p : Pool) (item : Item) (why : Text) : Pool × Phase :=
  (p.count fun s => { s with rejected := s.rejected + 1 }, .done (.failed item.id .rejected why))

/-- Takes note of an item, unless one with the same number is on its way. -/
def register (p : Pool) (item : Item) : Pool × Phase :=
  if p.cancelled then p.reject item "coordinator was cancelled"
  else if p.closing then p.reject item "coordinator is shut down"
  else if item.id ∈ p.inFlight then
    p.reject item ("item " ++ Text.ofNat item.id.toNat ++ " is already in flight")
  else ({ p with inFlight := p.inFlight.insert item.id none }, .registered item)

/-- Forgets an item that is on its way. -/
def forget (p : Pool) (id : UInt64) : Pool := { p with inFlight := p.inFlight.erase id }

/-- Admits an item if there is a place for it, or sends it away; nothing as long as it has
    to wait. -/
def admit? (p : Pool) (item : Item) : Option (Pool × Phase) :=
  if p.cancelled then
    some ((p.forget item.id).count fun s => { s with failed := s.failed + 1 },
      .done (.failed item.id .cancelled "cancelled while waiting for admission"))
  else if p.closing then some ((p.forget item.id).reject item "coordinator is shut down")
  else if UInt64.ofNat p.admitted < p.limit then
    let p := p.count fun s => { s with submitted := s.submitted + 1 }
    some ({ p with
        admitted := p.admitted + 1
        nextTicket := p.nextTicket + 1
        waiting := p.waiting ++ [p.nextTicket] }, .queued item p.nextTicket)
  else none

/-- The idle slot for an item: one with a worker for its fingerprint, else one without a
    worker, else any. -/
def pickSlot? (p : Pool) (fingerprint : Text) : Option Nat :=
  let suits (s : Slot) : Bool := !s.busy &&
    (s.link.bind (p.links[·]?)).any fun l => !l.broken && l.fingerprint == fingerprint
  let empty (s : Slot) : Bool := !s.busy && s.link.isNone
  p.slots.findIdx? suits <|> p.slots.findIdx? empty <|> p.slots.findIdx? (!·.busy)

/-- Gives a slot to an item if it is the first in the queue and some slot is idle; nothing
    as long as it has to wait. -/
def dispatch? (p : Pool) (item : Item) (ticket : Nat) : Option (Pool × Phase) :=
  let left := { p with waiting := p.waiting.erase ticket }
  if p.cancelled then
    let p := (left.forget item.id).count fun s => { s with failed := s.failed + 1 }
    some ({ p with admitted := p.admitted - 1 },
      .done (.failed item.id .cancelled "cancelled before dispatch"))
  else if p.waiting.head? ≠ some ticket then none
  else do
    let slot ← p.pickSlot? item.fingerprint
    let p := left.updateSlot slot fun s => { s with busy := true }
    return ({ p with inFlight := p.inFlight.insert item.id (some slot) }, .dispatched item slot)

/-! ## Getting a worker -/

/-- The item gets no worker. -/
def unprepared (item : Item) (slot : Nat) (why : Text) : Phase :=
  .settling slot (.failed item.id .crashed why)

/-- The worker has answered as many items as it may. -/
def wornOut (p : Pool) (l : WorkerLink) : Bool :=
  p.settings.maxItems ≠ 0 && p.settings.maxItems ≤ UInt64.ofNat l.served

/-- Looks at the worker of a slot: it stays, or it is taken out of the slot. -/
def prepare (p : Pool) (item : Item) (slot : Nat) : Pool × Phase :=
  if p.cancelled then (p, unprepared item slot "coordinator was cancelled")
  else match p.linkOf slot with
    | none => (p, .launching item slot)
    | some link =>
      match p.links[link]? with
      | none => (p, .launching item slot)
      | some l =>
        let out := p.updateSlot slot fun s => { s with link := none }
        if l.broken then (out, .retiring item slot link false)
        else if l.fingerprint ≠ item.fingerprint ∨ p.wornOut l then
          (out.count fun s => { s with recycled := s.recycled + 1 }, .retiring item slot link true)
        else (p, .ready item slot)

/-- The worker that was taken out has ended. -/
def retired (p : Pool) (item : Item) (slot link : Nat) : Pool × Phase :=
  (p.updateLink link WorkerLink.reap, .launching item slot)

/-- The item gets no worker because none could be launched. -/
def unlaunched (item : Item) (slot : Nat) (why : Text) : Phase :=
  unprepared item slot ("failed to launch worker: " ++ why)

/-- Puts a new worker into a slot.  In a pool that was cancelled it ends at once. -/
def place (p : Pool) (slot process : Nat) (fingerprint : Text) : Pool :=
  let link : WorkerLink := { process, fingerprint, broken := p.cancelled }
  let p := p.count fun s => { s with spawned := s.spawned + 1 }
  { p.updateSlot slot fun s => { s with link := some p.links.length } with
    links := p.links ++ [link] }

/-- The launched worker gets the slot. -/
def install (p : Pool) (item : Item) (slot process : Nat) : Pool × Phase :=
  (p.place slot process item.fingerprint,
    if p.cancelled then unprepared item slot "coordinator was cancelled" else .ready item slot)

/-- Takes the worker of the slot for the call. -/
def fetch (p : Pool) (item : Item) (slot : Nat) : Pool × Phase :=
  match p.linkOf slot with
  | some link => (p, .calling item slot link)
  | none => (p, unprepared item slot [])

/-! ## Going out -/

/-- In a pool that was cancelled a failure is put down to that, unless the worker reported
    it. -/
def blame (p : Pool) (r : WorkResult) : WorkResult :=
  match r.outcome with
  | .failed ⟨kind, message⟩ =>
    if p.cancelled ∧ kind ≠ .reported then .failed r.id .cancelled ("cancelled: " ++ message) else r
  | _ => r

/-- Counts a result, and takes a lost worker out of its slot. -/
def settle (p : Pool) (slot : Nat) (r : WorkResult) : Pool × Phase :=
  let r := p.blame r
  let p := p.forget r.id
  let counted (p : Pool) : Pool := p.count fun s =>
    if r.ok then { s with succeeded := s.succeeded + 1 } else { s with failed := s.failed + 1 }
  let lost := (p.linkOf slot).bind fun link => (p.links[link]?).map fun l => (link, l)
  match lost with
  | some (link, l) =>
    if l.broken then
      let out := counted (p.updateSlot slot fun s => { s with link := none })
      if p.cancelled then (out, .burying slot link none r)
      else (out.count fun s => { s with crashed := s.crashed + 1 },
        .burying slot link (if p.closing then none else some l.fingerprint) r)
    else (counted p, .freeing slot r)
  | none => (counted p, .freeing slot r)

/-- The lost worker has ended. -/
def buried (p : Pool) (slot link : Nat) (respawn : Option Text) (r : WorkResult) : Pool × Phase :=
  (p.updateLink link WorkerLink.reap,
    match respawn with
    | some fingerprint => .replacing slot fingerprint r
    | none => .freeing slot r)

/-- Puts a new worker into the place of a lost one. -/
def replace (p : Pool) (slot process : Nat) (fingerprint : Text) (r : WorkResult) : Pool × Phase :=
  (p.place slot process fingerprint, .freeing slot r)

/-- Gives the slot back. -/
def free (p : Pool) (slot : Nat) (r : WorkResult) : Pool × Phase :=
  let p := p.updateSlot slot fun s => { s with busy := false }
  ({ p with admitted := p.admitted - 1 }, .done r)

/-! ## The whole pool -/

/-- The workers of busy slots. -/
def busyLinks (p : Pool) : List Nat := p.slots.filterMap fun s => if s.busy then s.link else none

/-- Ends the workers of busy slots, and lets no more items in. -/
def cancel (p : Pool) : Pool :=
  if p.cancelled then p
  else p.busyLinks.foldl (fun p link => p.updateLink link WorkerLink.kill) { p with cancelled := true }

/-- Lets no more items in. -/
def close (p : Pool) : Pool := { p with closing := true }

/-- Takes all workers out of their slots once no item is admitted any more; nothing before
    that. -/
def drain? (p : Pool) : Option (Pool × List Nat) :=
  if p.admitted = 0 then
    some ({ p with slots := p.slots.map fun s => { s with link := none } },
      p.slots.filterMap (·.link))
  else none

end Pool

end Rebuild
