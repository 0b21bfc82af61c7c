/-
  A pool at work, in a time of its own.

  Submitted items are tasks.  Each task takes the steps of its phase as soon as it can; time
  goes on only when none can take a step.  So a run is one order of the steps of a `Pool`
  among all that are possible.

  * `WorkerKind` says how workers of a kind are launched, answer and stop;
  * `PoolRun.advance` lets tasks go on until something is reached or nothing more happens;
  * `PoolRun.submit`, `cancel` and `shutdown` are what the users of a pool do.
-/
import Rebuild.Worker.Action
import Rebuild.Worker.Loop
import Rebuild.Worker.Pool

namespace Rebuild

/-- What a worker does when a request is sent to it.  Times are milliseconds from then. -/
structure WorkerReply where
  /-- It takes the whole request. -/
  accepts : Bool := true
  /-- What it answers, piece by piece. -/
  printed : List (Nat × Text) := []
  /-- When and how its process ends, if it does. -/
  ended : Option (Nat × Text) := none

/-- Workers of one kind in a world that they change.  A worker is known by the number of its
    process, and times are milliseconds from the beginning of the run. -/
structure WorkerKind (W : Type) where
  /-- Launches a worker for a fingerprint, or says why that fails. -/
  launch (w : W) (process : Nat) (fingerprint : Text) (now : Nat) : Except Text W
  /-- Sends an item. -/
  call (w : W) (process : Nat) (item : Item) (now : Nat) : WorkerReply × W
  /-- Asks a worker to stop; the milliseconds until it does, if it does. -/
  stop (w : W) (process : Nat) (now : Nat) : Option Nat × W

namespace WorkerReply

/-- A response after so many milliseconds.  A worker whose response is too long for a frame
    ends instead. -/
def ofResponse (millis : Nat) (r : Response) : WorkerReply :=
  if WorkerLoop.fits r then { printed := [(millis, Frame.encode r.encode)] }
  else { ended := some (millis, "exit 1") }

/-- What the link has seen after so many milliseconds. -/
def seen (r : WorkerReply) (fits : Bool) (time : Nat) : Exchange :=
  let ended := r.ended.filter (·.1 ≤ time)
  { written := if !fits then .error else if r.accepts then .ok else
      if ended.isSome then .eof else .timeout
    arriving := (r.printed.filter (·.1 ≤ time)).map (·.2)
    closed := ended.isSome
    exit := (ended.map (·.2)).getD "signal 9" }

/-- The times at which something is seen, in order. -/
def times (r : WorkerReply) : List Nat :=
  (0 :: r.printed.map (·.1) ++ (r.ended.map (·.1)).toList).mergeSort

/-- The result of a call and when there is one; none if there never is one. -/
def decide (r : WorkerReply) (l : WorkerLink) (item : Item) (limit : Int) :
    Option (Nat × WorkResult × WorkerLink) :=
  let fits : Bool := (WorkerLink.request item).encode.length ≤ maxFrame
  let early := r.times.filter fun (t : Nat) => limit < 0 ∨ Int.ofNat t < limit
  let now := early.findSome? fun t =>
    let x := r.seen fits t
    if x.written = .timeout then none else (l.call item (-1) x).map fun out => (t, out)
  match now with
  | some out => some out
  | none =>
    if limit < 0 then none
    else (l.call item limit (r.seen fits limit.toNat)).map fun out => (limit.toNat, out)

/-- The result of a call in the midst of which the process was killed. -/
def interrupted (r : WorkerReply) (l : WorkerLink) (item : Item) (time : Nat) :
    Option (WorkResult × WorkerLink) :=
  let x := r.seen true time
  let written := if x.written = .timeout then .eof else x.written
  l.call item (-1) { x with written, closed := true, exit := "signal 9" }

end WorkerReply

/-- A call under way. -/
structure OpenCall where
  item : Item
  started : Nat
  /-- The link when the call began. -/
  link : WorkerLink
  reply : WorkerReply
  outcome : Option (WorkResult × WorkerLink)

/-- An item in its phase. -/
structure PoolTask where
  phase : Phase
  /-- When it can take its next step; none if only others can bring that about. -/
  due : Option Nat
  /-- What the phase takes time for is under way. -/
  waiting : Bool := false
  call : Option OpenCall := none

/-- A pool at work. -/
structure PoolRun (W : Type) where
  kind : WorkerKind W
  pool : Pool
  world : W
  now : Nat := 0
  tasks : Array PoolTask := #[]
  /-- The number of the next process. -/
  nextProcess : Nat := 1
  log : List Log.Entry := []

namespace PoolRun

variable {W : Type}

/-- What is told about a pool that begins. -/
def startEntry (p : Pool) : Log.Entry :=
  ⟨.debug, "worker", "Coordinator with " ++ Text.ofNat p.slots.length ++ " slots, queue " ++
    Text.ofNat p.settings.queueCapacity.toNat ++ ", timeout " ++ Text.ofInt p.settings.timeout ++
    " ms"⟩

/-- A pool without items. -/
def start (kind : WorkerKind W) (pool : Pool) (world : W) : PoolRun W :=
  { kind, pool, world, log := [startEntry pool] }

/-- Tells something. -/
def tell (r : PoolRun W) (level : Log.Level) (message : Text) : PoolRun W :=
  { r with log := r.log ++ [⟨level, "worker", message⟩] }

/-- Changes a task. -/
def setTask (r : PoolRun W) (i : Nat) (t : PoolTask) : PoolRun W :=
  { r with tasks := r.tasks.setIfInBounds i t }

/-- The next phase of a task, which it can begin at once. -/
def enter (r : PoolRun W) (i : Nat) (next : Pool × Phase) : PoolRun W :=
  { r.setTask i ⟨next.2, some r.now, false, none⟩ with pool := next.1 }

/-- The task cannot go on for now. -/
def block (r : PoolRun W) (i : Nat) (phase : Phase) : PoolRun W :=
  r.setTask i ⟨phase, none, false, none⟩

/-- The task goes on with its phase in so many milliseconds. -/
def pause (r : PoolRun W) (i : Nat) (phase : Phase) (millis : Nat) : PoolRun W :=
  r.setTask i ⟨phase, some (r.now + millis), true, none⟩

/-- Tasks that wait for others look again. -/
def wake (r : PoolRun W) : PoolRun W :=
  { r with tasks := r.tasks.map fun t => match t.phase with
      | .registered _ | .queued _ _ => { t with due := some r.now }
      | _ => t }

/-- Stops a worker that has time for that: how long it takes. -/
def stopWorker (r : PoolRun W) (link : Nat) : Nat × PoolRun W :=
  let grace := r.pool.settings.grace.toNat
  match r.pool.links[link]? with
  | some l =>
    if l.broken then (0, r)
    else
      let (time, world) := r.kind.stop r.world l.process r.now
      (min grace (time.getD grace), { r with world })
  | none => (0, r)

/-- Launches a worker: its process, or why that failed. -/
def launch (r : PoolRun W) (fingerprint : Text) : Except Text (Nat × PoolRun W) := do
  let world ← r.kind.launch r.world r.nextProcess fingerprint r.now
  return (r.nextProcess, { r with world, nextProcess := r.nextProcess + 1 })

/-- Begins the call of a worker. -/
def beginCall (r : PoolRun W) (i slot : Nat) (item : Item) (number : Nat) (link : WorkerLink) :
    PoolRun W :=
  let (reply, world) := if link.broken then (({} : WorkerReply), r.world) else
    r.kind.call r.world link.process item r.now
  let decided := reply.decide link item r.pool.settings.callLimit
  let call : OpenCall := ⟨item, r.now, link, reply, decided.map (·.2)⟩
  { r.setTask i ⟨.calling item slot number, decided.map fun d => r.now + d.1, true, some call⟩ with
    world }

/-- One step of task `i`, which is due. -/
def step (r : PoolRun W) (i : Nat) (t : PoolTask) : PoolRun W :=
  let p := r.pool
  match t.phase with
  | .arrived item => r.enter i (p.register item)
  | .registered item =>
    match p.admit? item with
    | some next => r.enter i next
    | none => r.block i t.phase
  | .queued item ticket =>
    match p.dispatch? item ticket with
    | some next => (r.enter i next).wake
    | none => r.block i t.phase
  | .dispatched item slot => r.enter i (p.prepare item slot)
  | .retiring item slot link recycled =>
    if t.waiting then r.enter i (p.retired item slot link)
    else if recycled then
      let r := match p.links[link]? with
        | some l => r.tell .debug ("Recycling " ++ l.title ++ " after " ++ Text.ofNat l.served ++
            " items")
        | none => r
      let (time, r) := r.stopWorker link
      r.pause i t.phase time
    else r.pause i t.phase 0
  | .launching item slot =>
    match r.launch item.fingerprint with
    | .error why =>
      (r.tell .error ("Failed to launch worker: " ++ why)).enter i (p, Pool.unlaunched item slot why)
    | .ok (process, r) =>
      (r.tell .debug ("Spawned worker " ++ Text.ofNat process ++ " in slot " ++
        Text.ofNat slot)).enter i (p.install item slot process)
  | .ready item slot => r.enter i (p.fetch item slot)
  | .calling item slot link =>
    match t.call, p.links[link]? with
    | some ⟨_, _, _, _, some (result, after)⟩, _ =>
      let p := p.updateLink link fun l => { after with broken := after.broken || l.broken }
      r.enter i (p, .settling slot result)
    | none, some l => r.beginCall i slot item link l
    | _, _ => r.block i t.phase
  | .settling slot result => r.enter i (p.settle slot result)
  | .burying slot link respawn result =>
    let message : Text := ((result.failure?).map (·.message)).getD []
    let r := match respawn, p.links[link]? with
      | some _, some l => r.tell .warn ("Worker " ++ Text.ofNat l.process ++ " lost (" ++ message ++
          "), replacing it")
      | _, _ => r
    r.enter i (p.buried slot link respawn result)
  | .replacing slot fingerprint result =>
    match r.launch fingerprint with
    | .error why =>
      (r.tell .error ("Failed to replace worker: " ++ why)).enter i (p, .freeing slot result)
    | .ok (process, r) => r.enter i (p.replace slot process fingerprint result)
  | .freeing slot result => (r.enter i (p.free slot result)).wake
  | .done _ => r.block i t.phase

/-- The task that takes the next step: the first of those that are due first. -/
def next? (r : PoolRun W) : Option (Nat × Nat × PoolTask) :=
  r.tasks.toList.zipIdx.foldl (fun best (t, i) =>
    match t.due, best with
    | none, _ => best
    | some due, none => some (due, i, t)
    | some due, some (earliest, j, u) =>
      if due < earliest then some (due, i, t) else some (earliest, j, u)) none

/-- Lets tasks go on for at most `bound` steps: until `goal` is reached, the time would go
    past `horizon`, or nothing more happens. -/
def advance (bound : Nat) (goal : PoolRun W → Bool) (horizon : Option Nat) (r : PoolRun W) :
    PoolRun W :=
  match bound with
  | 0 => r
  | bound + 1 =>
    if goal r then r
    else match r.next? with
      | none => { r with now := horizon.getD r.now }
      | some (due, i, t) =>
        if horizon.any (· < due) then { r with now := horizon.getD r.now }
        else (({ r with now := max r.now due }).step i t).advance bound goal horizon

/-- More steps than the tasks can take: each passes every phase at most once, and looks
    again when another one has passed a phase. -/
def bound (r : PoolRun W) : Nat := 40 * (r.tasks.size + 1) * (r.tasks.size + 1)

/-- Lets tasks go on until `goal` is reached or nothing more happens. -/
def reach (r : PoolRun W) (goal : PoolRun W → Bool) : PoolRun W := r.advance r.bound goal none

/-- Lets so many milliseconds pass. -/
def elapse (r : PoolRun W) (millis : Nat) : PoolRun W :=
  r.advance r.bound (fun _ => false) (some (r.now + millis))

/-- The result of a task, if it has one. -/
def result? (r : PoolRun W) (i : Nat) : Option WorkResult :=
  match r.tasks[i]? with
  | some ⟨.done result, _, _, _⟩ => some result
  | _ => none

/-! ## What users do -/

variable {J : Type}

/-- Takes what came through a filter. -/
def receive (r : PoolRun W) (d : Dispatch) : PoolRun W :=
  let (pool, phase) := if d.skipped then r.pool.skip d.item.id else (r.pool, .arrived d.item)
  { r with pool, tasks := r.tasks.push ⟨phase, some r.now, false, none⟩ }

/-- Submits an item through a filter, which may leave something in a journal: the number of
    the task. -/
def submit (r : PoolRun W) (filter : Action J Dispatch) (journal : J) (item : Item) :
    Nat × J × PoolRun W :=
  let (journal, d) := (filter.sift journal ⟨item, false⟩).getD (journal, ⟨item, false⟩)
  (r.tasks.size, journal, r.receive d)

/-- Submits an item and waits for its result. -/
def complete (r : PoolRun W) (filter : Action J Dispatch) (journal : J) (item : Item) :
    Option WorkResult × J × PoolRun W :=
  let (i, journal, r) := r.submit filter journal item
  let r := r.reach fun r => (r.result? i).isSome
  (r.result? i, journal, r)

/-- A call that was cut short when its worker was killed. -/
def cutShort (r : PoolRun W) (killed : List Nat) (t : PoolTask) : PoolTask :=
  match t.phase, t.call with
  | .calling _ _ link, some call =>
    if killed.contains link ∧ t.due.all (r.now < ·) then
      let outcome := call.reply.interrupted call.link call.item (r.now - call.started)
      { t with due := some r.now, call := some { call with outcome } }
    else t
  | _, _ => t

/-- Cancels all work. -/
def cancel (r : PoolRun W) : PoolRun W :=
  if r.pool.cancelled then r
  else
    let killed := r.pool.busyLinks
    let r := r.tell .info ("Cancelled: killed " ++ Text.ofNat killed.length ++ " in-flight workers")
    PoolRun.wake { r with pool := r.pool.cancel, tasks := r.tasks.map (r.cutShort killed) }

/-- Lets no more items in, waits for those that are in, and stops the workers. -/
def shutdown (r : PoolRun W) : PoolRun W :=
  let r := PoolRun.wake { r with pool := r.pool.close }
  let r := r.reach fun r => r.pool.admitted = 0
  match r.pool.drain? with
  | none => r
  | some (pool, links) =>
    let r := links.foldl (fun r link =>
      let (time, r) := PoolRun.stopWorker r link
      { r with now := r.now + time, pool := r.pool.updateLink link WorkerLink.reap }) { r with pool }
    if links.isEmpty then r else r.tell .debug ("Stopped " ++ Text.ofNat links.length ++ " workers")

end PoolRun

end Rebuild
