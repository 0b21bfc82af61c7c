/-
  The loop of a worker: it answers requests one after the other until it is to stop.

  * a handler answers a payload with a value or an error, and may keep a state;
  * `WorkerLoop.turn` reads one request and handles it;
  * `WorkerLoop.serve` takes turns, and writes a response to each request;
  * the loop stops with code 0 at a shutdown request and at the end of the requests, and
    with code 1 when a request cannot be read or a response cannot be written.
-/
import Rebuild.Worker.Frame
import Rebuild.Worker.Message

namespace Rebuild

/-- Answers a payload; the state is what a handler remembers. -/
abbrev Handler (σ : Type) := σ → Text → Except Text Text × σ

/-- What the loop did. -/
structure WorkerTrace (σ : Type) where
  /-- The exit code; none while it waits for more requests. -/
  code : Option Nat
  /-- The responses that were written. -/
  responses : List Response
  /-- What the handler remembers at the end. -/
  state : σ

namespace WorkerLoop

variable {σ : Type}

/-- The response to a request. -/
def response (id : UInt64) : Except Text Text → Response
  | .ok value => ⟨.ok, id, value⟩
  | .error message => ⟨.error, id, message⟩

/-- Whether a response can be written as a frame. -/
def fits (r : Response) : Bool := r.encode.length ≤ maxFrame

/-- What a turn of the loop comes to. -/
inductive Turn (σ : Type)
  /-- It waits for the rest of a request. -/
  | waiting
  /-- The loop is over. -/
  | ended (code : Nat)
  /-- A payload was handled; this is the response to it, and what is left to be read. -/
  | handled (payload : Text) (r : Response) (state : σ) (rest : Inflow)

/-- Reads a request and handles it. -/
def turn (handler : Handler σ) (state : σ) (s : Inflow) : Turn σ :=
  match Frame.read .forever s with
  | (.waiting, _) => .waiting
  | (.stopped .eof, _) => .ended 0
  | (.stopped _, _) => .ended 1
  | (.body t, rest) =>
    match Request.decode? t with
    | none => .ended 1
    | some request =>
      match request.kind with
      | .shutdown => .ended 0
      | .work =>
        let (answer, state) := handler state request.payload
        .handled request.payload (response request.id answer) state rest

/-- What was handled was read. -/
theorem turn_eq_handled {handler : Handler σ} {state state' : σ} {s rest : Inflow}
    {payload : Text} {r : Response} (h : turn handler state s = .handled payload r state' rest) :
    ∃ t id, Frame.read .forever s = (.body t, rest) ∧
      Request.decode? t = some ⟨.work, id, payload⟩ ∧
      r = response id (handler state payload).1 ∧ state' = (handler state payload).2 := by
  unfold turn at h
  split at h
  · cases h
  · cases h
  · cases h
  · next t rest' hread =>
    split at h
    · cases h
    · next request hrequest =>
      obtain ⟨kind, id, payload'⟩ := request
      cases kind with
      | shutdown => cases h
      | work =>
        cases h
        exact ⟨t, id, hread, hrequest, rfl, rfl⟩

/-- The loop from a state on, with an output that is open or not. -/
def serve (handler : Handler σ) (outputOpen : Bool) (state : σ) (s : Inflow) : WorkerTrace σ :=
  match _h : turn handler state s with
  | .waiting => ⟨none, [], state⟩
  | .ended code => ⟨some code, [], state⟩
  | .handled _ r state rest =>
    if outputOpen ∧ fits r then
      let trace := serve handler outputOpen state rest
      { trace with responses := r :: trace.responses }
    else ⟨some 1, [], state⟩
termination_by s.size
decreasing_by
  obtain ⟨t, id, hread, -⟩ := turn_eq_handled _h
  have hlt := @Frame.size_read_lt .forever s t
  rw [hread] at hlt
  exact hlt rfl

end WorkerLoop

end Rebuild
