/-
  What a worker makes of a stream of frames.

  * `Frame.exists_splits`: a stream is a list of frames, and behind them something in which no
    whole frame stands;
  * `WorkerLoop.requests`: the work that frames ask for, up to the first that asks for none;
  * `WorkerLoop.answers`: the answers to requests, from a handler that may remember them;
  * `WorkerLoop.serve_exact`: the handler is called for these requests, and its answers are
    written, in order, up to the first one that cannot be written.
-/
import Rebuild.Proofs.Worker.Frame

namespace Rebuild

/-! ## The frames of a stream -/

namespace Frame

/-- A byte string is some frames, and behind them something without a whole frame in front. -/
structure Splits (t : Text) (bodies : List Text) (rest : Text) : Prop where
  length_le : ∀ body ∈ bodies, body.length ≤ maxFrame
  bytes : t = bodies.flatMap encode ++ rest
  incomplete : Incomplete rest

theorem incomplete_of_lt {t : Text} (h : t.length < 4) : Incomplete t := by
  intro body hbody hfront
  have hle := hfront.length_le
  rw [length_encode hbody] at hle
  omega

/-- Every byte string is. -/
theorem exists_splits (t : Text) : ∃ bodies rest, Splits t bodies rest := by
  induction hn : t.length using Nat.strongRecOn generalizing t with
  | ind n ih =>
    by_cases ht : Incomplete t
    · exact ⟨[], t, nofun, rfl, ht⟩
    · obtain ⟨body, hbody, rest, hrest⟩ : ∃ body : Text, body.length ≤ maxFrame ∧
          encode body <+: t := by simpa [Incomplete] using ht
      have hlt : rest.length < n := by
        rw [← hn, ← hrest, List.length_append, length_encode hbody]
        omega
      obtain ⟨bodies, last, hsplits⟩ := ih _ hlt rest rfl
      refine ⟨body :: bodies, last, List.forall_mem_cons.2 ⟨hbody, hsplits.length_le⟩, ?_,
        hsplits.incomplete⟩
      rw [List.flatMap_cons, List.append_assoc, ← hsplits.bytes, hrest]

end Frame

namespace WorkerLoop

variable {σ : Type} {handler : Handler σ} {outputOpen : Bool} {state : σ} {s : Inflow}
  {trace : WorkerTrace σ}

/-! ## What is asked, and what is answered -/

/-- The work that a frame asks for; none if it is no request, or one to stop. -/
def work? (body : Text) : Option Request := (Request.decode? body).filter (·.kind == .work)

/-- The work that is asked for in front of the first frame that asks for none. -/
def requests : List Text → List Request
  | [] => []
  | body :: bodies =>
    match work? body with
    | some r => r :: requests bodies
    | none => []

/-- The answers of a handler that gets the requests one after the other. -/
def answers (handler : Handler σ) : σ → List Request → List Response
  | _, [] => []
  | state, r :: rs =>
    response r.id (handler state r.payload).1 :: answers handler (handler state r.payload).2 rs

/-- What the handler remembers behind them. -/
def remembered (handler : Handler σ) (state : σ) (rs : List Request) : σ :=
  rs.foldl (fun state r => (handler state r.payload).2) state

/-- The handler, which also keeps the payloads that it was called with. -/
def recording (handler : Handler σ) : Handler (σ × List Text) := fun (state, calls) payload =>
  let (answer, state) := handler state payload
  (answer, state, calls ++ [payload])

/-- An answer can be written. -/
def writable (outputOpen : Bool) (r : Response) : Bool := outputOpen && fits r

/-- How the loop ends if every answer can be written: at the first frame that asks for no work,
    with code 0 if it asks to stop, or else where no further frame can be read.  There the end
    of the stream is orderly if not even the length of a frame has arrived. -/
def ending (bodies : List Text) (rest : Text) (closed : Bool) : Option Nat :=
  match bodies.find? (work? · |>.isNone) with
  | some body => some (if (Request.decode? body).isSome then 0 else 1)
  | none =>
    if 4 ≤ rest.length ∧ maxFrame < leValue (rest.take 4) then some 1
    else if closed then some (if rest.length < 4 then 0 else 1) else none

/-- A loop that was asked for some work did it: up to the first answer that cannot be written,
    each request got its answer. -/
structure Served (handler : Handler σ) (outputOpen : Bool) (state : σ) (asked : List Request)
    (ending : Option Nat) (trace : WorkerTrace σ) : Prop where
  responses : trace.responses = (answers handler state asked).takeWhile (writable outputOpen)
  /-- The last request that is handled may be one whose answer cannot be written. -/
  state : trace.state = remembered handler state (asked.take (trace.responses.length + 1))
  code : trace.code = if trace.responses.length < asked.length then some 1 else ending

theorem work?_eq_some {body : Text} {r : Request} (h : work? body = some r) :
    Request.decode? body = some r ∧ r.kind = .work := by
  simpa [work?, Option.filter_eq_some_iff] using h

theorem work?_eq_none {body : Text} (h : work? body = none) :
    Request.decode? body = none ∨ ∃ r, Request.decode? body = some r ∧ r.kind = .shutdown := by
  cases hr : Request.decode? body with
  | none => exact Or.inl rfl
  | some r =>
    rw [work?, hr] at h
    cases hk : r.kind with
    | work => simp [Option.filter, hk] at h
    | shutdown => exact Or.inr ⟨r, rfl, hk⟩

/-- One more request: it is answered, and the rest goes on with what the handler remembers
    then, or its answer cannot be written. -/
theorem Served.cons {r : Request} {asked : List Request} {ending : Option Nat}
    (h : Served handler outputOpen (handler state r.payload).2 asked ending trace) :
    Served handler outputOpen state (r :: asked) ending
      (if writable outputOpen (response r.id (handler state r.payload).1) then
        { trace with responses := response r.id (handler state r.payload).1 :: trace.responses }
      else ⟨some 1, [], (handler state r.payload).2⟩) := by
  split_ifs with hw
  · refine ⟨?_, ?_, ?_⟩
    · rw [answers, List.takeWhile_cons_of_pos hw, h.responses]
    · exact h.state
    · simpa using h.code
  · refine ⟨?_, ?_, ?_⟩
    · rw [answers, List.takeWhile_cons_of_neg hw]
    · rfl
    · simp

/-- Where no whole frame is left the loop ends, or waits. -/
theorem served_incomplete (h : Frame.Incomplete s.bytes) :
    Served handler outputOpen state [] (ending [] s.bytes s.closed)
      (serve handler outputOpen state s) := by
  have hread := Frame.read_incomplete (p := .forever) (by decide) h
  generalize hr : Frame.read .forever s = r at hread
  obtain ⟨r, s₁⟩ := r
  have hserve : serve handler outputOpen state s =
      ⟨ending [] s.bytes s.closed, [], state⟩ := by
    obtain rfl : r = _ := hread
    rw [serve_eq, turn, hr, ending, List.find?_nil, Inflow.size]
    split_ifs <;> rfl
  rw [hserve]
  exact ⟨rfl, rfl, rfl⟩

/-- **The loop does what it is asked to.** -/
theorem serve_served {bodies : List Text} {rest : Text} (h : Frame.Splits s.bytes bodies rest) :
    Served handler outputOpen state (requests bodies) (ending bodies rest s.closed)
      (serve handler outputOpen state s) := by
  induction bodies generalizing s state with
  | nil =>
    obtain rfl : s.bytes = rest := h.bytes
    exact served_incomplete h.incomplete
  | cons body bodies ih =>
    obtain ⟨hbody, hbodies⟩ := List.forall_mem_cons.1 h.length_le
    have hbytes := h.bytes
    rw [List.flatMap_cons, List.append_assoc] at hbytes
    obtain ⟨s₁, hread, hbytes₁, hclosed⟩ := Frame.read_frame (p := .forever) (by decide) hbody hbytes
    have ih (state : σ) := @ih state s₁ ⟨hbodies, hbytes₁, h.incomplete⟩
    cases hw : work? body with
    | some r =>
      obtain ⟨hdecode, hkind⟩ := work?_eq_some hw
      have hending : ending (body :: bodies) rest s.closed = ending bodies rest s₁.closed := by
        rw [ending, List.find?_cons_of_neg (by simp [hw]), hclosed, ending]
      have hserve := serve_eq handler outputOpen state s
      simp only [turn, hread, hdecode, hkind] at hserve
      rw [requests, hw, hending, hserve]
      simpa only [writable, Bool.and_eq_true] using (ih _).cons
    | none =>
      have hserve : serve handler outputOpen state s =
          ⟨ending (body :: bodies) rest s.closed, [], state⟩ := by
        rw [serve_eq, turn, hread, ending, List.find?_cons_of_pos (by simp [hw])]
        rcases work?_eq_none hw with hdecode | ⟨r, hdecode, hkind⟩
        · simp [hdecode]
        · simp [hdecode, hkind]
      rw [requests, hw, hserve]
      exact ⟨rfl, rfl, rfl⟩

/-! ## The calls of the handler -/

theorem answers_recording (calls : List Text) (rs : List Request) :
    answers (recording handler) (state, calls) rs = answers handler state rs := by
  induction rs generalizing state calls with
  | nil => rfl
  | cons r rs ih => rw [answers, answers, ← ih]; rfl

theorem remembered_recording (calls : List Text) (rs : List Request) :
    remembered (recording handler) (state, calls) rs =
      (remembered handler state rs, calls ++ rs.map (·.payload)) := by
  induction rs generalizing state calls with
  | nil => simp [remembered]
  | cons r rs ih =>
    have hcons : remembered (recording handler) (state, calls) (r :: rs) =
        remembered (recording handler) ((handler state r.payload).2, calls ++ [r.payload]) rs := rfl
    rw [hcons, ih, List.append_assoc]
    rfl

theorem Served.state_recording {asked : List Request} {ending : Option Nat}
    {trace' : WorkerTrace (σ × List Text)}
    (h : Served handler outputOpen state asked ending trace)
    (h' : Served (recording handler) outputOpen (state, []) asked ending trace') :
    trace'.state =
      (trace.state, (asked.take (trace.responses.length + 1)).map (·.payload)) := by
  have hresponses : trace'.responses = trace.responses := by
    rw [h.responses, h'.responses, answers_recording]
  rw [h'.state, remembered_recording, hresponses, ← h.state, List.nil_append]

/-- **A worker does what is asked, and nothing else.**  Whatever the pieces, the bytes are some
    frames and something behind them.  The work that these frames ask for, up to the first that
    asks for none, is handled in order and once each, and each request gets its answer, until an
    answer cannot be written. -/
theorem serve_exact (handler : Handler σ) (outputOpen : Bool) (state : σ) (s : Inflow) :
    (∃ bodies rest, Frame.Splits s.bytes bodies rest) ∧
    ∀ bodies rest, Frame.Splits s.bytes bodies rest →
      Served handler outputOpen state (requests bodies) (ending bodies rest s.closed)
        (serve handler outputOpen state s) ∧
      (serve (recording handler) outputOpen (state, []) s).state.2 =
        ((requests bodies).take
          ((serve handler outputOpen state s).responses.length + 1)).map (·.payload) := by
  refine ⟨Frame.exists_splits _, fun bodies rest h => ⟨serve_served h, ?_⟩⟩
  rw [(serve_served h).state_recording (serve_served h)]

/-- Two requests that arrive in two pieces, the second of which the handler refuses; then one to
    stop, and work that nobody does. -/
theorem serve_exact_shutdown :
    let handler : Handler Nat := fun n t => (if t = "a" then .ok "b" else .error t, n + 1)
    let bodies := [Request.encode ⟨.work, 7, "a"⟩, Request.encode ⟨.work, 8, "c"⟩,
      Request.encode ⟨.shutdown, 9, ""⟩, Request.encode ⟨.work, 10, "a"⟩]
    let s : Inflow :=
      ⟨[(bodies.flatMap Frame.encode).take 25, (bodies.flatMap Frame.encode).drop 25], true⟩
    Frame.Splits s.bytes bodies [] ∧
      (serve handler true 0 s).responses = [⟨.ok, 7, "b"⟩, ⟨.error, 8, "c"⟩] ∧
      (serve handler true 0 s).code = some 0 ∧ (serve handler true 0 s).state = 2 ∧
      (serve (recording handler) true (0, []) s).state.2 = ["a", "c"] := by
  intro handler bodies s
  have hsplits : Frame.Splits s.bytes bodies [] :=
    ⟨by decide, by decide, Frame.incomplete_of_lt (by decide)⟩
  obtain ⟨hserved, hcalls⟩ := (serve_exact handler true 0 s).2 bodies [] hsplits
  have hresponses : (serve handler true 0 s).responses = [⟨.ok, 7, "b"⟩, ⟨.error, 8, "c"⟩] :=
    hserved.responses.trans (by decide)
  refine ⟨hsplits, hresponses, ?_, ?_, ?_⟩
  · rw [hserved.code, hresponses]
    decide
  · rw [hserved.state, hresponses]
    decide
  · rw [hcalls, hresponses]
    decide

end WorkerLoop

end Rebuild
