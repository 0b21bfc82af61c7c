/-
  Answers are not mixed up.

  Numbers of items may come again, so they do not tell which answer is to which call.  What
  does is that both streams are empty whenever no call is under way over a link that can be
  used (`Dialogue.Quiet`).  During a call either the worker has not read all of the request, or
  what is under way is the response to it (`Dialogue.Talk`); every end of a call that may leave
  some of it behind breaks the link.

  `Dialogue.run_faithful` collects what this says of a call that returns, and
  `Dialogue.exists_answer` says that calls can be answered.
-/
import Rebuild.Proofs.Worker.Change
import Rebuild.Proofs.Worker.Frame
import Rebuild.Worker.Dialogue

namespace Rebuild

/-! ## The end of a call -/

namespace WorkerLink

variable {l after : WorkerLink} {item : Item} {limit : Int} {x : Exchange} {r : WorkResult}

/-- The result that a response to an item stands for. -/
def resultOf (item : Item) (response : Response) : WorkResult :=
  match response.kind with
  | .ok => .answered item.id response.data
  | .error => .failed item.id .reported response.data

theorem resultOf_response (item : Item) (a : Except Text Text) :
    resultOf item (WorkerLoop.response item.id a) = .ofAnswer item.id a := by
  cases a <;> rfl

/-- An answer is what was read when the whole request was written. -/
theorem answer_of_call (h : l.call item limit x = some (r, after)) (hr : r.IsAnswer) :
    x.written = .ok ∧ ∃ body rest response,
      Frame.read (.ofInt limit) ⟨l.unread ++ x.arriving, x.closed⟩ = (.body body, rest) ∧
      Response.decode? body = some response ∧ r = resultOf item response ∧
      after = { l with served := l.served + 1, unread := rest.pieces } := by
  have hlost {kind : FailureKind} {message : Text} (hk : kind ≠ .reported) :
      ¬ (WorkResult.failed item.id kind message).IsAnswer := hk
  unfold call at h
  simp only at h
  split_ifs at h
  · cases h
    exact absurd hr (hlost nofun)
  · split at h
    · cases h
      exact absurd hr (hlost nofun)
    · next hwritten =>
      refine ⟨hwritten, ?_⟩
      split at h
      · next body rest hread =>
        refine ⟨body, rest, ?_⟩
        unfold judge at h
        split at h
        · cases h
          exact absurd hr (hlost nofun)
        · next response hresponse =>
          split_ifs at h
          · cases h
            exact absurd hr (hlost nofun)
          · refine ⟨response, hread, hresponse, ?_⟩
            unfold resultOf
            cases hkind : response.kind <;> rw [hkind] at h <;> cases h <;> exact ⟨rfl, rfl⟩
      · cases h
        exact absurd hr (hlost nofun)
      · cases h
        exact absurd hr (hlost nofun)
      · cases h
    · cases h
      exact absurd hr (hlost nofun)

/-- A call over a broken link leaves it as it is. -/
theorem call_of_broken (hb : l.broken = true) (h : l.call item limit x = some (r, after)) :
    r.IsLoss ∧ after = l := by
  unfold call at h
  simp only [hb, if_true] at h
  cases h
  exact ⟨Or.inl rfl, rfl⟩

end WorkerLink

namespace Dialogue

variable {σ : Type} {handler : Handler σ} {d d' : Dialogue σ} {m : Move σ}
  {moves : List (Move σ)} {k : Calling}

/-! ## What is under way -/

/-- Nothing is under way. -/
structure Quiet (d : Dialogue σ) : Prop where
  requests : d.requests = []
  responses : d.responses = []
  unread : d.link.unread.flatten = []
  worker : ∀ w, d.worker = some w → w.received.flatten = [] ∧ w.unsaid = []

/-- What is under way during a call, after the handler was given these payloads in it. -/
inductive Talk (handler : Handler σ) (d : Dialogue σ) (k : Calling) : List (σ × Text) → Prop
  /-- The request, and nothing comes back yet. -/
  | asking :
      k.arrived.flatten = [] → d.responses = [] →
      (WorkerLink.request k.item).encode.length ≤ maxFrame ∨ k.unwritten = requestFrame k.item →
      (∀ w, d.worker = some w → w.unsaid = [] ∧
        w.received.flatten ++ (d.requests ++ k.unwritten) = requestFrame k.item) →
      Talk handler d k []
  /-- The response to it. -/
  | answering (state : σ) {r : Response} (rest : Text) :
      r = WorkerLoop.response k.item.id (handler state k.item.payload).1 →
      r.encode.length ≤ maxFrame → d.requests = [] → k.unwritten = [] →
      k.arrived.flatten ++ (d.responses ++ rest) = Frame.encode r.encode →
      (∀ w, d.worker = some w → w.received.flatten = [] ∧ w.unsaid = rest) →
      Talk handler d k [(state, k.item.payload)]
  /-- Nothing, as the worker could not write the response. -/
  | speechless (state : σ) :
      k.arrived.flatten = [] → d.responses = [] → d.worker = none →
      Talk handler d k [(state, k.item.payload)]

namespace Move

/-- What the handler was given. -/
def handled? : Move σ → Option (σ × Text)
  | .handled state payload => some (state, payload)
  | _ => none

/-- It neither begins nor ends a call. -/
def inside : Move σ → Bool
  | .call _ | .returned _ => false
  | _ => true

end Move

/-- What is under way fits the moves so far. -/
inductive Sound (handler : Handler σ) (moves : List (Move σ)) (d : Dialogue σ) : Prop
  | quiet : d.call = none → (d.link.broken = false → d.Quiet) → Sound handler moves d
  | talking (k : Calling) (earlier during : List (Move σ)) :
      d.call = some k → moves = earlier ++ .call k.item :: during →
      (∀ m ∈ during, m.inside = true) → (k.link.broken = true → d.link.broken = true) →
      (k.link.broken = false → k.link.unread.flatten = [] ∧
        Talk handler d k (during.filterMap Move.handled?)) →
      Sound handler moves d

/-! ## Turns of the worker -/

/-- Nothing is read from nothing. -/
theorem bytes_ne_nil_of_read {p : Patience} {s s' : Inflow} {t : Text}
    (h : Frame.read p s = (.body t, s')) : s.bytes ≠ [] := by
  intro hs
  obtain ⟨ht, hbytes⟩ := Frame.of_read h
  have hlen := congrArg List.length hbytes
  rw [hs, List.length_append, Frame.length_encode ht, List.length_nil] at hlen
  omega

theorem received_ne_nil_of_handled {w : Serving σ} {closed : Bool} {payload : Text}
    {r : Response} {state : σ} {rest : Inflow}
    (h : WorkerLoop.turn handler w.state ⟨w.received, closed⟩ = .handled payload r state rest) :
    w.received.flatten ≠ [] := by
  obtain ⟨t, id, hread, -⟩ := WorkerLoop.turn_eq_handled h
  exact bytes_ne_nil_of_read hread

/-- What the worker handles is the request, once all of it has come in. -/
theorem handled_request {w : Serving σ} {closed : Bool} {payload : Text} {r : Response}
    {state : σ} {rest : Inflow} {item : Item} {more : Text}
    (h : WorkerLoop.turn handler w.state ⟨w.received, closed⟩ = .handled payload r state rest)
    (hfits : (WorkerLink.request item).encode.length ≤ maxFrame)
    (hbytes : w.received.flatten ++ more = requestFrame item) :
    payload = item.payload ∧
      r = WorkerLoop.response item.id (handler w.state item.payload).1 ∧
      rest.bytes = [] ∧ more = [] := by
  obtain ⟨t, id, hread, hdecode, rfl, -⟩ := WorkerLoop.turn_eq_handled h
  obtain ⟨ht, hs⟩ := Frame.of_read hread
  have hframe : Frame.encode t ++ (rest.bytes ++ more) = requestFrame item ++ [] := by
    rw [← List.append_assoc, ← hs, List.append_nil]
    exact hbytes
  obtain ⟨rfl, hempty⟩ := Frame.encode_append_inj ht hfits hframe
  obtain ⟨hrest, hmore⟩ := List.append_eq_nil_iff.1 hempty
  rw [Request.decode?_encode _ hfits] at hdecode
  split_ifs at hdecode
  cases hdecode
  exact ⟨rfl, rfl, hrest, hmore⟩

/-- What is read of a response that is under way is all of it. -/
theorem read_response {p : Patience} {s rest : Inflow} {body more : Text} {r : Response}
    (h : Frame.read p s = (.body body, rest)) (hfits : r.encode.length ≤ maxFrame)
    (hbytes : s.bytes ++ more = Frame.encode r.encode) :
    body = r.encode ∧ rest.bytes = [] ∧ more = [] := by
  obtain ⟨hbody, hs⟩ := Frame.of_read h
  have hframe : Frame.encode body ++ (rest.bytes ++ more) = Frame.encode r.encode ++ [] := by
    rw [← List.append_assoc, ← hs, List.append_nil, hbytes]
  obtain ⟨hbody, hempty⟩ := Frame.encode_append_inj hbody hfits hframe
  exact ⟨hbody, List.append_eq_nil_iff.1 hempty⟩

/-! ## Steps -/

namespace Talk

variable {hs : List (σ × Text)}

/-- The other side has not changed anything. -/
theorem congr (h : Talk handler d k hs) (hrequests : d'.requests = d.requests)
    (hresponses : d'.responses = d.responses) (hworker : d'.worker = d.worker) :
    Talk handler d' k hs := by
  cases h with
  | asking harrived hresp hfits hw =>
    exact .asking harrived (hresponses.trans hresp) hfits (by rwa [hworker, hrequests])
  | answering state rest hr hfits hreq hun hbytes hw =>
    exact .answering state rest hr hfits (hrequests.trans hreq) hun (by rwa [hresponses])
      (by rwa [hworker])
  | speechless state harrived hresp hw =>
    exact .speechless state harrived (hresponses.trans hresp) (hworker.trans hw)

/-- The worker has ended. -/
theorem ended (h : Talk handler d k hs) : Talk handler { d with worker := none } k hs := by
  cases h with
  | asking harrived hresp hfits => exact .asking harrived hresp hfits nofun
  | answering state rest hr hfits hreq hun hbytes =>
    exact .answering state rest hr hfits hreq hun hbytes nofun
  | speechless state harrived hresp => exact .speechless state harrived hresp rfl

theorem write (h : Talk handler d k hs) {t rest : Text} (hrest : k.unwritten = t ++ rest)
    (hfits : (WorkerLink.request k.item).encode.length ≤ maxFrame) :
    Talk handler { d with call := some { k with unwritten := rest }, requests := d.requests ++ t }
      { k with unwritten := rest } hs := by
  cases h with
  | asking harrived hresp _ hw =>
    refine .asking harrived hresp (Or.inl hfits) fun w hw' => ?_
    obtain ⟨hunsaid, hbytes⟩ := hw w hw'
    exact ⟨hunsaid, by rw [← hbytes, hrest]; simp⟩
  | answering state more hr hfits' hreq hun hbytes hw =>
    obtain ⟨rfl, rfl⟩ := List.append_eq_nil_iff.1 (hrest.symm.trans hun)
    exact .answering state more hr hfits' (by simpa using hreq) rfl hbytes hw
  | speechless state harrived hresp hw => exact .speechless state harrived hresp hw

theorem hear (h : Talk handler d k hs) {t rest : Text} (hrest : d.responses = t ++ rest) :
    Talk handler
      { d with call := some { k with arrived := k.arrived ++ [t] }, responses := rest }
      { k with arrived := k.arrived ++ [t] } hs := by
  have hflatten : (k.arrived ++ [t]).flatten = k.arrived.flatten ++ t := by simp
  cases h with
  | asking harrived hresp hfits hw =>
    obtain ⟨rfl, rfl⟩ := List.append_eq_nil_iff.1 (hrest.symm.trans hresp)
    exact .asking (by rwa [hflatten, List.append_nil]) rfl hfits hw
  | answering state more hr hfits hreq hun hbytes hw =>
    refine .answering state more hr hfits hreq hun ?_ hw
    rwa [hflatten, List.append_assoc, ← List.append_assoc t, ← hrest]
  | speechless state harrived hresp hw =>
    obtain ⟨rfl, rfl⟩ := List.append_eq_nil_iff.1 (hrest.symm.trans hresp)
    exact .speechless state (by rwa [hflatten, List.append_nil]) rfl hw

theorem receive (h : Talk handler d k hs) {w : Serving σ} (hw : d.worker = some w)
    {t rest : Text} (hrest : d.requests = t ++ rest) :
    Talk handler
      { d with requests := rest, worker := some { w with received := w.received ++ [t] } }
      k hs := by
  have hflatten : (w.received ++ [t]).flatten = w.received.flatten ++ t := by simp
  cases h with
  | asking harrived hresp hfits hworker =>
    refine .asking harrived hresp hfits ?_
    rintro _ ⟨⟩
    obtain ⟨hunsaid, hbytes⟩ := hworker w hw
    refine ⟨hunsaid, ?_⟩
    rw [← hbytes, hrest]
    simp
  | answering state more hr hfits hreq hun hbytes hworker =>
    obtain ⟨rfl, rfl⟩ := List.append_eq_nil_iff.1 (hrest.symm.trans hreq)
    refine .answering state more hr hfits rfl hun hbytes ?_
    rintro _ ⟨⟩
    obtain ⟨hreceived, hunsaid⟩ := hworker w hw
    exact ⟨by rwa [hflatten, List.append_nil], hunsaid⟩
  | speechless state harrived hresp hnone => simp [hw] at hnone

theorem say (h : Talk handler d k hs) {w : Serving σ} (hw : d.worker = some w)
    {t rest : Text} (hrest : w.unsaid = t ++ rest) :
    Talk handler
      { d with responses := d.responses ++ t, worker := some { w with unsaid := rest } } k hs := by
  cases h with
  | asking harrived hresp hfits hworker =>
    obtain ⟨hunsaid, hbytes⟩ := hworker w hw
    obtain ⟨rfl, rfl⟩ := List.append_eq_nil_iff.1 (hrest.symm.trans hunsaid)
    refine .asking harrived (by simpa using hresp) hfits ?_
    rintro _ ⟨⟩
    exact ⟨rfl, hbytes⟩
  | answering state more hr hfits hreq hun hbytes hworker =>
    obtain ⟨hreceived, hunsaid⟩ := hworker w hw
    obtain rfl : more = t ++ rest := hunsaid.symm.trans hrest
    refine .answering state rest hr hfits hreq hun (by simpa using hbytes) ?_
    rintro _ ⟨⟩
    exact ⟨hreceived, rfl⟩
  | speechless state harrived hresp hnone => simp [hw] at hnone

/-- The handler is given the payload of the call, for the first time in it. -/
theorem handled (h : Talk handler d k hs) {w : Serving σ} (hw : d.worker = some w)
    {closed : Bool} {payload : Text} {r : Response} {state : σ} {rest : Inflow}
    (hturn : WorkerLoop.turn handler w.state ⟨w.received, closed⟩ =
      .handled payload r state rest) :
    hs = [] ∧ payload = k.item.payload ∧
      r = WorkerLoop.response k.item.id (handler w.state k.item.payload).1 ∧
      rest.bytes = [] ∧ d.requests = [] ∧ k.unwritten = [] ∧ k.arrived.flatten = [] ∧
      d.responses = [] := by
  have hne := received_ne_nil_of_handled hturn
  cases h with
  | asking harrived hresp hfits hworker =>
    obtain ⟨-, hbytes⟩ := hworker w hw
    have hfits : (WorkerLink.request k.item).encode.length ≤ maxFrame := by
      refine hfits.resolve_right fun hun => hne ?_
      -- nothing of a request that is too large was written
      have hlen := congrArg List.length hbytes
      rw [hun, List.length_append, List.length_append] at hlen
      exact List.length_eq_zero_iff.1 (by omega)
    obtain ⟨hpayload, hr, hrest, hmore⟩ := handled_request hturn hfits hbytes
    obtain ⟨hreq, hun⟩ := List.append_eq_nil_iff.1 hmore
    exact ⟨rfl, hpayload, hr, hrest, hreq, hun, harrived, hresp⟩
  | answering state more hr hfits hreq hun hbytes hworker =>
    exact absurd (hworker w hw).1 hne
  | speechless state harrived hresp hnone => simp [hw] at hnone

/-- An answer is the one of the handler, and leaves nothing behind. -/
theorem answer (h : Talk handler d k hs) {p : Patience} {closed : Bool} {rest : Inflow}
    {body : Text} {response : Response} (hunread : k.link.unread.flatten = [])
    (hread : Frame.read p ⟨k.link.unread ++ k.arrived, closed⟩ = (.body body, rest))
    (hdecode : Response.decode? body = some response) :
    (∃ state, hs = [(state, k.item.payload)] ∧
      response = WorkerLoop.response k.item.id (handler state k.item.payload).1) ∧
    rest.bytes = [] ∧ d.requests = [] ∧ d.responses = [] ∧
      ∀ w, d.worker = some w → w.received.flatten = [] ∧ w.unsaid = [] := by
  have hbytes : (⟨k.link.unread ++ k.arrived, closed⟩ : Inflow).bytes = k.arrived.flatten := by
    simp [Inflow.bytes, hunread]
  have hne := bytes_ne_nil_of_read hread
  rw [hbytes] at hne
  cases h with
  | asking harrived => exact absurd harrived hne
  | speechless state harrived => exact absurd harrived hne
  | answering state more hr hfits hreq hun harriving hworker =>
    obtain ⟨rfl, hrest, hempty⟩ := read_response hread hfits (hbytes ▸ harriving)
    obtain ⟨hresp, rfl⟩ := List.append_eq_nil_iff.1 hempty
    rw [Response.decode?_encode _ hfits] at hdecode
    split_ifs at hdecode
    cases hdecode
    exact ⟨⟨state, rfl, hr⟩, hrest, hreq, hresp, hworker⟩

end Talk

theorem Quiet.not_handled (h : d.Quiet) {w : Serving σ} (hw : d.worker = some w) {closed : Bool}
    {payload : Text} {r : Response} {state : σ} {rest : Inflow} :
    WorkerLoop.turn handler w.state ⟨w.received, closed⟩ ≠ .handled payload r state rest :=
  fun hturn => received_ne_nil_of_handled hturn (h.worker w hw).1

/-- What the worker does between calls, when nothing is under way. -/
theorem Step.quiet (h : Step handler d m d') (hcall : d.call = none) (hm : m.inside = true)
    (hd : d.link.broken = false → d.Quiet) :
    d'.call = none ∧ (d'.link.broken = false → d'.Quiet) := by
  cases h with
  | call | returned => cases hm
  | write hk | hear hk => cases hcall.symm.trans hk
  | @receive w t u hw hrest =>
    refine ⟨hcall, fun hb => ?_⟩
    obtain ⟨hreq, hresp, hunread, hworker⟩ := hd hb
    obtain ⟨rfl, rfl⟩ := List.append_eq_nil_iff.1 (hrest.symm.trans hreq)
    refine ⟨rfl, hresp, hunread, ?_⟩
    rintro _ ⟨⟩
    exact ⟨by simpa using (hworker w hw).1, (hworker w hw).2⟩
  | handle closed hw _ hturn | giveUp closed hw _ hturn =>
    exact ⟨hcall, fun hb => absurd hturn ((hd hb).not_handled hw)⟩
  | @say w t u hw hrest =>
    refine ⟨hcall, fun hb => ?_⟩
    obtain ⟨hreq, hresp, hunread, hworker⟩ := hd hb
    obtain ⟨rfl, rfl⟩ := List.append_eq_nil_iff.1 (hrest.symm.trans (hworker w hw).2)
    refine ⟨hreq, by simpa using hresp, hunread, ?_⟩
    rintro _ ⟨⟩
    exact ⟨(hworker w hw).1, rfl⟩
  | ended =>
    refine ⟨hcall, fun hb => ?_⟩
    obtain ⟨hreq, hresp, hunread, -⟩ := hd hb
    exact ⟨hreq, hresp, hunread, nofun⟩
  | kill => exact ⟨hcall, nofun⟩

/-- What is done during a call. -/
theorem Step.talk (h : Step handler d m d') (hcall : d.call = some k) (hm : m.inside = true)
    {hs : List (σ × Text)} (ht : k.link.broken = false → Talk handler d k hs) :
    ∃ k', d'.call = some k' ∧ k'.item = k.item ∧ k'.link = k.link ∧
      (d.link.broken = true → d'.link.broken = true) ∧
      (k.link.broken = false → Talk handler d' k' (hs ++ m.handled?.toList)) := by
  have hnone : hs ++ (none : Option (σ × Text)).toList = hs := List.append_nil hs
  cases h with
  | call | returned => cases hm
  | write hk hb hfits hrest =>
    obtain rfl := Option.some.inj (hcall.symm.trans hk)
    exact ⟨_, rfl, rfl, rfl, id, fun hb => hnone.symm ▸ (ht hb).write hrest hfits⟩
  | hear hk hrest =>
    obtain rfl := Option.some.inj (hcall.symm.trans hk)
    exact ⟨_, rfl, rfl, rfl, id, fun hb => hnone.symm ▸ (ht hb).hear hrest⟩
  | receive hw hrest =>
    exact ⟨k, hcall, rfl, rfl, id, fun hb => hnone.symm ▸ (ht hb).receive hw hrest⟩
  | say hw hrest => exact ⟨k, hcall, rfl, rfl, id, fun hb => hnone.symm ▸ (ht hb).say hw hrest⟩
  | ended => exact ⟨k, hcall, rfl, rfl, id, fun hb => hnone.symm ▸ (ht hb).ended⟩
  | kill =>
    exact ⟨k, hcall, rfl, rfl, fun _ => rfl, fun hb => hnone.symm ▸ (ht hb).congr rfl rfl rfl⟩
  | @handle w payload r state rest closed hw _ hturn hfits =>
    refine ⟨k, hcall, rfl, rfl, id, fun hb => ?_⟩
    obtain ⟨rfl, rfl, hr, hrest, hreq, hun, harrived, hresp⟩ := (ht hb).handled hw hturn
    refine .answering w.state (Frame.encode r.encode) hr (of_decide_eq_true hfits) hreq hun ?_ ?_
    · rw [harrived, hresp]
      rfl
    · rintro _ ⟨⟩
      exact ⟨hrest, rfl⟩
  | @giveUp w payload r state rest closed hw _ hturn =>
    refine ⟨k, hcall, rfl, rfl, id, fun hb => ?_⟩
    obtain ⟨rfl, rfl, -, -, -, -, harrived, hresp⟩ := (ht hb).handled hw hturn
    exact .speechless w.state harrived hresp rfl

/-- A call that returns with an answer leaves nothing under way, and one that does not breaks the
    link. -/
theorem Talk.returned {hs : List (σ × Text)} (h : Talk handler d k hs)
    (hunread : k.link.unread.flatten = []) {x : Exchange} {r : WorkResult} {after : WorkerLink}
    (hx : x.arriving = k.arrived) (hcall : k.link.call k.item k.limit x = some (r, after)) :
    (r.IsLoss ∧ after.broken = true) ∨
    (∃ state, hs = [(state, k.item.payload)] ∧
      r = .ofAnswer k.item.id (handler state k.item.payload).1) ∧
    after.unread.flatten = [] ∧ d.requests = [] ∧ d.responses = [] ∧
      ∀ w, d.worker = some w → w.received.flatten = [] ∧ w.unsaid = [] := by
  cases WorkerLink.called_of_call hcall with
  | lost _ hr hb => exact Or.inl ⟨hr, hb⟩
  | answered _ _ _ hr =>
    obtain ⟨-, body, rest, response, hread, hdecode, rfl, hafter⟩ :=
      WorkerLink.answer_of_call hcall hr
    rw [hx] at hread
    obtain ⟨⟨state, rfl, rfl⟩, hrest, hquiet⟩ := h.answer hunread hread hdecode
    refine Or.inr ⟨⟨state, rfl, WorkerLink.resultOf_response _ _⟩, ?_, hquiet⟩
    rw [hafter]
    exact hrest

theorem Step.sound (h : Step handler d m d') (hd : Sound handler moves d) :
    Sound handler (moves ++ [m]) d' := by
  cases hm : m.inside with
  | true =>
    cases hd with
    | quiet hcall hquiet =>
      obtain ⟨hcall', hquiet'⟩ := h.quiet hcall hm hquiet
      exact .quiet hcall' hquiet'
    | talking k earlier during hcall hmoves hinside hbroken htalk =>
      obtain ⟨k', hcall', hitem, hlink, hbroken', htalk'⟩ :=
        h.talk hcall hm fun hb => (htalk hb).2
      refine .talking k' earlier (during ++ [m]) hcall' ?_ ?_ ?_ ?_
      · rw [hmoves, hitem]
        simp
      · simpa [or_imp, forall_and, hm] using hinside
      · rw [hlink]
        exact hbroken' ∘ hbroken
      · rw [hlink, List.filterMap_append]
        refine fun hb => ⟨(htalk hb).1, ?_⟩
        have hlast : [m].filterMap Move.handled? = m.handled?.toList := by
          cases hh : m.handled? <;> simp [hh]
        rw [hlast]
        exact htalk' hb
  | false =>
    cases h with
    | @call item limit hnone =>
      cases hd with
      | talking k _ _ hcall => cases hnone.symm.trans hcall
      | quiet _ hquiet =>
        refine .talking _ moves [] rfl rfl nofun id fun hb => ?_
        obtain ⟨hreq, hresp, hunread, hworker⟩ := hquiet hb
        refine ⟨hunread, .asking rfl hresp (Or.inr rfl) fun w hw => ?_⟩
        obtain ⟨hreceived, hunsaid⟩ := hworker w hw
        exact ⟨hunsaid, by simp [hreceived, hreq]⟩
    | @returned k r after x hk _ hx hreturn =>
      refine .quiet rfl fun hb => ?_
      obtain ⟨hafter, hlink⟩ := Bool.or_eq_false_iff.1 hb
      cases hd with
      | quiet hcall => cases hcall.symm.trans hk
      | talking k₁ _ _ hcall _ _ hbroken htalk =>
        obtain rfl := Option.some.inj (hcall.symm.trans hk)
        have hfine : k₁.link.broken = false := by
          by_contra hb'
          simp [hbroken (by simpa using hb')] at hlink
        obtain ⟨hunread, ht⟩ := htalk hfine
        rcases ht.returned hunread hx hreturn with ⟨-, hb'⟩ | ⟨-, hunread', hreq, hresp, hworker⟩
        · simp [hafter] at hb'
        · refine ⟨hreq, hresp, hunread', fun w hw => hworker w ?_⟩
          split_ifs at hw
          exact hw
    | _ => cases hm

theorem Run.sound {process : Nat} {fingerprint : Text} {state : σ}
    (h : Run handler (start process fingerprint state) moves d) : Sound handler moves d := by
  induction h with
  | nil =>
    refine .quiet rfl fun _ => ⟨rfl, rfl, rfl, ?_⟩
    rintro _ ⟨⟩
    exact ⟨rfl, rfl⟩
  | snoc _ hs ih => exact hs.sound ih

/-! ## After a loss -/

/-- The link is broken, and was so when the call began, if there is one. -/
def Dead (d : Dialogue σ) : Prop :=
  d.link.broken = true ∧ ∀ k, d.call = some k → k.link.broken = true

theorem Step.dead (h : Step handler d m d') (hd : d.Dead) :
    d'.Dead ∧ (∀ t, m ≠ .write t) ∧ ∀ r, m = .returned r → r.IsLoss := by
  obtain ⟨hlink, hcall⟩ := hd
  cases h with
  | call =>
    refine ⟨⟨hlink, ?_⟩, nofun, nofun⟩
    rintro _ ⟨⟩
    exact hlink
  | write hk hb => simp [hcall _ hk] at hb
  | @hear k _ _ hk =>
    refine ⟨⟨hlink, ?_⟩, nofun, nofun⟩
    rintro _ ⟨⟩
    exact hcall k hk
  | returned x hk _ _ hreturn =>
    obtain ⟨hr, -⟩ := WorkerLink.call_of_broken (hcall _ hk) hreturn
    refine ⟨⟨by simp [hlink], nofun⟩, nofun, ?_⟩
    rintro _ ⟨⟩
    exact hr
  | kill => exact ⟨⟨rfl, hcall⟩, nofun, nofun⟩
  | _ => exact ⟨⟨hlink, hcall⟩, nofun, nofun⟩

theorem Run.dead (h : Run handler d moves d') (hd : d.Dead) :
    d'.Dead ∧ ∀ m ∈ moves, (∀ t, m ≠ .write t) ∧ ∀ r, m = .returned r → r.IsLoss := by
  induction h with
  | nil => exact ⟨hd, nofun⟩
  | snoc _ hs ih =>
    obtain ⟨hdead, hmoves⟩ := ih
    obtain ⟨hdead', hm⟩ := hs.dead hdead
    exact ⟨hdead', List.forall_mem_append.2 ⟨hmoves, List.forall_mem_singleton.2 hm⟩⟩

/-! ## All calls -/

/-- What is known of a call that returns, with the moves before and after. -/
structure Faithful (handler : Handler σ) (before : List (Move σ)) (r : WorkResult)
    (after : List (Move σ)) : Prop where
  kind : r.IsAnswer ∨ r.IsLoss
  /-- The result is one to the item of the call.  If it is an answer, the handler was given the
      payload of this item in the call, once, and nothing else, and this is what it answered. -/
  answer : ∃ earlier item during, before = earlier ++ .call item :: during ∧
    (∀ m ∈ during, m.inside = true) ∧ r.id = item.id ∧
    (r.IsAnswer → ∃ state, during.filterMap Move.handled? = [(state, item.payload)] ∧
      r = .ofAnswer item.id (handler state item.payload).1)
  /-- After a loss nothing is sent any more, and nothing is answered. -/
  loss : r.IsLoss → (∀ t, .write t ∉ after) ∧ ∀ r', .returned r' ∈ after → r'.IsLoss

/-- **Each answer is that of the handler to the item of the call, and after a loss there is
    none.** -/
theorem run_faithful {process : Nat} {fingerprint : Text} {state : σ} {r : WorkResult}
    {before after : List (Move σ)} {d₁ d₂ d₃ : Dialogue σ}
    (hbefore : Run handler (start process fingerprint state) before d₁)
    (hreturned : Step handler d₁ (.returned r) d₂) (hafter : Run handler d₂ after d₃) :
    Faithful handler before r after := by
  cases hreturned with
  | @returned k r link x hk _ hx hreturn =>
    have hcalled := WorkerLink.called_of_call hreturn
    have hkind : r.IsAnswer ∨ r.IsLoss := by
      cases hcalled with
      | answered _ _ _ hr => exact Or.inl hr
      | lost _ hr => exact Or.inr hr
    refine ⟨hkind, ?_, fun hloss => ?_⟩
    · cases hbefore.sound with
      | quiet hcall => cases hcall.symm.trans hk
      | talking k₁ earlier during hcall hmoves hinside hbroken htalk =>
        obtain rfl := Option.some.inj (hcall.symm.trans hk)
        refine ⟨earlier, k₁.item, during, hmoves, hinside, hcalled.id_eq, fun hr => ?_⟩
        have hfine : k₁.link.broken = false := by
          by_contra hb
          exact (WorkerLink.call_of_broken (by simpa using hb) hreturn).1.not_isAnswer hr
        obtain ⟨hunread, ht⟩ := htalk hfine
        rcases ht.returned hunread hx hreturn with ⟨hloss, -⟩ | ⟨hanswer, -⟩
        · exact absurd hr hloss.not_isAnswer
        · exact hanswer
    · have hdead : link.broken = true := by
        cases hcalled with
        | answered _ _ _ hr => exact absurd hr hloss.not_isAnswer
        | lost _ _ hb => exact hb
      obtain ⟨-, hmoves⟩ := hafter.dead ⟨by simp [hdead], nofun⟩
      exact ⟨fun t hm => (hmoves _ hm).1 t rfl, fun r' hm => (hmoves _ hm).2 r' rfl⟩

/-- A handler that says everything twice, and counts. -/
def twice : Handler Nat := fun n t => (.ok (t ++ t), n + 1)

/-- One call is answered, its request written in two pieces; another is lost with its worker, and a
    later one with the same number finds the link broken. -/
theorem run_faithful_twice :
    Faithful twice
      [.call ⟨7, [], "a"⟩, .write [14, 0], .write ((requestFrame ⟨7, [], "a"⟩).drop 2),
        .receive (requestFrame ⟨7, [], "a"⟩), .handled 0 "a",
        .say (Frame.encode (WorkerLoop.response 7 (.ok "aa")).encode),
        .hear (Frame.encode (WorkerLoop.response 7 (.ok "aa")).encode)]
      (.answered 7 "aa") [] ∧
    Faithful twice [.call ⟨7, [], "a"⟩, .ended]
      (.failed 7 .crashed "worker 100 stopped accepting work (exit code 1)")
      [.call ⟨7, [], "b"⟩, .returned (.failed 7 .crashed "worker 100 is not usable")] := by
  have h₁ : Run twice (start 100 [] 0) [.call ⟨7, [], "a"⟩] _ := Run.nil.snoc (.call _ 1000 rfl)
  have h₂ := h₁.snoc (.write (t := [14, 0]) rfl rfl (by decide) rfl)
  have h₃ := h₂.snoc (.write (u := []) rfl rfl (by decide) (List.append_nil _).symm)
  have h₄ := h₃.snoc (.receive (u := []) rfl (List.append_nil _).symm)
  have h₅ := h₄.snoc (.handle false rfl rfl rfl (by decide))
  have h₆ := h₅.snoc (.say (u := []) rfl (List.append_nil _).symm)
  have h₇ := h₆.snoc (.hear (u := []) rfl (List.append_nil _).symm)
  have l₂ := h₁.snoc .ended
  constructor
  · exact run_faithful h₇ (.returned ⟨.ok, _, false, []⟩ rfl (fun _ => rfl) rfl rfl) .nil
  · exact run_faithful l₂ (.returned ⟨.eof, _, true, "exit code 1"⟩ rfl nofun rfl rfl)
      ((Run.nil.snoc (.call ⟨7, [], "b"⟩ 1000 rfl)).snoc
        (.returned ⟨.eof, _, true, []⟩ rfl nofun rfl rfl))

/-! ## Calls can be answered -/

/-- A link to a worker that waits for requests. -/
structure Ready (d : Dialogue σ) (state : σ) : Prop where
  call : d.call = none
  broken : d.link.broken = false
  reaped : d.link.reaped = false
  quiet : d.Quiet
  worker : ∃ w, d.worker = some w ∧ w.state = state

theorem ready_start (process : Nat) (fingerprint : Text) (state : σ) :
    (start process fingerprint state).Ready state := by
  refine ⟨rfl, rfl, rfl, ⟨rfl, rfl, rfl, ?_⟩, _, rfl, rfl⟩
  rintro _ ⟨⟩
  exact ⟨rfl, rfl⟩

/-- A request that has come in is handled. -/
theorem turn_request (handler : Handler σ) (state : σ) {item : Item} {s : Inflow}
    (hfits : (WorkerLink.request item).encode.length ≤ maxFrame)
    (hpayload : item.payload.length ≤ maxEncodedText) (hs : s.bytes = requestFrame item) :
    ∃ rest, WorkerLoop.turn handler state s = .handled item.payload
      (WorkerLoop.response item.id (handler state item.payload).1)
      (handler state item.payload).2 rest ∧ rest.bytes = [] := by
  obtain ⟨rest, hread, hrest, -⟩ := Frame.read_frame (p := .forever) (by decide) hfits
    (hs.trans (List.append_nil _).symm)
  have hdecode := Request.decode?_encode _ hfits
  rw [if_pos (by exact hpayload)] at hdecode
  refine ⟨rest, ?_, hrest⟩
  unfold WorkerLoop.turn
  simp only [hread, hdecode]
  rfl

/-- A response that has arrived is the result, however the worker will end. -/
theorem call_response {l : WorkerLink} {item : Item} {a : Except Text Text}
    {pieces : List Text} (limit : Int) (hlimit : Patience.ofInt limit ≠ .millis 0)
    (hb : l.broken = false)
    (hfits : (WorkerLoop.response item.id a).encode.length ≤ maxFrame)
    (ha : (WorkerLoop.response item.id a).data.length ≤ maxEncodedText)
    (hbytes : (l.unread ++ pieces).flatten =
      Frame.encode (WorkerLoop.response item.id a).encode) (exit : Text) :
    ∃ unread : List Text, l.call item limit ⟨.ok, pieces, false, exit⟩ =
      some (.ofAnswer item.id a, { l with served := l.served + 1, unread }) ∧
        unread.flatten = [] := by
  obtain ⟨rest, hread, hrest, -⟩ := Frame.read_frame (s := ⟨l.unread ++ pieces, false⟩) hlimit
    hfits (hbytes.trans (List.append_nil _).symm)
  have hdecode := Response.decode?_encode _ hfits
  rw [if_pos ha] at hdecode
  refine ⟨rest.pieces, ?_, hrest⟩
  unfold WorkerLink.call
  simp only [hb, hread, WorkerLink.judge, hdecode]
  cases a <;> simp [WorkerLoop.response, WorkResult.ofAnswer]

/-- **A worker that waits can answer any item within the limit of readers**, and waits for the
    next one then. -/
theorem exists_answer {state : σ} (h : d.Ready state) (item : Item)
    (hpayload : item.payload.length ≤ maxEncodedText)
    (hanswer : (WorkerLoop.response item.id (handler state item.payload).1).data.length ≤
      maxEncodedText) :
    ∃ during d', Run handler d (.call item :: during ++
        [.returned (.ofAnswer item.id (handler state item.payload).1)]) d' ∧
      d'.Ready (handler state item.payload).2 := by
  obtain ⟨hcall, hb, hreaped, ⟨hreq, hresp, hunread, hworker⟩, w, hw, rfl⟩ := h
  obtain ⟨hreceived, hunsaid⟩ := hworker w hw
  have hroom : 13 + maxEncodedText ≤ maxFrame := by decide
  have hfits : (WorkerLink.request item).encode.length ≤ maxFrame := by
    rw [Request.encode, length_encodeMessage]
    exact Nat.le_trans (Nat.add_le_add_left hpayload 13) hroom
  have hfits' : (WorkerLoop.response item.id (handler w.state item.payload).1).encode.length ≤
      maxFrame := by
    rw [Response.encode, length_encodeMessage]
    exact Nat.le_trans (Nat.add_le_add_left hanswer 13) hroom
  have hin : (w.received ++ [d.requests ++ requestFrame item]).flatten = requestFrame item := by
    simp [hreceived, hreq]
  obtain ⟨rest, hturn, hrest⟩ := turn_request handler w.state
    (s := ⟨w.received ++ [d.requests ++ requestFrame item], false⟩) hfits hpayload hin
  have hout : (d.link.unread ++ ([] ++ [d.responses ++ Frame.encode
        (WorkerLoop.response item.id (handler w.state item.payload).1).encode])).flatten =
      Frame.encode (WorkerLoop.response item.id (handler w.state item.payload).1).encode := by
    simp [hunread, hresp]
  obtain ⟨unread, hreturn, hleft⟩ := call_response (-1) (by decide) hb hfits' hanswer hout []
  -- all of the request goes over, and all of the response comes back
  have h₀ : Run handler d [] d := .nil
  have h₁ := h₀.snoc (.call item (-1) hcall)
  have h₂ := h₁.snoc (.write (u := []) rfl hb hfits (List.append_nil _).symm)
  have h₃ := h₂.snoc (.receive (u := []) hw (List.append_nil _).symm)
  have h₄ := h₃.snoc (.handle false rfl hunsaid hturn (decide_eq_true hfits'))
  have h₅ := h₄.snoc (.say (u := []) rfl (List.append_nil _).symm)
  have h₆ := h₅.snoc (.hear (u := []) rfl (List.append_nil _).symm)
  have h₇ := h₆.snoc (.returned ⟨.ok, _, false, []⟩ rfl (fun _ => rfl) rfl hreturn)
  refine ⟨_, _, h₇, rfl, ?_, hreaped, ⟨rfl, rfl, hleft, ?_⟩, ?_⟩
  · simp [hb]
  · intro w' hw'
    simp only [hreaped] at hw'
    cases hw'
    exact ⟨hrest, rfl⟩
  · simp [hreaped]

end Dialogue

end Rebuild
