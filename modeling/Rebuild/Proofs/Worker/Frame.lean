/-
  How a stream of frames is read.

  What is read depends on the bytes that arrive, and not on the pieces in which they do.

  * `Frame.read_frame`: a whole frame gives its body, and leaves what is behind it;
  * `Frame.read_cut`: a frame that is broken off is malformed, or, if not even its length has
    arrived, the end of the stream;
  * `Frame.of_read`: no other bytes give a body.

  `stream_ends` collects what becomes of a stream that ends between frames or inside one.
-/
import Rebuild.Proofs.Worker.Message
import Rebuild.Worker.Loop

namespace Rebuild

/-! ## Pieces -/

namespace Inflow

variable {s : Inflow} {n : Nat}

theorem takePieces_of_le (closed : Bool) (got : Text) {ps : List Text}
    (h : n ≤ ps.flatten.length) : ∃ ps', takePieces closed n got ps =
      (.bytes (got.reverse ++ ps.flatten.take n), ps') ∧ ps'.flatten = ps.flatten.drop n := by
  induction ps generalizing n got with
  | nil =>
    obtain rfl : n = 0 := by simpa using h
    exact ⟨[], by simp [takePieces], rfl⟩
  | cons p ps ih =>
    simp only [takePieces]
    split_ifs with hp
    · rw [Text.hasAtLeast_iff] at hp
      refine ⟨p.drop n :: ps, ?_, ?_⟩
      · rw [List.flatten_cons, List.take_append_of_le_length hp]
      · rw [List.flatten_cons, List.flatten_cons, List.drop_append_of_le_length hp]
    · rw [Text.hasAtLeast_iff, Nat.not_le] at hp
      rw [List.flatten_cons, List.length_append] at h
      obtain ⟨ps', htake, hrest⟩ := ih (n := n - p.length) (p.reverse ++ got) (by omega)
      refine ⟨ps', htake.trans ?_, hrest.trans ?_⟩
      · rw [List.flatten_cons, List.take_append, List.take_of_length_le (Nat.le_of_lt hp)]
        simp
      · rw [List.flatten_cons, List.drop_append, List.drop_of_length_le (Nat.le_of_lt hp),
          List.nil_append]

theorem takePieces_of_lt (closed : Bool) (got : Text) {ps : List Text}
    (h : ps.flatten.length < n) :
    takePieces closed n got ps = (if closed then .ended else .silent, []) := by
  induction ps generalizing n got with
  | nil =>
    have hn : n ≠ 0 := Nat.ne_of_gt h
    simp [takePieces, hn]
  | cons p ps ih =>
    rw [List.flatten_cons, List.length_append] at h
    have hp : ¬ p.hasAtLeast n = true := by
      rw [Text.hasAtLeast_iff]
      omega
    rw [takePieces, if_neg hp]
    exact ih _ (by omega)

/-- What is there is taken. -/
theorem take_of_le (h : n ≤ s.size) : ∃ s', s.take n = (.bytes (s.bytes.take n), s') ∧
    s'.bytes = s.bytes.drop n ∧ s'.closed = s.closed := by
  obtain ⟨ps', htake, hrest⟩ := takePieces_of_le s.closed [] h
  exact ⟨{ s with pieces := ps' }, by rw [take, htake]; rfl, hrest, rfl⟩

/-- What is not there is waited for. -/
theorem take_of_lt (h : s.size < n) :
    s.take n = (if s.closed then .ended else .silent, { s with pieces := [] }) := by
  rw [take, takePieces_of_lt s.closed [] h]

/-- What was taken stood in front. -/
theorem bytes_of_take {t : Text} {s' : Inflow} (h : s.take n = (.bytes t, s')) :
    t.length = n ∧ s.bytes = t ++ s'.bytes := by
  have hn : n ≤ s.size := by
    by_contra hlt
    have htake := take_of_lt (Nat.not_le.1 hlt)
    rw [h] at htake
    cases hc : s.closed <;> simp [hc] at htake
  obtain ⟨s₁, htake, hbytes, -⟩ := take_of_le hn
  cases h.symm.trans htake
  exact ⟨List.length_take_of_le hn, by rw [hbytes, List.take_append_drop]⟩

end Inflow

/-! ## One frame -/

namespace Frame

variable {p : Patience} {s s' : Inflow} {body next t : Text}

theorem encode_eq (h : body.length ≤ maxFrame) : encode body = leBytes 4 body.length ++ body := by
  have hlt : body.length < UInt32.size := Nat.lt_of_le_of_lt h (by decide)
  rw [encode, Encode.text, Encode.count, Encode.u32, UInt32.toNat_ofNat_of_lt' hlt]

theorem length_encode (h : body.length ≤ maxFrame) : (encode body).length = 4 + body.length := by
  rw [encode_eq h, List.length_append, length_leBytes]

theorem encode_ne_nil (h : body.length ≤ maxFrame) : encode body ≠ [] := by
  rw [← List.length_pos_iff, length_encode h]
  omega

theorem leValue_length (h : body.length ≤ maxFrame) :
    leValue (leBytes 4 body.length) = body.length := by
  have hmax : maxFrame < Nat.pow 256 4 := by decide
  rw [leValue_leBytes, Nat.mod_eq_of_lt (Nat.lt_of_le_of_lt h hmax)]

/-- **A whole frame gives its body.** -/
theorem read_frame (hp : p ≠ .millis 0) (hbody : body.length ≤ maxFrame) {rest : Text}
    (hs : s.bytes = encode body ++ rest) :
    ∃ s', read p s = (.body body, s') ∧ s'.bytes = rest ∧ s'.closed = s.closed := by
  rw [encode_eq hbody, List.append_assoc] at hs
  have hsize : s.size = 4 + (body.length + rest.length) := by
    rw [Inflow.size, hs, List.length_append, length_leBytes, List.length_append]
  obtain ⟨s₁, htake, hbytes, hclosed⟩ := s.take_of_le (n := 4) (by omega)
  have hlen := length_leBytes 4 body.length
  rw [hs, List.take_left' hlen] at htake
  rw [hs, List.drop_left' hlen] at hbytes
  have hsize₁ : s₁.size = body.length + rest.length := by
    rw [Inflow.size, hbytes, List.length_append]
  obtain ⟨s₂, htake₂, hbytes₂, hclosed₂⟩ := s₁.take_of_le (n := body.length) (by omega)
  rw [hbytes, List.take_left' rfl] at htake₂
  rw [hbytes, List.drop_left' rfl] at hbytes₂
  refine ⟨s₂, ?_, hbytes₂, hclosed₂.trans hclosed⟩
  rw [read, if_neg hp, htake]
  simp only
  rw [leValue_length hbody, readBody, if_neg (Nat.not_lt.2 hbody), htake₂]

/-- A body was framed, and what is left stood behind it. -/
theorem of_read (h : read p s = (.body t, s')) :
    t.length ≤ maxFrame ∧ s.bytes = encode t ++ s'.bytes := by
  have hp : p ≠ .millis 0 := by
    rintro rfl
    cases h
  rw [read, if_neg hp] at h
  split at h
  · next header s₁ hheader =>
    obtain ⟨hfour, hs⟩ := Inflow.bytes_of_take hheader
    have hword := leBytes_leValue header
    rw [hfour] at hword
    unfold readBody at h
    split_ifs at h with hn
    · cases h
    · split at h
      · next body s₂ hbody =>
        cases h
        obtain ⟨hlen, hs₁⟩ := Inflow.bytes_of_take hbody
        have ht : t.length ≤ maxFrame := hlen ▸ Nat.not_lt.1 hn
        exact ⟨ht, by rw [encode_eq ht, hlen, hword, hs, hs₁, List.append_assoc]⟩
      · cases h
      · cases p <;> cases h
  · cases h
  · cases p <;> cases h

/-- Frames tell where they end. -/
theorem encode_append_inj {body' rest rest' : Text} (hbody : body.length ≤ maxFrame)
    (hbody' : body'.length ≤ maxFrame) (h : encode body ++ rest = encode body' ++ rest') :
    body = body' ∧ rest = rest' := by
  have hs : (⟨[encode body ++ rest], true⟩ : Inflow).bytes = encode body ++ rest := by
    simp [Inflow.bytes]
  obtain ⟨s₁, hread, hrest, -⟩ := read_frame (p := .forever) (by decide) hbody hs
  obtain ⟨s₂, hread', hrest', -⟩ := read_frame (p := .forever) (by decide) hbody' (hs.trans h)
  cases hread.symm.trans hread'
  exact ⟨rfl, hrest.symm.trans hrest'⟩

/-- No whole frame stands in front. -/
def Incomplete (t : Text) : Prop := ∀ body : Text, body.length ≤ maxFrame → ¬ encode body <+: t

/-- **Where no whole frame stands in front** none is read: too much is announced, or the rest of
    the frame is waited for until the stream ends. -/
theorem read_incomplete (hp : p ≠ .millis 0) (h : Incomplete s.bytes) :
    (read p s).1 =
      if 4 ≤ s.size ∧ maxFrame < leValue (s.bytes.take 4) then .stopped .error
      else if s.closed then .stopped (if s.size < 4 then .eof else .error) else silence p := by
  have hno (t : Text) (s' : Inflow) : read p s ≠ (.body t, s') := by
    intro hread
    obtain ⟨hlength, hbytes⟩ := of_read hread
    exact h t hlength (hbytes ▸ List.prefix_append _ _)
  rw [read, if_neg hp] at hno ⊢
  by_cases h4 : s.size < 4
  · have hshort : ¬ (4 ≤ s.size ∧ maxFrame < leValue (s.bytes.take 4)) :=
      fun hlong => Nat.not_le.2 h4 hlong.1
    rw [if_neg hshort, Inflow.take_of_lt h4]
    cases s.closed <;> simp [h4]
  · obtain ⟨s₁, htake, -, hclosed⟩ := s.take_of_le (n := 4) (by omega)
    simp only [htake, readBody] at hno ⊢
    by_cases hn : maxFrame < leValue (s.bytes.take 4)
    · rw [if_pos hn, if_pos ⟨Nat.not_lt.1 h4, hn⟩]
    · rw [if_neg hn] at hno
      rw [if_neg hn, if_neg fun hlong => hn hlong.2, ← hclosed]
      by_cases hsize : s₁.size < leValue (s.bytes.take 4)
      · rw [Inflow.take_of_lt hsize]
        cases s₁.closed <;> simp [h4]
      · obtain ⟨s₂, htake₁, -, -⟩ := s₁.take_of_le (Nat.not_lt.1 hsize)
        rw [htake₁] at hno
        exact absurd rfl (hno _ s₂)

/-- **A frame that is broken off gives none.**  If not even its length has arrived, that is
    taken for the end of the stream. -/
theorem read_cut (hp : p ≠ .millis 0) (hnext : next.length ≤ maxFrame)
    (hcut : s.bytes <+: encode next) (hne : s.bytes ≠ encode next) :
    (read p s).1 =
      if s.closed then .stopped (if s.size < 4 then .eof else .error) else silence p := by
  obtain ⟨missing, hmissing⟩ := hcut
  have hincomplete : Incomplete s.bytes := by
    rintro body hbody ⟨rest, hrest⟩
    rw [← hrest, List.append_assoc, ← List.append_nil (encode next)] at hmissing
    obtain ⟨rfl, hnil⟩ := encode_append_inj hbody hnext hmissing
    rw [(List.append_eq_nil_iff.1 hnil).1, List.append_nil] at hrest
    exact hne hrest.symm
  rw [read_incomplete hp hincomplete, if_neg]
  rintro ⟨h4, hlong⟩
  have hheader := congrArg (List.take 4) hmissing
  rw [List.take_append_of_le_length h4, encode_eq hnext,
    List.take_left' (length_leBytes 4 _)] at hheader
  rw [hheader, leValue_length hnext] at hlong
  exact Nat.not_lt.2 hnext hlong

/-! ## Frame after frame -/

/-- What comes of reading so many times. -/
def reads (p : Patience) : Nat → Inflow → List FrameRead
  | 0, _ => []
  | n + 1, s => (read p s).1 :: reads p n (read p s).2

theorem reads_stream (hp : p ≠ .millis 0) {bodies : List Text}
    (hbodies : ∀ b ∈ bodies, b.length ≤ maxFrame) (hnext : next.length ≤ maxFrame)
    {cut : Text} (hcut : cut <+: encode next) (hne : cut ≠ encode next)
    (hs : s.bytes = bodies.flatMap encode ++ cut) (hclosed : s.closed = true) :
    reads p (bodies.length + 1) s =
      bodies.map .body ++ [.stopped (if cut.length < 4 then .eof else .error)] := by
  induction bodies generalizing s with
  | nil =>
    obtain rfl : s.bytes = cut := hs
    rw [List.length_nil, reads, reads, read_cut hp hnext hcut hne, hclosed]
    rfl
  | cons b bodies ih =>
    obtain ⟨hb, hbodies⟩ := List.forall_mem_cons.1 hbodies
    rw [List.flatMap_cons, List.append_assoc] at hs
    obtain ⟨s₁, hread, hbytes, hclosed₁⟩ := read_frame hp hb hs
    rw [List.length_cons, reads, hread, ih hbodies hbytes (hclosed₁.trans hclosed)]
    rfl

end Frame

/-! ## The loop -/

namespace WorkerLoop

variable {σ : Type} (handler : Handler σ) (outputOpen : Bool) (state : σ) (s : Inflow)

theorem serve_eq : serve handler outputOpen state s =
    match turn handler state s with
    | .waiting => ⟨none, [], state⟩
    | .ended code => ⟨some code, [], state⟩
    | .handled _ r state rest =>
      if outputOpen ∧ fits r then
        let trace := serve handler outputOpen state rest
        { trace with responses := r :: trace.responses }
      else ⟨some 1, [], state⟩ := by
  rw [serve]
  split <;> rename_i h <;> rw [h]

variable {handler outputOpen state s}

theorem serve_stream {bodies : List Text} (hbodies : ∀ b ∈ bodies, b.length ≤ maxFrame)
    (hwork : ∀ b ∈ bodies, ∀ r, Request.decode? b = some r → r.kind = .work) {next cut : Text}
    (hnext : next.length ≤ maxFrame) (hcut : cut <+: Frame.encode next)
    (hne : cut ≠ Frame.encode next) (hs : s.bytes = bodies.flatMap Frame.encode ++ cut)
    (hclosed : s.closed = true) :
    (serve handler outputOpen state s).code =
      some (if cut.length < 4 ∧
        (serve handler outputOpen state s).responses.length = bodies.length then 0 else 1) := by
  induction bodies generalizing s state with
  | nil =>
    obtain rfl : s.bytes = cut := hs
    have hread := Frame.read_cut (p := .forever) (by decide) hnext hcut hne
    generalize hr : Frame.read .forever s = r at hread
    obtain ⟨r, s₁⟩ := r
    rw [hclosed, if_pos rfl] at hread
    obtain rfl : r = _ := hread
    rw [serve_eq, turn, hr]
    by_cases h4 : s.size < 4
    · simp [h4, show s.bytes.length < 4 from h4]
    · simp [h4, show ¬ s.bytes.length < 4 from h4]
  | cons b bodies ih =>
    obtain ⟨hb, hbodies⟩ := List.forall_mem_cons.1 hbodies
    obtain ⟨hwork₀, hwork⟩ := List.forall_mem_cons.1 hwork
    rw [List.flatMap_cons, List.append_assoc] at hs
    obtain ⟨s₁, hread, hbytes, hclosed₁⟩ := Frame.read_frame (p := .forever) (by decide) hb hs
    have ih (state : σ) := @ih state s₁ hbodies hwork hbytes (hclosed₁.trans hclosed)
    rw [serve_eq, turn, hread]
    cases hrequest : Request.decode? b with
    | none => simp [hrequest]
    | some r =>
      simp only [hrequest, hwork₀ r hrequest]
      by_cases hfits : outputOpen ∧ fits (response r.id (handler state r.payload).1)
      · rw [if_pos hfits]
        simp only [ih, List.length_cons, Nat.add_right_cancel_iff]
      · simp [if_neg hfits]

end WorkerLoop

/-- **How a stream ends.**  Whatever the pieces, the frames are read in order.  Behind them the
    stream is orderly at an end between frames, and also if less than the length of a further
    frame has arrived; broken off later it is not. -/
theorem stream_ends {bodies : List Text} {next cut : Text} {s : Inflow}
    (hbodies : ∀ b ∈ bodies, b.length ≤ maxFrame) (hnext : next.length ≤ maxFrame)
    (hcut : cut <+: Frame.encode next) (hne : cut ≠ Frame.encode next)
    (hs : s.bytes = bodies.flatMap Frame.encode ++ cut) (hclosed : s.closed = true) :
    (∀ p, p ≠ .millis 0 → Frame.reads p (bodies.length + 1) s =
      bodies.map .body ++ [.stopped (if cut.length < 4 then .eof else .error)]) ∧
    ∀ (σ : Type) (handler : Handler σ) (outputOpen : Bool) (state : σ),
      (∀ b ∈ bodies, ∀ r, Request.decode? b = some r → r.kind = .work) →
      (WorkerLoop.serve handler outputOpen state s).code = some (if cut.length < 4 ∧
        (WorkerLoop.serve handler outputOpen state s).responses.length = bodies.length
        then 0 else 1) :=
  ⟨fun _ hp => Frame.reads_stream hp hbodies hnext hcut hne hs hclosed,
    fun _ _ _ _ hwork => WorkerLoop.serve_stream hbodies hwork hnext hcut hne hs hclosed⟩

/-- A stream in single bytes, broken off inside the body of its second frame. -/
theorem stream_ends_inside :
    Frame.reads (.millis 1000) 2 ⟨[[1], [0], [0], [0], [7], [3], [0], [0], [0], [97]], true⟩ =
        [.body [7], .stopped .error] ∧
      (WorkerLoop.serve (fun n t => (.ok t, n + 1)) true 0
        ⟨[[1], [0], [0], [0], [7], [3], [0], [0], [0], [97]], true⟩).code = some 1 := by
  have h := @stream_ends [[7]] "abc" [3, 0, 0, 0, 97]
    ⟨[[1], [0], [0], [0], [7], [3], [0], [0], [0], [97]], true⟩
    (by decide) (by decide) (by decide) (by decide) rfl rfl
  refine ⟨h.1 _ (by decide), h.2 Nat (fun n t => (.ok t, n + 1)) true 0 ?_⟩
  intro b hb r hr
  obtain rfl := List.mem_singleton.1 hb
  cases hr

/-- Two bytes of the length of a frame of ten bytes have arrived when the stream ends: that is
    taken for the end of all requests. -/
theorem stream_ends_in_header :
    [10, 0] <+: Frame.encode (List.replicate 10 0) ∧
      (Frame.read .forever ⟨[[10, 0]], true⟩).1 = .stopped .eof ∧
      (WorkerLoop.serve (fun n t => (.ok t, n + 1)) true 0 ⟨[[10, 0]], true⟩).code = some 0 := by
  refine ⟨by decide, rfl, ?_⟩
  rw [WorkerLoop.serve_eq]
  rfl

end Rebuild
