/-
  Which messages can be read.

  A frame has room for a message of 256 MiB, but a reader takes no text above 64 MiB.

  * `decodeMessage_encode`: a message is read back if its text is not too long, and not at all
    otherwise; `decode_framed` says this of requests and responses;
  * `strict_message`: a message that is read was spelled the one way in which it is written, so
    `Request.decode?_eq_some` and `Response.decode?_eq_some` tell all bytes that are accepted.
-/
import Rebuild.Proofs.Encoding.Canonical
import Rebuild.Worker.Frame
import Rebuild.Worker.Message

namespace Rebuild

section Message

variable {κ : Type} {ofCode? : UInt8 → Option κ} {code : UInt8} {kind : κ}

@[simp] theorem length_encodeMessage (code : UInt8) (id : UInt64) (body : Text) :
    (encodeMessage code id body).length = 13 + body.length := by
  simp [encodeMessage, Encode.u8, Encode.u64, Encode.text, Encode.count, Encode.u32]
  omega

theorem reads_message (hcode : ofCode? code = some kind) (id : UInt64) {body : Text}
    (hbody : body.length ≤ maxEncodedText) :
    Decoder.Reads (decodeMessage ofCode?) (encodeMessage code id body) (kind, id, body) := by
  rw [encodeMessage, List.append_assoc]
  refine (Decoder.Reads.u8 code).bind ((Decoder.Reads.u64 id).bind ?_)
  rw [← List.append_nil (Encode.text body)]
  refine (Decoder.Reads.text hbody).bind ?_
  rw [hcode]
  exact Decoder.Reads.pure _

/-- A message is read back if its text is not too long, and not at all otherwise. -/
theorem decodeMessage_encode (hcode : ofCode? code = some kind) (id : UInt64) {body : Text}
    (hlt : body.length < UInt32.size) :
    (decodeMessage ofCode?).exactly (encodeMessage code id body) =
      if body.length ≤ maxEncodedText then some (kind, id, body) else none := by
  split_ifs with hbody
  · exact (reads_message hcode id hbody).exactly
  · have htext := Decoder.Refuses.text hlt (Nat.not_le.1 hbody)
    rw [encodeMessage, List.append_assoc]
    exact Decoder.Refuses.exactly
      ((Decoder.Reads.u8 code).bind_refuses ((Decoder.Reads.u64 id).bind_refuses htext.bind))

/-- A message is read from nothing but its own bytes, if each kind has one number. -/
theorem strict_message {codeOf : κ → UInt8}
    (hcode : ∀ ⦃code kind⦄, ofCode? code = some kind → codeOf kind = code) :
    Decoder.Strict (decodeMessage ofCode?) (fun m => m.2.2.length ≤ maxEncodedText)
      fun m => encodeMessage (codeOf m.1) m.2.1 m.2.2 := by
  intro r m r' h
  obtain ⟨code, r₁, hu8, h⟩ := Decoder.bind_eq_some h
  obtain ⟨id, r₂, hid, h⟩ := Decoder.bind_eq_some h
  obtain ⟨body, r₃, hbody, h⟩ := Decoder.bind_eq_some h
  cases hkind : ofCode? code with
  | none =>
    rw [hkind] at h
    cases h
  | some kind =>
    rw [hkind] at h
    obtain ⟨rfl, rfl⟩ := Decoder.pure_eq_some h
    obtain ⟨hlength, hrest⟩ := Decoder.text_eq_some hbody
    refine ⟨hlength, ?_⟩
    rw [Decoder.Canonical.u8 hu8, Decoder.Canonical.u64 hid, hrest]
    simp only [encodeMessage, hcode hkind, List.append_assoc]

end Message

theorem RequestKind.ofCode?_code (kind : RequestKind) : ofCode? kind.code = some kind := by
  cases kind <;> rfl

theorem ResponseKind.ofCode?_code (kind : ResponseKind) : ofCode? kind.code = some kind := by
  cases kind <;> rfl

theorem RequestKind.code_of_ofCode? {code : UInt8} {kind : RequestKind}
    (h : ofCode? code = some kind) : kind.code = code := by
  unfold ofCode? at h
  split at h <;> cases h <;> rfl

theorem ResponseKind.code_of_ofCode? {code : UInt8} {kind : ResponseKind}
    (h : ofCode? code = some kind) : kind.code = code := by
  unfold ofCode? at h
  split at h <;> cases h <;> rfl

/-- **A request is accepted in the one spelling in which it is written.** -/
theorem Request.decode?_eq_some {r : Request} {t : Text} :
    Request.decode? t = some r ↔ r.payload.length ≤ maxEncodedText ∧ t = r.encode := by
  refine Iff.trans ?_ ((strict_message @RequestKind.code_of_ofCode?).exactly_eq_some_iff
    (fun m hm => reads_message m.1.ofCode?_code m.2.1 hm) (a := (r.kind, r.id, r.payload)))
  rw [Request.decode?, Option.map_eq_some_iff]
  constructor
  · rintro ⟨m, hm, rfl⟩
    exact hm
  · exact fun h => ⟨_, h, rfl⟩

/-- **A response is accepted in the one spelling in which it is written.** -/
theorem Response.decode?_eq_some {r : Response} {t : Text} :
    Response.decode? t = some r ↔ r.data.length ≤ maxEncodedText ∧ t = r.encode := by
  refine Iff.trans ?_ ((strict_message @ResponseKind.code_of_ofCode?).exactly_eq_some_iff
    (fun m hm => reads_message m.1.ofCode?_code m.2.1 hm) (a := (r.kind, r.id, r.data)))
  rw [Response.decode?, Option.map_eq_some_iff]
  constructor
  · rintro ⟨m, hm, rfl⟩
    exact hm
  · exact fun h => ⟨_, h, rfl⟩

/-- What fits into a frame has a length that is written as it is. -/
theorem lt_size_of_framed {n : Nat} (h : 13 + n ≤ maxFrame) : n < UInt32.size := by
  have : maxFrame < UInt32.size := by decide
  omega

theorem Request.decode?_encode (r : Request) (h : r.encode.length ≤ maxFrame) :
    Request.decode? r.encode = if r.payload.length ≤ maxEncodedText then some r else none := by
  rw [Request.encode, length_encodeMessage] at h
  rw [Request.decode?, Request.encode,
    decodeMessage_encode r.kind.ofCode?_code r.id (lt_size_of_framed h)]
  split_ifs <;> rfl

theorem Response.decode?_encode (r : Response) (h : r.encode.length ≤ maxFrame) :
    Response.decode? r.encode = if r.data.length ≤ maxEncodedText then some r else none := by
  rw [Response.encode, length_encodeMessage] at h
  rw [Response.decode?, Response.encode,
    decodeMessage_encode r.kind.ofCode?_code r.id (lt_size_of_framed h)]
  split_ifs <;> rfl

/-- **A message that can be framed is read back exactly if its text is within the limit of
    readers.** -/
theorem decode_framed :
    (∀ r : Request, r.encode.length ≤ maxFrame →
      Request.decode? r.encode = if r.payload.length ≤ maxEncodedText then some r else none) ∧
    ∀ r : Response, r.encode.length ≤ maxFrame →
      Response.decode? r.encode = if r.data.length ≤ maxEncodedText then some r else none :=
  ⟨Request.decode?_encode, Response.decode?_encode⟩

/-- A request and a response are read back. -/
theorem decode_framed_short :
    Request.decode? (Request.encode ⟨.work, 7, "a"⟩) = some ⟨.work, 7, "a"⟩ ∧
      Response.decode? (Response.encode ⟨.error, 7, "b"⟩) = some ⟨.error, 7, "b"⟩ :=
  ⟨decode_framed.1 ⟨.work, 7, "a"⟩ (by decide), decode_framed.2 ⟨.error, 7, "b"⟩ (by decide)⟩

theorem Request.decode?_of_long (id : UInt64) {t : Text} (ht : maxEncodedText < t.length)
    (h : 13 + t.length ≤ maxFrame) :
    (Request.encode ⟨.work, id, t⟩).length ≤ maxFrame ∧
      Request.decode? (Request.encode ⟨.work, id, t⟩) = none := by
  have hframed : (Request.encode ⟨.work, id, t⟩).length ≤ maxFrame := by
    rwa [Request.encode, length_encodeMessage]
  exact ⟨hframed, by rw [Request.decode?_encode _ hframed, if_neg (Nat.not_le.2 ht)]⟩

/-- A request that can be framed, with one byte too many. -/
theorem decode_framed_long :
    (Request.encode ⟨.work, 7, List.replicate (maxEncodedText + 1) 97⟩).length ≤ maxFrame ∧
      Request.decode? (Request.encode ⟨.work, 7, List.replicate (maxEncodedText + 1) 97⟩) =
        none :=
  Request.decode?_of_long 7 (by rw [List.length_replicate]; exact Nat.lt_succ_self _)
    (by rw [List.length_replicate]; decide)

end Rebuild
