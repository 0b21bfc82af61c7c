/-
  Payloads arrive as they were sent.

  * `CompileRequest.Fits` and `CompileResponse.Fits` are the limits of readers: texts of 64 MiB,
    and counts of 32 bits;
  * `follows_decoder`: reading into a payload leaves nothing of the old one;
  * `CompileRequest.strict_decoder`: a request has no second spelling.  (A response has: its sets
    are read in any order.)

  `payloads_read_back` says that a payload is read back and nothing shorter or longer is read;
  `accepted_iff_encoded` tells all bytes that are accepted as a message or as a request.
-/
import Rebuild.Proofs.Analysis.Record
import Rebuild.Proofs.Encoding.Filler
import Rebuild.Proofs.Worker.Message
import Rebuild.Toolchain.Request

namespace Rebuild

open Decoder

namespace CompileRequest

/-- A request that a reader accepts. -/
structure Fits (r : CompileRequest) : Prop where
  units_length : r.units.length < UInt32.size
  unit : ∀ u ∈ r.units, u.1.length ≤ maxEncodedText ∧ u.2.length ≤ maxEncodedText
  destination : r.destination.length ≤ maxEncodedText
  command_length : r.command.length < UInt32.size
  argument : ∀ a ∈ r.command, a.length ≤ maxEncodedText
  manifest : r.manifest.length ≤ maxEncodedText

theorem reads_unit {u : Text × Text}
    (h : u.1.length ≤ maxEncodedText ∧ u.2.length ≤ maxEncodedText) :
    Reads decodeUnit (Encode.text u.1 ++ Encode.text u.2) u :=
  (Reads.text h.1).bind ((Reads.text h.2).map _)

theorem strict_unit :
    Strict decodeUnit (fun u => u.1.length ≤ maxEncodedText ∧ u.2.length ≤ maxEncodedText)
      fun u => Encode.text u.1 ++ Encode.text u.2 := by
  intro r u r' h
  obtain ⟨unit, r₁, hunit, h⟩ := bind_eq_some h
  obtain ⟨source, r₂, hsource, h⟩ := bind_eq_some h
  obtain ⟨rfl, rfl⟩ := pure_eq_some h
  obtain ⟨hunit, hr⟩ := Strict.text hunit
  obtain ⟨hsource, hr₁⟩ := Strict.text hsource
  exact ⟨⟨hunit, hsource⟩, by rw [hr, hr₁, List.append_assoc]⟩

theorem reads_decoder {r : CompileRequest} (h : r.Fits) : Reads decoder r.encode r := by
  simp only [encode, List.append_assoc]
  refine (Reads.list h.units_length (fun u _ => ?_) fun u hu => reads_unit (h.unit u hu)).bind <|
    (Reads.text h.destination).bind <| (Reads.texts h.command_length h.argument).bind <|
    (Reads.text h.manifest).map _
  rw [List.length_append, Encode.length_text]
  omega

theorem steady_decoder : Steady decoder :=
  (Steady.list 1 (Steady.text.bind fun _ => Steady.text.bind fun _ => Steady.pure _)).bind
    fun _ => Steady.text.bind fun _ => Steady.texts.bind fun _ => Steady.text.bind
    fun _ => Steady.pure _

theorem follows_decoder (old : CompileRequest) : filler.Follows old decoder := by
  refine (Filler.Follows.list 1 decodeUnit _).andThen fun units => ?_
  refine (Filler.Follows.ofDecoder text _).andThen fun destination => ?_
  refine (Filler.Follows.list 4 text _).andThen fun command => ?_
  exact (Filler.Follows.ofDecoder text _).within

theorem recognizes_encode {r : CompileRequest} (h : r.Fits) : filler.Recognizes r.encode r :=
  Filler.recognizes follows_decoder steady_decoder (reads_decoder h)

theorem strict_decoder : Strict decoder Fits encode := by
  intro r q r' h
  obtain ⟨units, r₁, hunits, h⟩ := bind_eq_some h
  obtain ⟨destination, r₂, hdestination, h⟩ := bind_eq_some h
  obtain ⟨command, r₃, hcommand, h⟩ := bind_eq_some h
  obtain ⟨manifest, r₄, hmanifest, h⟩ := bind_eq_some h
  obtain ⟨rfl, rfl⟩ := pure_eq_some h
  obtain ⟨⟨hlength, hunit⟩, hr⟩ := strict_unit.list 1 hunits
  obtain ⟨hdestination, hr₁⟩ := Strict.text hdestination
  obtain ⟨⟨hcommand, hargument⟩, hr₂⟩ := Strict.texts hcommand
  obtain ⟨hmanifest, hr₃⟩ := Strict.text hmanifest
  refine ⟨⟨hlength, hunit, hdestination, hcommand, hargument, hmanifest⟩, ?_⟩
  rw [hr, hr₁, hr₂, hr₃]
  simp only [encode, List.append_assoc]

/-- **A request is accepted in the one spelling in which it is written.** -/
theorem decode?_eq_some {r : CompileRequest} {t : Text} :
    decode? t = some r ↔ r.Fits ∧ t = r.encode :=
  strict_decoder.exactly_eq_some_iff fun _ => reads_decoder

end CompileRequest

namespace CompileResponse

/-- A response that a reader accepts. -/
structure Fits (r : CompileResponse) : Prop where
  units_length : r.units.length < UInt32.size
  unit : ∀ u ∈ r.units, Record.UnitFits u
  diagnostics : r.diagnostics.length ≤ maxEncodedText

theorem reads_decoder {r : CompileResponse} (h : r.Fits) : Reads decoder r.encode r := by
  refine (Reads.list h.units_length (fun u _ => ?_) fun u hu => ?_).bind
    ((Reads.text h.diagnostics).map _)
  · simp only [Record.encodeUnit, List.length_append, Encode.length_text]
    omega
  · exact Record.reads_unit (h.unit u hu)

theorem steady_unit : Steady Record.decodeUnit :=
  Steady.text.bind fun _ => Steady.text.bind fun _ => Steady.textSet.bind fun _ =>
    Steady.textSet.bind fun _ => Steady.texts.bind fun _ => Steady.pure _

theorem steady_decoder : Steady decoder :=
  (Steady.list 1 steady_unit).bind fun _ => Steady.text.bind fun _ => Steady.pure _

theorem follows_decoder (old : CompileResponse) : filler.Follows old decoder := by
  refine (Filler.Follows.list 1 Record.decodeUnit _).andThen fun units => ?_
  exact (Filler.Follows.ofDecoder text _).within

theorem recognizes_encode {r : CompileResponse} (h : r.Fits) : filler.Recognizes r.encode r :=
  Filler.recognizes follows_decoder steady_decoder (reads_decoder h)

end CompileResponse

/-- **A payload arrives as it was sent.**  Within the limits of readers, the bytes of a request
    and of a response are read to their end and are the payload again, whatever the payload that
    they are read into was before; cut off anywhere or followed by anything, they are refused. -/
theorem payloads_read_back :
    (∀ r : CompileRequest, r.Fits →
      CompileRequest.decode? r.encode = some r ∧ CompileRequest.filler.Recognizes r.encode r) ∧
    ∀ r : CompileResponse, r.Fits →
      CompileResponse.decode? r.encode = some r ∧ CompileResponse.filler.Recognizes r.encode r :=
  ⟨fun _ h => ⟨(CompileRequest.reads_decoder h).exactly, CompileRequest.recognizes_encode h⟩,
    fun _ h => ⟨(CompileResponse.reads_decoder h).exactly, CompileResponse.recognizes_encode h⟩⟩

/-- Two units of one source. -/
def twoUnitsRequest : CompileRequest where
  units := [("A", "/p/A.l"), ("A.B", "/p/A.l")]
  destination := "/out dir"
  command := ["langc", "\x7bsources\x7d", ""]
  manifest := "/m"

/-- What compiling them came to. -/
def twoUnitsResponse : CompileResponse where
  units := [{ name := "A", source := "/p/A.l", dependencies := TextSet.ofTexts ["B", "*"]
              facts := TextSet.ofTexts ["f"], artifacts := ["/o/1", "/o/1"] },
            { name := "A.B", source := "/p/A.l" }]
  diagnostics := "warning"

theorem payloads_read_back_twoUnits :
    (twoUnitsRequest.Fits ∧ CompileRequest.decode? twoUnitsRequest.encode = some twoUnitsRequest ∧
      CompileRequest.filler.Recognizes twoUnitsRequest.encode twoUnitsRequest) ∧
    twoUnitsResponse.Fits ∧
      CompileResponse.decode? twoUnitsResponse.encode = some twoUnitsResponse ∧
      CompileResponse.filler.Recognizes twoUnitsResponse.encode twoUnitsResponse := by
  have hrequest : twoUnitsRequest.Fits := by constructor <;> decide +kernel
  have hresponse : twoUnitsResponse.Fits := by constructor <;> decide +kernel
  exact ⟨⟨hrequest, payloads_read_back.1 _ hrequest⟩, hresponse, payloads_read_back.2 _ hresponse⟩

/-- **Nothing but encodings is accepted**: the bytes that are accepted as a message to or from a
    worker, or as a compile request, are those that it is written with, and only values within
    the limits of readers are accepted.  So no two byte strings are accepted as the same one. -/
theorem accepted_iff_encoded :
    (∀ (t : Text) (r : Request),
      Request.decode? t = some r ↔ r.payload.length ≤ maxEncodedText ∧ t = r.encode) ∧
    (∀ (t : Text) (r : Response),
      Response.decode? t = some r ↔ r.data.length ≤ maxEncodedText ∧ t = r.encode) ∧
    ∀ (t : Text) (r : CompileRequest),
      CompileRequest.decode? t = some r ↔ r.Fits ∧ t = r.encode :=
  ⟨fun _ _ => Request.decode?_eq_some, fun _ _ => Response.decode?_eq_some,
    fun _ _ => CompileRequest.decode?_eq_some⟩

end Rebuild
