/-
  Reading never leaves the bytes, and does not go on once it has failed.

  * `Reader.Move` is all that a reader ever does: it takes bytes that are there, or it fails.  So it
    stays within its bytes and goes forward (`Moves.within`, `Moves.pos_le`), and a failed one
    stays where it is (`Moves.eq_of_failed`);
  * `Decoder.Honest`: a decoder makes moves alone, and has a value exactly if the reader is still
    good behind it, one lemma for each way to put decoders together;
  * `Kind.decodeEach_orderly`: what this means for any reads, one after the other;
  * `Field.reads` and `Kind.decodeEach_encode`: fields that fit are read back.

  `Kind.decodeEach_exact` has both sides.
-/
import Mathlib.Logic.Relation
import Rebuild.Encoding.Field
import Rebuild.Proofs.Encoding

namespace Rebuild

open Relation

/-! ## The moves of a reader -/

namespace Reader

/-- One move of a reader: it takes some of the bytes that are left, or it fails. -/
inductive Move : Reader → Reader → Prop
  | take {r : Reader} (n : Nat) (hok : r.ok = true) (hn : n ≤ r.remaining) :
      Move r { r with pos := r.pos + n, rest := r.rest.drop n }
  | fail (r : Reader) : Move r { r with ok := false }

/-- Any number of moves. -/
abbrev Moves : Reader → Reader → Prop := ReflTransGen Move

/-- The reader stands in the bytes `t`, and what it has left is what follows there. -/
structure Within (t : Text) (r : Reader) : Prop where
  pos_le : r.pos ≤ t.length
  rest_eq : r.rest = t.drop r.pos

variable {t : Text} {r s : Reader}

theorem within_start (t : Text) : Within t (start t) := ⟨Nat.zero_le _, rfl⟩

theorem Within.remaining_eq (h : Within t r) : r.remaining = t.length - r.pos := by
  rw [remaining, h.rest_eq, List.length_drop]

/-- As long as the length fits into a word, so does the difference to the position. -/
theorem Within.toNat_sub (h : Within t r) (hlt : t.length < UInt64.size) :
    (UInt64.ofNat t.length - UInt64.ofNat r.pos).toNat = r.remaining := by
  have hlength : (UInt64.ofNat t.length).toNat = t.length := UInt64.toNat_ofNat_of_lt' hlt
  have hpos : (UInt64.ofNat r.pos).toNat = r.pos :=
    UInt64.toNat_ofNat_of_lt' (Nat.lt_of_le_of_lt h.pos_le hlt)
  have hle : UInt64.ofNat r.pos ≤ UInt64.ofNat t.length := by
    rw [UInt64.le_iff_toNat_le, hlength, hpos]
    exact h.pos_le
  rw [UInt64.toNat_sub_of_le _ _ hle, hlength, hpos, h.remaining_eq]

theorem Move.within (h : Move r s) (hr : Within t r) : Within t s := by
  cases h with
  | take n _ hn =>
    rw [hr.remaining_eq] at hn
    have hle := hr.pos_le
    refine ⟨?_, ?_⟩
    · show r.pos + n ≤ t.length
      omega
    · show r.rest.drop n = t.drop (r.pos + n)
      rw [hr.rest_eq, List.drop_drop]
  | fail => exact ⟨hr.pos_le, hr.rest_eq⟩

theorem Move.pos_le (h : Move r s) : r.pos ≤ s.pos := by
  cases h with
  | take n => exact Nat.le_add_right _ n
  | fail => exact Nat.le_refl _

theorem Move.eq_of_failed (h : Move r s) (hr : r.ok = false) : s = r := by
  cases h with
  | take _ hok => exact absurd hok (by simp [hr])
  | fail => rw [← hr]

/-- **No move leads out of the bytes.** -/
theorem Moves.within (h : Moves r s) (hr : Within t r) : Within t s := by
  induction h with
  | refl => exact hr
  | tail _ hmove ih => exact hmove.within ih

theorem Moves.pos_le (h : Moves r s) : r.pos ≤ s.pos := by
  induction h with
  | refl => exact Nat.le_refl _
  | tail _ hmove ih => exact Nat.le_trans ih hmove.pos_le

/-- **A failed reader stays as it is.** -/
theorem Moves.eq_of_failed (h : Moves r s) (hr : r.ok = false) : s = r := by
  induction h with
  | refl => rfl
  | tail _ hmove ih =>
    subst ih
    exact hmove.eq_of_failed hr

end Reader

/-! ## Decoders make moves alone -/

namespace Decoder

variable {α β : Type} {d : Decoder α} {f : α → Decoder β}

theorem bind_apply (d : Decoder α) (f : α → Decoder β) (r : Reader) :
    (d >>= f) r = match d r with
      | (some a, r') => f a r'
      | (none, r') => (none, r') := rfl

/-- A decoder makes moves alone.  On a good reader it has a value exactly if the reader is still
    good behind it. -/
structure Honest (d : Decoder α) : Prop where
  moves : ∀ r, Reader.Moves r (d r).2
  isSome_eq : ∀ r, r.ok = true → (d r).1.isSome = (d r).2.ok

namespace Honest

theorem pure (a : α) : Honest (Pure.pure a : Decoder α) := ⟨fun _ => .refl, fun _ hok => hok.symm⟩

theorem bind (hd : Honest d) (hf : ∀ a, Honest (f a)) : Honest (d >>= f) := by
  constructor
  case moves =>
    intro r
    have hr := hd.moves r
    rw [bind_apply]
    rcases hdr : d r with ⟨_ | a, r'⟩ <;> rw [hdr] at hr
    · exact hr
    · exact hr.trans ((hf a).moves r')
  case isSome_eq =>
    intro r hok
    have hr := hd.isSome_eq r hok
    rw [bind_apply]
    rcases hdr : d r with ⟨_ | a, r'⟩ <;> rw [hdr] at hr
    · exact hr
    · exact (hf a).isSome_eq r' hr.symm

/-- The last part. -/
theorem map (hd : Honest d) (g : α → β) : Honest (d >>= fun a => Pure.pure (g a)) :=
  hd.bind fun a => pure (g a)

theorem guard (p : Bool) : Honest (Decoder.guard p) := by
  cases p with
  | true => exact pure ()
  | false => exact ⟨fun r => .single (.fail r), fun _ _ => rfl⟩

theorem hasAtLeast (n : Nat) : Honest (Decoder.hasAtLeast n) :=
  ⟨fun _ => .refl, fun _ hok => hok.symm⟩

theorem take (n : Nat) : Honest (Decoder.take n) := by
  constructor
  case moves =>
    intro r
    unfold Decoder.take
    split
    · next h =>
      rw [Bool.and_eq_true, Text.hasAtLeast_iff] at h
      exact .single (.take n h.1 h.2)
    · exact .single (.fail r)
  case isSome_eq =>
    intro r hok
    unfold Decoder.take
    split
    · exact hok.symm
    · rfl

/-! ### Numbers, texts and lists -/

theorem word (width : Nat) : Honest (Decoder.word width) := (take width).map leValue

theorem u8 : Honest Decoder.u8 := (word 1).map UInt8.ofNat

theorem u16 : Honest Decoder.u16 := (word 2).map UInt16.ofNat

theorem u32 : Honest Decoder.u32 := (word 4).map UInt32.ofNat

theorem u64 : Honest Decoder.u64 := (word 8).map UInt64.ofNat

theorem i64 : Honest Decoder.i64 := u64.map UInt64.toInt64

theorem bool : Honest Decoder.bool := u8.bind fun _ => (guard _).bind fun _ => pure _

theorem text : Honest Decoder.text := u32.bind fun _ => (guard _).bind fun _ => take _

theorem times {item : Decoder α} (h : Honest item) (n : Nat) : Honest (Decoder.times item n) := by
  induction n with
  | zero => exact pure []
  | succ n ih => exact h.bind fun _ => ih.bind fun _ => pure _

theorem list {item : Decoder α} (least : Nat) (h : Honest item) :
    Honest (Decoder.list least item) :=
  u32.bind fun n => (hasAtLeast _).bind fun _ => (guard _).bind fun _ => h.times n.toNat

theorem texts : Honest Decoder.texts := text.list 4

theorem textSet : Honest Decoder.textSet := texts.map TextSet.ofTexts

end Honest

/-- A decoder that begins with a read has no value on a failed reader. -/
def Sticky (d : Decoder α) : Prop := ∀ r, r.ok = false → (d r).1 = none

namespace Sticky

theorem take (n : Nat) : Sticky (Decoder.take n) := by
  intro r hr
  rw [Decoder.take, hr, Bool.false_and, if_neg Bool.false_ne_true]

theorem bind (hd : Sticky d) : Sticky (d >>= f) := by
  intro r hr
  have hnone := hd r hr
  rw [bind_apply]
  rcases hdr : d r with ⟨_ | a, r'⟩
  · rfl
  · rw [hdr] at hnone
    cases hnone

theorem u8 : Sticky Decoder.u8 := (take 1).bind.bind

theorem u16 : Sticky Decoder.u16 := (take 2).bind.bind

theorem u32 : Sticky Decoder.u32 := (take 4).bind.bind

theorem u64 : Sticky Decoder.u64 := (take 8).bind.bind

end Sticky

end Decoder

/-! ## Reads of any kinds -/

namespace Kind

theorem honest (k : Kind) : k.decode.Honest := by
  cases k with
  | u8 => exact Decoder.Honest.u8.map Field.u8
  | u16 => exact Decoder.Honest.u16.map Field.u16
  | u32 => exact Decoder.Honest.u32.map Field.u32
  | u64 => exact Decoder.Honest.u64.map Field.u64
  | i64 => exact Decoder.Honest.i64.map Field.i64
  | bool => exact Decoder.Honest.bool.map Field.bool
  | text => exact Decoder.Honest.text.map Field.text
  | texts => exact Decoder.Honest.texts.map Field.texts
  | textSet => exact Decoder.Honest.textSet.map Field.textSet

theorem sticky (k : Kind) : k.decode.Sticky := by
  cases k with
  | u8 => exact Decoder.Sticky.u8.bind
  | u16 => exact Decoder.Sticky.u16.bind
  | u32 => exact Decoder.Sticky.u32.bind
  | u64 => exact Decoder.Sticky.u64.bind
  | i64 => exact Decoder.Sticky.u64.bind.bind
  | bool => exact Decoder.Sticky.u8.bind.bind
  | text | texts => exact Decoder.Sticky.u32.bind.bind
  | textSet => exact Decoder.Sticky.u32.bind.bind.bind

variable {k : Kind} {ks : List Kind} {r : Reader} {t : Text}

theorem decode_of_failed (hr : r.ok = false) : k.decode r = (none, r) :=
  Prod.ext (k.sticky r hr) ((k.honest.moves r).eq_of_failed hr)

/-- **A read has a value exactly if the reader is good behind it.** -/
theorem isSome_decode (k : Kind) (r : Reader) : (k.decode r).1.isSome = (k.decode r).2.ok := by
  cases hr : r.ok with
  | true => exact k.honest.isSome_eq r hr
  | false =>
    rw [decode_of_failed hr]
    exact hr.symm

theorem decodeEach_of_failed (hr : r.ok = false) : ∀ x ∈ decodeEach ks r, x = (none, r) := by
  induction ks with
  | nil => exact List.forall_mem_nil _
  | cons k ks ih =>
    rw [decodeEach, decode_of_failed hr]
    exact List.forall_mem_cons.2 ⟨rfl, ih⟩

/-- Reads from the bytes `t`, each with what it found and the reader behind it. -/
structure Orderly (t : Text) (reads : List (Option Field × Reader)) : Prop where
  /-- The reads make moves alone, from the beginning of the bytes and from one to the next. -/
  moves : (Reader.start t :: reads.map Prod.snd).Pairwise Reader.Moves
  /-- Wherever moves lead, in the middle of a read as well, the reader stands in the bytes. -/
  within : ∀ s, Reader.Moves (Reader.start t) s → Reader.Within t s
  /-- So what is left is never negative, also when it is counted in words. -/
  toNat_sub : t.length < UInt64.size → ∀ s, Reader.Moves (Reader.start t) s →
    (UInt64.ofNat t.length - UInt64.ofNat s.pos).toNat = s.remaining
  /-- The position does not go back. -/
  forward : (reads.map (·.2.pos)).Pairwise (· ≤ ·)
  /-- A read has a value exactly if the reader is good behind it. -/
  isSome_eq : ∀ x ∈ reads, x.1.isSome = x.2.ok
  /-- Behind a read without a value no read has one, and the reader stays as it is. -/
  sticky : reads.Pairwise fun x y => x.1 = none → y = (none, x.2)
  /-- A reader that has failed is not at the end. -/
  atEnd_eq : ∀ x ∈ reads, x.1 = none → x.2.atEnd = false

theorem isChain_decodeEach (ks : List Kind) (r : Reader) :
    (r :: (decodeEach ks r).map Prod.snd).IsChain Reader.Moves := by
  induction ks generalizing r with
  | nil => exact .singleton r
  | cons k ks ih => exact .cons_cons (k.honest.moves r) (ih _)

theorem isSome_decodeEach (ks : List Kind) (r : Reader) :
    ∀ x ∈ decodeEach ks r, x.1.isSome = x.2.ok := by
  induction ks generalizing r with
  | nil => exact List.forall_mem_nil _
  | cons k ks ih => exact List.forall_mem_cons.2 ⟨k.isSome_decode r, ih _⟩

theorem sticky_decodeEach (ks : List Kind) (r : Reader) :
    (decodeEach ks r).Pairwise fun x y => x.1 = none → y = (none, x.2) := by
  induction ks generalizing r with
  | nil => exact .nil
  | cons k ks ih =>
    refine .cons (fun y hy hnone => ?_) (ih _)
    have hfailed : (k.decode r).2.ok = false := by
      rw [← isSome_decode, hnone, Option.isSome_none]
    exact decodeEach_of_failed hfailed y hy

/-- **Reads of any kinds are orderly**, whatever the bytes are. -/
theorem decodeEach_orderly (t : Text) (ks : List Kind) :
    Orderly t (decodeEach ks (Reader.start t)) := by
  have hwithin (s) (h : Reader.Moves (Reader.start t) s) : Reader.Within t s :=
    h.within (Reader.within_start t)
  have hmoves := (isChain_decodeEach ks (Reader.start t)).pairwise
  have hsome := isSome_decodeEach ks (Reader.start t)
  constructor
  case moves => exact hmoves
  case within => exact hwithin
  case toNat_sub => exact fun hlt s h => (hwithin s h).toNat_sub hlt
  case forward =>
    have hpairs := (List.pairwise_cons.1 hmoves).2
    exact List.pairwise_map.2 ((List.pairwise_map.1 hpairs).imp Reader.Moves.pos_le)
  case isSome_eq => exact hsome
  case sticky => exact sticky_decodeEach ks _
  case atEnd_eq =>
    intro x hx hnone
    rw [Reader.atEnd, ← hsome x hx, hnone, Option.isSome_none, Bool.false_and]

end Kind

/-! ## Fields are read back -/

namespace Field

/-- The field is within the limits of a reader. -/
def Fits : Field → Prop
  | u8 _ | u16 _ | u32 _ | u64 _ | i64 _ | bool _ => True
  | text v => v.length ≤ maxEncodedText
  | texts v => v.length < UInt32.size ∧ ∀ t ∈ v, t.length ≤ maxEncodedText
  | textSet v => v.size < UInt32.size ∧ ∀ t ∈ v, t.length ≤ maxEncodedText

/-- **A field that fits is read back** by its kind. -/
theorem reads {f : Field} (h : f.Fits) : Decoder.Reads f.kind.decode f.encode f := by
  cases f with
  | u8 v => exact (Decoder.Reads.u8 v).map Field.u8
  | u16 v => exact (Decoder.Reads.u16 v).map Field.u16
  | u32 v => exact (Decoder.Reads.u32 v).map Field.u32
  | u64 v => exact (Decoder.Reads.u64 v).map Field.u64
  | i64 v => exact (Decoder.Reads.i64 v).map Field.i64
  | bool v => exact (Decoder.Reads.bool v).map Field.bool
  | text v => exact (Decoder.Reads.text h).map Field.text
  | texts v => exact (Decoder.Reads.texts h.1 h.2).map Field.texts
  | textSet v => exact (Decoder.Reads.textSet h.1 h.2).map Field.textSet

end Field

namespace Kind

/-- Fields that fit are read back wherever their bytes stand, and the reader stops behind them. -/
theorem decodeEach_encode {fs : List Field} (h : ∀ f ∈ fs, f.Fits) (pos : Nat) (more : Text) :
    let r : Reader := ⟨pos, fs.flatMap Field.encode ++ more, true⟩
    let reads := decodeEach (fs.map Field.kind) r
    reads.map Prod.fst = fs.map some ∧
      (reads.map Prod.snd).getLastD r = ⟨pos + (fs.flatMap Field.encode).length, more, true⟩ := by
  induction fs generalizing pos with
  | nil => exact ⟨rfl, rfl⟩
  | cons f fs ih =>
    obtain ⟨hf, hfs⟩ := List.forall_mem_cons.1 h
    obtain ⟨hvalues, hlast⟩ := ih hfs (pos + f.encode.length)
    dsimp only at hvalues hlast ⊢
    rw [List.flatMap_cons, List.append_assoc, List.map_cons, decodeEach, Field.reads hf]
    refine ⟨congrArg (some f :: ·) hvalues, ?_⟩
    rw [List.map_cons, List.getLastD_cons, hlast, List.length_append, Nat.add_assoc]

/-- **What reading does.**  From any bytes, reads of any kinds never leave the bytes nor go back,
    and say themselves whether they failed; behind one that failed none succeeds.  The bytes of
    fields that fit are read back by the kinds of the fields, and then the reader is at the end. -/
theorem decodeEach_exact :
    (∀ (t : Text) (ks : List Kind), Orderly t (decodeEach ks (Reader.start t))) ∧
      ∀ fs : List Field, (∀ f ∈ fs, f.Fits) →
        let r := Reader.start (fs.flatMap Field.encode)
        let reads := decodeEach (fs.map Field.kind) r
        reads.map Prod.fst = fs.map some ∧ ((reads.map Prod.snd).getLastD r).atEnd = true := by
  refine ⟨decodeEach_orderly, fun fs h => ?_⟩
  obtain ⟨hvalues, hlast⟩ := decodeEach_encode h 0 []
  rw [List.append_nil] at hvalues hlast
  refine ⟨hvalues, ?_⟩
  rw [Reader.start, hlast]
  rfl

/-- Fields of several kinds. -/
def mixedFields : List Field :=
  [.u16 7, .i64 (-1700000000123456789), .bool true, .texts ["alpha", "", "gamma"],
    .textSet (TextSet.ofTexts ["y", "x"])]

theorem fits_mixedFields : ∀ f ∈ mixedFields, f.Fits := by
  simp only [mixedFields, List.forall_mem_cons, Field.Fits, mem_ofTexts, List.not_mem_nil,
    false_implies, implies_true, true_and, and_true]
  decide +kernel

/-- The bytes of a text that end inside of it. -/
def cutText : Text := (Encode.text "truncated").take 6

theorem decodeEach_exact_mixed :
    (∀ f ∈ mixedFields, f.Fits) ∧
      (decodeEach (mixedFields.map Field.kind)
        (Reader.start (mixedFields.flatMap Field.encode))).map Prod.fst = mixedFields.map some ∧
      (decodeEach [.text, .u8] (Reader.start cutText)).map Prod.snd =
        [⟨4, "tr", false⟩, ⟨4, "tr", false⟩] ∧
      Orderly cutText (decodeEach [.text, .u8] (Reader.start cutText)) := by
  obtain ⟨horderly, hreads⟩ := decodeEach_exact
  obtain ⟨hvalues, -⟩ := hreads mixedFields fits_mixedFields
  exact ⟨fits_mixedFields, hvalues, by decide +kernel, horderly cutText [.text, .u8]⟩

end Kind

end Rebuild
