/-
  Damaged records are never used.

  * `Record.decode_eq_ok`: the bytes that a record is read from are those of a record, all of its
    header but the minor version as it is written, around some body;
  * `Record.framed_append_inj`: no record is the beginning of another one;
  * `Record.Damage` lists what may have happened to a record: it was cut off, something was put
    behind it, a byte was changed, or a few neighbouring bytes of its body were.

  `Record.usable?_of_damage` puts them together.
-/
import Rebuild.Proofs.Analysis.Record
import Rebuild.Proofs.Checksum
import Rebuild.Proofs.Encoding.Canonical

namespace Rebuild.Record

/-! ## The form of a record -/

/-- What stands in front of the checksum. -/
def preamble (minor : UInt16) (identity : UInt32) (fingerprint : Text) : Text :=
  (Encode.u32 magic ++ Encode.u16 majorVersion) ++
    (Encode.u16 minor ++ (Encode.u32 identity ++ Encode.text fingerprint))

/-- The record around a body. -/
def framed (minor : UInt16) (identity : UInt32) (fingerprint body : Text) : Text :=
  preamble minor identity fingerprint ++ (Encode.u32 (Checksum.ofText body) ++
    (Encode.u64 (UInt64.ofNat body.length) ++ body))

theorem encodeHeader_append (identity : UInt32) (fingerprint body t : Text) :
    encodeHeader identity fingerprint body ++ t = preamble minorVersion identity fingerprint ++
      (Encode.u32 (Checksum.ofText body) ++ (Encode.u64 (UInt64.ofNat body.length) ++ t)) := by
  simp only [encodeHeader, preamble, List.append_assoc]

theorem encode_eq_framed (a : Analysis) (identity : UInt32) :
    encode a identity = framed minorVersion identity a.fingerprint (encodeBody a) :=
  encodeHeader_append identity a.fingerprint (encodeBody a) (encodeBody a)

theorem length_preamble (m m' : UInt16) (identity : UInt32) (fingerprint : Text) :
    (preamble m identity fingerprint).length = (preamble m' identity fingerprint).length := by
  simp [preamble, Encode.u16]

theorem length_u32 (v : UInt32) : (Encode.u32 v).length = 4 := length_leBytes 4 v.toNat

theorem length_u64 (v : UInt64) : (Encode.u64 v).length = 8 := length_leBytes 8 v.toNat

/-- What is behind the preamble is determined by it, whatever the minor version. -/
theorem preamble_append_inj {m m' : UInt16} {identity : UInt32} {fingerprint t t' : Text}
    (h : preamble m identity fingerprint ++ t = preamble m' identity fingerprint ++ t') : t = t' :=
  (List.append_inj h (length_preamble m m' identity fingerprint)).2

/-! ## What is read -/

open Decoder

theorem canonical_version :
    Canonical decodeVersion fun v => Encode.u16 v.1 ++ Encode.u16 v.2 := by
  intro r v r' h
  obtain ⟨major, r₁, hmajor, h⟩ := bind_eq_some h
  obtain ⟨minor, r₂, hminor, h⟩ := bind_eq_some h
  obtain ⟨rfl, rfl⟩ := pure_eq_some h
  rw [Canonical.u16 hmajor, Canonical.u16 hminor, List.append_assoc]

theorem canonical_header : Canonical decodeHeader fun h => Encode.u32 h.identity ++
    (Encode.text h.fingerprint ++ (Encode.u32 h.checksum ++ Encode.u64 h.length)) := by
  intro r v r' h
  obtain ⟨identity, r₁, hidentity, h⟩ := bind_eq_some h
  obtain ⟨fingerprint, r₂, hfingerprint, h⟩ := bind_eq_some h
  obtain ⟨checksum, r₃, hchecksum, h⟩ := bind_eq_some h
  obtain ⟨length, r₄, hlength, h⟩ := bind_eq_some h
  obtain ⟨rfl, rfl⟩ := pure_eq_some h
  rw [Canonical.u32 hidentity, (text_eq_some hfingerprint).2, Canonical.u32 hchecksum,
    Canonical.u64 hlength]
  simp only [List.append_assoc]

/-- **The bytes that a record is read from**, and what is made of them. -/
theorem decode_eq_ok {bytes expected : Text} {identity : UInt32} {a : Analysis}
    (h : decode bytes identity expected = .ok a) : ∃ minor body units snapshots,
      bytes = framed minor identity expected body ∧ body.length < UInt64.size ∧
        decodeBody.exactly body = some (units, snapshots) ∧ a = build expected units snapshots := by
  unfold decode at h
  split at h
  · cases h
  next m r₁ hmagic =>
  split at h
  · cases h
  next hm =>
  split at h
  · cases h
  next major minor r₂ hversion =>
  split at h
  · cases h
  next hmajor =>
  split at h
  · cases h
  next hd r₃ hheader =>
  split at h
  · cases h
  next hidentity =>
  split at h
  · cases h
  next hfingerprint =>
  split at h
  · cases h
  next hlength =>
  split at h
  · cases h
  next hchecksum =>
  split at h
  · cases h
  next units snapshots hbody =>
  rw [ne_eq, not_not] at hm hmajor hidentity hfingerprint hlength hchecksum
  have hlength : r₃.rest.length = hd.length.toNat := hlength.symm
  have hbytes : bytes = Encode.u32 m ++ r₁.rest := Canonical.u32 hmagic
  refine ⟨minor, r₃.rest, units, snapshots, ?_, hlength ▸ hd.length.toNat_lt, hbody,
    hfingerprint ▸ (Except.ok.inj h).symm⟩
  rw [hbytes, canonical_version hversion, canonical_header hheader]
  dsimp only
  rw [hm, hmajor, hidentity, hfingerprint, ← hchecksum, framed, preamble, hlength,
    UInt64.ofNat_toNat]
  simp only [List.append_assoc]

theorem usable?_load (bytes expected : Text) (identity : UInt32) :
    (load bytes identity expected).usable? = (decode bytes identity expected).toOption := by
  rw [load]
  cases decode bytes identity expected with
  | ok a => rfl
  | error d => cases d <;> rfl

/-- It takes the bytes of a record for something to be usable. -/
theorem usable?_eq_none {bytes expected : Text} {identity : UInt32}
    (h : ∀ minor body, body.length < UInt64.size → bytes ≠ framed minor identity expected body) :
    (load bytes identity expected).usable? = none := by
  rw [usable?_load]
  cases hd : decode bytes identity expected with
  | error d => rfl
  | ok a =>
    obtain ⟨minor, body, -, -, hbytes, hlt, -⟩ := decode_eq_ok hd
    exact absurd hbytes (h minor body hlt)

/-! ## Records side by side -/

/-- A count of bytes, from its own bytes. -/
theorem length_eq_of_u64 {m n : Nat} (hm : m < UInt64.size) (hn : n < UInt64.size)
    (h : Encode.u64 (UInt64.ofNat m) = Encode.u64 (UInt64.ofNat n)) : m = n := by
  have hvalue := congrArg leValue h
  simp only [Encode.u64, leValue_leBytes] at hvalue
  rwa [Nat.mod_eq_of_lt (UInt64.toNat_lt _), Nat.mod_eq_of_lt (UInt64.toNat_lt _),
    UInt64.toNat_ofNat_of_lt' hm, UInt64.toNat_ofNat_of_lt' hn] at hvalue

theorem eq_of_u32 {v w : UInt32} (h : Encode.u32 v = Encode.u32 w) : v = w := by
  have hvalue := congrArg leValue h
  simp only [Encode.u32, leValue_leBytes] at hvalue
  rw [Nat.mod_eq_of_lt v.toNat_lt, Nat.mod_eq_of_lt w.toNat_lt] at hvalue
  exact UInt32.toNat_inj.1 hvalue

variable {m m' : UInt16} {identity : UInt32} {fingerprint body body' t t' : Text}

/-- **No record is the beginning of another one.** -/
theorem framed_append_inj (hlt : body.length < UInt64.size) (hlt' : body'.length < UInt64.size)
    (h : framed m identity fingerprint body ++ t = framed m' identity fingerprint body' ++ t') :
    t = t' := by
  simp only [framed, List.append_assoc] at h
  have hrest := (List.append_inj (preamble_append_inj h) (by rw [length_u32, length_u32])).2
  obtain ⟨hcount, hrest⟩ := List.append_inj hrest (by rw [length_u64, length_u64])
  exact (List.append_inj hrest (length_eq_of_u64 hlt hlt' hcount)).2

/-! ## One byte changed -/

/-- One byte of a text was changed, and only that one. -/
def ByteChanged (i : Nat) (t t' : Text) : Prop :=
  ∃ old new, t[i]? = some old ∧ new ≠ old ∧ t' = t.set i new

namespace ByteChanged

variable {i : Nat} {x x' y y' : Text}

theorem irrefl : ¬ ByteChanged i t t := by
  rintro ⟨old, new, hold, hne, ht⟩
  have hlt := (List.getElem?_eq_some_iff.1 hold).1
  have hnew := congrArg (·[i]?) ht
  simp only [hold, List.getElem?_set_self hlt, Option.some.injEq] at hnew
  exact hne hnew.symm

theorem length_eq (h : ByteChanged i t t') : t'.length = t.length := by
  obtain ⟨old, new, -, -, rfl⟩ := h
  exact List.length_set

/-- The changed byte is in the one part or in the other. -/
theorem append (hx : x.length = x'.length) (h : ByteChanged i (x ++ y) (x' ++ y')) :
    i < x.length ∧ ByteChanged i x x' ∧ y = y' ∨
      x.length ≤ i ∧ x = x' ∧ ByteChanged (i - x.length) y y' := by
  obtain ⟨old, new, hold, hne, hset⟩ := h
  rw [List.set_append] at hset
  split at hset
  · next hi =>
    obtain ⟨hx', hy⟩ := List.append_inj hset (by rw [List.length_set, hx])
    rw [List.getElem?_append_left hi] at hold
    exact Or.inl ⟨hi, ⟨old, new, hold, hne, hx'⟩, hy.symm⟩
  · next hi =>
    have hi := Nat.not_lt.1 hi
    obtain ⟨hx', hy⟩ := List.append_inj hset hx.symm
    rw [List.getElem?_append_right hi] at hold
    exact Or.inr ⟨hi, hx'.symm, old, new, hold, hne, hy⟩

/-- A changed byte changes the checksum. -/
theorem checksum_ne (h : ByteChanged i t t') : Checksum.ofText t ≠ Checksum.ofText t' := by
  obtain ⟨old, new, hold, hne, rfl⟩ := h
  obtain ⟨hlt, rfl⟩ := List.getElem?_eq_some_iff.1 hold
  intro heq
  have ht : t.take i ++ [t[i]] ++ t.drop (i + 1) = t := by simp
  have hset : t.take i ++ [new] ++ t.drop (i + 1) = t.set i new := by
    rw [List.set_eq_take_append_cons_drop, if_pos hlt, List.append_assoc, List.singleton_append]
  have hwindow : Checksum.ofText (t.take i ++ [t[i]] ++ t.drop (i + 1)) =
      Checksum.ofText (t.take i ++ [new] ++ t.drop (i + 1)) := by rw [ht, hset, heq]
  have hbyte : [t[i]] = [new] := Checksum.ofText_window rfl (by simp) hwindow
  exact hne (List.cons.inj hbyte).1.symm

/-- In the preamble only the minor version may be another one. -/
theorem preamble (h : ByteChanged i (preamble m identity fingerprint)
    (preamble m' identity fingerprint)) : i = 6 ∨ i = 7 := by
  have hfront : (Encode.u32 magic ++ Encode.u16 majorVersion).length = 6 := rfl
  have hminor (m : UInt16) : (Encode.u16 m).length = 2 := length_leBytes 2 m.toNat
  rcases h.append rfl with ⟨-, h, -⟩ | ⟨hi, -, h⟩
  · exact absurd h irrefl
  rcases h.append (by rw [hminor, hminor]) with ⟨hlt, -, -⟩ | ⟨-, -, h⟩
  · rw [hfront] at hi hlt
    rw [hminor] at hlt
    omega
  · exact absurd h irrefl

/-- A record with one byte changed is no record, unless the byte is one of the minor version. -/
theorem framed (h : ByteChanged i (framed m identity fingerprint body)
    (framed m' identity fingerprint body')) : i = 6 ∨ i = 7 := by
  have hlength : body'.length = body.length := by
    have h := h.length_eq
    have hpreamble := length_preamble m m' identity fingerprint
    simp only [Record.framed, List.length_append, length_u32, length_u64] at h
    omega
  rcases h.append (length_preamble m m' identity fingerprint) with ⟨-, h, -⟩ | ⟨-, -, h⟩
  · exact preamble h
  rw [hlength] at h
  rcases h.append (by rw [length_u32, length_u32]) with ⟨-, h, hbody⟩ | ⟨-, hcrc, h⟩
  · -- the same body has the same checksum
    rw [(List.append_inj hbody rfl).2] at h
    exact absurd h irrefl
  rcases h.append rfl with ⟨-, h, -⟩ | ⟨-, -, h⟩
  · exact absurd h irrefl
  · exact absurd (eq_of_u32 hcrc) h.checksum_ne

end ByteChanged

/-! ## Damage -/

/-- What may have happened to the record of an analysis, and the bytes that are left. -/
inductive Damage (a : Analysis) (identity : UInt32) : Text → Prop
  | cut (n : Nat) (h : n < (encode a identity).length) :
      Damage a identity ((encode a identity).take n)
  | extended (more : Text) (h : more ≠ []) : Damage a identity (encode a identity ++ more)
  /-- Bytes 6 and 7 are the minor version. -/
  | byte (i : Nat) (t : Text) (h : ByteChanged i (encode a identity) t) (hlow : i ≠ 6)
      (hhigh : i ≠ 7) : Damage a identity t
  /-- Up to four neighbouring bytes of the body were replaced, by as many or not. -/
  | burst (front old new back : Text) (h : encodeBody a = front ++ old ++ back)
      (hold : old.length ≤ 4) (hnew : new ≠ old) :
      Damage a identity (encodeHeader identity a.fingerprint (encodeBody a) ++
        (front ++ new ++ back))

/-- **Damaged records are never used.**  Lengths are counted in 64 bits, which no memory that
    holds a body goes beyond. -/
theorem usable?_of_damage {a : Analysis} (hlt : (encodeBody a).length < UInt64.size)
    {t : Text} (h : Damage a identity t) : (load t identity a.fingerprint).usable? = none := by
  refine usable?_eq_none fun minor body hbody heq => ?_
  cases h with
  | cut n hn =>
    have happend := List.take_append_drop n (encode a identity)
    rw [heq] at happend
    conv at happend => rhs; rw [encode_eq_framed, ← List.append_nil (framed minorVersion _ _ _)]
    have hdrop := List.drop_eq_nil_iff.1 (framed_append_inj hbody hlt happend)
    omega
  | extended more hmore =>
    rw [encode_eq_framed, ← List.append_nil (framed minor _ _ _)] at heq
    exact hmore (framed_append_inj hlt hbody heq)
  | byte i t hchange hlow hhigh =>
    rw [heq, encode_eq_framed] at hchange
    rcases hchange.framed with hi | hi
    · exact hlow hi
    · exact hhigh hi
  | burst front old new back hsplit hold hnew =>
    rw [encodeHeader_append] at heq
    obtain ⟨hcrc, hrest⟩ := List.append_inj (preamble_append_inj heq)
      (by rw [length_u32, length_u32])
    obtain ⟨hcount, rfl⟩ := List.append_inj hrest (by rw [length_u64, length_u64])
    have hlength := length_eq_of_u64 hlt hbody hcount
    have hchecksum := eq_of_u32 hcrc
    rw [hsplit] at hlength hchecksum
    simp only [List.length_append] at hlength
    exact hnew (Checksum.ofText_window (by omega) hold hchecksum).symm

theorem usable?_of_damage_fiveUnits :
    let body := encodeBody fiveUnits
    let t := encodeHeader 7 "f" body ++ (body.take 3 ++ [7, 7, 7] ++ body.drop 6)
    body.length < UInt64.size ∧ Damage fiveUnits 7 t ∧ (load t 7 "f").usable? = none := by
  intro body t
  have hlt : body.length < UInt64.size := by decide +kernel
  have hsplit : body = body.take 3 ++ (body.drop 3).take 3 ++ body.drop 6 := by decide +kernel
  have hnew : [7, 7, 7] ≠ (body.drop 3).take 3 := by decide +kernel
  have h : Damage fiveUnits 7 t := .burst _ _ _ _ hsplit (by decide +kernel) hnew
  exact ⟨hlt, h, usable?_of_damage hlt h⟩

end Rebuild.Record
