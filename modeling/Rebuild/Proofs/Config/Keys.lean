/-
  What the record of a build is kept under.

  An analysis is used again if the fingerprint of the configuration and the identity of the roots
  are the recorded ones.  Both are digests of byte strings, and here it is said that these byte
  strings tell configurations and roots apart.

  * `Counted`: numbers of which a count of 32 bits tells one from another.  The texts that the
    options add to begin with a few bytes of their own, so for them these do not begin at zero;
  * `Encode.text_append_inj` and `Encode.flatMap_text_append_inj`: texts behind their lengths are
    told apart, whatever follows them;
  * `fingerprintInput_inj` and `Roots.split_identityInput`: what a fingerprint and an identity are
    made of can be read off.

  `keys_eq_iff` puts them together.
-/
import Rebuild.Config
import Rebuild.Proofs.Path.Normal

namespace Rebuild

open Rebuild.Path

/-! ## Counts -/

/-- A number that a count of 32 bits tells from the others of its kind: there are as many as a
    word has values. -/
structure Counted (least n : Nat) : Prop where
  le : least ≤ n
  lt : n < least + UInt32.size

theorem Counted.of_lt {n : Nat} (h : n < UInt32.size) : Counted 0 n := ⟨Nat.zero_le n, by omega⟩

namespace Encode

variable {least m n : Nat} {t u a b : Text}

theorem length_count (n : Nat) : (count n).length = 4 := length_leBytes 4 _

theorem count_inj (hm : Counted least m) (hn : Counted least n) (h : count m = count n) :
    m = n := by
  have hvalue := congrArg leValue h
  simp only [count, u32, leValue_leBytes, UInt32.toNat_ofNat'] at hvalue
  obtain ⟨hle, hlt⟩ := hm
  obtain ⟨hle', hlt'⟩ := hn
  unfold UInt32.size at *
  simp only [Nat.pow_eq] at hvalue
  omega

/-- **A text behind its length** is told from others, and so is what follows it. -/
theorem text_append_inj (ht : Counted least t.length) (hu : Counted least u.length)
    (h : text t ++ a = text u ++ b) : t = u ∧ a = b := by
  simp only [text, List.append_assoc] at h
  obtain ⟨hcount, hrest⟩ := List.append_inj h (by simp only [length_count])
  exact List.append_inj hrest (count_inj ht hu hcount)

/-- At the end a text may have any length. -/
theorem text_inj (h : text t = text u) : t = u :=
  (List.append_inj h (by simp only [length_count])).2

/-- As many texts behind their lengths. -/
theorem flatMap_text_append_inj {ts us : List Text} (hts : ∀ t ∈ ts, t.length < UInt32.size)
    (hus : ∀ u ∈ us, u.length < UInt32.size) (hlength : ts.length = us.length)
    (h : ts.flatMap text ++ a = us.flatMap text ++ b) : ts = us ∧ a = b := by
  induction ts generalizing us with
  | nil =>
    obtain rfl := List.length_eq_zero_iff.1 hlength.symm
    exact ⟨rfl, h⟩
  | cons t ts ih =>
    cases us with
    | nil => cases hlength
    | cons u us =>
      rw [List.forall_mem_cons] at hts hus
      simp only [List.flatMap_cons, List.append_assoc] at h
      obtain ⟨heq, h⟩ := text_append_inj (.of_lt hts.1) (.of_lt hus.1) h
      obtain ⟨heqs, h⟩ := ih hts.2 hus.2 (by simpa using hlength) h
      exact ⟨by rw [heq, heqs], h⟩

end Encode

/-! ## Fingerprints -/

/-- A configuration whose texts have lengths that are told apart.  Nothing follows the extension,
    so that may have any length. -/
structure Config.Countable (c : Config) : Prop where
  toolchain : c.toolchain.length < UInt32.size
  options : c.command.length < UInt32.size
  option : ∀ t ∈ c.command, t.length < UInt32.size
  destination : c.destination.length < UInt32.size

/-- The label in front of the destination makes up for what it adds to the length. -/
theorem Config.Countable.counted_destination {c : Config} (h : c.Countable) :
    Counted 5 (("dest=" : Text) ++ normalForm c.destination).length := by
  have hle := length_normalForm_le c.destination
  have hlt := h.destination
  have hlabel : List.length ("dest=" : Text) = 5 := rfl
  constructor <;> rw [List.length_append, hlabel] <;> omega

theorem Config.Countable.counted_options {c : Config} (h : c.Countable) :
    Counted 2 c.fingerprintOptions.length := by
  have hlt := h.options
  have hlength : c.fingerprintOptions.length = c.command.length + 2 := List.length_append
  constructor <;> rw [hlength] <;> omega

theorem fingerprintInput_inj {c d : Config} (hc : c.Countable) (hd : d.Countable)
    (h : fingerprintInput c.toolchain c.fingerprintOptions =
      fingerprintInput d.toolchain d.fingerprintOptions) :
    c.toolchain = d.toolchain ∧ c.command = d.command ∧
      normalForm c.destination = normalForm d.destination ∧
      c.roots.bareExtension = d.roots.bareExtension := by
  obtain ⟨htoolchain, h⟩ := Encode.text_append_inj (.of_lt hc.toolchain) (.of_lt hd.toolchain) h
  obtain ⟨hcount, h⟩ := List.append_inj h (by simp only [Encode.length_count])
  have hlength := Encode.count_inj hc.counted_options hd.counted_options hcount
  simp only [Config.fingerprintOptions, List.length_append, List.length_cons, List.length_nil]
    at hlength
  simp only [Config.fingerprintOptions, List.flatMap_append, List.flatMap_cons, List.flatMap_nil,
    List.append_nil] at h
  obtain ⟨hcommand, h⟩ := Encode.flatMap_text_append_inj hc.option hd.option (by omega) h
  obtain ⟨hdestination, h⟩ :=
    Encode.text_append_inj hc.counted_destination hd.counted_destination h
  exact ⟨htoolchain, hcommand, List.append_cancel_left hdestination,
    List.append_cancel_left (Encode.text_inj h)⟩

/-! ## Identities of roots -/

namespace Roots

/-- No zero byte is in the paths and in the extension. -/
structure ZeroFree (r : Roots) : Prop where
  root : ∀ t ∈ r.roots, 0 ∉ t
  extension : 0 ∉ r.extension

/-- The byte strings that the identity is continued over, in this order. -/
def identityParts (r : Roots) : List Text :=
  r.roots.flatMap (fun root => [normalize r.current root, [0]]) ++ [r.bareExtension]

variable {r s : Roots}

theorem identity_eq (r : Roots) : r.identity = r.identityParts.foldl Checksum.extend 0 := by
  rw [identity, identityParts, List.foldl_append, List.foldl_flatMap]
  rfl

theorem identityInput_eq (r : Roots) : r.identityInput = r.identityParts.flatten := by
  rw [identityInput, identityParts, ← List.flatMap_id, List.flatMap_append, List.flatMap_assoc]
  simp

theorem zero_notMem_bareExtension (h : r.ZeroFree) : 0 ∉ r.bareExtension := by
  unfold bareExtension
  cases hafter : Text.after? "." r.extension with
  | none => exact h.extension
  | some rest =>
    have hext := h.extension
    rw [Text.after?_eq_some_iff.1 hafter] at hext
    exact fun hz => hext (List.mem_append_right _ hz)

theorem zero_notMem_normalize (h : r.ZeroFree) {t : Text} (ht : t ∈ r.roots) :
    0 ∉ normalize r.current t := by
  intro hz
  rcases mem_normalize hz with hslash | hroot | ⟨n, hn, hname⟩
  · exact absurd hslash (by decide)
  · exact h.root t ht hroot
  · exact (r.current.isName n hn).zero hname

theorem identityInput_eq_map (r : Roots) :
    r.identityInput =
      (r.roots.map (normalize r.current)).flatMap (· ++ [0]) ++ r.bareExtension := by
  rw [List.flatMap_map]
  rfl

/-- **Roots and extension can be read off** what the identity is the checksum of. -/
theorem split_identityInput (h : r.ZeroFree) :
    Text.split 0 r.identityInput = r.roots.map (normalize r.current) ++ [r.bareExtension] := by
  rw [identityInput_eq_map]
  refine Text.split_flatMap_concat (List.forall_mem_map.2 fun t => zero_notMem_normalize h) ?_
  exact zero_notMem_bareExtension h

end Roots

/-! ## Keys -/

/-- **What keys a record tells configurations and roots apart.**  The fingerprint is the digest of
    a byte string that two configurations share exactly if their toolchains, their commands, their
    normalized destinations and their extensions are equal; the identity is the checksum continued
    over byte strings that two sets of roots share, put together, exactly if their normalized roots
    are the same in the same order and their extensions are equal. -/
theorem keys_eq_iff :
    ((∀ c : Config, c.fingerprint =
        Digest.sha256Hex (fingerprintInput c.toolchain c.fingerprintOptions)) ∧
      ∀ c d : Config, c.Countable → d.Countable →
        (fingerprintInput c.toolchain c.fingerprintOptions =
            fingerprintInput d.toolchain d.fingerprintOptions ↔
          c.toolchain = d.toolchain ∧ c.command = d.command ∧
            normalForm c.destination = normalForm d.destination ∧
            c.roots.bareExtension = d.roots.bareExtension)) ∧
    (∀ r : Roots, r.identity = r.identityParts.foldl Checksum.extend 0 ∧
        r.identityInput = r.identityParts.flatten) ∧
      ∀ r s : Roots, r.ZeroFree → s.ZeroFree →
        (r.identityInput = s.identityInput ↔
          r.roots.map (normalize r.current) = s.roots.map (normalize s.current) ∧
            r.bareExtension = s.bareExtension) := by
  refine ⟨⟨fun c => rfl, fun c d hc hd => ⟨fingerprintInput_inj hc hd, ?_⟩⟩,
    fun r => ⟨r.identity_eq, r.identityInput_eq⟩, fun r s hr hs => ⟨fun h => ?_, ?_⟩⟩
  · rintro ⟨htoolchain, hcommand, hdestination, hextension⟩
    simp only [Config.fingerprintOptions, htoolchain, hcommand, hdestination, hextension]
  · have hsplit := congrArg (Text.split 0) h
    rw [Roots.split_identityInput hr, Roots.split_identityInput hs] at hsplit
    obtain ⟨hroots, hextension⟩ := List.append_inj' hsplit rfl
    exact ⟨hroots, List.singleton_inj.1 hextension⟩
  · rintro ⟨hroots, hextension⟩
    rw [Roots.identityInput_eq_map, Roots.identityInput_eq_map, hroots, hextension]

/-- A configuration with this command and this destination. -/
def commanded (command : List Text) (destination : Text) : Config :=
  { roots := ⟨["/p"], "l"⟩, destination, stateDir := "/state", toolchain := "lc", command }

/-- Where one option ends and the next begins matters, and so does the order of roots; how a
    destination is spelled does not. -/
theorem keys_eq_iff_boundaries :
    (commanded ["lc", "a b"] "/out").Countable ∧ (commanded ["lc", "a", "b"] "/out").Countable ∧
    fingerprintInput "lc" (commanded ["lc", "a b"] "/out").fingerprintOptions ≠
      fingerprintInput "lc" (commanded ["lc", "a", "b"] "/out").fingerprintOptions ∧
    fingerprintInput "lc" (commanded ["lc"] "/out").fingerprintOptions =
      fingerprintInput "lc" (commanded ["lc"] "/state/../out").fingerprintOptions ∧
    Roots.identityInput ⟨["/p", "/q"], "l"⟩ ≠ Roots.identityInput ⟨["/q", "/p"], "l"⟩ := by
  obtain ⟨⟨-, hfingerprint⟩, -, hidentity⟩ := keys_eq_iff
  have hone : (commanded ["lc", "a b"] "/out").Countable := by constructor <;> decide
  have htwo : (commanded ["lc", "a", "b"] "/out").Countable := by constructor <;> decide
  refine ⟨hone, htwo, fun h => ?_, ?_, fun h => ?_⟩
  · exact absurd ((hfingerprint _ _ hone htwo).1 h).2.1 (by decide)
  · refine (hfingerprint (commanded ["lc"] "/out") (commanded ["lc"] "/state/../out")
      ?_ ?_).2 ⟨rfl, rfl, by decide, rfl⟩ <;> constructor <;> decide
  · refine absurd ((hidentity _ _ ?_ ?_).1 h).1 (by decide) <;> constructor <;> decide

end Rebuild
