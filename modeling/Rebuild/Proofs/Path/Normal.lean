/-
  The normal form of paths.

  * `Path.Descends`: a name that leads down, rather than nowhere or out again;
  * `Path.namesOf_ofNames`: a path of such names is as it is;
  * `Path.descends_of_mem_namesOf`: normalizing leaves no other names;
  * `Path.join_ofNames`: names behind a path are names of the path they are put behind;
  * `Path.mem_normalize` and `Path.length_normalForm_le`: nothing but slashes is new in a normal
    form, and it is not longer than the path.
-/
import Rebuild.Proofs.Path

namespace Rebuild.Path

/-! ## Names that lead down -/

/-- A name that leads down: it is there, stays neither where it is nor leads out, and does not
    cut the path. -/
structure Descends (n : Text) : Prop where
  ne_nil : n ≠ []
  ne_here : n ≠ "."
  ne_up : n ≠ ".."
  slash : slash ∉ n

variable {d : CurrentDirectory} {t n front rest : Text} {names below : List Text}

theorem IsName.descends (h : IsName n) : Descends n := ⟨h.ne_nil, h.ne_here, h.ne_up, h.slash⟩

theorem step_of_descends (p : Path) (h : Descends n) :
    step p n = { p with names := p.names ++ [n], trailing := false } := by
  rw [step, if_neg (by simp [h.ne_nil, h.ne_here]), if_neg (by simp [h.ne_up]),
    if_neg (by simp [h.ne_up])]

theorem foldl_step_of_descends (p : Path) (h : ∀ n ∈ names, Descends n) (hp : p.trailing = false) :
    names.foldl step p = { p with names := p.names ++ names } := by
  induction names generalizing p with
  | nil => simp
  | cons n names ih =>
    obtain ⟨hn, hnames⟩ := List.forall_mem_cons.1 h
    rw [List.foldl_cons, step_of_descends p hn, ih _ hnames rfl, List.append_assoc, hp]
    rfl

/-- From the root directory on a part leads down, or to a place on the way. -/
theorem descends_step {p : Path} (ha : p.absolute = true) (hp : ∀ n ∈ p.names, Descends n)
    (hn : slash ∉ n) :
    (step p n).absolute = true ∧ ∀ m ∈ (step p n).names, Descends m := by
  unfold step
  split_ifs with hstay hup hroot
  · exact ⟨ha, hp⟩
  · exact ⟨ha, fun m hm => hp m (List.dropLast_subset _ hm)⟩
  · exact ⟨ha, hp⟩
  · refine ⟨ha, fun m hm => ?_⟩
    rcases List.mem_append.1 hm with hm | hm
    · exact hp m hm
    · rw [not_or] at hstay
      rw [List.mem_singleton.1 hm]
      exact ⟨hstay.1, hstay.2, fun he => hroot ⟨he, ha⟩, hn⟩

theorem descends_foldl_step {p : Path} (ha : p.absolute = true) (hp : ∀ n ∈ p.names, Descends n)
    {parts : List Text} (h : ∀ n ∈ parts, slash ∉ n) :
    ∀ m ∈ (parts.foldl step p).names, Descends m := by
  induction parts generalizing p with
  | nil => exact hp
  | cons n parts ih =>
    obtain ⟨hn, hparts⟩ := List.forall_mem_cons.1 h
    obtain ⟨ha, hp⟩ := descends_step ha hp hn
    exact ih ha hp hparts

/-! ## Normal forms -/

/-- **Only names that lead down are left.** -/
theorem descends_of_mem_namesOf (h : n ∈ namesOf d t) : Descends n := by
  have hstart : ∀ m ∈ (if isAbsolute t ∨ t = [] then [] else d.names), Descends m := by
    intro m hm
    split_ifs at hm
    · cases hm
    · exact (d.isName m hm).descends
  exact descends_foldl_step rfl hstart (fun _ => Text.notMem_of_mem_split) n h

/-- **A path of names that lead down** is as it is. -/
theorem namesOf_ofNames (h : ∀ n ∈ names, Descends n) : namesOf d (ofNames names) = names := by
  have hsplit (t : Text) : Text.split slash (slash :: t) = [] :: Text.split slash t :=
    Text.split_append [] t
  rw [namesOf, ofNames, hsplit]
  change ((Text.split slash (Text.join [slash] names)).foldl step ⟨true, [], false⟩).names = names
  by_cases hne : names = []
  · rw [hne]
    rfl
  · rw [Text.split_join hne fun n hn => (h n hn).slash, foldl_step_of_descends _ h rfl]
    rfl

theorem normalize_eq (h : t ≠ []) : normalize d t = ofNames (namesOf d t) := if_neg h

theorem normalize_ofNames (h : ∀ n ∈ names, Descends n) :
    normalize d (ofNames names) = ofNames names := by
  rw [normalize_eq (ofNames_ne_nil names), namesOf_ofNames h]

theorem getLast?_ofNames (h : ∀ n ∈ names, Descends n) (hne : names ≠ []) :
    (ofNames names).getLast? ≠ some slash := by
  obtain rfl | ⟨front, n, rfl⟩ := List.eq_nil_or_concat names
  · exact absurd rfl hne
  rw [List.concat_eq_append] at h ⊢
  have hn : Descends n := h n (by simp)
  obtain ⟨b, hb⟩ := Option.ne_none_iff_exists'.1 (List.getLast?_eq_none_iff.not.2 hn.ne_nil)
  obtain ⟨before, hbefore⟩ := exists_ofNames_concat front n
  rw [hbefore, List.getLast?_append, List.getLast?_cons, hb]
  intro he
  exact hn.slash (List.mem_of_getLast? (hb.trans he))

/-- Behind a slash in a path of names there are names. -/
theorem exists_names_behind (h : ∀ n ∈ names, Descends n)
    (hpath : ofNames names = front ++ slash :: rest) (hrest : rest ≠ []) :
    ∃ below, below ≠ [] ∧ (∀ n ∈ below, Descends n) ∧ rest = Text.join [slash] below := by
  refine ⟨Text.split slash rest, Text.split_ne_nil _ _, ?_, (Text.join_split _ _).symm⟩
  by_cases hne : names = []
  · rw [hne] at hpath
    have hlength := congrArg List.length hpath
    have hpos := List.length_pos_iff.2 hrest
    simp [ofNames, Text.join] at hlength
    omega
  · have hsplit := congrArg (Text.split slash) hpath
    rw [split_ofNames hne fun n hn => (h n hn).slash, Text.split_append] at hsplit
    obtain ⟨part, parts, hparts⟩ := List.exists_cons_of_ne_nil (Text.split_ne_nil slash front)
    rw [hparts] at hsplit
    intro n hn
    have hnames : names = parts ++ Text.split slash rest := (List.cons.inj hsplit).2
    exact h n (hnames ▸ List.mem_append_right _ hn)

/-- Names behind a path. -/
theorem join_ofNames (h : ∀ n ∈ names, Descends n) (hne : below ≠ [])
    (hbelow : ∀ n ∈ below, Descends n) :
    join (ofNames names) (Text.join [slash] below) = ofNames (names ++ below) := by
  have hrelative : isAbsolute (Text.join [slash] below) = false := by
    obtain ⟨n, rest, rfl⟩ := List.exists_cons_of_ne_nil hne
    have hn := hbelow n List.mem_cons_self
    obtain ⟨b, n, rfl⟩ := List.exists_cons_of_ne_nil hn.ne_nil
    have hb : b ≠ slash := fun he => hn.slash (he ▸ List.mem_cons_self)
    cases rest <;> simpa [isAbsolute, Text.join] using hb
  rw [join, if_neg (by simp [hrelative, ofNames_ne_nil])]
  by_cases hnames : names = []
  · rw [hnames]
    rfl
  · rw [if_neg (getLast?_ofNames h hnames), ofNames, ofNames, Text.join_append hnames hne,
      List.cons_append]

/-! ## What a normal form is made of -/

theorem mem_of_mem_foldl_step {parts : List Text} {p : Path} (h : n ∈ (parts.foldl step p).names) :
    n ∈ p.names ∨ n ∈ parts := by
  induction parts generalizing p with
  | nil => exact Or.inl h
  | cons part parts ih =>
    rcases ih h with h | h
    · unfold step at h
      split_ifs at h
      · exact Or.inl h
      · exact Or.inl (List.dropLast_subset _ h)
      · exact Or.inl h
      · rcases List.mem_append.1 h with h | h
        · exact Or.inl h
        · exact Or.inr (List.mem_cons.2 (Or.inl (List.mem_singleton.1 h)))
    · exact Or.inr (List.mem_cons_of_mem part h)

/-- No other bytes come in but slashes, and those of the names of the current directory. -/
theorem mem_normalize {b : UInt8} (h : b ∈ normalize d t) :
    b = slash ∨ b ∈ t ∨ ∃ n ∈ d.names, b ∈ n := by
  by_cases ht : t = []
  · rw [ht] at h
    cases h
  · rw [normalize_eq ht, ofNames] at h
    rcases List.mem_cons.1 h with rfl | h
    · exact Or.inl rfl
    rcases Text.mem_join h with h | ⟨n, hn, hb⟩
    · exact Or.inl (List.mem_singleton.1 h)
    · rcases mem_of_mem_foldl_step hn with hn | hn
      · split_ifs at hn
        · cases hn
        · exact Or.inr (Or.inr ⟨n, hn, hb⟩)
      · exact Or.inr (Or.inl (Text.mem_of_mem_split hn hb))

/-! ## How long a normal form is -/

/-- The bytes of some names, each with a slash. -/
def extent : List Text → Nat
  | [] => 0
  | n :: names => n.length + 1 + extent names

@[simp] theorem extent_append (names : List Text) (n : Text) :
    extent (names ++ [n]) = extent names + (n.length + 1) := by
  induction names with
  | nil => exact Nat.add_comm _ _
  | cons m names ih => rw [List.cons_append, extent, ih, extent, Nat.add_assoc _ (extent names)]

theorem length_join_add_one (h : names ≠ []) :
    (Text.join [slash] names).length + 1 = extent names := by
  induction names with
  | nil => exact absurd rfl h
  | cons n names ih =>
    by_cases hn : names = []
    · simp [hn, Text.join, extent]
    · rw [Text.join_cons_of_ne_nil hn, List.length_append, List.length_cons, ih hn, extent]
      omega

theorem extent_dropLast_le (names : List Text) : extent names.dropLast ≤ extent names := by
  obtain rfl | ⟨front, n, rfl⟩ := List.eq_nil_or_concat names
  · exact Nat.le_refl _
  · simp

/-- A part makes a path longer by no more than itself and a slash. -/
theorem extent_step_le (p : Path) (part : Text) :
    extent (step p part).names + (step p part).trailing.toNat ≤
      extent p.names + p.trailing.toNat + (part.length + 1) := by
  have hflag (b : Bool) : b.toNat ≤ 1 := Bool.toNat_le b
  have hdrop := extent_dropLast_le p.names
  unfold step
  split_ifs
  · have := hflag (!p.names.isEmpty)
    simp only
    omega
  · have := hflag (!p.names.dropLast.isEmpty)
    simp only
    omega
  · omega
  · simp

theorem extent_foldl_step_le (parts : List Text) (p : Path) :
    extent (parts.foldl step p).names + (parts.foldl step p).trailing.toNat ≤
      extent p.names + p.trailing.toNat + extent parts := by
  induction parts generalizing p with
  | nil => exact Nat.le_refl _
  | cons part parts ih =>
    have hstep := extent_step_le p part
    have hrest := ih (step p part)
    rw [List.foldl_cons, extent]
    omega

@[simp] theorem absolute_foldl_step (parts : List Text) (p : Path) :
    (parts.foldl step p).absolute = p.absolute := by
  induction parts generalizing p with
  | nil => rfl
  | cons part parts ih =>
    rw [List.foldl_cons, ih, step]
    split_ifs <;> rfl

/-- Only behind a name there is a slash. -/
theorem trailing_foldl_step (parts : List Text) {p : Path}
    (hp : p.names = [] → p.trailing = false) :
    (parts.foldl step p).names = [] → (parts.foldl step p).trailing = false := by
  induction parts generalizing p with
  | nil => exact hp
  | cons part parts ih =>
    refine ih fun h => ?_
    unfold step at h ⊢
    split_ifs at h ⊢
    · simpa using h
    · simpa using h
    · exact hp h
    · rfl

theorem extent_split (t : Text) : extent (Text.split slash t) = t.length + 1 := by
  rw [← length_join_add_one (Text.split_ne_nil slash t), Text.join_split]

theorem extent_ofText_le (t : Text) :
    extent (ofText t).names + (ofText t).trailing.toNat + (isAbsolute t).toNat ≤ t.length + 1 := by
  unfold ofText
  cases ha : isAbsolute t with
  | true =>
    -- the part in front of the first slash is empty, and nothing comes of it
    obtain ⟨b, t, rfl⟩ := List.exists_cons_of_ne_nil (l := t) (by rintro rfl; cases ha)
    obtain rfl : b = slash := by simpa [isAbsolute] using ha
    have hsplit : Text.split slash (slash :: t) = [] :: Text.split slash t :=
      Text.split_append [] t
    have hle := extent_foldl_step_le (Text.split slash t) ⟨true, [], false⟩
    have hfirst : step ⟨true, [], false⟩ [] = ⟨true, [], false⟩ := rfl
    rw [extent_split] at hle
    rw [hsplit, List.foldl_cons, hfirst, List.length_cons]
    exact Nat.add_le_add_right (Nat.le_trans hle (by simp [extent])) 1
  | false =>
    have hle := extent_foldl_step_le (Text.split slash t) ⟨false, [], false⟩
    rw [extent_split] at hle
    exact Nat.le_trans hle (by simp [extent])

/-- The written form is a single byte, or has its names with their slashes. -/
theorem length_toText_le {p : Path} (hp : p.names = [] → p.trailing = false) :
    p.toText.length ≤ 1 ∨
      p.toText.length + 1 ≤ extent p.names + p.trailing.toNat + p.absolute.toNat := by
  have htrailing (q : Prop) [Decidable q] (hq : q → p.trailing = true) :
      List.length (if q then [slash] else []) ≤ p.trailing.toNat := by
    split_ifs with h
    · rw [hq h]
      exact Nat.le_refl 1
    · exact Nat.zero_le _
  unfold toText
  by_cases hnames : p.names = []
  · left
    rw [hnames, hp hnames]
    by_cases ha : p.absolute = true
    · rw [if_pos ha]
      exact Nat.le_refl 1
    · rw [if_neg ha]
      exact Nat.le_refl 1
  · right
    have hjoin := length_join_add_one hnames
    by_cases ha : p.absolute = true
    · have := htrailing (p.trailing = true) id
      rw [if_pos ha, ha, List.length_append, List.length_cons, Bool.toNat_true]
      omega
    · rw [if_neg ha, if_neg hnames, List.length_append]
      refine Nat.le_trans (Nat.add_le_add_right (Nat.add_le_add_left (htrailing _ And.left) _) 1) ?_
      omega

/-- **A normal form is not longer** than the path. -/
theorem length_normalForm_le (t : Text) : (normalForm t).length ≤ t.length := by
  unfold normalForm
  split_ifs with ht
  · exact Nat.zero_le _
  have hpos := List.length_pos_iff.2 ht
  have hle := extent_ofText_le t
  have habsolute : (ofText t).absolute = isAbsolute t := absolute_foldl_step _ _
  have hlength : (ofText t).toText.length ≤ 1 ∨ _ :=
    length_toText_le (trailing_foldl_step _ fun _ => rfl)
  rw [habsolute] at hlength
  omega

end Rebuild.Path
