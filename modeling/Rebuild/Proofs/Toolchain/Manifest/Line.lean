/-
  What a line of a manifest says.

  A line says nothing (`Silent`), or it is a directive, a unit and a value with blanks between
  them (`Says`).  Both are forms of the line that know nothing of how it is read.

  * `padded_iff` and `word_append` are the two ways in which blanks are taken away;
  * `Reading.line_of_silent`, `Reading.line_of_words` and `Reading.line_of_other` tell what reading
    a line comes to, for every form that it can have.
-/
import Mathlib.Data.List.DropRight
import Mathlib.Data.List.TakeWhile
import Mathlib.Tactic.Common
import Rebuild.Toolchain.Manifest

namespace Rebuild.Manifest

/-! ## Forms -/

/-- A word: not empty, and without blanks. -/
structure IsWord (t : Text) : Prop where
  ne_nil : t ≠ []
  not_blank : ∀ b ∈ t, isBlank b = false

/-- What stands between words. -/
structure IsGap (t : Text) : Prop where
  ne_nil : t ≠ []
  blank : ∀ b ∈ t, isBlank b = true

/-- A text without blanks at its ends. -/
structure IsTrimmed (t : Text) : Prop where
  head : ∀ b, t.head? = some b → isBlank b = false
  last : ∀ b, t.getLast? = some b → isEndBlank b = false

/-- A line is this content, with blanks in front of it and behind it. -/
structure Padded (line content : Text) : Prop where
  trimmed : IsTrimmed content
  padding : ∃ front back, (∀ b ∈ front, isBlank b = true) ∧ (∀ b ∈ back, isEndBlank b = true) ∧
    line = front ++ content ++ back

/-- A line that says nothing: it has no content, or is a comment. -/
def Silent (line : Text) : Prop :=
  ∃ content, Padded line content ∧ (content = [] ∨ content.head? = some (Text.byte '#'))

/-- A line with a directive, a unit and a value. -/
structure Says (line directive unit value : Text) : Prop where
  directive_word : IsWord directive
  unit_word : IsWord unit
  value_ne_nil : value ≠ []
  value_trimmed : IsTrimmed value
  spaced : ∃ gap gap', IsGap gap ∧ IsGap gap' ∧
    Padded line (directive ++ gap ++ (unit ++ gap' ++ value))

/-! ## Blanks at the ends -/

section
variable {p : UInt8 → Bool} {t u : Text}

theorem dropWhile_of_head (h : ∀ b, t.head? = some b → p b = false) : t.dropWhile p = t := by
  cases t with
  | nil => rfl
  | cons b t => exact List.dropWhile_cons_of_neg (by rw [h b rfl]; decide)

theorem dropEndWhile_of_last (h : ∀ b, t.getLast? = some b → p b = false) :
    Text.dropEndWhile p t = t := by
  rw [Text.dropEndWhile, dropWhile_of_head, List.reverse_reverse]
  rwa [List.head?_reverse]

theorem dropEndWhile_append (h : ∀ b ∈ u, p b = true) :
    Text.dropEndWhile p (t ++ u) = Text.dropEndWhile p t := by
  rw [Text.dropEndWhile, List.reverse_append, List.dropWhile_append_of_pos, Text.dropEndWhile]
  exact fun b hb => h b (List.mem_reverse.1 hb)

theorem isTrimmed_trim (t : Text) : IsTrimmed (trim t) where
  head b hb := by
    obtain ⟨more, hmore⟩ : trim t <+: t.dropWhile isBlank := List.rdropWhile_prefix _ _
    have hhead : (t.dropWhile isBlank).head? = some b := by
      rw [← hmore, List.head?_append, hb, Option.some_or]
    simpa [hhead] using List.head?_dropWhile_not isBlank t
  last b hb := by
    rw [trim, Text.dropEndWhile, List.getLast?_reverse] at hb
    simpa [hb] using List.head?_dropWhile_not isEndBlank (t.dropWhile isBlank).reverse

theorem padded_trim (t : Text) : Padded t (trim t) := by
  refine ⟨isTrimmed_trim t, t.takeWhile isBlank, (t.dropWhile isBlank).rtakeWhile isEndBlank,
    fun b hb => List.mem_takeWhile_imp hb, fun b hb => List.mem_rtakeWhile_imp hb, ?_⟩
  have hback : trim t ++ (t.dropWhile isBlank).rtakeWhile isEndBlank = t.dropWhile isBlank :=
    List.rdropWhile_append_rtakeWhile
  rw [List.append_assoc, hback, List.takeWhile_append_dropWhile]

/-- **The content of a line is what is left of it without blanks at its ends.** -/
theorem padded_iff {content : Text} : Padded t content ↔ content = trim t := by
  refine ⟨?_, fun h => h ▸ padded_trim t⟩
  rintro ⟨hcontent, front, back, hfront, hback, rfl⟩
  rw [List.append_assoc, trim, List.dropWhile_append_of_pos hfront]
  by_cases hne : content = []
  · -- all is blank, and what is left after the first blanks is some of it
    subst hne
    refine (List.rdropWhile_eq_nil_iff.2 fun b hb => hback b ?_).symm
    exact (List.dropWhile_sublist isBlank).subset hb
  · rw [dropWhile_of_head, dropEndWhile_append hback, dropEndWhile_of_last hcontent.last]
    intro b hb
    rw [List.head?_append_of_ne_nil _ hne] at hb
    exact hcontent.head b hb

theorem trim_eq_self (h : IsTrimmed t) : trim t = t :=
  (padded_iff.1 ⟨h, [], [], by simp, by simp, by simp⟩).symm

end

/-! ## Words -/

section
variable {w gap rest t : Text}

theorem isTrimmed_append (hw : IsWord w) (hrest : IsTrimmed rest) (hne : rest ≠ []) :
    IsTrimmed (w ++ gap ++ rest) where
  head b hb := by
    rw [List.append_assoc, List.head?_append_of_ne_nil _ hw.ne_nil] at hb
    exact hw.not_blank b (List.mem_of_mem_head? hb)
  last b hb := by
    rw [List.getLast?_append_of_ne_nil _ hne] at hb
    exact hrest.last b hb

/-- A word is found before a gap. -/
theorem word_append (hw : IsWord w) (hgap : IsGap gap) (hrest : IsTrimmed rest) (hne : rest ≠ []) :
    word (w ++ gap ++ rest) = (w, rest) := by
  have hword : ∀ b ∈ w, (!isBlank b) = true := fun b hb => by rw [hw.not_blank b hb]; rfl
  have hhead : ∀ b, (gap ++ rest).head? = some b → (!isBlank b) = false := by
    intro b hb
    rw [List.head?_append_of_ne_nil _ hgap.ne_nil] at hb
    rw [hgap.blank b (List.mem_of_mem_head? hb)]
    rfl
  have htake : (gap ++ rest).takeWhile (!isBlank ·) = [] := by
    obtain ⟨b, gap, rfl⟩ := List.exists_cons_of_ne_nil hgap.ne_nil
    exact List.takeWhile_cons_of_neg (by rw [hhead b rfl]; decide)
  have hrest' : rest = trim (gap ++ rest) :=
    padded_iff.1 ⟨hrest, gap, [], hgap.blank, by simp, (List.append_nil _).symm⟩
  rw [word, trim_eq_self (isTrimmed_append hw hrest hne), List.append_assoc,
    List.takeWhile_append_of_pos hword, htake, List.dropWhile_append_of_pos hword,
    dropWhile_of_head hhead, ← hrest', List.append_nil]

/-- **The first word of a text, and what follows it.** -/
theorem word_cases (ht : IsTrimmed t) (hne : t ≠ []) :
    IsWord (word t).1 ∧ IsTrimmed (word t).2 ∧
      ((word t).2 = [] ∨ ∃ gap, IsGap gap ∧ t = (word t).1 ++ gap ++ (word t).2) := by
  rw [word, trim_eq_self ht]
  dsimp only
  have hsplit : t.takeWhile (!isBlank ·) ++ t.dropWhile (!isBlank ·) = t :=
    List.takeWhile_append_dropWhile
  generalize hu : t.dropWhile (!isBlank ·) = u at hsplit ⊢
  have hsplit' : u.takeWhile isBlank ++ u.dropWhile isBlank = u := List.takeWhile_append_dropWhile
  refine ⟨⟨?_, fun b hb => ?_⟩, isTrimmed_trim u, ?_⟩
  · obtain ⟨b, t, rfl⟩ := List.exists_cons_of_ne_nil hne
    rw [List.takeWhile_cons_of_pos (by rw [ht.head b rfl]; rfl)]
    exact List.cons_ne_nil _ _
  · simpa using List.mem_takeWhile_imp hb
  · rw [or_iff_not_imp_left]
    intro hrest
    have hune : u ≠ [] := by
      rintro rfl
      exact hrest rfl
    -- nothing is left to take off at the end, where the whole text has no blanks
    have htrim : trim u = u.dropWhile isBlank := by
      refine dropEndWhile_of_last fun b hb => ht.last b ?_
      rw [← hsplit, ← hsplit', ← List.append_assoc, List.getLast?_append, hb, Option.some_or]
    refine ⟨u.takeWhile isBlank, ⟨?_, fun b hb => List.mem_takeWhile_imp hb⟩, ?_⟩
    · obtain ⟨b, u, rfl⟩ := List.exists_cons_of_ne_nil hune
      have hb := List.head?_dropWhile_not (!isBlank ·) t
      rw [hu] at hb
      rw [List.takeWhile_cons_of_pos (by simpa using hb)]
      exact List.cons_ne_nil _ _
    · rw [htrim, List.append_assoc, hsplit', hsplit]

end

/-! ## Reading a line -/

section
variable {t directive unit value : Text}

/-- **What a line says is what its words are found to be.** -/
theorem says_iff : Says t directive unit value ↔ unit ≠ [] ∧ value ≠ [] ∧
    (word (trim t)).1 = directive ∧ word (word (trim t)).2 = (unit, value) := by
  constructor
  · rintro ⟨hd, hu, hne, hv, gap, gap', hgap, hgap', hpadded⟩
    have hrest : unit ++ gap' ++ value ≠ [] := by simp [hne]
    rw [← padded_iff.1 hpadded, word_append hd hgap (isTrimmed_append hu hv hne) hrest,
      word_append hu hgap' hv hne]
    exact ⟨hu.ne_nil, hne, rfl, rfl⟩
  · rintro ⟨hu_ne, hv_ne, rfl, hword⟩
    have hrest_ne : (word (trim t)).2 ≠ [] := by
      intro he
      rw [he] at hword
      exact hu_ne (congrArg (·.1) hword).symm
    have hne : trim t ≠ [] := by
      intro he
      rw [he] at hrest_ne
      exact hrest_ne rfl
    obtain ⟨hd, hrest, hfirst⟩ := word_cases (isTrimmed_trim t) hne
    obtain ⟨hu, hv, hsecond⟩ := word_cases hrest hrest_ne
    rw [hword] at hu hv hsecond
    obtain ⟨gap, hgap, he⟩ := hfirst.resolve_left hrest_ne
    obtain ⟨gap', hgap', he'⟩ := hsecond.resolve_left hv_ne
    refine ⟨hd, hu, hv_ne, hv, gap, gap', hgap, hgap', padded_iff.2 ?_⟩
    rw [← he', ← he]

theorem Says.unique {directive' unit' value' : Text} (h : Says t directive unit value)
    (h' : Says t directive' unit' value') :
    directive' = directive ∧ unit' = unit ∧ value' = value := by
  obtain ⟨-, -, hd, hrest⟩ := says_iff.1 h
  obtain ⟨-, -, hd', hrest'⟩ := says_iff.1 h'
  exact ⟨hd'.symm.trans hd, Prod.mk.inj (hrest'.symm.trans hrest)⟩

theorem silent_iff : Silent t ↔ trim t = [] ∨ (trim t).head? = some (Text.byte '#') := by
  constructor
  · rintro ⟨content, hcontent, h⟩
    rwa [← padded_iff.1 hcontent]
  · exact fun h => ⟨trim t, padded_trim t, h⟩

/-- Only what looks like a directive makes a line a comment. -/
theorem Says.not_silent (h : Says t directive unit value)
    (hdirective : directive.head? ≠ some (Text.byte '#')) : ¬ Silent t := by
  obtain ⟨hd, -, -, -, gap, gap', -, -, hpadded⟩ := h
  rw [silent_iff, ← padded_iff.1 hpadded, List.append_assoc]
  rintro (h | h)
  · exact hd.ne_nil (List.append_eq_nil_iff.1 h).1
  · rw [List.head?_append_of_ne_nil _ hd.ne_nil] at h
    exact hdirective h

variable {r : Reading}

theorem Reading.line_of_silent (h : Silent t) : r.line t = .ok r :=
  if_pos (silent_iff.1 h)

theorem Reading.line_of_words (hsilent : ¬ Silent t) (h : Says t directive unit value) :
    r.line t = r.follow directive unit value := by
  obtain ⟨hu, hv, hdirective, hrest⟩ := says_iff.1 h
  rw [line, if_neg (silent_iff.not.1 hsilent)]
  rcases hword : word (trim t) with ⟨directive', rest⟩
  rw [hword] at hdirective hrest
  dsimp only at hdirective hrest ⊢
  rw [hrest, hdirective]
  exact if_neg (not_or.2 ⟨hu, hv⟩)

theorem Reading.line_of_other (hsilent : ¬ Silent t)
    (h : ∀ directive unit value, ¬ Says t directive unit value) :
    r.line t = .error .incomplete := by
  rw [line, if_neg (silent_iff.not.1 hsilent)]
  refine if_pos ?_
  by_contra hwords
  rw [not_or] at hwords
  exact h _ _ _ (says_iff.2 ⟨hwords.1, hwords.2, rfl, rfl⟩)

end

end Rebuild.Manifest
