/-
  Paths that are names behind slashes.

  * `Text.split_join`: names that have no separator are told apart again;
  * `Path.ofNames_injective`: a path tells the names that it is made of;
  * `Path.Through`: the paths behind a directory.
-/
import Mathlib.Data.List.Basic
import Mathlib.Data.List.TakeWhile
import Mathlib.Tactic.Common
import Rebuild.Machine.Files

namespace Rebuild

/-! ## Parts -/

namespace Text

variable {sep : UInt8} {t : Text} {parts : List Text}

theorem split_of_notMem (h : sep ∉ t) : split sep t = [t] := by
  induction t with
  | nil => rfl
  | cons b t ih =>
    rw [List.mem_cons, not_or] at h
    simp only [split, ih h.2, if_neg (Ne.symm h.1)]

theorem split_append (a b : Text) : split sep (a ++ sep :: b) = split sep a ++ split sep b := by
  induction a with
  | nil =>
    cases hs : split sep b with
    | nil => exact absurd hs (split_ne_nil sep b)
    | cons part parts => simp [split, hs]
  | cons c a ih =>
    rw [List.cons_append, split, ih, split]
    cases hs : split sep a with
    | nil => exact absurd hs (split_ne_nil sep a)
    | cons part parts =>
      simp only [List.cons_append]
      split <;> rfl

/-- No part has the separator. -/
theorem notMem_of_mem_split {part : Text} (h : part ∈ split sep t) : sep ∉ part := by
  induction t generalizing part with
  | nil =>
    rw [split, List.mem_singleton] at h
    exact h ▸ List.not_mem_nil
  | cons b t ih =>
    cases hs : split sep t with
    | nil => exact absurd hs (split_ne_nil sep t)
    | cons first parts =>
      rw [hs] at ih
      simp only [split, hs] at h
      split_ifs at h with hb
      · rcases List.mem_cons.1 h with rfl | h
        · exact List.not_mem_nil
        · exact ih h
      · rcases List.mem_cons.1 h with rfl | h
        · exact fun hm => (List.mem_cons.1 hm).elim (fun he => hb he.symm) (ih List.mem_cons_self)
        · exact ih (List.mem_cons_of_mem _ h)

theorem join_cons_of_ne_nil (h : parts ≠ []) :
    join [sep] (t :: parts) = t ++ sep :: join [sep] parts := by
  cases parts with
  | nil => exact absurd rfl h
  | cons u us => simp [join]

theorem join_append {parts' : List Text} (h : parts ≠ []) (h' : parts' ≠ []) :
    join [sep] (parts ++ parts') = join [sep] parts ++ sep :: join [sep] parts' := by
  induction parts with
  | nil => exact absurd rfl h
  | cons u us ih =>
    cases us with
    | nil => exact join_cons_of_ne_nil h'
    | cons v vs =>
      rw [List.cons_append, join_cons_of_ne_nil (by simp), join_cons_of_ne_nil (by simp),
        ih (by simp), List.append_assoc, List.cons_append]

theorem mem_join {b : UInt8} {sep : Text} (h : b ∈ join sep parts) :
    b ∈ sep ∨ ∃ t ∈ parts, b ∈ t := by
  induction parts with
  | nil => cases h
  | cons u us ih =>
    cases us with
    | nil => exact Or.inr ⟨u, List.mem_singleton_self u, h⟩
    | cons v vs =>
      simp only [join, List.mem_append] at h
      rcases h with (h | h) | h
      · exact Or.inr ⟨u, List.mem_cons_self, h⟩
      · exact Or.inl h
      · obtain hb | ⟨t, ht, hb⟩ := ih h
        · exact Or.inl hb
        · exact Or.inr ⟨t, List.mem_cons_of_mem _ ht, hb⟩

theorem mem_join_of_mem {b : UInt8} {u : Text} (hu : u ∈ parts) (h : b ∈ u) :
    b ∈ join [sep] parts := by
  induction parts with
  | nil => cases hu
  | cons v vs ih =>
    rcases List.mem_cons.1 hu with rfl | hu
    · cases vs with
      | nil => exact h
      | cons w ws => simp [join, h]
    · rw [join_cons_of_ne_nil (List.ne_nil_of_mem hu)]
      exact List.mem_append_right _ (List.mem_cons_of_mem _ (ih hu))

theorem mem_of_mem_split {b : UInt8} {u : Text} (hu : u ∈ split sep t) (h : b ∈ u) : b ∈ t :=
  join_split sep t ▸ mem_join_of_mem hu h

theorem after?_eq_some_iff {pre t rest : Text} : after? pre t = some rest ↔ t = pre ++ rest := by
  rw [after?]
  constructor
  · intro h
    split_ifs at h with hp
    obtain ⟨rest', rfl⟩ := List.isPrefixOf_iff_prefix.1 hp
    simpa using h
  · rintro rfl
    rw [if_pos (List.isPrefixOf_iff_prefix.2 (List.prefix_append pre rest)), List.drop_left]

/-- Joined parts are split one by one. -/
theorem split_join_flatMap (hne : parts ≠ []) :
    split sep (join [sep] parts) = parts.flatMap (split sep) := by
  induction parts with
  | nil => exact absurd rfl hne
  | cons t parts ih =>
    by_cases hp : parts = []
    · subst hp
      exact (List.append_nil _).symm
    · rw [join_cons_of_ne_nil hp, split_append, ih hp, List.flatMap_cons]

/-- Splitting takes joined parts apart again. -/
theorem split_join (hne : parts ≠ []) (h : ∀ t ∈ parts, sep ∉ t) :
    split sep (join [sep] parts) = parts := by
  rw [split_join_flatMap hne, List.flatMap_congr fun t ht => split_of_notMem (h t ht)]
  exact List.flatMap_singleton' parts

/-- Splitting takes texts that each end with the separator apart again. -/
theorem split_flatMap_concat {ts : List Text} {rest : Text} (hts : ∀ t ∈ ts, sep ∉ t)
    (hrest : sep ∉ rest) : split sep (ts.flatMap (· ++ [sep]) ++ rest) = ts ++ [rest] := by
  induction ts with
  | nil => exact split_of_notMem hrest
  | cons t ts ih =>
    obtain ⟨ht, hts⟩ := List.forall_mem_cons.1 hts
    have hbytes : (t :: ts).flatMap (· ++ [sep]) ++ rest =
        t ++ sep :: (ts.flatMap (· ++ [sep]) ++ rest) := by simp
    rw [hbytes, split_append, split_of_notMem ht, ih hts]
    rfl

end Text

namespace Path

/-! ## Names -/

theorem ofNames_ne_nil (names : List Text) : ofNames names ≠ [] := nofun

theorem split_ofNames {names : List Text} (hne : names ≠ []) (h : ∀ n ∈ names, slash ∉ n) :
    (ofNames names).split slash = [] :: names := by
  have hbytes : ofNames names = [] ++ slash :: Text.join [slash] names := rfl
  rw [hbytes, Text.split_append, Text.split_join hne h]
  rfl

theorem ofNames_concat {names : List Text} (hne : names ≠ []) (n : Text) :
    ofNames (names ++ [n]) = ofNames names ++ slash :: n := by
  rw [ofNames, Text.join_append hne (List.cons_ne_nil n []), ofNames, List.cons_append]
  rfl

/-- The last name stands behind a slash. -/
theorem exists_ofNames_concat (names : List Text) (n : Text) :
    ∃ front, ofNames (names ++ [n]) = front ++ slash :: n := by
  by_cases hne : names = []
  · rw [hne]
    exact ⟨[], rfl⟩
  · exact ⟨_, ofNames_concat hne n⟩

/-- The path tells the names. -/
theorem ofNames_injective {names names' : List Text} (h : ∀ n ∈ names, IsName n)
    (h' : ∀ n ∈ names', IsName n) (heq : ofNames names = ofNames names') : names = names' := by
  have hroot {names : List Text} (hne : names ≠ []) (h : ∀ n ∈ names, IsName n) :
      ofNames names ≠ ofNames [] := by
    intro heq
    have hsplit := congrArg (Text.split slash) heq
    rw [split_ofNames hne fun n hn => (h n hn).slash] at hsplit
    have hnames : names = [[]] := (List.cons.inj hsplit).2
    exact (h [] (by simp [hnames])).ne_nil rfl
  by_cases hn : names = []
  · by_cases hn' : names' = []
    · rw [hn, hn']
    · rw [hn] at heq
      exact absurd heq.symm (hroot hn' h')
  · by_cases hn' : names' = []
    · rw [hn'] at heq
      exact absurd heq (hroot hn h)
    · have hsplit := congrArg (Text.split slash) heq
      rw [split_ofNames hn fun n hn => (h n hn).slash,
        split_ofNames hn' fun n hn => (h' n hn).slash] at hsplit
      exact (List.cons.inj hsplit).2

theorem ne_slash_of_mem_reverse {n : Text} (h : slash ∉ n) :
    ∀ b ∈ n.reverse, decide (b ≠ slash) = true := by
  intro b hb
  have hne : b ≠ slash := by
    rintro rfl
    exact h (List.mem_reverse.1 hb)
  simpa using hne

theorem fileName_append {front n : Text} (h : slash ∉ n) : fileName (front ++ slash :: n) = n := by
  rw [fileName, List.reverse_append, List.reverse_cons, List.append_assoc,
    List.takeWhile_append_of_pos (ne_slash_of_mem_reverse h)]
  simp

theorem directory_append {front n : Text} (h : slash ∉ n) (hfront : front.getLast? ≠ some slash) :
    directory (front ++ slash :: n) = if front = [] then [slash] else front := by
  have hdrop : (front ++ slash :: n).reverse.dropWhile (· ≠ slash) = slash :: front.reverse := by
    rw [List.reverse_append, List.reverse_cons, List.append_assoc,
      List.dropWhile_append_of_pos (ne_slash_of_mem_reverse h)]
    simp
  have hbare : (front.reverse).dropWhile (· == slash) = front.reverse := by
    cases hr : front.reverse with
    | nil => rfl
    | cons b bs =>
      have hb : b ≠ slash := by
        rintro rfl
        rw [← List.head?_reverse, hr] at hfront
        exact hfront rfl
      simp [hb]
  unfold directory
  rw [hdrop]
  simp [Text.dropEndWhile, hbare]

/-! ## Behind a directory -/

theorem suffix_join (dir name : Text) : name <:+ join dir name := by
  unfold join
  split
  · exact List.suffix_refl name
  split
  · exact List.suffix_append dir name
  · exact (List.suffix_cons slash name).trans (List.suffix_append dir (slash :: name))

end Path

end Rebuild
