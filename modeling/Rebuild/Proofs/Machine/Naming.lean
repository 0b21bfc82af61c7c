/-
  The units of the sources that are found in a file tree.

  A source is found if its path ends with the extension.  Its unit is named after the names behind
  its root, with dots between them, and loses the extension at the end.  These two ways to look at
  the end agree (`Roots.nameOf_concat_strip`), so a file is always named without its extension.  But
  a dot may stand in the name of a directory or a file as well, and it stays there.

  * `Segmented`: dots cut a text into parts of which none is empty;
  * `Roots.exists_sourcePath_iff_segmented`: these are the names of units that have a source.

  `FileTree.sources_named` says which of the sources have a unit, and which units have a source.
-/
import Rebuild.Proofs.Machine.Discovery
import Rebuild.Proofs.Roots.Resolution

namespace Rebuild

open Rebuild.Path

/-! ## Texts with dots -/

/-- Dots cut the text into parts of which none is empty: it is not empty itself, it does not begin
    or end with a dot, and no two dots are neighbours. -/
def Segmented (t : Text) : Prop := ∀ part ∈ t.split unitSeparator, part ≠ []

instance (t : Text) : Decidable (Segmented t) := inferInstanceAs (Decidable (∀ _ ∈ _, _))

theorem segmented_join {names : List Text} (hne : names ≠ []) :
    Segmented (Text.join [unitSeparator] names) ↔ ∀ n ∈ names, Segmented n := by
  simp only [Segmented, Text.split_join_flatMap hne, List.mem_flatMap]
  constructor
  · intro h n hn part hpart
    exact h part ⟨n, hn, hpart⟩
  · rintro h part ⟨n, hn, hpart⟩
    exact h n hn part hpart

namespace Roots

variable {r : Roots} {unit name front t : Text} {dirs : List Text}

/-! ## Units that have a source -/

theorem segments?_eq_none_iff (h : slash ∉ unit) : segments? unit = none ↔ ¬ Segmented unit := by
  have hslash : ∀ part ∈ unit.split unitSeparator, slash ∉ part := fun part hpart hs =>
    h (Text.mem_of_mem_split hpart hs)
  unfold segments? Segmented
  simp only [ite_eq_right_iff, reduceCtorEq, imp_false,
    List.all_eq_true, decide_eq_true_eq]
  refine not_congr (forall₂_congr fun part hpart => ?_)
  simp [hslash part hpart]

/-- **A name without a slash is that of a unit if it is segmented**; else it is refused. -/
theorem exists_sourcePath_iff_segmented (hroots : r.roots ≠ []) (h : slash ∉ unit)
    (isFile : Text → Bool) :
    ((∃ path, r.sourcePath isFile unit = .ok path) ↔ Segmented unit) ∧
      (r.sourcePath isFile unit = .error (.invalidUnit unit) ↔ ¬ Segmented unit) := by
  obtain ⟨first, rest, hfirst⟩ := List.exists_cons_of_ne_nil hroots
  have hnone := segments?_eq_none_iff h
  unfold sourcePath
  rw [hfirst]
  cases hsegments : segments? unit with
  | none =>
    have hnot := hnone.1 hsegments
    exact ⟨⟨nofun, fun h => absurd h hnot⟩, fun _ => hnot, fun _ => rfl⟩
  | some segments =>
    have hyes : Segmented unit := by
      by_contra hnot
      rw [hnone.2 hnot] at hsegments
      cases hsegments
    exact ⟨⟨fun _ => hyes, fun _ => ⟨_, rfl⟩⟩, nofun, fun hnot => absurd hyes hnot⟩

/-! ## Names without the extension -/

/-- A text that does not end with the extension is left as it is. -/
theorem strip_of_not_suffix (h : ¬ r.suffix <:+ t) : r.strip t = t :=
  if_neg fun hends => h (List.isSuffixOf_iff_suffix.1 hends)

theorem mem_of_mem_strip {b : UInt8} (h : b ∈ r.strip t) : b ∈ t := by
  unfold strip at h
  split_ifs at h
  · exact List.mem_of_mem_take h
  · exact h

/-- An extension without a slash ends the path of a file only if it ends its name. -/
theorem suffix_of_notMem {s : Text} (h : s <:+ front ++ slash :: name) (hs : slash ∉ s) :
    s <:+ name := by
  have hname : slash :: name <:+ front ++ slash :: name := List.suffix_append _ _
  rcases List.suffix_or_suffix_of_suffix h hname with h | h
  · rcases List.suffix_cons_iff.1 h with rfl | h
    · exact absurd List.mem_cons_self hs
    · exact h
  · exact absurd (h.subset List.mem_cons_self) hs

/-- **A source is called after the file without the extension**: the names with dots between them
    end with the extension exactly if the last of them does, given that the path of the file
    does. -/
theorem nameOf_concat_strip (hends : r.suffix <:+ front ++ slash :: name)
    (hslash : ∀ n ∈ dirs ++ [name], slash ∉ n) :
    r.nameOf (dirs ++ [name]) = Text.join [unitSeparator] (dirs ++ [r.strip name]) := by
  rw [nameOf_eq]
  by_cases hs : slash ∈ r.suffix
  · -- then neither ends with the extension, for there is a slash in it
    have hjoin : slash ∉ Text.join [unitSeparator] (dirs ++ [name]) := fun hmem =>
      (Text.mem_join hmem).elim (by decide) fun ⟨n, hn, h⟩ => hslash n hn h
    have hname : slash ∉ name := hslash name (by simp)
    rw [strip_of_not_suffix fun h => hjoin (h.subset hs),
      strip_of_not_suffix fun h => hname (h.subset hs)]
  · obtain ⟨t, rfl⟩ := suffix_of_notMem hends hs
    rw [← Text.join_concat_append, strip_append, strip_append]

theorem slash_notMem_join_strip (hslash : ∀ n ∈ dirs ++ [name], slash ∉ n) :
    slash ∉ Text.join [unitSeparator] (dirs ++ [r.strip name]) := by
  intro hmem
  rcases Text.mem_join hmem with h | ⟨n, hn, h⟩
  · exact absurd h (by decide)
  · rcases List.mem_append.1 hn with hn | hn
    · exact hslash n (List.mem_append_left _ hn) h
    · rw [List.mem_singleton.1 hn] at h
      exact hslash name (by simp) (mem_of_mem_strip h)

end Roots

/-! ## Sources that are found -/

namespace FileTree

variable {t : FileTree} {roots : Roots} {source : Text}

theorem suffix_of_mem_sources (h : source ∈ (t.sources roots).1) : roots.suffix <:+ source := by
  rw [sources, Std.ExtTreeSet.mem_toList, Roots.discover, mem_ofTexts, List.mem_filter] at h
  exact List.isSuffixOf_iff_suffix.1 h.2

/-- A source that is found is where its names lead. -/
theorem eq_ofNames_of_mem_sources (ht : t.Normal) (h : source ∈ (t.sources roots).1) :
    source = ofNames (namesOf roots.current source) := by
  obtain ⟨root, -, -, below, -, hbelow, rfl⟩ := below_of_mem_sources ht h
  rw [namesOf_ofNames fun n hn => (List.mem_append.1 hn).elim descends_of_mem_namesOf (hbelow n)]

/-- **What the sources that are found are called.**  A source that is a root is refused.  Any other
    has a unit, named after the directories behind the deepest root and after the file without the
    extension.  The unit has a source if it is segmented, which it is exactly if all of these names
    are, and else it is refused. -/
theorem sources_named (ht : t.Normal) (hvalid : roots.validate = .ok ())
    (h : source ∈ (t.sources roots).1) (isFile : Text → Bool) :
    ((∃ root ∈ roots.roots, normalize roots.current root = source) ∧
      roots.unitName source = .error (.isRoot source)) ∨
    ∃ unit root dirs name, roots.unitName source = .ok unit ∧
      roots.Locates source root (dirs ++ [name]) ∧
      unit = Text.join [unitSeparator] (dirs ++ [roots.strip name]) ∧
      ((∃ path, roots.sourcePath isFile unit = .ok path) ↔ Segmented unit) ∧
      (roots.sourcePath isFile unit = .error (.invalidUnit unit) ↔ ¬ Segmented unit) ∧
      (Segmented unit ↔ ∀ n ∈ dirs ++ [roots.strip name], Segmented n) := by
  have hbelow := below_of_mem_sources ht h
  cases hunit : roots.unitName source with
  | error e =>
    obtain ⟨rfl, hroot⟩ := hbelow.unitName_eq_error_iff.1 hunit
    exact Or.inl ⟨hroot, rfl⟩
  | ok unit =>
    obtain ⟨root, below, hlocates, hne, rfl⟩ := (Roots.unitName_eq_ok_iff hvalid).1 hunit
    obtain rfl | ⟨dirs, name, rfl⟩ := List.eq_nil_or_concat below
    · exact absurd rfl hne
    rw [List.concat_eq_append] at hlocates ⊢
    have hslash : ∀ n ∈ dirs ++ [name], slash ∉ n := fun n hn =>
      (descends_of_mem_namesOf (hlocates.names ▸ List.mem_append_right _ hn)).slash
    obtain ⟨front, hfront⟩ := exists_ofNames_concat (namesOf roots.current root ++ dirs) name
    have hends := suffix_of_mem_sources h
    rw [eq_ofNames_of_mem_sources ht h, hlocates.names, ← List.append_assoc, hfront] at hends
    have hname := Roots.nameOf_concat_strip hends hslash
    obtain ⟨hok, herror⟩ := Roots.exists_sourcePath_iff_segmented
      (Roots.validate_eq_ok_iff.1 hvalid).1 (Roots.slash_notMem_join_strip hslash) isFile
    rw [hname]
    exact Or.inr ⟨_, root, dirs, name, rfl, hlocates, rfl, hok, herror, segmented_join (by simp)⟩

/-- A root that is a file, a hidden directory, and sources with dots in and about them. -/
def dottedTree : FileTree :=
  { nodes := [("/", .folder), ("/p", .folder), ("/p/A.l", .file "a" 1), ("/p/.h", .folder),
      ("/p/.h/B.l", .file "b" 1), ("/p/v1.2", .folder), ("/p/v1.2/C.l", .file "c" 1)].foldl
      (fun m e => m.insert e.1 e.2) ∅
    now := 1 }

/-- A directory with sources, and one of these. -/
def fileRoots : Roots := ⟨["/p", "/p/A.l"], "l"⟩

theorem sources_named_dotted :
    dottedTree.Normal ∧ fileRoots.validate = .ok () ∧
      ("/p/v1.2/C.l" : Text) ∈ (dottedTree.sources fileRoots).1 ∧
      ∃ unit, fileRoots.unitName "/p/v1.2/C.l" = .ok unit ∧ unit = "v1.2.C" ∧
        ∃ path, fileRoots.sourcePath dottedTree.isFile unit = .ok path := by
  have hnormal : dottedTree.Normal := by decide +kernel
  have hvalid : fileRoots.validate = .ok () := by decide
  have hmem : ("/p/v1.2/C.l" : Text) ∈ (dottedTree.sources fileRoots).1 := by decide +kernel
  have hname : fileRoots.unitName "/p/v1.2/C.l" = .ok "v1.2.C" := by decide
  refine ⟨hnormal, hvalid, hmem, _, hname, rfl, ?_⟩
  rcases sources_named hnormal hvalid hmem dottedTree.isFile with ⟨-, herror⟩ | hunit
  · cases hname.symm.trans herror
  · obtain ⟨unit, root, dirs, name, hunit, -, -, hok, -⟩ := hunit
    obtain rfl := Except.ok.inj (hname.symm.trans hunit)
    exact hok.2 (by decide)

/-- **Not every source that is found has a unit, nor does every unit of one have a source**: a root
    may be a file that is found below another one, and a directory may be hidden. -/
theorem source_unnamed :
    dottedTree.Normal ∧ fileRoots.validate = .ok () ∧
      (("/p/A.l" : Text) ∈ (dottedTree.sources fileRoots).1 ∧
        fileRoots.unitName "/p/A.l" = .error (.isRoot "/p/A.l")) ∧
      ("/p/.h/B.l" : Text) ∈ (dottedTree.sources fileRoots).1 ∧
        fileRoots.unitName "/p/.h/B.l" = .ok ".h.B" ∧
        fileRoots.sourcePath dottedTree.isFile ".h.B" = .error (.invalidUnit ".h.B") :=
  ⟨by decide +kernel, by decide, ⟨by decide +kernel, by decide⟩, by decide +kernel, by decide,
    by decide⟩

end FileTree

end Rebuild
