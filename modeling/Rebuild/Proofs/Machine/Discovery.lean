/-
  Which sources are found in a file tree.

  * `FileTree.Normal`: a tree whose places are written in their normal forms;
  * `FileTree.below_of_mem_sources`: in such a tree only sources below a root are found.
-/
import Rebuild.Machine.Survey
import Rebuild.Proofs.Containers
import Rebuild.Proofs.Machine.FileTree
import Rebuild.Proofs.Roots

namespace Rebuild.FileTree

open Rebuild.Path

variable {t : FileTree} {roots : Roots} {source : Text}

/-- The places of the tree are written in their normal forms. -/
def Normal (t : FileTree) : Prop :=
  ∀ path ∈ t.nodes.keys, path ≠ [] ∧ normalize t.current path = path

instance (t : FileTree) : Decidable t.Normal := inferInstanceAs (Decidable (∀ _ ∈ _, _))

/-- **Only sources below a root are found.** -/
theorem below_of_mem_sources (ht : t.Normal) (h : source ∈ (t.sources roots).1) :
    roots.Below source := by
  rw [sources, Std.ExtTreeSet.mem_toList, Roots.discover, mem_ofTexts, List.mem_filter] at h
  obtain ⟨root, hroot, h⟩ := List.mem_flatMap.1 h.1
  unfold filesBelow at h
  split at h
  · next up closed trailing hlocate =>
    obtain ⟨⟨rest, node⟩, hrest, rfl⟩ := List.mem_map.1 (List.mem_filter.1 h).1
    obtain ⟨hrest, hnode⟩ := mem_below.1 hrest
    obtain ⟨hpath, hnormal⟩ := ht _ (Std.ExtTreeMap.mem_keys.2 (mem_iff_exists.2 ⟨node, hnode⟩))
    rw [normalize_eq hpath] at hnormal
    obtain ⟨below, hne, hbelow, rfl⟩ :=
      exists_names_behind (fun _ => descends_of_mem_namesOf) hnormal hrest
    have hroot' : root ≠ [] := by
      rintro rfl
      cases hlocate
    refine ⟨root, hroot, hroot', below, hne, hbelow, ?_⟩
    simp only
    rw [normalize_eq hroot', join_ofNames (fun _ => descends_of_mem_namesOf) hne hbelow]
  · cases h

end Rebuild.FileTree
