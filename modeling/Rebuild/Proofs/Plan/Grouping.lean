/-
  Which units are in which group, and in which order the groups come.

  * `Share` relates two parts with units of one source; `root_partition`: the parts of one
    class are those that a chain of shared sources connects;
  * `isAt_members`: a group holds the units of the parts of one class;
  * `group_lt_iff`: the groups are listed by the first of their components;
  * `mem_needs`: a group needs the other groups that hold a direct dependency.
-/
import Mathlib.Data.List.NodupEquivFin
import Mathlib.Logic.Relation
import Rebuild.Plan.Grouping
import Rebuild.Proofs.Graph.Components
import Rebuild.Proofs.Partition

namespace Rebuild

open Relation

namespace Grouping

variable {g : Graph} {selected : TextSet} {sources : TextMap Text} {parts : List (List Text)}

/-! ## Parts -/

/-- The parts in the order of the components they are taken from. -/
theorem exists_component (g : Graph) (selected : TextSet) : ∃ f : Nat ↪o Nat, ∀ i u,
    IsAt (Grouping.parts g selected) i u → IsAt g.components (f i) u ∧ u ∈ selected := by
  have hs : (Grouping.parts g selected).Sublist
      (g.components.map (·.filter (selected.contains ·))) := List.filter_sublist
  obtain ⟨f, hf⟩ := List.sublist_iff_exists_orderEmbedding_getElem?_eq.1 hs
  refine ⟨f, ?_⟩
  rintro i u ⟨us, hi, hu⟩
  rw [hf, List.getElem?_map, Option.map_eq_some_iff] at hi
  obtain ⟨c, hc, rfl⟩ := hi
  obtain ⟨huc, hus⟩ := List.mem_filter.1 hu
  exact ⟨⟨c, hc, huc⟩, Std.ExtTreeSet.contains_iff_mem.1 hus⟩

theorem exists_isAt_parts (hg : g.WellFormed) {u : Text} :
    (∃ i, IsAt (Grouping.parts g selected) i u) ↔ u ∈ selected ∧ g.contains u = true := by
  rw [exists_isAt]
  constructor
  · intro h
    obtain ⟨f, hf⟩ := exists_component g selected
    obtain ⟨i, hi⟩ := exists_isAt.2 h
    obtain ⟨hc, hs⟩ := hf i u hi
    exact ⟨hs, (Graph.mem_components hg).1 (exists_isAt.1 ⟨_, hc⟩)⟩
  · rintro ⟨hs, hc⟩
    obtain ⟨c, hc, hu⟩ := (Graph.mem_components hg).2 hc
    have hm : u ∈ c.filter (selected.contains ·) :=
      List.mem_filter.2 ⟨hu, Std.ExtTreeSet.contains_iff_mem.2 hs⟩
    refine ⟨_, List.mem_filter.2 ⟨List.mem_map.2 ⟨c, hc, rfl⟩, ?_⟩, hm⟩
    simpa using List.ne_nil_of_mem hm

theorem parts_apart (hg : g.WellFormed) : Apart (Grouping.parts g selected) := by
  intro i j u hi hj
  obtain ⟨f, hf⟩ := exists_component g selected
  exact f.injective (Graph.components_apart hg _ _ u (hf i u hi).1 (hf j u hj).1)

theorem exists_isAt_of_lt {i : Nat} (h : i < (Grouping.parts g selected).length) :
    ∃ u, IsAt (Grouping.parts g selected) i u := by
  have hne : (Grouping.parts g selected)[i] ≠ [] := by
    have := (List.mem_filter.1 (List.getElem_mem h)).2
    simpa using this
  obtain ⟨u, hu⟩ := List.exists_mem_of_ne_nil _ hne
  exact ⟨u, _, List.getElem?_eq_getElem h, hu⟩

/-- Parts are listed as their components are. -/
theorem parts_lt_iff (hg : g.WellFormed) {i j : Nat} {u v : Text}
    (hu : IsAt (Grouping.parts g selected) i u) (hv : IsAt (Grouping.parts g selected) j v) :
    i < j ↔ g.Before u v := by
  obtain ⟨f, hf⟩ := exists_component g selected
  rw [← f.lt_iff_lt]
  exact ⟨fun h => ⟨f i, f j, h, (hf i u hu).1, (hf j v hv).1⟩,
    fun h => h.lt hg (hf i u hu).1 (hf j v hv).1⟩

/-- **Two units are in one part** iff they depend on one another. -/
theorem parts_eq_iff (hg : g.WellFormed) {i j : Nat} {u v : Text}
    (hu : IsAt (Grouping.parts g selected) i u) (hv : IsAt (Grouping.parts g selected) j v) :
    i = j ↔ ReflTransGen g.Edge u v ∧ ReflTransGen g.Edge v u := by
  constructor
  · rintro rfl
    obtain ⟨f, hf⟩ := exists_component g selected
    obtain ⟨c, hc, huc⟩ := (hf i u hu).1
    obtain ⟨d, hd, hvd⟩ := (hf i v hv).1
    rw [hc] at hd
    cases hd
    exact (Graph.mem_component_iff hg (List.mem_of_getElem? hc) huc).1 hvd
  · intro hmutual
    obtain ⟨c, us, hc, huc⟩ := exists_isAt.2 ((Graph.mem_components hg).2
      ((exists_isAt_parts hg).1 ⟨i, hu⟩).2)
    have hvc := (Graph.mem_component_iff hg (List.mem_of_getElem? hc) huc).2 hmutual
    have h1 := mt (parts_lt_iff hg hu hv).1 fun h =>
      Nat.lt_irrefl c (h.lt hg ⟨us, hc, huc⟩ ⟨us, hc, hvc⟩)
    have h2 := mt (parts_lt_iff hg hv hu).1 fun h =>
      Nat.lt_irrefl c (h.lt hg ⟨us, hc, hvc⟩ ⟨us, hc, huc⟩)
    omega

/-! ## Classes of parts -/

/-- Two parts hold units of one source. -/
def Share (sources : TextMap Text) (parts : List (List Text)) (i j : Nat) : Prop :=
  ∃ u v s, IsAt parts i u ∧ IsAt parts j v ∧ sources[u]? = some s ∧ sources[v]? = some s

/-- The parts with the sources of their units, in the order in which they are joined. -/
def sourced (sources : TextMap Text) (parts : List (List Text)) : List (Nat × Text) :=
  parts.zipIdx.flatMap fun (units, i) => (units.filterMap (sources[·]?)).map (i, ·)

theorem mem_sourced {i : Nat} {s : Text} :
    (i, s) ∈ sourced sources parts ↔ ∃ u, IsAt parts i u ∧ sources[u]? = some s := by
  simp only [sourced, List.mem_flatMap, List.mem_map, List.mem_filterMap, Prod.exists,
    List.mem_zipIdx_iff_getElem?, IsAt]
  constructor
  · rintro ⟨us, j, hj, t, ⟨u, hu, ht⟩, he⟩
    cases he
    exact ⟨u, ⟨us, hj, hu⟩, ht⟩
  · rintro ⟨u, ⟨us, hj, hu⟩, ht⟩
    exact ⟨us, i, hj, s, ⟨u, hu, ht⟩, rfl⟩

theorem partition_eq : partition sources parts = ((sourced sources parts).foldl
    (fun (j : Joining) c => j.claim c.1 c.2)
    ⟨Partition.discrete parts.length, ∅⟩).partition := by
  simp only [partition, sourced, List.foldl_flatMap, List.foldl_map]

/-- The parts joined after some of them were taken with these sources. -/
structure Joining.Valid (j : Joining) (n : Nat) (cs : List (Nat × Text)) : Prop where
  size_eq : j.partition.parents.size = n
  lt : ∀ c ∈ cs, c.1 < n
  owner_mem : ∀ s i, j.owners[s]? = some i → (i, s) ∈ cs
  owned : ∀ c ∈ cs, ∃ i, j.owners[c.2]? = some i
  same : ∀ c ∈ cs, ∀ d ∈ cs, c.2 = d.2 → j.partition.root c.1 = j.partition.root d.1
  /-- Nothing else is joined. -/
  least : ∀ E : Nat → Nat → Prop, Equivalence E →
    (∀ c ∈ cs, ∀ d ∈ cs, c.2 = d.2 → E c.1 d.1) →
    ∀ x y, j.partition.root x = j.partition.root y → E x y

section
variable {j : Joining} {n : Nat} {cs : List (Nat × Text)} (h : j.Valid n cs) {i : Nat} {s : Text}
  (hi : i < n)
include h hi

theorem Joining.Valid.lt_append : ∀ c ∈ cs ++ [(i, s)], c.1 < n := by
  intro c hc
  rcases List.mem_append.1 hc with hc | hc
  · exact h.lt c hc
  · rw [List.mem_singleton.1 hc]
    exact hi

/-- A source that is new joins no parts. -/
theorem Joining.Valid.claim_new (ho : j.owners[s]? = none) :
    Joining.Valid { j with owners := j.owners.insert s i } n (cs ++ [(i, s)]) := by
  have hno : ∀ c ∈ cs, c.2 ≠ s := fun c hc he => by
    obtain ⟨k, hk⟩ := h.owned c hc
    rw [he, ho] at hk
    cases hk
  refine ⟨h.size_eq, h.lt_append hi, fun t k hk => ?_, fun c hc => ?_, fun c hc d hd he => ?_,
    fun E hE hall => h.least E hE fun c hc d hd =>
      hall c (List.mem_append_left _ hc) d (List.mem_append_left _ hd)⟩
  · rw [Std.ExtTreeMap.getElem?_insert] at hk
    split at hk
    · next hst =>
      cases hk
      rw [Std.LawfulEqCmp.compare_eq_iff_eq] at hst
      simp [hst]
    · exact List.mem_append_left _ (h.owner_mem t k hk)
  · rcases List.mem_append.1 hc with hc | hc
    · obtain ⟨k, hk⟩ := h.owned c hc
      have hne : ¬ compare s c.2 = .eq := fun h =>
        hno c hc (Std.LawfulEqCmp.compare_eq_iff_eq.1 h).symm
      exact ⟨k, by rw [Std.ExtTreeMap.getElem?_insert, if_neg hne, hk]⟩
    · rw [List.mem_singleton.1 hc]
      exact ⟨i, Std.ExtTreeMap.getElem?_insert_self⟩
  · simp only [List.mem_append, List.mem_singleton] at hc hd
    rcases hc with hc | rfl <;> rcases hd with hd | rfl
    · exact h.same c hc d hd he
    · exact absurd he (hno c hc)
    · exact absurd he.symm (hno d hd)
    · rfl

/-- A source that is known joins the part to the first one with it. -/
theorem Joining.Valid.claim_known {first : Nat} (ho : j.owners[s]? = some first) :
    Joining.Valid { j with partition := j.partition.join first i } n (cs ++ [(i, s)]) := by
  have hf := h.owner_mem s first ho
  have hfn : first < j.partition.parents.size := h.size_eq ▸ h.lt _ hf
  have hin : i < j.partition.parents.size := h.size_eq ▸ hi
  refine ⟨?_, h.lt_append hi, fun t k hk => List.mem_append_left _ (h.owner_mem t k hk),
    fun c hc => ?_, fun c hc d hd he => ?_, fun E hE hall x y hxy => ?_⟩
  · rw [Partition.size_join, h.size_eq]
  · rcases List.mem_append.1 hc with hc | hc
    · exact h.owned c hc
    · rw [List.mem_singleton.1 hc]
      exact ⟨first, ho⟩
  · have hroot : ∀ c ∈ cs, c.2 = s →
        j.partition.root c.1 = j.partition.root first := fun c hc he => h.same c hc _ hf he
    rw [Partition.root_join_eq_iff hfn hin]
    simp only [List.mem_append, List.mem_singleton] at hc hd
    rcases hc with hc | rfl <;> rcases hd with hd | rfl
    · exact Or.inl (h.same c hc d hd he)
    · exact Or.inr ⟨Or.inl (hroot c hc he), Or.inr rfl⟩
    · exact Or.inr ⟨Or.inr rfl, Or.inl (hroot d hd he.symm)⟩
    · exact Or.inl rfl
  · have hleast := h.least E hE fun c hc d hd =>
      hall c (List.mem_append_left _ hc) d (List.mem_append_left _ hd)
    have hfi : E first i := hall _ (List.mem_append_left _ hf) (i, s) (by simp) rfl
    have hto : ∀ z, j.partition.root z = j.partition.root first ∨
        j.partition.root z = j.partition.root i → E z first := by
      rintro z (hz | hz)
      · exact hleast z first hz
      · exact hE.trans (hleast z i hz) (hE.symm hfi)
    rcases (Partition.root_join_eq_iff hfn hin x y).1 hxy with h | ⟨hx, hy⟩
    · exact hleast x y h
    · exact hE.trans (hto x hx) (hE.symm (hto y hy))

theorem Joining.Valid.claim : (j.claim i s).Valid n (cs ++ [(i, s)]) := by
  unfold Joining.claim
  split
  · next ho => exact h.claim_new hi ho
  · next first ho => exact h.claim_known hi ho

end

theorem Joining.Valid.foldl_claim {j : Joining} {n : Nat} {cs ds : List (Nat × Text)}
    (h : j.Valid n cs) (hd : ∀ d ∈ ds, d.1 < n) :
    (ds.foldl (fun (j : Joining) c => j.claim c.1 c.2) j).Valid n (cs ++ ds) := by
  induction ds generalizing j cs with
  | nil => simpa using h
  | cons d ds ih =>
    have hc : (j.claim d.1 d.2).Valid n (cs ++ [(d.1, d.2)]) := h.claim (hd d List.mem_cons_self)
    simpa using ih hc fun e he => hd e (List.mem_cons_of_mem d he)

/-- **The classes of the partition** are those that shared sources connect. -/
theorem root_partition {i j : Nat} :
    (partition sources parts).root i = (partition sources parts).root j ↔
      EqvGen (Share sources parts) i j := by
  have h0 : (⟨Partition.discrete parts.length, ∅⟩ : Joining).Valid parts.length [] :=
    ⟨by simp [Partition.discrete], by simp, by simp, by simp, by simp, fun E hE _ x y hxy => by
      rw [Partition.root_discrete, Partition.root_discrete] at hxy
      exact hxy ▸ hE.refl x⟩
  have hlt : ∀ d ∈ sourced sources parts, d.1 < parts.length := fun d hd => by
    obtain ⟨u, hu, -⟩ := mem_sourced.1 hd
    exact hu.lt_length
  have h := h0.foldl_claim hlt
  rw [List.nil_append] at h
  rw [partition_eq]
  constructor
  · refine h.least _ (EqvGen.is_equivalence _) (fun c hc d hd he => ?_) i j
    obtain ⟨u, hu, hs⟩ := mem_sourced.1 hc
    obtain ⟨v, hv, ht⟩ := mem_sourced.1 hd
    exact .rel _ _ ⟨u, v, c.2, hu, hv, hs, he ▸ ht⟩
  · intro he
    induction he with
    | rel x y hxy =>
      obtain ⟨u, v, s, hu, hv, hs, ht⟩ := hxy
      exact h.same _ (mem_sourced.2 ⟨u, hu, hs⟩) _ (mem_sourced.2 ⟨v, hv, ht⟩) rfl
    | refl x => rfl
    | symm x y _ ih => exact ih.symm
    | trans x y z _ _ ih₁ ih₂ => exact ih₁.trans ih₂

/-! ## Groups -/

theorem foldr_classes (p : Partition) (l : List (List Text × Nat)) (k : Nat) :
    let m : Std.ExtTreeMap Nat (List Text) := l.foldr (fun (units, i) classes =>
      let first := (p.find i).2
      classes.insert first (units ++ classes.getD first [])) ∅
    (k ∈ m ↔ ∃ x ∈ l, p.root x.2 = k) ∧
      ∀ u, u ∈ m.getD k [] ↔ ∃ x ∈ l, p.root x.2 = k ∧ u ∈ x.1 := by
  induction l with
  | nil => simp
  | cons x l ih =>
    obtain ⟨h1, h2⟩ := ih
    simp only [List.foldr_cons, Partition.find_snd, Std.ExtTreeMap.mem_insert,
      Std.ExtTreeMap.getD_insert, Std.LawfulEqCmp.compare_eq_iff_eq,
      List.exists_mem_cons_iff] at h1 h2 ⊢
    refine ⟨by rw [h1], fun u => ?_⟩
    by_cases hk : p.root x.2 = k
    · subst hk
      simp [h2]
    · simp [hk, h2]

/-- The first part of each class, ascending. -/
def firsts (p : Partition) (parts : List (List Text)) : List Nat := (classes p parts).keys

theorem firsts_pairwise (p : Partition) : (firsts p parts).Pairwise (· < ·) := by
  have h := Std.ExtTreeMap.ordered_keys (t := classes p parts)
  exact h.imp fun h => Nat.compare_eq_lt.1 h

theorem mem_firsts {p : Partition} {k : Nat} :
    k ∈ firsts p parts ↔ ∃ i < parts.length, p.root i = k := by
  have h := (foldr_classes p parts.zipIdx k).1
  rw [firsts, Std.ExtTreeMap.mem_keys, classes, h]
  constructor
  · rintro ⟨⟨us, i⟩, hm, hk⟩
    exact ⟨i, (List.getElem?_eq_some_iff.1 (List.mem_zipIdx_iff_getElem?.1 hm)).1, hk⟩
  · rintro ⟨i, hi, hk⟩
    exact ⟨(parts[i], i), List.mem_zipIdx_iff_getElem?.2 (List.getElem?_eq_getElem hi), hk⟩

/-- The units of each class, by the first part. -/
def members (g : Graph) (selected : TextSet) (sources : TextMap Text) : List (List Text) :=
  let parts := Grouping.parts g selected
  (classes (partition sources parts) parts).toList.map (·.2)

/-- **A group holds the units of the parts of one class.** -/
theorem isAt_members {i : Nat} {u : Text} :
    let parts := Grouping.parts g selected
    let p := partition sources parts
    IsAt (members g selected sources) i u ↔
      ∃ k, (firsts p parts)[i]? = some k ∧ ∃ j, IsAt parts j u ∧ p.root j = k := by
  intro parts p
  have hkeys : firsts p parts = (classes p parts).toList.map (·.1) :=
    (Std.ExtTreeMap.map_fst_toList_eq_keys).symm
  have hmem : ∀ k us, (classes p parts)[k]? = some us →
      (u ∈ us ↔ ∃ j, IsAt parts j u ∧ p.root j = k) := fun k us hk => by
    have h := (foldr_classes p parts.zipIdx k).2 u
    rw [← classes, Std.ExtTreeMap.getD_eq_getD_getElem?, hk, Option.getD_some] at h
    rw [h]
    simp only [Prod.exists, List.mem_zipIdx_iff_getElem?, IsAt]
    constructor
    · rintro ⟨vs, j, hj, hr, hu⟩
      exact ⟨j, ⟨vs, hj, hu⟩, hr⟩
    · rintro ⟨j, ⟨vs, hj, hu⟩, hr⟩
      exact ⟨vs, j, hj, hr, hu⟩
  have hfind : ∀ k us, (classes p parts).toList[i]? = some (k, us) →
      (classes p parts)[k]? = some us := fun k us h =>
    Std.ExtTreeMap.mem_toList_iff_getElem?_eq_some.1 (List.mem_of_getElem? h)
  rw [hkeys]
  simp only [IsAt, members, List.getElem?_map, Option.map_eq_some_iff, Prod.exists,
    exists_eq_right]
  constructor
  · rintro ⟨us, ⟨k, h⟩, hu⟩
    exact ⟨k, ⟨k, us, h, rfl⟩, (hmem k us (hfind k us h)).1 hu⟩
  · rintro ⟨k, ⟨k', us, h, rfl⟩, hu⟩
    exact ⟨us, ⟨k', h⟩, (hmem k' us (hfind k' us h)).2 hu⟩

theorem exists_part_of_isAt {i : Nat} {u : Text} (hu : IsAt (members g selected sources) i u) :
    ∃ a, IsAt (Grouping.parts g selected) a u := by
  obtain ⟨k, -, a, ha, -⟩ := isAt_members.1 hu
  exact ⟨a, ha⟩

/-- A group has a unit of the first part of its class. -/
theorem exists_isAt_first {i : Nat} (hi : i < (members g selected sources).length) :
    ∃ u a, IsAt (members g selected sources) i u ∧ IsAt (Grouping.parts g selected) a u ∧
      (partition sources (Grouping.parts g selected)).root a = a := by
  have hl : i < (firsts (partition sources (Grouping.parts g selected))
      (Grouping.parts g selected)).length := by
    simpa [members, firsts, Std.ExtTreeMap.length_toList, Std.ExtTreeMap.length_keys] using hi
  have hk := List.getElem?_eq_getElem hl
  obtain ⟨b, hb, hr⟩ := mem_firsts.1 (List.getElem_mem hl)
  rw [← hr] at hk
  have hle := Partition.root_le (partition sources (Grouping.parts g selected)) b
  have hrr := Partition.root_root (partition sources (Grouping.parts g selected)) b
  obtain ⟨u, hu⟩ := exists_isAt_of_lt (Nat.lt_of_le_of_lt hle hb)
  exact ⟨u, _, isAt_members.2 ⟨_, hk, _, hu, hrr⟩, hu, hrr⟩

section
variable (hg : g.WellFormed)
include hg

/-- The group of a unit by the first part of its class. -/
theorem first_of_isAt {i a : Nat} {u : Text} (hu : IsAt (members g selected sources) i u)
    (ha : IsAt (Grouping.parts g selected) a u) :
    (firsts (partition sources (Grouping.parts g selected)) (Grouping.parts g selected))[i]? =
      some ((partition sources (Grouping.parts g selected)).root a) := by
  obtain ⟨k, hk, b, hb, rfl⟩ := isAt_members.1 hu
  rw [hk, parts_apart hg a b u ha hb]

theorem members_lt_iff {i j a b : Nat} {u v : Text}
    (hu : IsAt (members g selected sources) i u) (hv : IsAt (members g selected sources) j v)
    (ha : IsAt (Grouping.parts g selected) a u) (hb : IsAt (Grouping.parts g selected) b v) :
    i < j ↔ (partition sources (Grouping.parts g selected)).root a <
      (partition sources (Grouping.parts g selected)).root b :=
  lt_iff_of_ascending (firsts_pairwise _) (first_of_isAt hg hu ha) (first_of_isAt hg hv hb)

/-- **Two units are in one group** iff a chain of shared sources connects their parts. -/
theorem members_eq_iff {i j a b : Nat} {u v : Text}
    (hu : IsAt (members g selected sources) i u) (hv : IsAt (members g selected sources) j v)
    (ha : IsAt (Grouping.parts g selected) a u) (hb : IsAt (Grouping.parts g selected) b v) :
    i = j ↔ EqvGen (Share sources (Grouping.parts g selected)) a b := by
  rw [← root_partition]
  have h1 := members_lt_iff hg hu hv ha hb
  have h2 := members_lt_iff hg hv hu hb ha
  omega

theorem members_apart : Apart (members g selected sources) := by
  intro i j u hi hj
  obtain ⟨a, ha⟩ := exists_part_of_isAt hi
  exact (members_eq_iff hg hi hj ha ha).2 (.refl a)

/-- **Every selected node is in a group**, and nothing else is. -/
theorem exists_isAt_members {u : Text} :
    (∃ i, IsAt (members g selected sources) i u) ↔ u ∈ selected ∧ g.contains u = true := by
  rw [← exists_isAt_parts hg]
  constructor
  · rintro ⟨i, hi⟩
    exact exists_part_of_isAt hi
  · rintro ⟨a, ha⟩
    obtain ⟨i, hi⟩ := List.mem_iff_getElem?.1 (mem_firsts.2 ⟨a, ha.lt_length, rfl⟩)
    exact ⟨i, isAt_members.2 ⟨_, hi, a, ha, rfl⟩⟩

/-- **Groups are listed by their first component.** -/
theorem members_lt_iff_before {i j : Nat} (hi : i < (members g selected sources).length)
    (hj : j < (members g selected sources).length) :
    i < j ↔ ∃ u, IsAt (members g selected sources) i u ∧
      ∀ v, IsAt (members g selected sources) j v → g.Before u v := by
  constructor
  · intro hlt
    obtain ⟨u, a, hu, ha, hr⟩ := exists_isAt_first hi
    refine ⟨u, hu, fun v hv => ?_⟩
    obtain ⟨b, hb⟩ := exists_part_of_isAt hv
    rw [members_lt_iff hg hu hv ha hb, hr] at hlt
    exact (parts_lt_iff hg ha hb).1 (Nat.lt_of_lt_of_le hlt (Partition.root_le _ b))
  · rintro ⟨u, hu, hall⟩
    obtain ⟨v, b, hv, hb, hr⟩ := exists_isAt_first hj
    obtain ⟨a, ha⟩ := exists_part_of_isAt hu
    rw [members_lt_iff hg hu hv ha hb, hr]
    exact Nat.lt_of_le_of_lt (Partition.root_le _ a) ((parts_lt_iff hg ha hb).2 (hall v hv))

/-- The number of a unit is that of its group. -/
theorem getElem?_numbering {i : Nat} {u : Text} :
    (numbering (members g selected sources))[u]? = some i ↔
      IsAt (members g selected sources) i u := by
  have he : numbering (members g selected sources) =
      ((members g selected sources).zipIdx.flatMap fun (us, i) => us.map (·, i)).foldl
        (fun m c => m.insert c.1 c.2) ∅ := by
    simp only [numbering, List.foldl_flatMap, List.foldl_map]
  have hmem : ∀ c : Text × Nat,
      c ∈ (members g selected sources).zipIdx.flatMap (fun (us, i) => us.map (·, i)) ↔
        IsAt (members g selected sources) c.2 c.1 := fun c => by
    simp only [List.mem_flatMap, List.mem_map, Prod.exists, List.mem_zipIdx_iff_getElem?, IsAt]
    constructor
    · rintro ⟨us, i, hi, u, hu, rfl⟩
      exact ⟨us, hi, hu⟩
    · rintro ⟨us, hi, hu⟩
      exact ⟨us, c.2, hi, c.1, hu, rfl⟩
  rw [he, getElem?_foldl_insert_of_unique, hmem]
  rintro ⟨u, i⟩ hc ⟨v, j⟩ hd rfl
  exact members_apart hg i j u ((hmem _).1 hc) ((hmem _).1 hd)

end

/-! ## The groups of a plan -/

theorem getElem?_make {i : Nat} {G : Group} :
    (make g selected sources)[i]? = some G ↔ ∃ us, (members g selected sources)[i]? = some us ∧
      group g sources (numbering (members g selected sources)) i us = G := by
  have he : make g selected sources = (members g selected sources).zipIdx.map fun x =>
      group g sources (numbering (members g selected sources)) x.2 x.1 := rfl
  rw [he, List.getElem?_map, List.getElem?_zipIdx, Option.map_map, Option.map_eq_some_iff]
  simp only [Function.comp_apply, Nat.zero_add]

theorem length_make : (make g selected sources).length = (members g selected sources).length := by
  simp [make, members]

theorem lt_of_getElem?_make {i : Nat} {G : Group} (h : (make g selected sources)[i]? = some G) :
    i < (members g selected sources).length := by
  rw [← length_make (g := g)]
  exact (List.getElem?_eq_some_iff.1 h).1

/-- Where a unit stands there is a group. -/
theorem exists_getElem?_make {i : Nat} {u : Text} (hi : IsAt (members g selected sources) i u) :
    ∃ G, (make g selected sources)[i]? = some G := by
  have hlt : i < (make g selected sources).length := by
    rw [length_make]
    exact hi.lt_length
  exact ⟨_, List.getElem?_eq_getElem hlt⟩

/-- The units of a group, with their sources. -/
theorem getElem?_units {i : Nat} {G : Group} (h : (make g selected sources)[i]? = some G)
    {u s : Text} : G.units[u]? = some s ↔
      IsAt (members g selected sources) i u ∧ sources.getD u [] = s := by
  obtain ⟨us, hus, rfl⟩ := getElem?_make.1 h
  have he : us.foldl (fun m u => m.insert u (sources.getD u [])) (∅ : TextMap Text) =
      (us.map fun u => (u, sources.getD u [])).foldl (fun m c => m.insert c.1 c.2) ∅ := by
    rw [List.foldl_map]
  rw [group]
  simp only
  rw [he, getElem?_foldl_insert_of_unique]
  · simp only [List.mem_map, Prod.mk.injEq, IsAt, hus, Option.some.injEq, exists_eq_left']
    constructor
    · rintro ⟨v, hv, rfl, rfl⟩
      exact ⟨hv, rfl⟩
    · rintro ⟨hu, rfl⟩
      exact ⟨u, hu, rfl, rfl⟩
  · intro c hc d hd he
    obtain ⟨u, -, rfl⟩ := List.mem_map.1 hc
    obtain ⟨v, -, rfl⟩ := List.mem_map.1 hd
    exact congrArg (sources.getD · []) he

theorem mem_units {i : Nat} {G : Group} (h : (make g selected sources)[i]? = some G) {u : Text} :
    u ∈ G.units ↔ IsAt (members g selected sources) i u := by
  rw [mem_iff_exists]
  simp only [getElem?_units h]
  simp

theorem exists_mem_units_iff {i : Nat} {u : Text} :
    (∃ G : Group, (make g selected sources)[i]? = some G ∧ u ∈ G.units) ↔
      IsAt (members g selected sources) i u := by
  constructor
  · rintro ⟨G, hG, hu⟩
    exact (mem_units hG).1 hu
  · intro hi
    obtain ⟨G, hG⟩ := exists_getElem?_make hi
    exact ⟨G, hG, (mem_units hG).2 hi⟩

/-- No group is empty. -/
theorem exists_mem_units {i : Nat} {G : Group} (h : (make g selected sources)[i]? = some G) :
    ∃ u, u ∈ G.units := by
  obtain ⟨u, -, hu, -⟩ := exists_isAt_first (lt_of_getElem?_make h)
  exact ⟨u, (mem_units h).2 hu⟩

theorem mem_sources {i : Nat} {G : Group} (h : (make g selected sources)[i]? = some G)
    {s : Text} : s ∈ G.sources ↔ ∃ u ∈ G.units, sources[u]? = some s := by
  simp only [mem_units h]
  obtain ⟨us, hus, rfl⟩ := getElem?_make.1 h
  simp [group, IsAt, hus]

/-- Parts that share a source are in one group, so no source has units in two. -/
theorem eq_of_mem_sources (hg : g.WellFormed) {i j : Nat} {G H : Group}
    (hG : (make g selected sources)[i]? = some G) (hH : (make g selected sources)[j]? = some H)
    {s : Text} (hi : s ∈ G.sources) (hj : s ∈ H.sources) : i = j := by
  obtain ⟨u, hu, hs⟩ := (mem_sources hG).1 hi
  obtain ⟨v, hv, ht⟩ := (mem_sources hH).1 hj
  have hu := (mem_units hG).1 hu
  have hv := (mem_units hH).1 hv
  obtain ⟨a, ha⟩ := exists_part_of_isAt hu
  obtain ⟨b, hb⟩ := exists_part_of_isAt hv
  exact (members_eq_iff hg hu hv ha hb).2 (.rel a b ⟨u, v, s, ha, hb, hs, ht⟩)

/-- **A group needs the other groups that hold a direct dependency of one of its units.** -/
theorem mem_needs (hg : g.WellFormed) {i : Nat} {G : Group}
    (h : (make g selected sources)[i]? = some G) {d : Nat} :
    d ∈ G.needs ↔ d ≠ i ∧ ∃ u ∈ G.units, ∃ v, g.Edge u v ∧
      IsAt (members g selected sources) d v := by
  simp only [mem_units h]
  obtain ⟨us, hus, rfl⟩ := getElem?_make.1 h
  simp only [group, needs, Std.ExtTreeSet.mem_ofList, List.contains_iff_mem, List.mem_filter,
    List.mem_flatMap, List.mem_filterMap, Graph.mem_dependenciesOf hg, getElem?_numbering hg,
    IsAt, hus, Option.some.injEq, exists_eq_left', decide_eq_true_eq, ne_eq]
  exact and_comm

end Grouping

end Rebuild
