/-
  In which order the groups of a plan come.

  * `groups_ordered_iff`: every group comes after the groups it needs exactly when each of these
    has a unit in a component listed before all components of the group;
  * the order can be broken: a group takes the place of its first component, and a source
    can join components that stand far apart.
-/
import Rebuild.Proofs.Plan.Groups

namespace Rebuild

open Relation

variable {roots : Roots} {policy : Policy} {loaded : LoadOutcome} {current : Snapshots}
  {a : Analysis} {plan : Plan}

/-- Every group comes after the groups it needs. -/
def Ordered (groups : List Group) : Prop :=
  ∀ (i : Nat) (G : Group), groups[i]? = some G → ∀ d ∈ G.needs, d < i

namespace Grouping

variable {g : Graph} {selected : TextSet} {sources : TextMap Text}

/-- What a unit of a group depends on, in another group, is in an earlier component. -/
theorem before_of_edge (hg : g.WellFormed) {i j : Nat} {u v : Text} (hij : i ≠ j)
    (hu : IsAt (members g selected sources) i u) (hv : IsAt (members g selected sources) j v)
    (he : g.Edge u v) : g.Before v u := by
  refine (he.before hg).resolve_left ?_
  rintro ⟨c, ⟨us, hc, huc⟩, ⟨vs, hd, hvc⟩⟩
  obtain rfl : us = vs := Option.some.inj (hc.symm.trans hd)
  obtain ⟨a, ha⟩ := exists_part_of_isAt hu
  obtain ⟨b, hb⟩ := exists_part_of_isAt hv
  have hmutual := (Graph.mem_component_iff hg (List.mem_of_getElem? hc) huc).1 hvc
  have hab : a = b := (parts_eq_iff hg ha hb).2 hmutual
  exact hij ((members_eq_iff hg hu hv ha hb).2 (hab ▸ .refl a))

/-- Where sources join no two components, the units of a group are in one part. -/
theorem eq_of_share (hg : g.WellFormed) {a b : Nat}
    (hsrc : ∀ i u v s, IsAt (members g selected sources) i u →
      IsAt (members g selected sources) i v → sources[u]? = some s → sources[v]? = some s →
      ReflTransGen g.Edge u v ∧ ReflTransGen g.Edge v u)
    (hab : EqvGen (Share sources (parts g selected)) a b) : a = b := by
  induction hab with
  | rel x y h =>
    obtain ⟨u, v, s, hu, hv, hs, ht⟩ := id h
    obtain ⟨i, hi⟩ : ∃ i, IsAt (members g selected sources) i u :=
      (exists_isAt_members hg).2 ((exists_isAt_parts hg).1 ⟨x, hu⟩)
    obtain ⟨j, hj⟩ : ∃ j, IsAt (members g selected sources) j v :=
      (exists_isAt_members hg).2 ((exists_isAt_parts hg).1 ⟨y, hv⟩)
    have hij := (members_eq_iff hg hi hj hu hv).2 (.rel x y h)
    exact (parts_eq_iff hg hu hv).2 (hsrc i u v s hi (hij ▸ hj) hs ht)
  | refl => rfl
  | symm _ _ _ ih => exact ih.symm
  | trans _ _ _ _ _ ih₁ ih₂ => exact ih₁.trans ih₂

/-- **The groups are ordered** when each group that is needed starts in an earlier component
    than the one that needs it. -/
theorem make_ordered_iff (hg : g.WellFormed) : Ordered (make g selected sources) ↔
    ∀ (i j : Nat) (G H : Group), (make g selected sources)[i]? = some G →
      (make g selected sources)[j]? = some H → i ≠ j →
      ∀ u ∈ G.units, ∀ v ∈ H.units, g.Edge u v → ∃ w ∈ H.units, ∀ x ∈ G.units, g.Before w x := by
  constructor
  · intro hord i j G H hG hH hij u hu v hv he
    have hd : j ∈ G.needs :=
      (mem_needs hg hG).2 ⟨hij.symm, u, hu, v, he, (mem_units hH).1 hv⟩
    obtain ⟨w, hw, hall⟩ := (members_lt_iff_before hg (lt_of_getElem?_make hH)
      (lt_of_getElem?_make hG)).1 (hord i G hG j hd)
    exact ⟨w, (mem_units hH).2 hw, fun x hx => hall x ((mem_units hG).1 hx)⟩
  · intro hall i G hG d hd
    obtain ⟨hdi, u, hu, v, he, hv⟩ := (mem_needs hg hG).1 hd
    obtain ⟨H, hH, hvH⟩ := exists_mem_units_iff.2 hv
    obtain ⟨w, hw, hb⟩ := hall i d G H hG hH hdi.symm u hu v hvH he
    refine (members_lt_iff_before hg hv.lt_length (lt_of_getElem?_make hG)).2
      ⟨w, (mem_units hH).1 hw, ?_⟩
    exact fun x hx => hb x ((mem_units hG).2 hx)

/-- **The groups are ordered** when no source has units in two components. -/
theorem make_ordered (hg : g.WellFormed)
    (hsrc : ∀ i u v s, IsAt (members g selected sources) i u →
      IsAt (members g selected sources) i v → sources[u]? = some s → sources[v]? = some s →
      ReflTransGen g.Edge u v ∧ ReflTransGen g.Edge v u) :
    Ordered (make g selected sources) := by
  intro i G hG d hd
  obtain ⟨hdi, u, hu, v, he, hv⟩ := (mem_needs hg hG).1 hd
  have hu := (mem_units hG).1 hu
  obtain ⟨a, ha⟩ := exists_part_of_isAt hu
  obtain ⟨b, hb⟩ := exists_part_of_isAt hv
  -- each group is one part, so its first component is that of any of its units
  have hroot : ∀ c, (partition sources (parts g selected)).root c = c := fun c =>
    eq_of_share hg hsrc (root_partition.1 (Partition.root_root _ c))
  rw [members_lt_iff hg hv hu hb ha, hroot, hroot]
  exact (parts_lt_iff hg hb ha).2 (before_of_edge hg hdi.symm hu hv he)

end Grouping

/-- **Groups come after the groups they need** exactly when each of these has a unit in a
    component listed before all components of the group; they do when no source has units
    in two components. -/
theorem groups_ordered_iff (h : select roots policy loaded current = .ok plan) :
    (Ordered plan.groups ↔
      ∀ (i j : Nat) (G H : Group), plan.groups[i]? = some G → plan.groups[j]? = some H → i ≠ j →
        ∀ u ∈ G.units, ∀ v ∈ H.units, (planGraph loaded.usable? plan).Edge u v →
          ∃ w ∈ H.units, ∀ x ∈ G.units, (planGraph loaded.usable? plan).Before w x) ∧
    ((∀ G ∈ plan.groups, ∀ u v s : Text, G.units[u]? = some s → G.units[v]? = some s →
        ReflTransGen (planGraph loaded.usable? plan).Edge u v ∧
          ReflTransGen (planGraph loaded.usable? plan).Edge v u) → Ordered plan.groups) := by
  cases hu : loaded.usable? with
  | none =>
    have h0 := groups_of_no_prior hu h
    have hord : Ordered plan.groups := fun i G hG d hd => by
      rw [(h0 i G hG).2.1] at hd
      simp at hd
    refine ⟨iff_of_true hord fun i j G H hG hH hij => ?_, fun _ => hord⟩
    exact absurd ((h0 i G hG).1.trans (h0 j H hH).1.symm) hij
  | some a =>
    obtain ⟨sources, hgroups, -, -⟩ := groups_eq_make hu h
    obtain ⟨hg, -⟩ := planGraph_spec (some a) plan
    generalize planGraph (some a) plan = g at hgroups hg
    rw [hgroups]
    refine ⟨Grouping.make_ordered_iff hg, fun hsrc => Grouping.make_ordered hg ?_⟩
    intro i u v s hui hvi hs ht
    have hlt : i < (Grouping.make g plan.units sources).length := by
      rw [Grouping.length_make]
      exact hui.lt_length
    have hG := List.getElem?_eq_getElem hlt
    refine hsrc _ (List.getElem_mem hlt) u v s ((Grouping.getElem?_units hG).2 ⟨hui, ?_⟩)
      ((Grouping.getElem?_units hG).2 ⟨hvi, ?_⟩)
    · rw [Std.ExtTreeMap.getD_eq_getD_getElem?, hs, Option.getD_some]
    · rw [Std.ExtTreeMap.getD_eq_getD_getElem?, ht, Option.getD_some]

/-- Three units: `C` depends on `B` and shares its source with `A`. -/
def threeUnits : Analysis :=
  let records : List UnitRecord :=
    [{ name := "A", source := "/p/A.l" },
      { name := "B", source := "/p/B.l" },
      { name := "C", source := "/p/A.l", dependencies := TextSet.ofTexts ["B"] }]
  records.foldl (fun a r => (a.putUnit r).recordSnapshot r.source { kind := .file, modified := 1 })
    (.empty "f")

/-- Both sources were edited. -/
def threeUnitsEdited : Snapshots :=
  ["/p/A.l", "/p/B.l"].foldl (fun s path => s.insert path { kind := .file, modified := 2 }) ∅

/-- Any part of the units may be selected. -/
def wholePolicy : Policy := { fraction := Binary64.round false 1 1 }

theorem groups_ordered_iff_threeUnits : ∃ plan,
    select ⟨["/p"], "l"⟩ wholePolicy (.ofAnalysis threeUnits) threeUnitsEdited = .ok plan ∧
      (Ordered plan.groups ↔
        ∀ (i j : Nat) (G H : Group), plan.groups[i]? = some G → plan.groups[j]? = some H →
          i ≠ j → ∀ u ∈ G.units, ∀ v ∈ H.units, (planGraph (some threeUnits) plan).Edge u v →
            ∃ w ∈ H.units, ∀ x ∈ G.units, (planGraph (some threeUnits) plan).Before w x) := by
  have hkind : (select ⟨["/p"], "l"⟩ wholePolicy (.ofAnalysis threeUnits)
      threeUnitsEdited).toOption.map (·.kind) = some .incremental := by decide +kernel
  obtain ⟨plan, h, -⟩ := exists_plan hkind
  exact ⟨plan, h, (groups_ordered_iff h).1⟩

/-- **A group can come before one it needs**: `A` puts its source first, and `C` makes the
    group of that source need the one of `B`, which comes after it. -/
theorem not_ordered_threeUnits : ∃ plan,
    select ⟨["/p"], "l"⟩ wholePolicy (.ofAnalysis threeUnits) threeUnitsEdited = .ok plan ∧
      plan.kind = .incremental ∧ ¬ Ordered plan.groups := by
  have hkind : (select ⟨["/p"], "l"⟩ wholePolicy (.ofAnalysis threeUnits)
      threeUnitsEdited).toOption.map (·.kind) = some .incremental := by decide +kernel
  obtain ⟨plan, h, hk⟩ := exists_plan hkind
  have hneeds : (select ⟨["/p"], "l"⟩ wholePolicy (.ofAnalysis threeUnits)
      threeUnitsEdited).toOption.map (·.groups.map (·.needs.toList)) = some [[1], []] := by
    decide +kernel
  rw [h] at hneeds
  have hneeds : plan.groups.map (·.needs.toList) = [[1], []] := Option.some.inj hneeds
  refine ⟨plan, h, hk, fun hord => ?_⟩
  obtain ⟨G, groups, hg, hG, -⟩ := List.map_eq_cons_iff.1 hneeds
  have h1 : 1 ∈ G.needs := Std.ExtTreeSet.mem_toList.1 (by rw [hG]; simp)
  exact absurd (hord 0 G (by rw [hg]; rfl) 1 h1) (by decide)

end Rebuild
