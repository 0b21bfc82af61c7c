/-
  What depends on some names in a graph that was built by adding nodes and edges.

  * `Graph.ends_marked`: wherever a search from some seeds can go on no more, it has marked what
    `Graph.marked` marks;
  * `Graph.mem_closure_build`: the closure of some names holds these, and the nodes from which the
    edges that were added lead to one that is a node.

  `Graph.closure_build` puts these together with what every sequence of additions keeps.
-/
import Rebuild.Proofs.Graph.Build
import Rebuild.Proofs.Graph.Closure

namespace Rebuild

namespace Graph

open Relation

/-- A search goes on as long as there is work. -/
theorem exists_round (g : Graph) {t : Array Bool × List Nat} (h : t.2 ≠ []) : ∃ t', g.Round t t' := by
  obtain ⟨seen, work⟩ := t
  obtain ⟨v, rest, rfl⟩ := List.exists_cons_of_ne_nil h
  exact ⟨_, .mk (.refl _) (.refl _)⟩

/-- **All searches end alike**, in whatever order they take up their work. -/
theorem ends_marked {g : Graph} (hg : g.WellFormed) {seeds : TextSet} {t : Array Bool × List Nat}
    (hrun : ReflTransGen g.Round (g.start seeds) t) (hend : ∀ t', ¬ g.Round t t') :
    t = (g.marked seeds, []) := by
  obtain ⟨seen, work⟩ := t
  have hwork : work = [] := by
    by_contra hwork
    obtain ⟨t', ht'⟩ := g.exists_round (t := (seen, work)) hwork
    exact hend t' ht'
  subst hwork
  have hsize {marks : Array Bool} (h : ReflTransGen g.Round (g.start seeds) (marks, [])) :
      marks.size = g.size := by
    obtain ⟨⟨all, hall⟩, -, -⟩ := (marking_start hg seeds).run hg h
    exact hall.size_eq
  have hmarks (v : Nat) : seen.getD v false = (g.marked seeds).getD v false :=
    Bool.eq_iff_iff.2 ((mem_marks hg hrun v).trans (mem_marked hg seeds v).symm)
  have hseen : seen = g.marked seeds := by
    refine Array.ext ((hsize hrun).trans (hsize (run_marked hg seeds)).symm) fun v hv hv' => ?_
    simpa [Array.getD, hv, hv'] using hmarks v
  rw [hseen]

/-- **The closure of some names** holds these, and the nodes that depend on a node among them. -/
theorem mem_closure_build (additions : List Addition) {seeds : TextSet} {name : Text} :
    name ∈ (build additions).closure seeds ↔ name ∈ seeds ∨
      (∃ a ∈ additions, name ∈ a.names) ∧ ∃ s ∈ seeds, (∃ a ∈ additions, s ∈ a.names) ∧
        ReflTransGen (fun u d => .edge u d ∈ additions) name s := by
  obtain ⟨hwell, hnode, hedge⟩ := build_spec additions
  have hrel : (build additions).Edge = fun u d => .edge u d ∈ additions :=
    funext fun u => funext fun d => propext (hedge u d)
  simp only [← hnode, mem_closure hwell, ← hrel]
  constructor
  · rintro ⟨s, hs, hpath⟩
    rcases hpath.cases_head with rfl | ⟨_, hfirst, -⟩
    · exact Or.inl hs
    rcases hpath.cases_tail with rfl | ⟨_, -, hlast⟩
    · exact Or.inl hs
    · exact Or.inr ⟨hfirst.contains_left, s, hs, hlast.contains_right, hpath⟩
  · rintro (hs | ⟨-, s, hs, -, hpath⟩)
    · exact ⟨name, hs, .refl⟩
    · exact ⟨s, hs, hpath⟩

/-- **The dependents of some names in a graph that was built.**  Names and numbers stay inverse to
    one another, and the dependents the converse of the dependencies.  No order of rounds of the
    search goes on forever, and all of them end with the same marks.  The closure is the names
    themselves, and every node from which the edges that were added lead to one of them. -/
theorem closure_build (additions : List Addition) (seeds : TextSet) :
    (build additions).WellFormed ∧
    Acc (fun t s => (build additions).Round s t) ((build additions).start seeds) ∧
    (∀ t, ReflTransGen (build additions).Round ((build additions).start seeds) t →
      (∀ t', ¬ (build additions).Round t t') → t = ((build additions).marked seeds, [])) ∧
    ∀ name, name ∈ (build additions).closure seeds ↔ name ∈ seeds ∨
      (∃ a ∈ additions, name ∈ a.names) ∧ ∃ s ∈ seeds, (∃ a ∈ additions, s ∈ a.names) ∧
        ReflTransGen (fun u d => .edge u d ∈ additions) name s := by
  obtain ⟨hwell, -, -⟩ := build_spec additions
  exact ⟨hwell, (marking_start hwell seeds).acc hwell, fun t => ends_marked hwell,
    fun name => mem_closure_build additions⟩

/-- Two nodes that depend on each other, and one by itself. -/
def mutualAndAlone : List Addition := [.edge "A" "B", .edge "B" "A", .node "C"]

/-- A node of the two, and a name that is no node. -/
def nodeAndAbsent : TextSet := TextSet.ofTexts ["A", "X"]

theorem closure_build_mutualAndAlone :
    ReflTransGen (build mutualAndAlone).Round ((build mutualAndAlone).start nodeAndAbsent)
        (#[true, true, false], []) ∧
      #[true, true, false] = (build mutualAndAlone).marked nodeAndAbsent ∧
      Text.ofString "B" ∈ (build mutualAndAlone).closure nodeAndAbsent ∧
      Text.ofString "X" ∈ (build mutualAndAlone).closure nodeAndAbsent ∧
      Text.ofString "C" ∉ (build mutualAndAlone).closure nodeAndAbsent := by
  obtain ⟨-, -, hends, hclosure⟩ := closure_build mutualAndAlone nodeAndAbsent
  have hrun : ReflTransGen (build mutualAndAlone).Round
      ((build mutualAndAlone).start nodeAndAbsent) (#[true, true, false], []) :=
    .tail (.single (.mk (.refl [0]) (.refl [1]))) (.mk (.refl [1]) (.refl []))
  have hend (t) : ¬ (build mutualAndAlone).Round (#[true, true, false], []) t := by
    rintro ⟨htaken, -⟩
    exact List.cons_ne_nil _ _ htaken.nil_eq.symm
  have hmarks := congrArg Prod.fst (hends _ hrun hend)
  simp only [hclosure]
  have hA : Text.ofString "A" ∈ nodeAndAbsent := by decide
  have hX : Text.ofString "X" ∈ nodeAndAbsent := by decide
  refine ⟨hrun, hmarks, Or.inr ⟨⟨.edge "A" "B", by decide, by decide⟩, "A", hA,
    ⟨.edge "A" "B", by decide, by decide⟩, .single (by decide)⟩, Or.inl hX, ?_⟩
  rintro (h | ⟨-, s, hs, -, hpath⟩)
  · exact absurd h (by decide)
  · rcases hpath.cases_head with rfl | ⟨d, hd, -⟩
    · exact absurd hs (by decide)
    · simp only [mutualAndAlone, List.mem_cons, Addition.edge.injEq, reduceCtorEq, List.not_mem_nil,
        or_false] at hd
      rcases hd with ⟨h, -⟩ | ⟨h, -⟩ <;> exact absurd h (by decide)

end Graph

end Rebuild
