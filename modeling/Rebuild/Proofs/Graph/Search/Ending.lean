/-
  A search without a bound on its steps.

  * `Search.Ends`: what comes of taking steps for as long as a frame is left;
  * `Search.Visits`: what comes of searching from some roots one after the other, each until
    no frame is left;
  * `search_visits`: the search for components is this, so its bound cuts nothing off.
-/
import Rebuild.Proofs.Graph.Components

namespace Rebuild

namespace Search

variable {g : Graph} {s s' : Search} {root : Nat} {roots : List Nat}

/-- Steps are taken for as long as a frame is left. -/
inductive Ends (g : Graph) : Search → Search → Prop
  | done {s : Search} : s.frames = [] → Ends g s s
  | step {s s' : Search} : s.frames ≠ [] → Ends g (s.step g) s' → Ends g s s'

/-- Searches begin at the roots that were not entered before, one after the other. -/
inductive Visits (g : Graph) : List Nat → Search → Search → Prop
  | nil {s : Search} : Visits g [] s s
  | old {root : Nat} {roots : List Nat} {s s' : Search} :
      s.entry root ≠ none → Visits g roots s s' → Visits g (root :: roots) s s'
  | new {root : Nat} {roots : List Nat} {s next s' : Search} :
      s.entry root = none → Ends g (s.enter root (g.next root).toList) next →
      Visits g roots next s' → Visits g (root :: roots) s s'

/-- Steps within a bound that leave no frame are all there are. -/
theorem ends_run (n : Nat) (h : (run g n s).frames = []) : Ends g s (run g n s) := by
  induction n generalizing s with
  | zero => exact .done h
  | succ n ih =>
    by_cases hf : s.frames = []
    · have hr : run g (n + 1) s = s := by simp [run, hf]
      rw [hr]
      exact .done hf
    · have hr : run g (n + 1) s = run g n (s.step g) := by simp [run, hf]
      rw [hr] at h ⊢
      exact .step hf (ih h)

theorem Visits.visit {bound : Nat} (h : (s.visit g bound root).frames = [])
    (hrest : Visits g roots (s.visit g bound root) s') : Visits g (root :: roots) s s' := by
  unfold Search.visit at h hrest
  split at h
  · next t he =>
    simp only [he] at hrest
    exact .old (by simp [he]) hrest
  · next he =>
    simp only [he] at hrest
    exact .new he (ends_run bound h) hrest

theorem foldl_visits (hg : g.WellFormed) (hs : Valid g s) (hf : s.frames = [])
    (hroots : ∀ v ∈ roots, v < g.size) :
    Visits g roots s (roots.foldl (fun s root => s.visit g g.extent root) s) := by
  induction roots generalizing s with
  | nil => exact .nil
  | cons root roots ih =>
    obtain ⟨hvalid, hframes, -, -⟩ := visit_spec hg hs hf (hroots root List.mem_cons_self)
    exact Visits.visit hframes
      (ih hvalid hframes fun v hv => hroots v (List.mem_cons_of_mem root hv))

end Search

/-- **The search for components ends**: it is what the search from each root in turn comes to. -/
theorem Graph.search_visits {g : Graph} (hg : g.WellFormed) :
    Search.Visits g g.roots (.start g.size) g.search := by
  rw [search_eq]
  exact Search.foldl_visits hg (Search.start_valid g) rfl fun v => (mem_roots hg).1

end Rebuild
