/-
  A partition through any calls.

  Finding changes the pointers along which it walks, so that it ends is a matter of what all calls
  keep: no number points at a larger one.

  * `Round` is one round of a search on the bare pointers, and `Forest` what it keeps; every round
    leads to a smaller number (`Forest.round`), so a search ends (`Forest.acc`), and it ends with
    what `Partition.find` gives (`ends_find`);
  * `root_run_eq_iff`: after any calls the first numbers are equal for numbers that the joined pairs
    connect, and for no others.

  `Partition.run_classes` puts these together.
-/
import Mathlib.Data.List.Induction
import Mathlib.Logic.Relation
import Mathlib.Order.Bounds.Defs
import Rebuild.Proofs.Partition

namespace Rebuild

namespace Partition

open Relation

/-! ## Rounds of a search -/

/-- One round of a search, from the pointers and the number before it to those behind it: a number
    that points at another is made to point two places ahead, and the search goes on there. -/
inductive Round : Array Nat × Nat → Array Nat × Nat → Prop
  | mk {parents : Array Nat} {x y z : Nat} (hx : parents[x]? = some y) (hne : y ≠ x)
      (hy : parents[y]? = some z) : Round (parents, x) (parents.setIfInBounds x z, z)

/-- Pointers of `n` numbers, none of them at a larger number. -/
structure Forest (n : Nat) (parents : Array Nat) : Prop where
  size_eq : parents.size = n
  le : ∀ x y : Nat, parents[x]? = some y → y ≤ x

namespace Forest

variable {n : Nat} {parents : Array Nat} {s t : Array Nat × Nat}

/-- **A round keeps the pointers in order** and leads to a smaller number. -/
theorem round (h : Forest n s.1) (hround : Round s t) : Forest n t.1 ∧ t.2 < s.2 := by
  obtain @⟨parents, x, y, z, hx, hne, hy⟩ := hround
  have hyx := h.le x y hx
  have hzy := h.le y z hy
  have hzx : z < x := by omega
  refine ⟨⟨by rw [Array.size_setIfInBounds, h.size_eq], fun v w hv => ?_⟩, hzx⟩
  rw [Array.getElem?_setIfInBounds] at hv
  split_ifs at hv with hxv hlt
  · obtain rfl := Option.some.inj hv
    exact hxv ▸ Nat.le_of_lt hzx
  · exact h.le v w hv

theorem rounds (h : Forest n s.1) (hrun : ReflTransGen Round s t) : Forest n t.1 ∧ t.2 ≤ s.2 := by
  induction hrun with
  | refl => exact ⟨h, Nat.le_refl _⟩
  | tail _ hround ih =>
    obtain ⟨hforest, hle⟩ := ih
    obtain ⟨hforest', hlt⟩ := hforest.round hround
    exact ⟨hforest', by omega⟩

/-- **No search goes on forever.** -/
theorem acc (h : Forest n parents) (x : Nat) : Acc (fun t s => Round s t) (parents, x) := by
  induction x using Nat.strongRecOn generalizing parents with
  | ind x ih =>
    refine ⟨_, fun t hround => ?_⟩
    obtain ⟨hforest, hlt⟩ := h.round hround
    exact ih t.2 hlt hforest

end Forest

variable {p : Partition} {n x y z : Nat}

theorem getElem?_parents (hx : x < p.parents.size) : p.parents[x]? = some (p.parent x) := by
  rw [parent, Array.getD_eq_getD_getElem?, Array.getElem?_eq_getElem hx, Option.getD_some]

theorem parent_eq_of_getElem? (h : p.parents[x]? = some y) : p.parent x = y := by
  rw [parent, Array.getD_eq_getD_getElem?, h, Option.getD_some]

theorem forest (p : Partition) : Forest p.parents.size p.parents :=
  ⟨rfl, fun x _ h => parent_eq_of_getElem? h ▸ p.parent_le x⟩

/-- A search goes on from every number that points at another. -/
theorem exists_round (hx : x < p.parents.size) (hne : p.parent x ≠ x) :
    ∃ t, Round (p.parents, x) t := by
  have hy : p.parent x < p.parents.size := Nat.lt_of_le_of_lt (p.parent_le x) hx
  exact ⟨_, .mk (getElem?_parents hx) hne (getElem?_parents hy)⟩

/-- **A search ends with what is found**, and with the pointers that finding leaves behind. -/
theorem ends_find (hx : x < p.parents.size) {t : Array Nat × Nat}
    (hrun : ReflTransGen Round (p.parents, x) t) (hend : ∀ t', ¬ Round t t') :
    t = ((p.find x).1.parents, (p.find x).2) := by
  induction x using Nat.strongRecOn generalizing p with
  | ind x ih =>
    rcases hrun.cases_head with rfl | ⟨u, hround, hrest⟩
    · have hroot : p.parent x = x := by
        by_contra hne
        obtain ⟨t', ht'⟩ := exists_round hx hne
        exact hend t' ht'
      rw [find, dif_pos hroot]
    · obtain ⟨hparent, hne, hahead⟩ := hround
      obtain rfl := parent_eq_of_getElem? hparent
      obtain rfl := parent_eq_of_getElem? hahead
      have hlt : p.parent (p.parent x) < x := (p.forest.round (.mk hparent hne hahead)).2
      rw [find, dif_neg hne]
      refine ih _ hlt ?_ hrest
      show _ < (p.parents.setIfInBounds x _).size
      rw [Array.size_setIfInBounds]
      omega

/-! ## Calls -/

/-- What is asked of a partition. -/
inductive Call
  | find (x : Nat)
  | join (a b : Nat)

/-- The numbers that a call names. -/
def Call.numbers : Call → List Nat
  | find x => [x]
  | join a b => [a, b]

/-- The partition behind a call. -/
def call (p : Partition) : Call → Partition
  | .find x => (p.find x).1
  | .join a b => p.join a b

/-- The partition of `n` numbers behind some calls. -/
def run (n : Nat) (calls : List Call) : Partition := calls.foldl call (discrete n)

/-- Two numbers are connected by the pairs that were joined. -/
def Connected (calls : List Call) : Nat → Nat → Prop := EqvGen fun a b => .join a b ∈ calls

variable {calls : List Call} {c : Call}

theorem run_concat (n : Nat) (calls : List Call) (c : Call) :
    run n (calls ++ [c]) = (run n calls).call c := by
  rw [run, List.foldl_append]
  rfl

theorem size_call (p : Partition) (c : Call) : (p.call c).parents.size = p.parents.size := by
  cases c with
  | find x => exact size_find p x
  | join a b => exact size_join p a b

theorem size_run (n : Nat) (calls : List Call) : (run n calls).parents.size = n := by
  induction calls using List.reverseRecOn with
  | nil => exact Array.size_range
  | append_singleton calls c ih => rw [run_concat, size_call, ih]

/-- What was connected stays connected. -/
theorem Connected.concat (h : Connected calls x y) : Connected (calls ++ [c]) x y :=
  h.mono fun _ _ => List.mem_append_left [c]

theorem connected_concat_find : Connected (calls ++ [.find z]) x y ↔ Connected calls x y := by
  simp only [Connected, List.mem_append, List.mem_singleton, reduceCtorEq, or_false]

/-- Classes that hold the joined pairs hold what the pairs connect. -/
theorem Connected.root_eq (h : Connected calls x y)
    (hjoined : ∀ a b, .join a b ∈ calls → p.root a = p.root b) : p.root x = p.root y :=
  (eq_equivalence.comap p.root).eqvGen_iff.1 (h.mono hjoined)

/-- Joining adds one pair to those that are connected. -/
theorem root_join_eq_iff_connected (hp : ∀ x y, p.root x = p.root y ↔ Connected calls x y)
    {a b : Nat} (ha : a < p.parents.size) (hb : b < p.parents.size) (x y : Nat) :
    (p.join a b).root x = (p.join a b).root y ↔ Connected (calls ++ [.join a b]) x y := by
  have hab : Connected (calls ++ [.join a b]) a b :=
    .rel _ _ (List.mem_append_right _ List.mem_cons_self)
  constructor
  · intro hxy
    have hnear {v : Nat} (hv : p.root v = p.root a ∨ p.root v = p.root b) :
        Connected (calls ++ [.join a b]) v a := by
      rcases hv with hv | hv
      · exact ((hp v a).1 hv).concat
      · exact ((hp v b).1 hv).concat.trans _ _ _ (hab.symm _ _)
    rcases (root_join_eq_iff ha hb x y).1 hxy with hxy | ⟨hx, hy⟩
    · exact ((hp x y).1 hxy).concat
    · exact (hnear hx).trans _ _ _ ((hnear hy).symm _ _)
  · intro hxy
    refine hxy.root_eq fun v w hvw => (root_join_eq_iff ha hb v w).2 ?_
    rcases List.mem_append.1 hvw with hvw | hvw
    · exact Or.inl ((hp v w).2 (.rel _ _ hvw))
    · obtain ⟨rfl, rfl⟩ := Call.join.inj (List.mem_singleton.1 hvw)
      exact Or.inr ⟨Or.inl rfl, Or.inr rfl⟩

/-- **Numbers are in one class exactly if the joined pairs connect them.** -/
theorem root_run_eq_iff (h : ∀ c ∈ calls, ∀ x ∈ c.numbers, x < n) (x y : Nat) :
    (run n calls).root x = (run n calls).root y ↔ Connected calls x y := by
  induction calls using List.reverseRecOn generalizing x y with
  | nil =>
    constructor
    · intro hxy
      rw [run, List.foldl_nil, root_discrete, root_discrete] at hxy
      exact hxy ▸ .refl x
    · exact fun hxy => hxy.root_eq fun a b hab => absurd hab List.not_mem_nil
  | append_singleton calls c ih =>
    obtain ⟨hcalls, hc⟩ := List.forall_mem_append.1 h
    rw [run_concat]
    cases c with
    | find z =>
      rw [call, root_find, root_find, connected_concat_find]
      exact ih hcalls x y
    | join a b =>
      have hnumbers := hc _ List.mem_cons_self
      have hsize := size_run n calls
      have ha : a < (run n calls).parents.size := by
        rw [hsize]
        exact hnumbers a List.mem_cons_self
      have hb : b < (run n calls).parents.size := by
        rw [hsize]
        exact hnumbers b (List.mem_cons_of_mem a List.mem_cons_self)
      exact root_join_eq_iff_connected (ih hcalls) ha hb x y

/-- **What calls make of a partition.**  After any calls on numbers below `n` no number points at a
    larger one, nor does it in the middle of a search; so a search ends from wherever it begins, and
    with what is found.  The same is found for numbers that the joined pairs connect, and for no
    others, and it is the smallest of them; finding changes nothing of what is found. -/
theorem run_classes (h : ∀ c ∈ calls, ∀ x ∈ c.numbers, x < n) :
    let p := run n calls
    (∀ x < n, Acc (fun t s => Round s t) (p.parents, x) ∧
      ∀ t, ReflTransGen Round (p.parents, x) t → Forest n t.1 ∧ t.2 < n ∧
        ((∀ t', ¬ Round t t') → t = ((p.find x).1.parents, (p.find x).2))) ∧
      Forest n p.parents ∧
      (∀ x y, (p.find x).2 = (p.find y).2 ↔ Connected calls x y) ∧
      (∀ x, IsLeast {y | Connected calls x y} (p.find x).2) ∧
      ∀ x z, ((p.find x).1.find z).2 = (p.find z).2 := by
  intro p
  have hsize : p.parents.size = n := size_run n calls
  have hforest : Forest n p.parents := hsize ▸ p.forest
  have hconnected : ∀ x y, p.root x = p.root y ↔ Connected calls x y := root_run_eq_iff h
  simp only [find_snd, root_find, implies_true, and_true]
  refine ⟨fun x hx => ⟨hforest.acc x, fun t hrun => ?_⟩, hforest, hconnected, fun x => ⟨?_, ?_⟩⟩
  · obtain ⟨htree, hle⟩ := hforest.rounds hrun
    refine ⟨htree, Nat.lt_of_le_of_lt hle hx, fun hend => ?_⟩
    rw [← find_snd]
    exact ends_find (hsize ▸ hx) hrun hend
  · exact (hconnected x _).1 (p.root_root x).symm
  · intro y hy
    rw [(hconnected x y).2 hy]
    exact p.root_le y

/-- Pairs that make a chain of pointers, and a search along it, which cuts it short. -/
def chainedCalls : List Call := [.join 3 4, .join 2 3, .join 1 2, .find 4]

theorem run_classes_chained :
    (∀ c ∈ chainedCalls, ∀ x ∈ c.numbers, x < 5) ∧
      (run 5 (chainedCalls.take 3)).parents = #[0, 1, 1, 2, 3] ∧
      (run 5 chainedCalls).parents = #[0, 1, 1, 2, 2] ∧
      Acc (fun t s => Round s t) (#[0, 1, 1, 2, 2], 4) ∧
      IsLeast {y | Connected chainedCalls 4 y} 1 ∧ ¬ Connected chainedCalls 4 0 := by
  have hnumbers : ∀ c ∈ chainedCalls, ∀ x ∈ c.numbers, x < 5 := by decide
  have hparents : (run 5 chainedCalls).parents = #[0, 1, 1, 2, 2] := by decide +kernel
  have hfirst : ((run 5 chainedCalls).find 4).2 = 1 := by decide +kernel
  have halone : ((run 5 chainedCalls).find 0).2 = 0 := by decide +kernel
  obtain ⟨hends, -, hclasses, hleast, -⟩ := run_classes hnumbers
  refine ⟨hnumbers, by decide +kernel, hparents, hparents ▸ (hends 4 (by decide)).1,
    hfirst ▸ hleast 4, fun h => ?_⟩
  have heq := (hclasses 4 0).2 h
  rw [hfirst, halone] at heq
  exact absurd heq (by decide)

end Partition

end Rebuild
