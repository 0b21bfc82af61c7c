/-
  Built actions do what their expressions say, as far as they run no missing action.

  * `ActionExpr.Faults`: when an expression is run, a conversion of a missing action is reached.
    `composite` and `filter` leave a missing part out, and a conversion is the only thing that
    keeps one;
  * `ActionExpr.sift_build`: what becomes of a target is what the expression says, or nothing if
    that is reached.  A missing action as a whole counts as one that is left out, so the induction
    is on the expression without an exception.

  `ActionExpr.build_faithful` says it of running an action, of leaving out one that is known to do
  nothing, and of an item that is submitted through a filter.
-/
import Mathlib.Data.Fin.VecNotation
import Mathlib.Tactic.Common
import Rebuild.Worker.PoolRun

namespace Rebuild

namespace Action

variable {J T : Type}

theorem execute_eq_sift {a : Action J T} (h : a ≠ missing) (j : J) (t : T) :
    a.execute j t = a.sift j t := by
  cases a with
  | missing => exact absurd rfl h
  | nothing | run effect => rfl

theorem sift_of_isNoOp {a : Action J T} (h : a.isNoOp = true) (j : J) (t : T) :
    a.sift j t = some (j, t) := if_pos h

theorem ne_missing_of_isNoOp {a : Action J T} (h : ¬ a.isNoOp = true) : a ≠ missing := by
  rintro rfl
  exact h rfl

/-- A single action is run as it is, and the others one after the other. -/
theorem sift_composite (as : List (Action J T)) (j : J) (t : T) :
    (composite as).sift j t = executeAll (as.filter (!·.isNoOp)) j t := by
  unfold composite
  split
  · next h =>
    rw [h]
    rfl
  · next a h =>
    have hlive : ¬ a.isNoOp = true := by
      have ha : a ∈ as.filter (!·.isNoOp) := h ▸ List.mem_singleton_self a
      simpa using (List.mem_filter.1 ha).2
    rw [h, ← execute_eq_sift (ne_missing_of_isNoOp hlive), executeAll]
    cases a.execute j t <;> rfl
  · rfl

theorem executeAll_filter_cons (a : Action J T) (as : List (Action J T)) (j : J) (t : T) :
    executeAll ((a :: as).filter (!·.isNoOp)) j t =
      (a.sift j t).bind fun (j, t) => executeAll (as.filter (!·.isNoOp)) j t := by
  by_cases h : a.isNoOp = true
  · rw [List.filter_cons_of_neg (by simp [h]), sift_of_isNoOp h]
    rfl
  · rw [List.filter_cons_of_pos (by simp [h]), executeAll,
      execute_eq_sift (ne_missing_of_isNoOp h)]

theorem sift_filter (a : Action J T) (p : J → T → Bool) (j : J) (t : T) :
    (a.filter p).sift j t = if p j t then a.sift j t else some (j, t) := by
  unfold filter
  by_cases h : a.isNoOp = true
  · rw [if_pos h, sift_of_isNoOp h, ite_self]
    rfl
  · rw [if_neg h, ← execute_eq_sift (ne_missing_of_isNoOp h)]
    rfl

end Action

namespace ActionExpr

open Classical

variable {J : Type}

/-! ## Missing actions that are run -/

/-- A run reaches a conversion of a missing action. -/
def Faults {T : Type} : ActionExpr J T → J → T → Prop
  | missing, _, _ | nothing, _, _ | apply _, _, _ => False
  | composite parts, j, t => ∃ i : Fin _,
    let (j, t) := inOrder ((List.ofFn fun k => (parts k).meaning).take i) j t
    (parts i).Faults j t
  | filter part p, j, t => p j t = true ∧ part.Faults j t
  | transform part convert, j, t =>
    let (u, j, _) := convert j t
    part.build = .missing ∨ part.Faults j u

/-- What an expression comes to when it is run. -/
noncomputable def result {T : Type} (e : ActionExpr J T) (j : J) (t : T) : Option (J × T) :=
  if e.Faults j t then none else some (e.meaning j t)

theorem result_composite_succ {T : Type} {n : Nat} (parts : Fin (n + 1) → ActionExpr J T) (j : J)
    (t : T) : (composite parts).result j t =
      ((parts 0).result j t).bind fun (j, t) => (composite fun i => parts i.succ).result j t := by
  have hfaults : (composite parts).Faults j t ↔ (parts 0).Faults j t ∨
      (composite fun i => parts i.succ).Faults ((parts 0).meaning j t).1
        ((parts 0).meaning j t).2 := by
    simp only [Faults, Fin.exists_fin_succ, List.ofFn_succ, Fin.val_zero, List.take_zero, inOrder,
      Fin.val_succ, List.take_succ_cons]
  have hmeaning : (composite parts).meaning j t =
      (composite fun i => parts i.succ).meaning ((parts 0).meaning j t).1
        ((parts 0).meaning j t).2 := by
    simp only [meaning, List.ofFn_succ, inOrder]
  unfold result
  rw [hfaults, hmeaning]
  by_cases h : (parts 0).Faults j t
  · rw [if_pos (Or.inl h), if_pos h]
    rfl
  · rw [or_iff_right h, if_neg h]
    rfl

theorem executeAll_parts {T : Type} {n : Nat} {parts : Fin n → ActionExpr J T}
    (h : ∀ i j t, (parts i).build.sift j t = (parts i).result j t) (j : J) (t : T) :
    Action.executeAll ((List.ofFn fun i => (parts i).build).filter (!·.isNoOp)) j t =
      (composite parts).result j t := by
  induction n generalizing j t with
  | zero => simp [Action.executeAll, result, Faults, meaning, inOrder]
  | succ n ih =>
    rw [List.ofFn_succ, Action.executeAll_filter_cons, h, result_composite_succ]
    simp only [ih fun i => h i.succ]

/-- **What becomes of a target** is what the expression says, unless a conversion of a missing
    action is reached. -/
theorem sift_build {T : Type} (e : ActionExpr J T) (j : J) (t : T) :
    e.build.sift j t = e.result j t := by
  induction e generalizing j with
  | missing | nothing | apply f => exact (if_neg not_false).symm
  | composite parts ih => rw [build, Action.sift_composite, executeAll_parts ih]
  | filter part p ih =>
    rw [build, Action.sift_filter, ih, result, result, Faults, meaning]
    by_cases h : p j t = true <;> simp [h]
  | transform part convert ih =>
    by_cases h : part.build = .missing
    · simp [build, Action.transformBefore, Action.sift, Action.isNoOp, Action.execute, result,
        Faults, h]
    · change (part.build.execute _ _).map _ = _
      rw [Action.execute_eq_sift h, ih]
      by_cases hpart : part.Faults (convert j t).2.1 (convert j t).1 <;>
        simp [result, Faults, meaning, h, hpart]

/-! ## Running what was built -/

theorem result_eq_none_iff {T : Type} {e : ActionExpr J T} {j : J} {t : T} :
    e.result j t = none ↔ e.Faults j t := by
  unfold result
  split_ifs with h <;> simp [h]

theorem result_of_not_faults {T : Type} {e : ActionExpr J T} {j : J} {t : T}
    (h : ¬ e.Faults j t) : e.result j t = some (e.meaning j t) := if_neg h

/-- An expression of which the action is known to do nothing is to do nothing. -/
theorem meaning_of_isNoOp {T : Type} {e : ActionExpr J T} (h : e.build.isNoOp = true) (j : J)
    (t : T) : ¬ e.Faults j t ∧ e.meaning j t = (j, t) := by
  have hresult := sift_build e j t
  rw [Action.sift_of_isNoOp h] at hresult
  have hnot : ¬ e.Faults j t := fun hfaults => by
    rw [result_eq_none_iff.2 hfaults] at hresult
    cases hresult
  rw [result_of_not_faults hnot] at hresult
  exact ⟨hnot, (Option.some.inj hresult).symm⟩

/-- **Built actions are faithful to their expressions.**  An action that is not missing has no
    result exactly if a conversion of a missing action is reached, and else it does what the
    expression says.  If it is known to do nothing, the expression says nothing else.  So an item
    that is submitted through it goes on as the expression says, whether the action is run or left
    out. -/
theorem build_faithful :
    (∀ {T : Type} (e : ActionExpr J T) (j : J) (t : T), e.build ≠ .missing →
      (e.build.execute j t = none ↔ e.Faults j t) ∧
      (¬ e.Faults j t → e.build.execute j t = some (e.meaning j t))) ∧
    (∀ {T : Type} (e : ActionExpr J T), e.build.isNoOp = true →
      ∀ j t, ¬ e.Faults j t ∧ e.meaning j t = (j, t)) ∧
    ∀ {W : Type} (r : PoolRun W) (e : ActionExpr J Dispatch) (journal : J) (item : Item),
      ¬ e.Faults journal ⟨item, false⟩ → r.submit e.build journal item =
        (r.tasks.size, (e.meaning journal ⟨item, false⟩).1,
          r.receive (e.meaning journal ⟨item, false⟩).2) := by
  refine ⟨fun e j t hbuild => ?_, fun e h j t => meaning_of_isNoOp h j t,
    fun r e journal item hfaults => ?_⟩
  · rw [Action.execute_eq_sift hbuild, sift_build]
    exact ⟨result_eq_none_iff, result_of_not_faults⟩
  · rw [PoolRun.submit, sift_build, result_of_not_faults hfaults]
    rfl

/-- An item on its way. -/
def underway : Dispatch := ⟨⟨1, "f", "p"⟩, false⟩

/-- A filter of nothing. -/
def idle : ActionExpr (List Text) Dispatch := .filter .missing fun _ d => d.skipped

/-- Notes the fingerprints of items, behind two parts that do nothing. -/
def noting : ActionExpr (List Text) Dispatch :=
  .composite ![.missing, idle,
    .transform (.apply fun j t => (t :: j, [])) fun j d => (d.item.fingerprint, j, d)]

/-- A pool that gets no workers. -/
def unstaffed : PoolRun Unit where
  kind := ⟨fun _ _ _ _ => .error [], fun w _ _ _ => ({}, w), fun w _ _ => (none, w)⟩
  pool := .make {} 1
  world := ()

theorem build_faithful_noting :
    noting.build ≠ .missing ∧ ¬ noting.Faults [] underway ∧
      noting.build.execute [] underway = some ([underway.item.fingerprint], underway) ∧
      idle.build.isNoOp = true ∧ idle.meaning [] underway = ([], underway) ∧
      (unstaffed.submit noting.build [] underway.item).2.1 = [underway.item.fingerprint] := by
  have hbuild : noting.build ≠ .missing := nofun
  have hfaults : ¬ noting.Faults [] underway := by
    simp [noting, idle, Faults, build, Action.of, Fin.exists_fin_succ]
  obtain ⟨hexecute, hnoOp, hsubmit⟩ := build_faithful (J := List Text)
  refine ⟨hbuild, hfaults, (hexecute noting [] underway hbuild).2 hfaults, rfl,
    (hnoOp idle rfl [] underway).2, ?_⟩
  rw [hsubmit unstaffed noting [] underway.item hfaults]
  rfl

/-- A conversion of a missing action. -/
def bare : ActionExpr (List Text) Text := .transform .missing fun j t => (t, j, t)

/-- **A conversion keeps a missing action**, and running it is a fault, although the expression
    says that nothing is to be done. -/
theorem bare_faults :
    bare.build ≠ .missing ∧ bare.build.execute [] [] = none ∧ bare.meaning [] [] = ([], []) :=
  ⟨nofun, rfl, rfl⟩

end ActionExpr

end Rebuild
