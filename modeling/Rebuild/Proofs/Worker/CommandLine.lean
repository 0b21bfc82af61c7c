/-
  The time limit that a worker takes from its command line.

  * `WorkerMode.Accepts`: the texts that are taken for a time limit, which are the empty one and
    the numerals that are not negative, of any length;
  * `WorkerMode.limitOf`: what becomes of such an integer.  It is brought into a word of 64 bits,
    of which the last 32 count, so it stays what it is only as long as 32 bits have room for it
    (`limitOf_eq_iff`);
  * `WorkerMode.ofArgumentsFrom_eq_serve_iff` and `ofArgumentsFrom_eq_refuse_iff`: the arguments
    that a worker serves with, and those of which it refuses one.

  `Machine.worker_limit` says when a worker ends with code 2, and which limit it has if it serves.
-/
import Mathlib.Tactic.Common
import Rebuild.Proofs.Numeral
import Rebuild.Worker.CommandLine

namespace Rebuild

open Numeral

/-! ## Codes of the loop -/

namespace WorkerLoop

variable {σ : Type} {handler : Handler σ} {state : σ} {s : Inflow} {code : Nat}

theorem code_le_of_turn (h : turn handler state s = .ended code) : code ≤ 1 := by
  unfold turn at h
  split at h
  · cases h
  · cases h
    exact Nat.zero_le 1
  · cases h
    exact Nat.le_refl 1
  · split at h
    · cases h
      exact Nat.le_refl 1
    · split at h
      · cases h
        exact Nat.zero_le 1
      · cases h

/-- The loop ends with code 0 or 1. -/
theorem code_le_of_serve {outputOpen : Bool}
    (h : (serve handler outputOpen state s).code = some code) : code ≤ 1 := by
  fun_induction serve handler outputOpen state s with
  | case1 => cases h
  | case2 state s code' hturn =>
    cases h
    exact code_le_of_turn hturn
  | case3 state s payload r state' rest hturn hwritten trace ih => exact ih h
  | case4 =>
    cases h
    exact Nat.le_refl 1

end WorkerLoop

namespace WorkerMode

variable {args as : List Text} {a t : Text} {limit start : Int}

/-! ## Texts of limits -/

/-- The texts that are taken for a time limit. -/
def Accepts (t : Text) : Prop := t = [] ∨ ∃ negative m, Spells t negative m ∧ 0 ≤ intOf negative m

/-- The limit that an integer becomes: the last 32 bits of the nearest one in a word. -/
def limitOf (z : Int) : Int := (Int32.ofInt (min z Int64.maxValue.toInt)).toInt

/-- An integer that is not negative stays what it is as long as 32 bits have room for it. -/
theorem limitOf_eq_iff {z : Int} (h : 0 ≤ z) : limitOf z = z ↔ z ≤ Int32.maxValue.toInt := by
  have hword : Int64.maxValue.toInt = 2 ^ 63 - 1 := rfl
  have hhalf : Int32.maxValue.toInt = 2 ^ 31 - 1 := rfl
  rw [limitOf, hword, hhalf]
  constructor
  · intro hz
    have hlt := Int32.toInt_lt (Int32.ofInt (min z (2 ^ 63 - 1)))
    omega
  · intro hz
    rw [Int.min_eq_left (by omega)]
    exact Int32.toInt_ofInt_of_le (by omega) (by omega)

/-- A text makes this the limit. -/
def Sets (t : Text) (limit : Int) : Prop :=
  t = [] ∧ limit = 0 ∨
    ∃ negative m, Spells t negative m ∧ 0 ≤ intOf negative m ∧ limit = limitOf (intOf negative m)

theorem limit?_eq_some_iff : limit? t = some limit ↔ Sets t limit := by
  unfold limit? Sets
  split_ifs with hempty
  · have hspells (h : ∃ negative m, Spells t negative m ∧ 0 ≤ intOf negative m ∧
        limit = limitOf (intOf negative m)) : False := by
      obtain ⟨_, _, h, -⟩ := h
      exact h.ne_nil hempty
    rw [or_iff_left hspells, and_iff_right hempty, Option.some.injEq, eq_comm]
  · rw [or_iff_right fun h => hempty h.1]
    simp only [← read?_eq_some_iff]
    constructor
    · intro h
      cases hread : read? t with
      | none =>
        rw [hread] at h
        cases h
      | some n =>
        simp only [hread, Option.ite_none_right_eq_some, Option.some.injEq] at h
        obtain ⟨⟨hrest, hnonneg⟩, rfl⟩ := h
        rw [clamped_nonneg_iff] at hnonneg
        refine ⟨n.negative, n.magnitude, by rw [← hrest], hnonneg, ?_⟩
        rw [clamped_of_nonneg hnonneg, limitOf]
    · rintro ⟨negative, m, hread, hnonneg, rfl⟩
      have hclamped := clamped_nonneg_iff (n := ⟨negative, m, []⟩).2 hnonneg
      simp only [hread]
      rw [if_pos ⟨trivial, hclamped⟩, clamped_of_nonneg hnonneg, limitOf]

theorem accepts_iff : Accepts t ↔ ∃ limit, Sets t limit := by
  unfold Accepts Sets
  constructor
  · rintro (ht | ⟨negative, m, hspells, hnonneg⟩)
    · exact ⟨0, Or.inl ⟨ht, rfl⟩⟩
    · exact ⟨_, Or.inr ⟨negative, m, hspells, hnonneg, rfl⟩⟩
  · rintro ⟨limit, ⟨ht, -⟩ | ⟨negative, m, hspells, hnonneg, -⟩⟩
    · exact Or.inl ht
    · exact Or.inr ⟨negative, m, hspells, hnonneg⟩

theorem limit?_eq_none_iff : limit? t = none ↔ ¬ Accepts t := by
  rw [accepts_iff, Option.eq_none_iff_forall_ne_some, not_exists]
  exact forall_congr' fun limit => not_congr limit?_eq_some_iff

/-! ## Arguments -/

/-- An argument that is refused: one of a time limit that is not accepted. -/
def Refused (a : Text) : Prop := ∃ t, Text.after? limitOption a = some t ∧ ¬ Accepts t

/-- An argument that ends the reading. -/
def Ends (a : Text) : Prop := (a = "--help" ∨ a = "-h") ∨ a = "--version" ∨ Refused a

/-- The texts of the time limits, in order. -/
def limitTexts (args : List Text) : List Text := args.filterMap (Text.after? limitOption)

/-- The limit behind the arguments: that of the last text, if there is one. -/
def Leaves (start : Int) (args : List Text) (limit : Int) : Prop :=
  match (limitTexts args).getLast? with
  | none => limit = start
  | some t => Sets t limit

theorem leaves_cons_of_none (h : Text.after? limitOption a = none) :
    Leaves start (a :: as) limit ↔ Leaves start as limit := by
  rw [Leaves, limitTexts, List.filterMap_cons_none h]
  rfl

theorem leaves_cons_of_some {next : Int} (h : Text.after? limitOption a = some t)
    (hnext : limit? t = some next) : Leaves start (a :: as) limit ↔ Leaves next as limit := by
  rw [Leaves, limitTexts, List.filterMap_cons_some h, List.getLast?_cons, ← limitTexts, Leaves]
  cases (limitTexts as).getLast? with
  | none =>
    simp only [Option.getD_none]
    rw [← limit?_eq_some_iff, hnext, Option.some.injEq, eq_comm]
  | some last => rfl

/-- **One argument**: it ends the reading, or the reading goes on with the limit behind it. -/
theorem ofArgumentsFrom_cons (start : Int) (a : Text) (as : List Text) :
    (¬ Ends a ∧ ∃ next, ofArgumentsFrom start (a :: as) = ofArgumentsFrom next as ∧
      ∀ limit, Leaves start (a :: as) limit ↔ Leaves next as limit) ∨
    (Refused a ∧ ofArgumentsFrom start (a :: as) = refuse a) ∨
    (Ends a ∧ ¬ Refused a ∧ (ofArgumentsFrom start (a :: as) = usage ∨
      ofArgumentsFrom start (a :: as) = version)) := by
  have hnone (h : Text.after? limitOption a = none) : ¬ Refused a := by
    rintro ⟨t, ht, -⟩
    rw [h] at ht
    cases ht
  by_cases hhelp : a = "--help" ∨ a = "-h"
  · have hafter : Text.after? limitOption a = none := by rcases hhelp with rfl | rfl <;> decide
    exact Or.inr (Or.inr ⟨Or.inl hhelp, hnone hafter, Or.inl (by rw [ofArgumentsFrom, if_pos hhelp])⟩)
  by_cases hversion : a = "--version"
  · have hafter : Text.after? limitOption a = none := by rw [hversion]; decide
    exact Or.inr (Or.inr ⟨Or.inr (Or.inl hversion), hnone hafter,
      Or.inr (by rw [ofArgumentsFrom, if_neg hhelp, if_pos hversion])⟩)
  have hends : Ends a ↔ Refused a := by rw [Ends, or_iff_right hhelp, or_iff_right hversion]
  rw [ofArgumentsFrom, if_neg hhelp, if_neg hversion]
  cases hafter : Text.after? limitOption a with
  | none =>
    exact Or.inl ⟨fun h => hnone hafter (hends.1 h), start, rfl, fun _ => leaves_cons_of_none hafter⟩
  | some t =>
    cases hlimit : limit? t with
    | none => exact Or.inr (Or.inl ⟨⟨t, hafter, limit?_eq_none_iff.1 hlimit⟩, by simp only [hlimit]⟩)
    | some next =>
      refine Or.inl ⟨fun h => ?_, next, by simp only [hlimit], fun _ =>
        leaves_cons_of_some hafter hlimit⟩
      obtain ⟨t', ht', hrefused⟩ := hends.1 h
      rw [hafter] at ht'
      cases ht'
      rw [← limit?_eq_none_iff, hlimit] at hrefused
      cases hrefused

/-- **The arguments that a worker serves with**: none of them ends the reading.  The last time
    limit counts. -/
theorem ofArgumentsFrom_eq_serve_iff : ofArgumentsFrom start args = serve limit ↔
    (∀ a ∈ args, ¬ Ends a) ∧ Leaves start args limit := by
  induction args generalizing start with
  | nil =>
    rw [ofArgumentsFrom, serve.injEq, eq_comm]
    exact (and_iff_right nofun).symm
  | cons a as ih =>
    rw [List.forall_mem_cons]
    obtain ⟨hgoes, next, hrest, hleaves⟩ | ⟨hrefused, hrest⟩ | ⟨hends, -, hrest⟩ :=
      ofArgumentsFrom_cons start a as
    · rw [hrest, ih, hleaves, and_iff_right hgoes]
    · have hends : Ends a := Or.inr (Or.inr hrefused)
      simp [hrest, hends]
    · rcases hrest with hrest | hrest <;> simp [hrest, hends]

theorem exists_leaves (h : ∀ a ∈ args, ¬ Ends a) (start : Int) : ∃ limit, Leaves start args limit := by
  unfold Leaves
  cases hlast : (limitTexts args).getLast? with
  | none => exact ⟨start, rfl⟩
  | some t =>
    obtain ⟨a, ha, hafter⟩ := List.mem_filterMap.1 (List.mem_of_getLast? hlast)
    rw [← accepts_iff]
    by_contra hrefused
    exact h a ha (Or.inr (Or.inr ⟨t, hafter, hrefused⟩))

/-- Some argument is refused before another one ends the reading. -/
def RefusedIn (args : List Text) : Prop :=
  ∃ before a after, args = before ++ a :: after ∧ (∀ b ∈ before, ¬ Ends b) ∧ Refused a

theorem refusedIn_cons : RefusedIn (a :: as) ↔ Refused a ∨ ¬ Ends a ∧ RefusedIn as := by
  constructor
  · rintro ⟨before, b, after, heq, hbefore, hrefused⟩
    cases before with
    | nil =>
      cases heq
      exact Or.inl hrefused
    | cons c before =>
      cases heq
      rw [List.forall_mem_cons] at hbefore
      exact Or.inr ⟨hbefore.1, before, b, after, rfl, hbefore.2, hrefused⟩
  · rintro (hrefused | ⟨hgoes, before, b, after, rfl, hbefore, hrefused⟩)
    · exact ⟨[], a, as, rfl, nofun, hrefused⟩
    · exact ⟨a :: before, b, after, rfl, List.forall_mem_cons.2 ⟨hgoes, hbefore⟩, hrefused⟩

/-- **The arguments of which a worker refuses one.** -/
theorem ofArgumentsFrom_eq_refuse_iff :
    (∃ a, ofArgumentsFrom start args = refuse a) ↔ RefusedIn args := by
  induction args generalizing start with
  | nil => simp [ofArgumentsFrom, RefusedIn]
  | cons a as ih =>
    rw [refusedIn_cons]
    obtain ⟨hgoes, next, hrest, -⟩ | ⟨hrefused, hrest⟩ | ⟨hends, hkept, hrest⟩ :=
      ofArgumentsFrom_cons start a as
    · have hkept : ¬ Refused a := fun h => hgoes (Or.inr (Or.inr h))
      rw [hrest, ih, or_iff_right hkept, and_iff_right hgoes]
    · simp [hrest, hrefused]
    · rcases hrest with hrest | hrest <;> simp [hrest, hends, hkept]

end WorkerMode

namespace Machine

open WorkerMode

variable (m : Machine) (process stamp : Text) (args : List Text) (s : Inflow)

/-- A worker that serves does not end with code 2. -/
theorem serve_code_ne (limit : Int) : (m.serve process stamp args limit s).code ≠ some 2 := by
  intro h
  rw [serve] at h
  split at h
  · cases h
  · next hcode =>
    cases h
    exact absurd (WorkerLoop.code_le_of_serve hcode) (by decide)

theorem worker_code_iff : (m.worker process stamp args s).code = some 2 ↔ RefusedIn args := by
  have hrefuse : (∃ a, ofArguments args = refuse a) ↔ RefusedIn args := ofArgumentsFrom_eq_refuse_iff
  rw [← hrefuse, worker]
  cases ofArguments args with
  | usage => simp
  | version => simp
  | refuse a => simp
  | serve limit => simpa using serve_code_ne m process stamp args s limit

/-- **The time limit of a worker.**  It ends with code 2 exactly if the text of a time limit is
    refused before another argument ends the reading, and it serves exactly if no argument ends it.
    Then the last time limit counts: an empty text stands for zero, and any other is a numeral that
    is not negative, of which the limit is the last 32 bits of the nearest integer in a word.  That
    is the integer itself exactly as long as 32 bits have room for it. -/
theorem worker_limit :
    ((m.worker process stamp args s).code = some 2 ↔ RefusedIn args) ∧
    ((∃ limit, ofArguments args = .serve limit) ↔ ∀ a ∈ args, ¬ Ends a) ∧
    ∀ limit, ofArguments args = .serve limit →
      m.worker process stamp args s = m.serve process stamp args limit s ∧
      (limitTexts args = [] → limit = 0) ∧
      ∀ t, (limitTexts args).getLast? = some t → t = [] ∧ limit = 0 ∨
        ∃ negative k, Spells t negative k ∧ 0 ≤ intOf negative k ∧
          limit = limitOf (intOf negative k) ∧
          (limit = intOf negative k ↔ intOf negative k ≤ Int32.maxValue.toInt) := by
  refine ⟨worker_code_iff m process stamp args s, ?_, fun limit hserve => ⟨?_, ?_, ?_⟩⟩
  · simp only [ofArguments, ofArgumentsFrom_eq_serve_iff, exists_and_left]
    exact ⟨And.left, fun h => ⟨h, exists_leaves h 0⟩⟩
  · rw [worker, hserve]
  · intro hnone
    have hleaves := (ofArgumentsFrom_eq_serve_iff.1 hserve).2
    rwa [Leaves, hnone] at hleaves
  · intro t hlast
    have hleaves := (ofArgumentsFrom_eq_serve_iff.1 hserve).2
    rw [Leaves, hlast] at hleaves
    rcases hleaves with hempty | ⟨negative, k, hspells, hnonneg, rfl⟩
    · exact Or.inl hempty
    · exact Or.inr ⟨negative, k, hspells, hnonneg, rfl, limitOf_eq_iff hnonneg⟩

/-- A machine that can execute nothing. -/
def bare : Machine := { tree := .start, programs := ⟨fun _ _ _ _ => .error .noEntry⟩ }

/-- Two time limits, of which the second one counts. -/
def limitedTwice : List Text := ["--command-timeout-ms=9", "-v", "--command-timeout-ms= +80"]

theorem worker_limit_limitedTwice :
    ofArguments limitedTwice = .serve 80 ∧ (limitTexts limitedTwice).getLast? = some " +80" ∧
      bare.worker "1" "00:00:00.000" limitedTwice ⟨[], true⟩ =
        bare.serve "1" "00:00:00.000" limitedTwice 80 ⟨[], true⟩ ∧
      Spells " +80" false 80 ∧ (80 : Int) = intOf false 80 := by
  have hserve : ofArguments limitedTwice = .serve 80 := by decide
  have hlast : (limitTexts limitedTwice).getLast? = some " +80" := by decide
  have hspells : Spells " +80" false 80 := read?_eq_some_iff.1 (by decide)
  obtain ⟨-, -, hlimit⟩ := worker_limit bare "1" "00:00:00.000" limitedTwice ⟨[], true⟩
  obtain ⟨hworker, -, htexts⟩ := hlimit 80 hserve
  obtain ⟨hempty, -⟩ | ⟨negative, k, hk, -, -, hexact⟩ := htexts _ hlast
  · exact absurd hempty (by decide)
  · obtain ⟨rfl, rfl⟩ := hk.unique hspells
    exact ⟨hserve, hlast, hworker, hspells, hexact.2 (by decide)⟩

/-- **A limit that 32 bits have no room for is not refused**: the worker serves with one that is
    negative, and so with none at all. -/
theorem limit_beyond_room :
    Spells "2147483648" false 2147483648 ∧
      ofArguments ["--command-timeout-ms=2147483648"] = .serve (-2147483648) ∧
      (bare.worker "1" "00:00:00.000" ["--command-timeout-ms=2147483648"]
        ⟨[], true⟩).code ≠ some 2 := by
  have hserve : ofArguments ["--command-timeout-ms=2147483648"] = .serve (-2147483648) := by decide
  refine ⟨read?_eq_some_iff.1 (by decide), hserve, ?_⟩
  rw [worker, hserve]
  exact serve_code_ne _ _ _ _ _ _

end Machine

end Rebuild
