/-
  The analysis: what one build leaves to the next.

      unit   -> source, dependencies, facts, artifacts
      source -> snapshot taken when it was last compiled

  * `Analysis.putUnit` and `Analysis.removeUnit` keep an index from sources to units
    beside the records; `Index.Coherent` is what they keep, and `Analysis.ext_records`
    says that two analyses with equal records are equal;
  * `Analysis.unitsOfSource` looks the units of a source up in the index.
-/
import Rebuild.Snapshot

namespace Rebuild

/-- A dependency on this name is one on every unit. -/
def wildcard : Text := "*"

/-- The fact of a unit whose output spans the whole program. -/
def wholeProgram : Text := "whole-program"

/-- What is known about a compiled unit. -/
structure UnitRecord where
  name : Text
  /-- The file that it was compiled from. -/
  source : Text
  /-- The units that it refers to. -/
  dependencies : TextSet := ∅
  /-- What it exposes to the units that refer to it. -/
  facts : TextSet := ∅
  /-- The files produced for it, in the order reported. -/
  artifacts : List Text := []
deriving DecidableEq

/-! ## The index -/

/-- The entries of each source, which are names of units.  That no unit has two of them is nothing
    that the type says. -/
abbrev Index := TextMap (List Text)

namespace Index

/-- Enters a text before the first one that does not precede it. -/
def enter (t : Text) : List Text → List Text
  | [] => [t]
  | u :: us => if u < t then u :: enter t us else t :: u :: us

/-- The entries of a source. -/
def unitsOf (i : Index) (source : Text) : List Text := i.getD source []

/-- Enters a unit under its source. -/
def add (i : Index) (source unit : Text) : Index := i.insert source (enter unit (i.unitsOf source))

/-- Takes one entry of a unit off its source, and the source out with its last entry. -/
def remove (i : Index) (source unit : Text) : Index :=
  let rest := (i.unitsOf source).erase unit
  if rest = [] then i.erase source else i.insert source rest

/-- The index belongs to the records: every record stands under its own name, every source has
    exactly its units, each of them once and in order, and no source without units is kept. -/
structure Coherent (units : TextMap UnitRecord) (i : Index) : Prop where
  name_eq : ∀ (n : Text) (r : UnitRecord), units[n]? = some r → r.name = n
  mem_iff : ∀ s n : Text, n ∈ i.unitsOf s ↔ ∃ r, units[n]? = some r ∧ r.source = s
  ascending : ∀ s : Text, (i.unitsOf s).Pairwise (· < ·)
  ne_nil : ∀ s : Text, i[s]? ≠ some []

/-! ### Entries -/

section
variable {t u : Text} {us : List Text}

@[simp] theorem mem_enter : u ∈ enter t us ↔ u = t ∨ u ∈ us := by
  induction us with
  | nil => simp [enter]
  | cons v us ih =>
    unfold enter
    split
    · simp only [List.mem_cons, ih, or_left_comm]
    · simp only [List.mem_cons]

theorem pairwise_enter (h : us.Pairwise (· < ·)) (ht : t ∉ us) : (enter t us).Pairwise (· < ·) := by
  induction us with
  | nil => exact List.pairwise_singleton _ t
  | cons v us ih =>
    obtain ⟨htv, htus⟩ := not_or.1 (mt List.mem_cons.2 ht)
    obtain ⟨hv, hus⟩ := List.pairwise_cons.1 h
    unfold enter
    split
    · next hlt =>
      refine List.pairwise_cons.2 ⟨fun u hu => ?_, ih hus htus⟩
      rcases mem_enter.1 hu with rfl | hu
      · exact hlt
      · exact hv u hu
    · next hle =>
      have hlt : t < v := Std.lt_of_le_of_ne (Std.not_lt.1 hle) htv
      refine List.pairwise_cons.2 ⟨fun u hu => ?_, h⟩
      rcases List.mem_cons.1 hu with rfl | hu
      · exact hlt
      · exact Std.lt_trans hlt (hv u hu)

theorem nodup_of_ascending (h : us.Pairwise (· < ·)) : us.Nodup := h.imp Std.ne_of_lt

/-- A list in ascending order is known by its members. -/
theorem eq_of_ascending {vs : List Text} (hu : us.Pairwise (· < ·)) (hv : vs.Pairwise (· < ·))
    (h : ∀ t, t ∈ us ↔ t ∈ vs) : us = vs := by
  refine List.Perm.eq_of_pairwise (fun a b _ _ hab hba => absurd hba (List.lt_asymm hab)) hu hv ?_
  exact (List.perm_ext_iff_of_nodup (nodup_of_ascending hu) (nodup_of_ascending hv)).2 h

end

theorem unitsOf_add (i : Index) (source unit s : Text) :
    (i.add source unit).unitsOf s =
      if source = s then enter unit (i.unitsOf source) else i.unitsOf s := by
  simp [add, unitsOf, Std.ExtTreeMap.getD_insert, Std.LawfulEqCmp.compare_eq_iff_eq]

theorem unitsOf_remove (i : Index) (source unit s : Text) :
    (i.remove source unit).unitsOf s =
      if source = s then (i.unitsOf source).erase unit else i.unitsOf s := by
  unfold remove
  by_cases h : (i.unitsOf source).erase unit = []
  · simp only [h, if_true]
    simp [unitsOf, Std.ExtTreeMap.getD_erase, Std.LawfulEqCmp.compare_eq_iff_eq]
  · simp only [h, if_false]
    simp [unitsOf, Std.ExtTreeMap.getD_insert, Std.LawfulEqCmp.compare_eq_iff_eq]

theorem mem_unitsOf_add (i : Index) (source unit s n : Text) :
    n ∈ (i.add source unit).unitsOf s ↔ (source = s ∧ unit = n) ∨ n ∈ i.unitsOf s := by
  rw [unitsOf_add]
  split
  · next h =>
    subst h
    simp [eq_comm]
  · next h => simp [h]

/-- An entry that is taken off is gone, if it was there once. -/
theorem mem_unitsOf_remove {i : Index} {source : Text} (h : (i.unitsOf source).Nodup)
    (unit s n : Text) :
    n ∈ (i.remove source unit).unitsOf s ↔ n ∈ i.unitsOf s ∧ ¬ (source = s ∧ unit = n) := by
  rw [unitsOf_remove]
  split
  · next hs =>
    subst hs
    simp [h.mem_erase_iff, and_comm, eq_comm]
  · next hs => simp [hs]

theorem ascending_add {i : Index} {source unit : Text} (h : ∀ s, (i.unitsOf s).Pairwise (· < ·))
    (hunit : unit ∉ i.unitsOf source) (s : Text) :
    ((i.add source unit).unitsOf s).Pairwise (· < ·) := by
  rw [unitsOf_add]
  split
  · exact pairwise_enter (h source) hunit
  · exact h s

theorem ascending_remove {i : Index} (h : ∀ s, (i.unitsOf s).Pairwise (· < ·))
    (source unit s : Text) : ((i.remove source unit).unitsOf s).Pairwise (· < ·) := by
  rw [unitsOf_remove]
  split
  · exact (h source).sublist List.erase_sublist
  · exact h s

theorem add_ne_nil {i : Index} (h : ∀ s : Text, i[s]? ≠ some []) (source unit s : Text) :
    (i.add source unit)[s]? ≠ some [] := by
  unfold add
  rw [Std.ExtTreeMap.getElem?_insert]
  split
  · exact fun hnil => List.ne_nil_of_mem (mem_enter.2 (.inl rfl)) (Option.some.inj hnil)
  · exact h s

theorem remove_ne_nil {i : Index} (h : ∀ s : Text, i[s]? ≠ some []) (source unit s : Text) :
    (i.remove source unit)[s]? ≠ some [] := by
  unfold remove
  by_cases he : (i.unitsOf source).erase unit = []
  · simp only [he, if_true]
    rw [Std.ExtTreeMap.getElem?_erase]
    split
    · simp
    · exact h s
  · simp only [he, if_false]
    rw [Std.ExtTreeMap.getElem?_insert]
    split
    · simpa using he
    · exact h s

/-! ### Records and entries -/

/-- Taking a recorded unit out of the records and out of the index. -/
theorem Coherent.remove {units : TextMap UnitRecord} {i : Index} (h : Coherent units i)
    {n : Text} {r : UnitRecord} (hr : units[n]? = some r) :
    Coherent (units.erase n) (i.remove r.source n) where
  name_eq m q hq := by
    rw [Std.ExtTreeMap.getElem?_erase] at hq
    split at hq
    · cases hq
    · exact h.name_eq m q hq
  mem_iff s m := by
    rw [mem_unitsOf_remove (nodup_of_ascending (h.ascending r.source)), h.mem_iff]
    simp only [Std.ExtTreeMap.getElem?_erase, Std.LawfulEqCmp.compare_eq_iff_eq]
    constructor
    · rintro ⟨⟨q, hq, rfl⟩, hne⟩
      by_cases hmn : n = m
      · subst hmn
        rw [hr] at hq
        cases hq
        exact absurd ⟨rfl, rfl⟩ hne
      · exact ⟨q, by simp [hmn, hq], rfl⟩
    · rintro ⟨q, hq, rfl⟩
      by_cases hmn : n = m
      · simp [hmn] at hq
      · simp only [hmn, if_false] at hq
        exact ⟨⟨q, hq, rfl⟩, fun hh => hmn hh.2⟩
  ascending := ascending_remove h.ascending _ _
  ne_nil := remove_ne_nil h.ne_nil _ _

/-- Entering a unit that is not recorded. -/
theorem Coherent.add {units : TextMap UnitRecord} {i : Index} (h : Coherent units i)
    (r : UnitRecord) (hr : units[r.name]? = none) :
    Coherent (units.insert r.name r) (i.add r.source r.name) where
  name_eq m q hq := by
    simp only [Std.ExtTreeMap.getElem?_insert, Std.LawfulEqCmp.compare_eq_iff_eq] at hq
    split at hq
    · next hm =>
      cases hq
      exact hm
    · exact h.name_eq m q hq
  mem_iff s m := by
    rw [mem_unitsOf_add, h.mem_iff]
    simp only [Std.ExtTreeMap.getElem?_insert, Std.LawfulEqCmp.compare_eq_iff_eq]
    constructor
    · rintro (⟨rfl, rfl⟩ | ⟨q, hq, rfl⟩)
      · exact ⟨r, by simp, rfl⟩
      · by_cases hm : r.name = m
        · subst hm
          rw [hr] at hq
          cases hq
        · exact ⟨q, by simp [hm, hq], rfl⟩
    · rintro ⟨q, hq, rfl⟩
      by_cases hm : r.name = m
      · simp only [hm, if_true, Option.some.injEq] at hq
        subst hq
        exact Or.inl ⟨rfl, hm⟩
      · simp only [hm, if_false] at hq
        exact Or.inr ⟨q, hq, rfl⟩
  ascending := ascending_add h.ascending fun hn => by
    obtain ⟨q, hq, -⟩ := (h.mem_iff _ _).1 hn
    rw [hr] at hq
    cases hq
  ne_nil := add_ne_nil h.ne_nil _ _

theorem Coherent.empty : Coherent ∅ ∅ where
  name_eq n r h := by simp at h
  mem_iff s n := by simp [unitsOf]
  ascending s := by simp [unitsOf]
  ne_nil s := by simp

/-- The records determine the index. -/
theorem Coherent.unique {units : TextMap UnitRecord} {i j : Index} (hi : Coherent units i)
    (hj : Coherent units j) : i = j := by
  have hu : ∀ s, i.unitsOf s = j.unitsOf s := fun s =>
    eq_of_ascending (hi.ascending s) (hj.ascending s) fun n => by rw [hi.mem_iff, hj.mem_iff]
  apply Std.ExtTreeMap.ext_getElem?
  intro s
  have hs := hu s
  simp only [unitsOf, Std.ExtTreeMap.getD_eq_getD_getElem?] at hs
  have h1 := hi.ne_nil s
  have h2 := hj.ne_nil s
  cases h : i[s]? <;> cases h' : j[s]? <;> simp_all

end Index

/-! ## The analysis -/

/-- Unit records and recorded snapshots, with the fingerprint of the configuration that
    they were made under. -/
structure Analysis where
  fingerprint : Text
  units : TextMap UnitRecord
  index : Index
  snapshots : Snapshots
  coherent : Index.Coherent units index

namespace Analysis

/-- An analysis without any record. -/
def empty (fingerprint : Text) : Analysis := ⟨fingerprint, ∅, ∅, ∅, .empty⟩

/-- The same records under another fingerprint. -/
def setFingerprint (a : Analysis) (fingerprint : Text) : Analysis :=
  { a with fingerprint := fingerprint }

/-- The record of a unit. -/
def find? (a : Analysis) (unit : Text) : Option UnitRecord := a.units[unit]?

/-- Whether a unit is recorded. -/
def has (a : Analysis) (unit : Text) : Bool := a.units.contains unit

/-- The names of the recorded units. -/
def unitNames (a : Analysis) : List Text := a.units.keys

/-- Drops the record of a unit, if there is one. -/
def removeUnit (a : Analysis) (unit : Text) : Analysis :=
  match h : a.units[unit]? with
  | none => a
  | some r =>
    { a with
      units := a.units.erase unit
      index := a.index.remove r.source unit
      coherent := a.coherent.remove h }

theorem getElem?_removeUnit (a : Analysis) (unit n : Text) :
    (a.removeUnit unit).units[n]? = if unit = n then none else a.units[n]? := by
  unfold removeUnit
  split
  · next h =>
    split
    · next hn => rw [← hn, h]
    · rfl
  · simp [Std.ExtTreeMap.getElem?_erase, Std.LawfulEqCmp.compare_eq_iff_eq]

/-- Enters a record; it replaces the record of the same name. -/
def putUnit (a : Analysis) (r : UnitRecord) : Analysis :=
  let b := a.removeUnit r.name
  { b with
    units := b.units.insert r.name r
    index := b.index.add r.source r.name
    coherent := b.coherent.add r (by simp [b, getElem?_removeUnit]) }

theorem getElem?_putUnit (a : Analysis) (r : UnitRecord) (n : Text) :
    (a.putUnit r).units[n]? = if r.name = n then some r else a.units[n]? := by
  simp only [putUnit, Std.ExtTreeMap.getElem?_insert, Std.LawfulEqCmp.compare_eq_iff_eq,
    getElem?_removeUnit]
  split <;> rfl

/-- The units compiled from a source, sorted by name. -/
def unitsOfSource (a : Analysis) (source : Text) : List Text := a.index.unitsOf source

/-- Records what a source looked like. -/
def recordSnapshot (a : Analysis) (source : Text) (s : Snapshot) : Analysis :=
  { a with snapshots := a.snapshots.insert source s }

/-- Forgets what a source looked like, so that the next diff finds it added. -/
def forgetSnapshot (a : Analysis) (source : Text) : Analysis :=
  { a with snapshots := a.snapshots.erase source }

/-- The number of recorded units. -/
def unitCount (a : Analysis) : Nat := a.units.size

/-- Nothing is recorded. -/
def isEmpty (a : Analysis) : Bool := a.units.isEmpty && a.snapshots.isEmpty

/-- Equal records, and snapshots that agree in all that is compared. -/
def same (a b : Analysis) : Bool :=
  a.fingerprint == b.fingerprint && a.units == b.units && a.snapshots.same b.snapshots

/-- **The records make the analysis**: the index adds nothing of its own. -/
theorem ext_records {a b : Analysis} (hf : a.fingerprint = b.fingerprint)
    (hu : a.units = b.units) (hs : a.snapshots = b.snapshots) : a = b := by
  obtain ⟨f, u, i, s, h⟩ := a
  obtain ⟨f', u', i', s', h'⟩ := b
  simp only at hf hu hs
  subst hf hu hs
  cases h.unique h'
  rfl

@[simp] theorem mem_unitsOfSource (a : Analysis) (source n : Text) :
    n ∈ a.unitsOfSource source ↔ ∃ r, a.units[n]? = some r ∧ r.source = source :=
  a.coherent.mem_iff source n

end Analysis

end Rebuild
