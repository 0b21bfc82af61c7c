/-
  The index through any number of edits.

  Units are kept by name, and beside them which units each source has.  Whether the one still says
  what the other does is never looked at again, so every edit has to see to it: `Index.Coherent.add`
  and `Index.Coherent.remove` are what they are made with.

  * `Analysis.Edit` is what can be done to an analysis, and `Analysis.run` does it in turn;
  * `Analysis.find?_run`: what is recorded in the end is what the last edit of a name says;
  * `Record.exists_run_of_decode`: an analysis that is read from bytes was made by edits as well.

  `Analysis.run_indexed` says what the index is after all of them.
-/
import Rebuild.Proofs.Analysis.Damage

namespace Rebuild

namespace Analysis

/-! ## Edits -/

/-- What can be done to an analysis. -/
inductive Edit
  | put (r : UnitRecord)
  | remove (unit : Text)
  | record (source : Text) (s : Snapshot)
  | forget (source : Text)
  | setFingerprint (fingerprint : Text)

namespace Edit

/-- The analysis after an edit. -/
def apply (a : Analysis) : Edit → Analysis
  | put r => a.putUnit r
  | remove unit => a.removeUnit unit
  | record source s => a.recordSnapshot source s
  | forget source => a.forgetSnapshot source
  | setFingerprint fingerprint => a.setFingerprint fingerprint

/-- What an edit says about a unit, if anything: what is recorded for it now, which is nothing if
    it was removed. -/
def says? (unit : Text) : Edit → Option (Option UnitRecord)
  | put r => if r.name = unit then some (some r) else none
  | remove u => if u = unit then some none else none
  | record _ _ | forget _ | setFingerprint _ => none

end Edit

variable {a : Analysis} {es : List Edit} {unit : Text}

/-- The analysis after some edits. -/
def run (a : Analysis) (es : List Edit) : Analysis := es.foldl Edit.apply a

theorem run_append (es es' : List Edit) : a.run (es ++ es') = (a.run es).run es' :=
  List.foldl_append

/-- What the last edit that says anything about a unit says. -/
def lastSaid? (es : List Edit) (unit : Text) : Option (Option UnitRecord) :=
  es.reverse.findSome? (·.says? unit)

theorem find?_apply (e : Edit) : (e.apply a).find? unit = (e.says? unit).getD (a.find? unit) := by
  cases e with
  | put r =>
    rw [Edit.apply, Edit.says?, find?_putUnit]
    split <;> rfl
  | remove u =>
    rw [Edit.apply, Edit.says?, find?_removeUnit]
    split <;> rfl
  | record | forget | setFingerprint => rfl

/-- **What is recorded after edits** is what the last edit of a name says; without one it is what
    was recorded before. -/
theorem find?_run : (a.run es).find? unit = (lastSaid? es unit).getD (a.find? unit) := by
  induction es generalizing a with
  | nil => rfl
  | cons e es ih =>
    have hrun : a.run (e :: es) = (e.apply a).run es := rfl
    rw [hrun, ih, find?_apply, lastSaid?, lastSaid?, List.reverse_cons, List.findSome?_append,
      List.findSome?_singleton]
    cases es.reverse.findSome? (·.says? unit) <;> rfl

end Analysis

/-! ## An analysis that is read -/

namespace Record

open Analysis

/-- **An analysis that is read** is what its units and then its snapshots make of an empty one. -/
theorem exists_run_of_decode {bytes expected : Text} {identity : UInt32} {a : Analysis}
    (h : decode bytes identity expected = .ok a) : ∃ es, a = (Analysis.empty expected).run es := by
  obtain ⟨minor, body, units, snapshots, -, -, -, rfl⟩ := decode_eq_ok h
  refine ⟨units.map .put ++ snapshots.map fun s => .record s.1 s.2, ?_⟩
  rw [run_append, run, run, List.foldl_map, List.foldl_map]
  rfl

end Record

/-! ## The index -/

namespace Analysis

/-- **The index is right after any edits**, whatever was recorded before, and so it is in an
    analysis that was read.  Of every source it has the units recorded for it, in order and each
    once; every record stands under its own name; and what is recorded is what the edits say. -/
theorem run_indexed :
    (∀ (bytes expected : Text) (identity : UInt32) (a : Analysis),
      Record.decode bytes identity expected = .ok a → ∃ es, a = (empty expected).run es) ∧
    ∀ (a : Analysis) (es : List Edit),
      (∀ source, ((a.run es).unitsOfSource source).Pairwise (· < ·) ∧
        ∀ n, n ∈ (a.run es).unitsOfSource source ↔
          ∃ r, (a.run es).find? n = some r ∧ r.source = source) ∧
      ∀ n, (a.run es).find? n = (lastSaid? es n).getD (a.find? n) ∧
        ∀ r, (a.run es).find? n = some r → r.name = n := by
  refine ⟨fun bytes expected identity a => Record.exists_run_of_decode, fun a es =>
    ⟨fun source => ⟨(a.run es).coherent.ascending source, (a.run es).mem_unitsOfSource source⟩,
      fun n => ⟨find?_run, (a.run es).coherent.name_eq n⟩⟩⟩

/-- `B` moves to the source of `A`, which moves away and back, and a unit is removed that is not
    recorded. -/
def movedUnits : List Edit :=
  [.put { name := "B", source := "/p/A.l" }, .put { name := "A", source := "/p/E.l" },
    .remove "X", .put { name := "A", source := "/p/A.l" }, .setFingerprint "g"]

theorem run_indexed_moved :
    Record.decode (Record.encode fiveUnits 7) 7 "f" = .ok fiveUnits ∧
      (∃ es, fiveUnits = (empty "f").run es) ∧
      (fiveUnits.run movedUnits).unitsOfSource "/p/A.l" = ["A", "B"] ∧
      (fiveUnits.run movedUnits).unitsOfSource "/p/B.l" = ["C"] := by
  have hdecode : Record.decode (Record.encode fiveUnits 7) 7 "f" = .ok fiveUnits :=
    Record.decode_encode (by decide +kernel) 7
  exact ⟨hdecode, run_indexed.1 _ _ _ _ hdecode, by decide +kernel, by decide +kernel⟩

end Analysis

end Rebuild
