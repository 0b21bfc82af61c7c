/-
  Nothing is lost between builds: an analysis that was written to its record is read back as it
  was.

  * the parts of a record are read back one after the other (`Record.reads_body`);
  * `Record.build_records`: the records and snapshots of an analysis make it up again, the
    index from sources to units included;
  * `Session.run_reloaded`: so a session goes the same way through the record and in memory.

  `Record.round_trip` puts them together.
-/
import Rebuild.Plan.Session
import Rebuild.Proofs.Analysis
import Rebuild.Proofs.Encoding
import Rebuild.Proofs.Plan.Deletion
import Rebuild.Proofs.Plan.Selection

namespace Rebuild

namespace Record

/-- A unit that a reader accepts. -/
structure UnitFits (r : UnitRecord) : Prop where
  name : r.name.length ≤ maxEncodedText
  source : r.source.length ≤ maxEncodedText
  dependencies : ∀ d ∈ r.dependencies, d.length ≤ maxEncodedText
  facts : ∀ f ∈ r.facts, f.length ≤ maxEncodedText
  artifacts : ∀ f ∈ r.artifacts, f.length ≤ maxEncodedText
  dependencies_size : r.dependencies.size < UInt32.size
  facts_size : r.facts.size < UInt32.size
  artifacts_length : r.artifacts.length < UInt32.size

/-- An analysis of which a reader accepts the record. -/
structure Fits (a : Analysis) : Prop where
  fingerprint : a.fingerprint.length ≤ maxEncodedText
  unit : ∀ (n : Text) (r : UnitRecord), a.units[n]? = some r → UnitFits r
  path : ∀ (p : Text) (s : Snapshot), a.snapshots[p]? = some s → p.length ≤ maxEncodedText
  units_size : a.units.size ≤ maxEntries
  snapshots_size : a.snapshots.size ≤ maxEntries
  /-- Lengths are counted in 64 bits, which no memory that holds an analysis goes beyond. -/
  body_length : (encodeBody a).length < UInt64.size

instance (r : UnitRecord) : Decidable (UnitFits r) :=
  decidable_of_iff ((r.name.length ≤ maxEncodedText ∧ r.source.length ≤ maxEncodedText) ∧
      ((∀ d ∈ r.dependencies.toList, d.length ≤ maxEncodedText) ∧
        (∀ f ∈ r.facts.toList, f.length ≤ maxEncodedText) ∧
        ∀ f ∈ r.artifacts, f.length ≤ maxEncodedText) ∧
      r.dependencies.size < UInt32.size ∧ r.facts.size < UInt32.size ∧
        r.artifacts.length < UInt32.size)
    ⟨fun ⟨⟨hn, hs⟩, ⟨hd, hf, ha⟩, hds, hfs, hal⟩ => ⟨hn, hs,
        fun d hm => hd d (Std.ExtTreeSet.mem_toList.2 hm),
        fun f hm => hf f (Std.ExtTreeSet.mem_toList.2 hm), ha, hds, hfs, hal⟩,
      fun h => ⟨⟨h.name, h.source⟩,
        ⟨fun d hm => h.dependencies d (Std.ExtTreeSet.mem_toList.1 hm),
          fun f hm => h.facts f (Std.ExtTreeSet.mem_toList.1 hm), h.artifacts⟩,
        h.dependencies_size, h.facts_size, h.artifacts_length⟩⟩

instance (a : Analysis) : Decidable (Fits a) :=
  decidable_of_iff (a.fingerprint.length ≤ maxEncodedText ∧
      (∀ c ∈ a.units.toList, UnitFits c.2) ∧
      (∀ c ∈ a.snapshots.toList, c.1.length ≤ maxEncodedText) ∧
      a.units.size ≤ maxEntries ∧ a.snapshots.size ≤ maxEntries ∧
      (encodeBody a).length < UInt64.size)
    ⟨fun ⟨hf, hu, hp, hus, hss, hl⟩ => ⟨hf,
        fun n r hr => hu (n, r) (Std.ExtTreeMap.mem_toList_iff_getElem?_eq_some.2 hr),
        fun p s hs => hp (p, s) (Std.ExtTreeMap.mem_toList_iff_getElem?_eq_some.2 hs),
        hus, hss, hl⟩,
      fun h => ⟨h.fingerprint,
        fun c hc => h.unit c.1 c.2 (Std.ExtTreeMap.mem_toList_iff_getElem?_eq_some.1 hc),
        fun c hc => h.path c.1 c.2 (Std.ExtTreeMap.mem_toList_iff_getElem?_eq_some.1 hc),
        h.units_size, h.snapshots_size, h.body_length⟩⟩

/-! ## The parts of a record -/

open Decoder

theorem reads_unit {r : UnitRecord} (h : UnitFits r) : Reads decodeUnit (encodeUnit r) r := by
  simp only [encodeUnit, List.append_assoc]
  exact (Reads.text h.name).bind <| (Reads.text h.source).bind <|
    (Reads.textSet h.dependencies_size h.dependencies).bind <|
    (Reads.textSet h.facts_size h.facts).bind <| (Reads.texts h.artifacts_length h.artifacts).map _

theorem kindOf?_kindCode (k : FileKind) : kindOf? (kindCode k) = some k := by
  cases k <;> rfl

theorem reads_snapshot {s : Text × Snapshot} (h : s.1.length ≤ maxEncodedText) :
    Reads decodeSnapshot (encodeSnapshot s) s := by
  have hbytes : encodeSnapshot s = Encode.text s.1 ++ (Encode.u8 (kindCode s.2.kind) ++
      (Encode.i64 s.2.modified ++ (Encode.i64 s.2.length ++ []))) := by
    simp only [encodeSnapshot, List.append_assoc, List.append_nil]
  rw [hbytes]
  refine (Reads.text h).bind <| (Reads.u8 _).bind <| (Reads.i64 _).bind <| (Reads.i64 _).bind ?_
  rw [kindOf?_kindCode]
  exact Reads.pure s

theorem reads_entries {α : Type} {entry : Decoder α} {enc : α → Text} {xs : List α}
    (hlength : xs.length ≤ maxEntries) (h : ∀ x ∈ xs, Reads entry (enc x) x) :
    Reads (decodeEntries entry) (Encode.list enc xs) xs := by
  have hlt : xs.length < UInt32.size := Nat.lt_of_le_of_lt hlength (by decide)
  refine (Reads.u32 _).bind (Reads.guard_bind ?_ ?_)
  · rw [Reads.toNat_count hlt]
    exact decide_eq_true hlength
  · rw [Reads.toNat_count hlt]
    exact Reads.times h

theorem reads_body {a : Analysis} (h : Fits a) :
    Reads decodeBody (encodeBody a) (a.units.toList.map (·.2), a.snapshots.toList) := by
  refine (reads_entries ?_ fun r hr => reads_unit ?_).bind
    ((reads_entries ?_ fun s hs => reads_snapshot ?_).map _)
  · rw [List.length_map, Std.ExtTreeMap.length_toList]
    exact h.units_size
  · obtain ⟨⟨n, r⟩, hmem, rfl⟩ := List.mem_map.1 hr
    exact h.unit n r (Std.ExtTreeMap.mem_toList_iff_getElem?_eq_some.1 hmem)
  · rw [Std.ExtTreeMap.length_toList]
    exact h.snapshots_size
  · exact h.path s.1 s.2 (Std.ExtTreeMap.mem_toList_iff_getElem?_eq_some.1 hs)

theorem reads_version (major minor : UInt16) :
    Reads decodeVersion (Encode.u16 major ++ Encode.u16 minor) (major, minor) :=
  (Reads.u16 major).bind ((Reads.u16 minor).map _)

theorem reads_header (h : Header) (hf : h.fingerprint.length ≤ maxEncodedText) :
    Reads decodeHeader (Encode.u32 h.identity ++ (Encode.text h.fingerprint ++
      (Encode.u32 h.checksum ++ Encode.u64 h.length))) h :=
  (Reads.u32 h.identity).bind <| (Reads.text hf).bind <| (Reads.u32 h.checksum).bind <|
    (Reads.u64 h.length).map _

/-! ## The analysis from its records -/

theorem units_foldl_putUnit (records : List UnitRecord) (a : Analysis) :
    (records.foldl .putUnit a).units =
      records.foldl (fun m r => m.insert r.name r) a.units := by
  induction records generalizing a with
  | nil => rfl
  | cons r records ih => rw [List.foldl_cons, List.foldl_cons, ih, Analysis.units_putUnit]

theorem snapshots_foldl_recordSnapshot (ss : List (Text × Snapshot)) (a : Analysis) :
    (ss.foldl (fun a s => a.recordSnapshot s.1 s.2) a).snapshots =
      ss.foldl (fun m s => m.insert s.1 s.2) a.snapshots := by
  induction ss generalizing a with
  | nil => rfl
  | cons s ss ih => rw [List.foldl_cons, List.foldl_cons, ih, Analysis.recordSnapshot]

theorem units_foldl_recordSnapshot (ss : List (Text × Snapshot)) (a : Analysis) :
    (ss.foldl (fun a s => a.recordSnapshot s.1 s.2) a).units = a.units := by
  induction ss generalizing a with
  | nil => rfl
  | cons s ss ih => rw [List.foldl_cons, ih, Analysis.recordSnapshot]

/-- **The records and snapshots of an analysis make it up again.** -/
theorem build_records (a : Analysis) :
    build a.fingerprint (a.units.toList.map (·.2)) a.snapshots.toList = a := by
  have hname (m : TextMap UnitRecord) : (a.units.toList.map (·.2)).foldl
      (fun m r => m.insert r.name r) m = a.units.toList.foldl (fun m c => m.insert c.1 c.2) m := by
    rw [List.foldl_map]
    refine List.foldl_ext _ _ _ fun m c hc => ?_
    -- a record stands under its own name
    rw [a.coherent.name_eq c.1 c.2 (Std.ExtTreeMap.mem_toList_iff_getElem?_eq_some.1 hc)]
  refine Analysis.ext_records ?_ ?_ ?_
  · exact (Analysis.fingerprint_foldl _
      (fun b (s : Text × Snapshot) => b.fingerprint_recordSnapshot s.1 s.2) _).trans
      (Analysis.fingerprint_foldl _ Analysis.fingerprint_putUnit _)
  · rw [build, units_foldl_recordSnapshot, units_foldl_putUnit, hname]
    exact foldl_insert_toList a.units
  · rw [build, snapshots_foldl_recordSnapshot, Analysis.snapshots_foldl_putUnit]
    exact foldl_insert_toList a.snapshots

/-- **A record is read back as the analysis that it was made of.** -/
theorem decode_encode {a : Analysis} (h : Fits a) (identity : UInt32) :
    decode (encode a identity) identity a.fingerprint = .ok a := by
  let header : Header := ⟨identity, a.fingerprint, Checksum.ofText (encodeBody a),
    UInt64.ofNat (encodeBody a).length⟩
  have hbytes : encode a identity = Encode.u32 magic ++ ((Encode.u16 majorVersion ++
      Encode.u16 minorVersion) ++ ((Encode.u32 header.identity ++ (Encode.text header.fingerprint ++
        (Encode.u32 header.checksum ++ Encode.u64 header.length))) ++ encodeBody a)) := by
    simp only [encode, encodeHeader, List.append_assoc, header]
  have hlength : header.length.toNat = (encodeBody a).length :=
    UInt64.toNat_ofNat_of_lt' h.body_length
  rw [decode, hbytes, Reader.start, Reads.u32 magic]
  simp only [ne_eq, not_true_eq_false, if_false]
  rw [reads_version]
  simp only [not_true_eq_false, if_false]
  rw [reads_header header h.fingerprint]
  simp only [header, not_true_eq_false, if_false]
  rw [(reads_body h).exactly, if_neg fun hne => hne hlength]
  exact congrArg Except.ok (build_records a)

/-- What a build has of the one before it after the record was written and read. -/
theorem load_encode {a : Analysis} (h : Fits a) (identity : UInt32) :
    load (encode a identity) identity a.fingerprint = .ofAnalysis a := by
  rw [load, decode_encode h]

end Record

/-! ## Sessions -/

namespace Session

/-- Steps one after the other, each from what `load` makes of the analysis that the ones before
    have left: the plans, with the analyses that they lead to.  A step that finds no usable
    roots leaves what there was. -/
def run (s : Session) (load : Option Analysis → LoadOutcome) (fingerprint : Text) :
    Option Analysis → List (Snapshots × (Plan → List Outcome)) →
      List (Except RootsError (Plan × Analysis))
  | _, [] => []
  | last, (current, compile) :: steps =>
    match s.step (load last) current fingerprint compile with
    | .ok (plan, next) => .ok (plan, next) :: s.run load fingerprint (some next) steps
    | .error e => .error e :: s.run load fingerprint last steps

/-- What a step has of the one before it, if the analysis went through its record. -/
def reloaded (identity : UInt32) (fingerprint : Text) (last : Option Analysis) : LoadOutcome :=
  match last with
  | some a => Record.load (Record.encode a identity) identity fingerprint
  | none => {}

variable {s : Session} {identity : UInt32} {fingerprint : Text}

theorem run_eq_of_load {load load' : Option Analysis → LoadOutcome} {last : Option Analysis}
    (hlast : load last = load' last) (steps : List (Snapshots × (Plan → List Outcome)))
    (h : ∀ plan next, .ok (plan, next) ∈ s.run load' fingerprint last steps →
      load (some next) = load' (some next)) :
    s.run load fingerprint last steps = s.run load' fingerprint last steps := by
  induction steps generalizing last with
  | nil => rfl
  | cons step steps ih =>
    obtain ⟨current, compile⟩ := step
    rw [run, run, hlast]
    rw [run] at h
    cases hstep : s.step (load' last) current fingerprint compile with
    | error e =>
      simp only [hstep] at h
      exact congrArg (.error e :: ·)
        (ih hlast fun plan next hmem => h plan next (List.mem_cons_of_mem _ hmem))
    | ok r =>
      obtain ⟨plan, next⟩ := r
      simp only [hstep] at h
      exact congrArg (.ok (plan, next) :: ·) (ih (h plan next List.mem_cons_self)
        fun plan next hmem => h plan next (List.mem_cons_of_mem _ hmem))

/-- What a step leaves is under the fingerprint of the step. -/
theorem fingerprint_of_mem_run {load : Option Analysis → LoadOutcome} {last : Option Analysis}
    {steps : List (Snapshots × (Plan → List Outcome))} {plan : Plan} {next : Analysis}
    (h : .ok (plan, next) ∈ s.run load fingerprint last steps) :
    next.fingerprint = fingerprint := by
  induction steps generalizing last with
  | nil => simp [run] at h
  | cons step steps ih =>
    obtain ⟨current, compile⟩ := step
    rw [run] at h
    cases hstep : s.step (load last) current fingerprint compile with
    | error e =>
      simp only [hstep, List.mem_cons, reduceCtorEq, false_or] at h
      exact ih h
    | ok r =>
      obtain ⟨p, a⟩ := r
      simp only [hstep, List.mem_cons, Except.ok.injEq, Prod.mk.injEq] at h
      rcases h with ⟨rfl, rfl⟩ | h
      · obtain ⟨-, rfl⟩ := step_eq_ok hstep
        exact Merge.fingerprint_merge _ _
      · exact ih h

/-- **A session goes the same way through the record and in memory.** -/
theorem run_reloaded {last : Option Analysis}
    (hlast : ∀ a, last = some a → Record.Fits a ∧ a.fingerprint = fingerprint)
    (steps : List (Snapshots × (Plan → List Outcome)))
    (h : ∀ plan next, .ok (plan, next) ∈ s.run prior fingerprint last steps →
      Record.Fits next) :
    s.run (reloaded identity fingerprint) fingerprint last steps =
      s.run prior fingerprint last steps := by
  have hload (a : Analysis) (ha : Record.Fits a) (hf : a.fingerprint = fingerprint) :
      reloaded identity fingerprint (some a) = prior (some a) := by
    have := Record.load_encode ha identity
    rwa [hf] at this
  refine run_eq_of_load ?_ steps fun plan next hmem =>
    hload next (h plan next hmem) (fingerprint_of_mem_run hmem)
  cases last with
  | none => rfl
  | some a =>
    obtain ⟨ha, hf⟩ := hlast a rfl
    exact hload a ha hf

end Session

/-- **Nothing is lost between builds**: what was written to the record is read back as the
    analysis that it was, units, snapshots and index alike, so sessions have the same plans and
    come to the same analyses as in memory. -/
theorem Record.round_trip {a : Analysis} (h : Fits a) (identity : UInt32) :
    load (encode a identity) identity a.fingerprint = .ofAnalysis a ∧
      ∀ (s : Session) (last : Option Analysis), last = none ∨ last = some a →
        ∀ steps : List (Snapshots × (Plan → List Outcome)),
          (∀ plan next, .ok (plan, next) ∈ s.run Session.prior a.fingerprint last steps →
            Fits next) →
          s.run (Session.reloaded identity a.fingerprint) a.fingerprint last steps =
            s.run Session.prior a.fingerprint last steps := by
  refine ⟨load_encode h identity, fun s last hlast steps hsteps => ?_⟩
  refine Session.run_reloaded (fun b hb => ?_) steps hsteps
  rcases hlast with rfl | rfl
  · cases hb
  · cases hb
    exact ⟨h, rfl⟩

/-- Two builds in which nothing is compiled, after `A` was edited. -/
def twoIdleBuilds : List (Snapshots × (Plan → List Outcome)) :=
  [(fiveUnitsEdited, fun _ => []), (fiveUnitsEdited, fun _ => [])]

theorem Record.round_trip_fiveUnits : Fits fiveUnits ∧
    load (encode fiveUnits 7) 7 "f" = .ofAnalysis fiveUnits ∧
      Session.run ⟨⟨["/p"], "l"⟩, {}⟩ (Session.reloaded 7 "f") "f" (some fiveUnits) twoIdleBuilds =
        Session.run ⟨⟨["/p"], "l"⟩, {}⟩ Session.prior "f" (some fiveUnits) twoIdleBuilds := by
  have hfits : Fits fiveUnits := by decide +kernel
  obtain ⟨hload, hrun⟩ := round_trip hfits 7
  refine ⟨hfits, hload, hrun _ _ (Or.inr rfl) twoIdleBuilds ?_⟩
  have hall : ∀ r ∈ Session.run ⟨⟨["/p"], "l"⟩, {}⟩ Session.prior fiveUnits.fingerprint
      (some fiveUnits) twoIdleBuilds, ∀ x ∈ r.toOption, Fits x.2 := by decide +kernel
  exact fun plan next hmem => hall _ hmem _ rfl

end Rebuild
