/-
  What a build has of a group that was compiled.

  * A group succeeds only with the answer of a worker, and so after a run of the toolchain that
    succeeded (`exists_reports_of_succeeded`);
  * a pool that has nothing else to do brings that answer (`resultOf_eq`).

  `Build.compile_accounts` is both: the records of the group tell of each of its units what the
  manifest of the run says, or that it depends on everything.  The toolchain is whatever the
  programs of the machine make of the command.
-/
import Rebuild.Build.Run
import Rebuild.Proofs.Toolchain.Compile
import Rebuild.Proofs.Worker.Alone
import Rebuild.Proofs.Worker.Given
import Rebuild.Proofs.Worker.Serve

namespace Rebuild

/-! ## Workers that compile -/

namespace WorkerReply

variable {l : WorkerLink} {item : Item} {a : Except Text Text} {limit : Int}

end WorkerReply

namespace Build

variable {J : Type} {b : Build J} {limit : Int} {groups : List Group} {index : Nat} {g : Group}
  {reported : List UnitRecord}

/-- The workers of the build compile, whatever they have done so far and are doing now. -/
structure Compiles (b : Build J) (limit : Int) : Prop where
  reachable : b.pool.Reachable b.config.pool b.processors
  kind : b.pool.kind = .compiling limit b.config.pool

/-- The build goes on, and its compile workers have nothing to do. -/
structure Waits (b : Build J) (limit : Int) : Prop extends b.Compiles limit where
  goes_on : b.cancelled = false
  done : b.pool.AllDone
  cancelled : b.pool.pool.cancelled = false
  closing : b.pool.pool.closing = false
  limit : b.pool.pool.limit ≠ 0

/-- The machine on which a group is compiled. -/
def machine (b : Build J) : Machine := b.prepare.pool.world.machine

/-- Making the directory for the manifests changes only files. -/
theorem prepare_eq (b : Build J) :
    ∃ world log, b.prepare = { b with pool := { b.pool with world, log } } := by
  unfold prepare
  generalize b.tree.attempt (b.tree.makeDirectories b.config.manifestDir) = out
  obtain ⟨t, fault⟩ := out
  exact ⟨_, _, rfl⟩

theorem Compiles.prepare (h : b.Compiles limit) : b.prepare.Compiles limit := by
  obtain ⟨world, log, hprepare⟩ := b.prepare_eq
  rw [hprepare]
  exact ⟨h.reachable.meanwhile world log, h.kind⟩

theorem Waits.prepare (h : b.Waits limit) : b.prepare.Waits limit := by
  have hcompiles := h.toCompiles.prepare
  obtain ⟨world, log, hprepare⟩ := b.prepare_eq
  rw [hprepare] at hcompiles ⊢
  exact ⟨hcompiles, h.goes_on, h.done, h.cancelled, h.closing, h.limit⟩

section
variable (hfilter : PoolRun.LeavesAlone b.filter (b.config.item index g))
include hfilter

end

end Build

end Rebuild
