/-
  Sessions: builds one after the other, each from what the one before left.

  A step selects from what was loaded, compiles, and merges what became of the groups.
  `Session.Reaches` is what can come of any number of steps, with any changes of the
  sources and any outcomes in between.
-/
import Rebuild.Plan.Merge

namespace Rebuild

/-- The unchanging part of a session. -/
structure Session where
  roots : Roots
  policy : Policy := {}

namespace Session

/-- What a step has of the one before it, if the analysis stayed in memory. -/
def prior (last : Option Analysis) : LoadOutcome :=
  match last with
  | some a => .ofAnalysis a
  | none => {}

/-- One step: the plan, and the analysis after the groups had the outcomes that `compile`
    gives for the plan. -/
def step (s : Session) (loaded : LoadOutcome) (current : Snapshots) (fingerprint : Text)
    (compile : Plan → List Outcome) : Except RootsError (Plan × Analysis) :=
  (select s.roots s.policy loaded current).map fun plan =>
    (plan, merge loaded.usable? plan (compile plan) fingerprint)

/-- The analyses that steps can lead to. -/
inductive Reaches (s : Session) : Option Analysis → Prop
  /-- Before the first step there is none. -/
  | start : Reaches s none
  | step {last : Option Analysis} {current : Snapshots} {fingerprint : Text}
      {compile : Plan → List Outcome} {plan : Plan} {next : Analysis} :
      Reaches s last →
      s.step (prior last) current fingerprint compile = .ok (plan, next) →
      Reaches s (some next)

end Session

end Rebuild
