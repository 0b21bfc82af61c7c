/-
  The configuration of builds: what is compiled, how, and within which limits.

  * `Config.applyEnvironment` lets environment variables override settings, one after
    the other up to the first that cannot be read;
  * `Config.validate` names the first thing that is wrong;
  * `Config.fingerprint` tells apart configurations whose outputs differ.
-/
import Rebuild.Binary64.Reading
import Rebuild.Binary64.Text
import Rebuild.Digest
import Rebuild.Plan
import Rebuild.Roots

namespace Rebuild

/-- The limits of a pool of workers. -/
structure PoolSettings where
  /-- The number of workers; zero for one for each processor. -/
  size : UInt64 := 0
  /-- The number of items that may wait for a worker. -/
  queueCapacity : UInt64 := 64
  /-- Milliseconds for an item; no limit if not positive. -/
  timeout : Int := 600000
  /-- A worker is replaced after this many items; zero for no limit. -/
  maxItems : UInt64 := 0
  /-- Milliseconds that a worker has to stop by itself. -/
  grace : Int := 2000

/-- All that a build is told. -/
structure Config where
  roots : Roots
  /-- Where the toolchain puts its outputs. -/
  destination : Text
  /-- Where the record of the analysis is kept. -/
  stateDir : Text
  /-- Where it is kept if it cannot be kept there; empty for nowhere. -/
  fallbackStateDir : Text := []
  /-- Name and version of the toolchain. -/
  toolchain : Text
  command : List Text
  policy : Policy := {}
  pool : PoolSettings := {}
  /-- Threads that look at sources; zero for one for each processor. -/
  snapshotThreads : Nat := 0

/-- Why a configuration is refused. -/
inductive ConfigError
  | roots (e : RootsError)
  /-- The value of a variable is no numeral of a word without sign. -/
  | notUnsigned (name value : Text)
  /-- The value of a variable is no number. -/
  | notNumber (name value : Text)
  /-- The value of a variable does not fit its setting. -/
  | outOfRange (name : Text)
  | fraction (value : Binary64)
  | poolSize (size : UInt64)
  | negativeGrace
  | noStateDirectory
  | noCommand
deriving DecidableEq, Repr

/-- The largest number of workers. -/
def maxPoolSize : Nat := 1024

namespace ConfigError

/-- The wording of an error. -/
def message : ConfigError → Text
  | roots e => e.message
  | notUnsigned name value => name ++ "='" ++ value ++ "' is not a non-negative integer"
  | notNumber name value => name ++ "='" ++ value ++ "' is not a number"
  | outOfRange name => name ++ " is out of range"
  | fraction value => "max_rebuild_fraction must be within [0, 1], got " ++ value.fixed 6
  | poolSize size => "Worker pool size " ++ Text.ofNat size.toNat ++
      " exceeds the maximum of " ++ Text.ofNat maxPoolSize
  | negativeGrace => "Shutdown grace period must not be negative"
  | noStateDirectory => "No state directory configured"
  | noCommand => "No toolchain command configured"

end ConfigError

namespace PoolSettings

/-- The number of workers on a machine with so many processors. -/
def workers (p : PoolSettings) (processors : Nat) : Nat :=
  if p.size = 0 then max processors 1 else p.size.toNat

/-- The milliseconds that a call may take; negative for no limit. -/
def callLimit (p : PoolSettings) : Int := if 0 < p.timeout then p.timeout else -1

/-- The first thing that is wrong with the limits, if any. -/
def validate (p : PoolSettings) (processors : Nat) : Except ConfigError Unit :=
  if maxPoolSize < p.workers processors then .error (.poolSize p.size)
  else if p.grace < 0 then .error .negativeGrace
  else .ok ()

end PoolSettings

/-! ## The environment -/

/-- A setting that a variable overrides. -/
structure Override where
  name : Text
  /-- Reads the value into the setting; with it, how the value is shown once it is
      understood. -/
  read : Text → Config → Option Text × Except ConfigError Config

/-- What the environment makes of a configuration. -/
structure Overridden where
  config : Config
  /-- Why a variable was refused. -/
  error : Option ConfigError := none
  log : List Log.Entry := []

namespace Override

/-- The value of a numeral of a word without sign that is all of the text. -/
def unsigned? (value : Text) : Option UInt64 :=
  match Numeral.read? value with
  | none => none
  | some n =>
    if n.rest ≠ [] ∨ value.head? = some (Text.byte '-') then none else n.unsigned?

/-- Overrides a word. -/
def unsigned (name : Text) (set : UInt64 → Config → Config) : Override where
  name
  read value c :=
    match unsigned? value with
    | some n => (some (Text.ofNat n.toNat), .ok (set n c))
    | none => (none, .error (.notUnsigned name value))

/-- The largest value of a setting that is no full word. -/
def maxInt : Nat := 2147483647

/-- Overrides an integer that is not negative. -/
def integer (name : Text) (set : Int → Config → Config) : Override where
  name
  read value c :=
    match unsigned? value with
    | some n =>
      (some (Text.ofNat n.toNat),
        if maxInt < n.toNat then .error (.outOfRange name) else .ok (set n.toNat c))
    | none => (none, .error (.notUnsigned name value))

/-- The value of a number that is all of the text and within the range of numbers. -/
def number? (value : Text) : Option Binary64 :=
  match Binary64.read? value with
  | none => none
  | some r => if r.outOfRange ∨ r.rest ≠ [] then none else some r.value

/-- Overrides a number. -/
def number (name : Text) (set : Binary64 → Config → Config) : Override where
  name
  read value c :=
    match number? value with
    | some x => (some (x.general 6), .ok (set x c))
    | none => (none, .error (.notNumber name value))

/-- The settings that the environment can override, in order. -/
def all : List Override :=
  [unsigned "KILN_WORKERS" fun n c => { c with pool.size := n },
   integer "KILN_WORKER_TIMEOUT_MS" fun n c => { c with pool.timeout := n },
   unsigned "KILN_MAX_ITEMS_PER_WORKER" fun n c => { c with pool.maxItems := n },
   unsigned "KILN_QUEUE_CAPACITY" fun n c => { c with pool.queueCapacity := n },
   number "KILN_MAX_REBUILD_FRACTION" fun x c => { c with policy.fraction := x }]

/-- What is told about a value that was understood. -/
def entry (name shown : Text) : Log.Entry := ⟨.debug, "config", name ++ " = " ++ shown⟩

/-- Applies the overrides whose variable is set and not empty, up to the first that is
    refused. -/
def apply (env : Text → Text) : List Override → Config → Overridden
  | [], c => { config := c }
  | o :: os, c =>
    if env o.name = [] then apply env os c
    else
      let (shown, result) := o.read (env o.name) c
      let log := (shown.map (entry o.name)).toList
      match result with
      | .error e => ⟨c, some e, log⟩
      | .ok c =>
        let r := apply env os c
        { r with log := log ++ r.log }

end Override

namespace Config

/-- The configuration with the settings that the environment overrides. -/
def applyEnvironment (env : Text → Text) (c : Config) : Overridden := Override.apply env Override.all c

/-! ## Validity and identity -/

/-- The fraction is neither negative nor more than one. -/
def fractionOk (x : Binary64) : Bool := Binary64.zero.le x && x.le Binary64.one

/-- The first thing that is wrong, if any. -/
def validate (c : Config) (processors : Nat) : Except ConfigError Unit := do
  match c.roots.validate with
  | .error e => throw (.roots e)
  | .ok () => pure ()
  if !fractionOk c.policy.fraction then throw (.fraction c.policy.fraction)
  c.pool.validate processors
  if c.stateDir = [] then throw .noStateDirectory
  if c.command = [] then throw .noCommand

/-- The options that the fingerprint is made of. -/
def fingerprintOptions (c : Config) : List Text :=
  c.command ++ ["dest=" ++ Path.normalForm c.destination, "ext=" ++ c.roots.bareExtension]

/-- The fingerprint of the toolchain, its command and where its outputs go. -/
def fingerprint (c : Config) : Text := Rebuild.fingerprint c.toolchain c.fingerprintOptions

/-- Where the manifests of the groups go. -/
def manifestDir (c : Config) : Text := Path.join c.stateDir "manifests"

end Config

end Rebuild
