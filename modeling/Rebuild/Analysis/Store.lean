/-
  The store of analyses: a record in a primary directory, or in a fallback directory when
  the primary one does not take it.

  A record is written to a file of its own, which then takes the place of the old record,
  so that there is always a whole record or none.

  * `AnalysisStore.load` prefers the primary directory and looks into the fallback directory
    only if there is no record at all in the primary one;
  * `AnalysisStore.save` removes the record from the primary directory after it had to use
    the fallback directory, because that record would be preferred.
-/
import Rebuild.Analysis.Record
import Rebuild.Log.Level
import Rebuild.Machine.FileScript

namespace Rebuild

/-- Where records are kept. -/
structure AnalysisStore where
  primary : Text
  /-- Empty if there is none. -/
  fallback : Text
  /-- The identity of the roots that records are for. -/
  identity : UInt32
  /-- What tells the temporary files of this process from those of others. -/
  process : Text

namespace AnalysisStore

/-- The record in a directory. -/
def recordPath (s : AnalysisStore) (dir : Text) : Text :=
  Path.join dir ("analysis-" ++ Checksum.hex s.identity ++ ".bin")

/-- The file that becomes the record in a directory. -/
def temporaryPath (s : AnalysisStore) (dir : Text) : Text :=
  s.recordPath dir ++ "." ++ s.process ++ ".tmp"

/-! ## Loading -/

/-- What a reading of the record in a file comes to. -/
def outcome (s : AnalysisStore) (fingerprint file : Text) (r : FileReading) : LoadOutcome :=
  match r.bytes? with
  | some bytes => { Record.load bytes s.identity fingerprint with location := file }
  | none =>
    if r = .absent then .stale .absent ("no record at " ++ file)
    else .stale .unreadable ("cannot open " ++ file)

/-- Loads the record in a directory. -/
def loadFrom (s : AnalysisStore) (fingerprint dir : Text) : FileScript LoadOutcome :=
  .read (s.recordPath dir) fun r => .done (s.outcome fingerprint (s.recordPath dir) r)

/-- Loads the record for a fingerprint. -/
def load (s : AnalysisStore) (fingerprint : Text) : FileScript LoadOutcome := do
  let o ← s.loadFrom fingerprint s.primary
  if o.reason = .absent ∧ s.fallback ≠ [] then s.loadFrom fingerprint s.fallback else return o

/-- What is told about loading. -/
def loadEntry (o : LoadOutcome) : Log.Entry :=
  match o.usable? with
  | some a => ⟨.debug, "store", "Loaded analysis from " ++ o.location ++ ": " ++
      Text.ofNat a.unitCount ++ " units"⟩
  | none => ⟨.info, "store", "Prior analysis unusable (" ++ o.reason.name ++ "): " ++ o.detail⟩

/-! ## Saving -/

/-- Why a directory does not take a record. -/
inductive SaveFault
  | directory (dir : Text) (fault : FileFault)
  | opening (file : Text)
  | writing (file : Text)
  | replacing (file : Text) (fault : FileFault)
deriving DecidableEq, Repr

/-- The wording of a fault. -/
def SaveFault.message : SaveFault → Text
  | directory dir fault => "cannot create " ++ dir ++ ": " ++ fault.message
  | opening file => "cannot open " ++ file
  | writing file => "write error on " ++ file
  | replacing file fault => "cannot rename into " ++ file ++ ": " ++ fault.message

/-- Saves a record to a directory; the file that it is in. -/
def saveTo (s : AnalysisStore) (bytes dir : Text) : FileScript (Except SaveFault Text) :=
  let file := s.recordPath dir
  let temporary := s.temporaryPath dir
  .makeDirectories dir fun
  | some fault => .done (.error (.directory dir fault))
  | none => .openEmpty temporary fun
    | false => .done (.error (.opening temporary))
    | true => .write temporary bytes fun
      | false => .remove temporary (.done (.error (.writing temporary)))
      | true => .rename temporary file fun
        | some fault => .remove temporary (.done (.error (.replacing file fault)))
        | none => .done (.ok file)

/-- What saving comes to. -/
inductive SaveOutcome
  /-- The primary directory took the record. -/
  | primary (file : Text)
  /-- The fallback directory took it, since the primary one did not. -/
  | fallback (file : Text) (fault : SaveFault)
  /-- None took it. -/
  | failed (fault : SaveFault) (second : Option SaveFault)
deriving DecidableEq, Repr

/-- Saves the record of an analysis. -/
def save (s : AnalysisStore) (a : Analysis) : FileScript SaveOutcome := do
  let bytes := Record.encode a s.identity
  match ← s.saveTo bytes s.primary with
  | .ok file => return .primary file
  | .error fault =>
    if s.fallback = [] then return .failed fault none
    else match ← s.saveTo bytes s.fallback with
      | .ok file => .remove (s.recordPath s.primary) (.done (.fallback file fault))
      | .error second => return .failed fault (some second)

/-- The file that a record was saved to, or the wording of the faults. -/
def SaveOutcome.result : SaveOutcome → Except Text Text
  | primary file | fallback file _ => .ok file
  | failed fault none => .error fault.message
  | failed fault (some second) => .error (fault.message ++ "; " ++ second.message)

/-- What is told about the failure of the primary directory. -/
def fallbackEntry (fault : SaveFault) : Log.Entry :=
  ⟨.warn, "store", "Primary analysis location failed (" ++ fault.message ++ "), trying fallback"⟩

/-- What is told about saving. -/
def saveEntries (s : AnalysisStore) (a : Analysis) : SaveOutcome → List Log.Entry
  | .primary _ => [⟨.debug, "store", "Saved analysis: " ++ Text.ofNat a.unitCount ++ " units, " ++
      Text.ofNat (Record.encode a s.identity).length ++ " bytes"⟩]
  | .fallback _ fault | .failed fault (some _) => [fallbackEntry fault]
  | .failed _ none => []

/-! ## Discarding -/

/-- Removes the records. -/
def discard (s : AnalysisStore) : FileScript Unit :=
  .remove (s.recordPath s.primary)
    (if s.fallback = [] then .done () else .remove (s.recordPath s.fallback) (.done ()))

end AnalysisStore

end Rebuild
