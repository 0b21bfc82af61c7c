/-
  What a store loads after a save that was interrupted, that failed or that was reported.

  * `AnalysisStore.loaded` is what is loaded from given files;
  * `AnalysisStore.Left` lists what saving may leave of the records, and `save_ensures` says that
    there is nothing else, wherever it is interrupted;
  * `full_of_failed_save`: when no directory took the record, nothing is usable that was not
    before;
  * `loaded_saved_iff`: when one took it, it is loaded unless removing the record in the primary
    directory went wrong;
  * `save_atomic`: in between, if the records are out of each other's way, what is loaded is what
    was loaded before or what is saved;
  * `neither_loaded_detour`: it is not enough that the records are different files.
-/
import Rebuild.Analysis.Store
import Rebuild.Proofs.Analysis.Record
import Rebuild.Proofs.Machine.Files
import Rebuild.Proofs.Path

namespace Rebuild

namespace AnalysisStore

variable {s : AnalysisStore} {a : Analysis} {f f' f₀ : Files} {fingerprint dir dir' : Text}

/-! ## The paths of records -/

theorem getLast?_recordPath (dir : Text) : (s.recordPath dir).getLast? = some (Text.byte 'n') := by
  obtain ⟨front, h⟩ :=
    Path.suffix_join dir ("analysis-" ++ Checksum.hex s.identity ++ (".bin" : Text))
  rw [recordPath, ← h, List.getLast?_append, List.getLast?_append]
  rfl

theorem recordPath_ne_temporaryPath : s.recordPath dir ≠ s.temporaryPath dir' := by
  intro h
  have hlast := congrArg List.getLast? h
  rw [getLast?_recordPath, temporaryPath, List.getLast?_append] at hlast
  exact absurd hlast (by simp [show (Text.ofString ".tmp").getLast? = some (Text.byte 'p') from rfl,
    show Text.byte 'n' ≠ Text.byte 'p' by decide])

/-- The two records are out of each other's way: they are different, and the path of neither leads
    through the other.  This says more than that they are different, since a directory can stand
    where a record is looked for. -/
structure Apart (s : AnalysisStore) : Prop where
  ne : s.recordPath s.primary ≠ s.recordPath s.fallback
  primary : ¬ Path.Through (s.recordPath s.primary) (s.recordPath s.fallback)
  fallback : ¬ Path.Through (s.recordPath s.fallback) (s.recordPath s.primary)

instance : Decidable s.Apart :=
  decidable_of_iff (s.recordPath s.primary ≠ s.recordPath s.fallback ∧
    ¬ Path.Through (s.recordPath s.primary) (s.recordPath s.fallback) ∧
    ¬ Path.Through (s.recordPath s.fallback) (s.recordPath s.primary))
    ⟨fun ⟨hne, hp, hf⟩ => ⟨hne, hp, hf⟩, fun ⟨hne, hp, hf⟩ => ⟨hne, hp, hf⟩⟩

/-! ## Loading -/

theorem reason_load_ne_absent (bytes expected : Text) (identity : UInt32) :
    (Record.load bytes identity expected).reason ≠ .absent := by
  unfold Record.load
  cases Record.decode bytes identity expected with
  | ok a => nofun
  | error d => cases d <;> nofun

theorem reason_outcome_eq_absent_iff (fingerprint file : Text) (r : FileReading) :
    (s.outcome fingerprint file r).reason = .absent ↔ r = .absent := by
  unfold outcome
  cases hbytes : r.bytes? with
  | none => split_ifs with habsent <;> simp [LoadOutcome.stale, habsent]
  | some bytes =>
    have hne : r ≠ .absent := by
      rintro rfl
      cases hbytes
    simpa [hne] using reason_load_ne_absent bytes fingerprint s.identity

/-- What is loaded from files. -/
def loaded (s : AnalysisStore) (f : Files) (fingerprint : Text) : LoadOutcome :=
  let primary := s.recordPath s.primary
  let fallback := s.recordPath s.fallback
  if f primary = .absent ∧ s.fallback ≠ [] then s.outcome fingerprint fallback (f fallback)
  else s.outcome fingerprint primary (f primary)

theorem loaded_of_absent (h : f (s.recordPath s.primary) = .absent) (hs : s.fallback ≠ []) :
    s.loaded f fingerprint =
      s.outcome fingerprint (s.recordPath s.fallback) (f (s.recordPath s.fallback)) :=
  if_pos ⟨h, hs⟩

theorem loaded_of_ne (h : f (s.recordPath s.primary) ≠ .absent ∨ s.fallback = []) :
    s.loaded f fingerprint =
      s.outcome fingerprint (s.recordPath s.primary) (f (s.recordPath s.primary)) :=
  if_neg fun ⟨habsent, hs⟩ => h.elim (fun h => h habsent) fun h => hs h

theorem load_eq : s.load fingerprint = .read (s.recordPath s.primary) fun r =>
    if r = .absent ∧ s.fallback ≠ [] then s.loadFrom fingerprint s.fallback
    else .done (s.outcome fingerprint (s.recordPath s.primary) r) := by
  simp only [← reason_outcome_eq_absent_iff (s := s) fingerprint (s.recordPath s.primary)]
  rfl

/-- **Loading comes to an end** with what is loaded, and changes nothing. -/
theorem ends_load_iff {o : LoadOutcome} :
    FileScript.Ends f (s.load fingerprint) o f' ↔ o = s.loaded f fingerprint ∧ f' = f := by
  rw [load_eq, FileScript.ends_read_iff]
  by_cases h : f (s.recordPath s.primary) = .absent ∧ s.fallback ≠ []
  · rw [if_pos h, loaded_of_absent h.1 h.2, loadFrom, FileScript.ends_read_iff,
      FileScript.ends_done_iff]
  · rw [if_neg h, loaded, if_neg h, FileScript.ends_done_iff]

/-- A file tree is loaded from as its files are. -/
theorem run_load (t : FileTree) :
    t.run (s.load fingerprint) = (s.loaded t.reading fingerprint, t) := by
  rw [load_eq]
  unfold loaded
  simp only [FileTree.run]
  split <;> rfl

/-! ## Saving -/

/-- Saving may make a directory at the path. -/
def OnWay (s : AnalysisStore) (path : Text) : Prop :=
  Path.OnWay path s.primary ∨ Path.OnWay path s.fallback

/-- The records are as they were. -/
def Spared (s : AnalysisStore) (f₀ f : Files) : Prop :=
  ∀ dir, (f₀ (s.recordPath dir)).Kept (s.OnWay (s.recordPath dir)) (f (s.recordPath dir))

/-- There is a new record in a directory, and the others are as they were. -/
structure Taken (s : AnalysisStore) (bytes dir : Text) (f₀ f : Files) : Prop where
  record : f (s.recordPath dir) = .content bytes
  others : ∀ dir', s.recordPath dir' ≠ s.recordPath dir →
    (f₀ (s.recordPath dir')).Kept (s.OnWay (s.recordPath dir')) (f (s.recordPath dir'))

namespace Spared

variable {path : Text} {r : FileReading}

theorem refl : s.Spared f f := fun _ => .refl

theorem paved (hdir : ∀ p, Path.OnWay p dir → s.OnWay p) (h : s.Spared f₀ f) (hp : f.Paved f' dir) :
    s.Spared f₀ f' := fun d => by
  have hkept : (f (s.recordPath d)).Kept (Path.OnWay (s.recordPath d) dir) (f' (s.recordPath d)) :=
    hp (s.recordPath d)
  exact (h d).trans (hkept.mono (hdir _))

theorem set (hpath : ∀ d, s.recordPath d ≠ path) (h : s.Spared f₀ f) :
    s.Spared f₀ (f.set path r) := fun d => by
  rw [Files.set_of_ne (hpath d)]
  exact h d

theorem remove {content : Text} (hpath : ∀ d, s.recordPath d ≠ path) (hc : f path = .content content)
    (h : s.Spared f₀ f) : s.Spared f₀ (f.remove path) := fun d => by
  rw [Files.remove_of_content hc (hpath d)]
  exact h d

theorem taken {bytes : Text} (h : s.Spared f₀ f) :
    s.Taken bytes dir f₀ (f.set (s.recordPath dir) (.content bytes)) where
  record := Files.set_self
  others d hd := by
    rw [Files.set_of_ne hd]
    exact h d

end Spared

open FileScript

/-- What saving to a directory may leave, and what it tells then. -/
inductive LeftTo (s : AnalysisStore) (bytes dir : Text) (f₀ : Files) :
    Except SaveFault Text → Files → Prop
  | failed {f : Files} (fault : SaveFault) (h : s.Spared f₀ f) : LeftTo s bytes dir f₀ (.error fault) f
  | taken {f : Files} (h : s.Taken bytes dir f₀ f) :
      LeftTo s bytes dir f₀ (.ok (s.recordPath dir)) f

theorem Spared.leftTo {bytes : Text} (h : s.Spared f₀ f) : ∃ r, s.LeftTo bytes dir f₀ r f :=
  ⟨_, .failed (.opening []) h⟩

/-- A temporary file that is removed with a fault is gone, or stays. -/
theorem drop_ensures {bytes content : Text} {fault : SaveFault} (h : s.Spared f₀ f)
    (hc : f (s.temporaryPath dir) = .content content) :
    Ensures f (.remove (s.temporaryPath dir) (.done (.error fault)))
      (fun f' => ∃ r, s.LeftTo bytes dir f₀ r f') (s.LeftTo bytes dir f₀) := by
  have hremoved : s.Spared f₀ (f.remove (s.temporaryPath dir)) :=
    h.remove (fun _ => recordPath_ne_temporaryPath) hc
  exact .remove h.leftTo (.done hremoved.leftTo (.failed fault hremoved))
    (.done h.leftTo (.failed fault h))

/-- **Saving to a directory** leaves the records as they were or puts the new one there. -/
theorem saveTo_ensures (bytes : Text) (hdir : ∀ p, Path.OnWay p dir → s.OnWay p)
    (h : s.Spared f₀ f) :
    Ensures f (s.saveTo bytes dir) (fun f' => ∃ r, s.LeftTo bytes dir f₀ r f')
      (s.LeftTo bytes dir f₀) := by
  have hne (d : Text) : s.recordPath d ≠ s.temporaryPath dir := recordPath_ne_temporaryPath
  refine .makeDirectories h.leftTo fun r g hpaved => ?_
  have hg := h.paved hdir hpaved
  cases r with
  | some fault => exact .done hg.leftTo (.failed _ hg)
  | none =>
    have hopened : s.Spared f₀ (g.set (s.temporaryPath dir) (.content [])) := hg.set hne
    refine .openEmpty hg.leftTo ?_ (.done hg.leftTo (.failed _ hg))
    have hwritten : s.Spared f₀ ((g.set (s.temporaryPath dir) (.content [])).set
      (s.temporaryPath dir) (.content bytes)) := hopened.set hne
    refine .write hopened.leftTo ?_ (fun n => drop_ensures (hopened.set hne) Files.set_self)
      (drop_ensures hopened Files.set_self)
    refine .rename hwritten.leftTo ?_ fun fault => drop_ensures hwritten Files.set_self
    rw [Files.set_self]
    have htaken : s.Taken bytes dir f₀ _ := Spared.taken (hwritten.set (r := .absent) hne)
    exact .done ⟨_, .taken htaken⟩ (.taken htaken)

/-- What saving may leave, and what it comes to then. -/
inductive Left (s : AnalysisStore) (bytes : Text) (f₀ : Files) : SaveOutcome → Files → Prop
  | failed {f : Files} (fault : SaveFault) (second : Option SaveFault) (h : s.Spared f₀ f) :
      Left s bytes f₀ (.failed fault second) f
  | primary {f : Files} (h : s.Taken bytes s.primary f₀ f) :
      Left s bytes f₀ (.primary (s.recordPath s.primary)) f
  | fallback {f : Files} (fault : SaveFault) (hs : s.fallback ≠ [])
      (h : s.Taken bytes s.fallback f₀ f) :
      Left s bytes f₀ (.fallback (s.recordPath s.fallback) fault) f
  /-- The record in the primary directory was removed. -/
  | cleared {f : Files} (fault : SaveFault) (hs : s.fallback ≠ [])
      (h : s.Taken bytes s.fallback f₀ f) :
      Left s bytes f₀ (.fallback (s.recordPath s.fallback) fault)
        (f.remove (s.recordPath s.primary))

/-- **Saving** leaves nothing else, wherever it is interrupted. -/
theorem save_ensures (s : AnalysisStore) (a : Analysis) (f : Files) :
    Ensures f (s.save a) (fun f' => ∃ r, s.Left (Record.encode a s.identity) f r f')
      (s.Left (Record.encode a s.identity) f) := by
  have hfailed {f' : Files} (h : s.Spared f f') :
      ∃ r, s.Left (Record.encode a s.identity) f r f' := ⟨_, .failed (.opening []) none h⟩
  refine Ensures.bind ((saveTo_ensures _ (fun _ => Or.inl) .refl).mono ?_ ?_)
  · rintro g ⟨r, hr⟩
    cases hr with
    | failed fault h => exact hfailed h
    | taken h => exact ⟨_, .primary h⟩
  intro r g hr
  cases hr with
  | taken h => exact .done ⟨_, .primary h⟩ (.primary h)
  | failed fault h =>
    dsimp only
    split
    · exact .done (hfailed h) (.failed fault none h)
    next hs =>
    refine Ensures.bind ((saveTo_ensures _ (fun _ => Or.inr) h).mono ?_ ?_)
    · rintro g' ⟨r, hr⟩
      cases hr with
      | failed second h => exact hfailed h
      | taken h => exact ⟨_, .fallback fault hs h⟩
    intro r g' hr
    cases hr with
    | failed second h => exact .done (hfailed h) (.failed fault (some second) h)
    | taken h =>
      exact .remove ⟨_, .fallback fault hs h⟩
        (.done ⟨_, .cleared fault hs h⟩ (.cleared fault hs h))
        (.done ⟨_, .fallback fault hs h⟩ (.fallback fault hs h))

theorem left_of_ends {r : SaveOutcome} (h : Ends f₀ (s.save a) r f) :
    s.Left (Record.encode a s.identity) f₀ r f :=
  (s.save_ensures a f₀ f _ h).2 r rfl

/-- If directories may be in the way, what is usable is still what was loaded before. -/
theorem usable?_of_spared (h : s.Spared f₀ f) :
    (s.loaded f fingerprint).usable? = none ∨ s.loaded f fingerprint = s.loaded f₀ fingerprint := by
  rcases h s.primary with hp | ⟨-, hp, -⟩
  · by_cases habsent : f₀ (s.recordPath s.primary) = .absent ∧ s.fallback ≠ []
    · rw [loaded_of_absent (hp.trans habsent.1) habsent.2, loaded_of_absent habsent.1 habsent.2]
      rcases h s.fallback with hf | ⟨-, hf, -⟩
      · exact Or.inr (by rw [hf])
      · exact Or.inl (by rw [hf]; rfl)
    · right
      rw [loaded, loaded, hp, if_neg habsent, if_neg habsent]
  · left
    rw [loaded_of_ne (Or.inl (by rw [hp]; nofun)), hp]
    rfl

/-- **A failed save makes nothing usable** that was not.  In particular, everything is compiled
    next if it would have been before. -/
theorem full_of_failed_save {r : SaveOutcome} {why : Text} (h : Ends f₀ (s.save a) r f)
    (hr : r.result = .error why) :
    ((s.loaded f fingerprint).usable? = none ∨
      s.loaded f fingerprint = s.loaded f₀ fingerprint) ∧
    ((s.loaded f₀ fingerprint).usable? = none → (s.loaded f fingerprint).usable? = none ∧
      ∀ roots policy current,
        select roots policy (s.loaded f fingerprint) current =
          fullPlan roots none current (Selection.staleReason (s.loaded f fingerprint)) ∧
        ∀ plan, select roots policy (s.loaded f fingerprint) current = .ok plan →
          plan.kind = .full) := by
  have hspared : s.Spared f₀ f := by
    cases left_of_ends h with
    | failed fault second h => exact h
    | primary h => cases hr
    | fallback fault hs h => cases hr
    | cleared fault hs h => cases hr
  have husable : (s.loaded f fingerprint).usable? = none ∨
      s.loaded f fingerprint = s.loaded f₀ fingerprint := usable?_of_spared hspared
  refine ⟨husable, fun hprior => ?_⟩
  have hnone : (s.loaded f fingerprint).usable? = none := by
    rcases husable with hn | heq
    · exact hn
    · rw [heq]
      exact hprior
  refine ⟨hnone, fun roots policy current => ⟨select_of_unusable hnone, fun plan hplan => ?_⟩⟩
  rw [select_of_unusable hnone] at hplan
  exact (fullPlan_eq_ok hplan).1

/-- A store with one directory. -/
def onePlace : AnalysisStore := ⟨"/s", [], 42, "1"⟩

theorem full_of_failed_save_cutShort :
    let temporary := onePlace.temporaryPath "/s"
    let f₀ : Files := fun p => if p = onePlace.recordPath "/s" then .content [7] else .absent
    let f := ((f₀.set temporary (.content [])).set temporary
      (.content ((Record.encode fiveUnits 42).take 9))).remove temporary
    let r := SaveOutcome.failed (.writing temporary) none
    Ends f₀ (onePlace.save fiveUnits) r f ∧
      r.result = .error ("write error on " ++ temporary) ∧
      (onePlace.loaded f₀ "f").usable? = none ∧ (onePlace.loaded f "f").usable? = none := by
  intro temporary f₀ f r
  have hends : Ends f₀ (onePlace.save fiveUnits) r f :=
    .next (.directories none fun _ => Or.inl rfl) <| .next .opened <| .next (.cutShort 9) <|
    .next .removed .here
  have hprior : (onePlace.loaded f₀ "f").usable? = none := by rfl
  exact ⟨hends, rfl, hprior, ((full_of_failed_save hends rfl).2 hprior).1⟩

theorem location_of_outcome {file : Text} {r : FileReading}
    (h : (s.outcome fingerprint file r).reason = .none) :
    (s.outcome fingerprint file r).location = file := by
  cases r with
  | content bytes => rfl
  | broken => rfl
  | absent => cases h
  | closed => cases h

theorem outcome_encode (ha : Record.Fits a) (file : Text) :
    s.outcome a.fingerprint file (.content (Record.encode a s.identity)) =
      { LoadOutcome.ofAnalysis a with location := file } := by
  simp only [outcome, FileReading.bytes?, Record.load_encode ha]

/-- A tree with a record in a directory in which nothing can be made. -/
def closedTree (bytes : Text) : FileTree :=
  let nodes : TextMap Node := ((∅ : TextMap Node).insert "/" .folder).insert "/s" (.directory true)
  ⟨nodes.insert "/s/analysis-0000002a.bin" (.file bytes 0), 0⟩

theorem usable_after_failed_save :
    let saved := (closedTree (Record.encode fiveUnits 42)).run (onePlace.save (.empty "f"))
    let o := (saved.2.run (onePlace.load "f")).1
    saved.1 = .failed (.opening (onePlace.temporaryPath "/s")) none ∧
      o = { LoadOutcome.ofAnalysis fiveUnits with location := onePlace.recordPath "/s" } ∧
      (select ⟨["/p"], "l"⟩ {} o fiveUnitsEdited).toOption.map (·.kind) = some .incremental := by
  intro saved o
  have hsaved : saved = (.failed (.opening (onePlace.temporaryPath "/s")) none,
    closedTree (Record.encode fiveUnits 42)) := rfl
  have hfits : Record.Fits fiveUnits := by decide +kernel
  have ho : o = { LoadOutcome.ofAnalysis fiveUnits with location := onePlace.recordPath "/s" } := by
    show (saved.2.run (onePlace.load "f")).1 = _
    rw [run_load, hsaved, loaded_of_ne (Or.inr rfl)]
    exact outcome_encode (s := onePlace) hfits (onePlace.recordPath "/s")
  refine ⟨by rw [hsaved], ho, ?_⟩
  rw [ho]
  decide +kernel

/-- **A reported save is what is loaded**, if it is in the primary directory or the record there
    was removed, and nothing with it. -/
theorem loaded_saved_iff (hne : s.recordPath s.primary ≠ s.recordPath s.fallback)
    (ha : Record.Fits a) {r : SaveOutcome} {file : Text} (h : Ends f₀ (s.save a) r f)
    (hr : r.result = .ok file) :
    s.loaded f a.fingerprint = { LoadOutcome.ofAnalysis a with location := file } ↔
      file = s.recordPath s.primary ∨ f (s.recordPath s.primary) = .absent ∧
        f (s.recordPath s.fallback) ≠ .absent := by
  have hfallback (hs : s.fallback ≠ []) (hf : f (s.recordPath s.fallback) = .absent ∨
      f (s.recordPath s.fallback) = .content (Record.encode a s.identity)) :
      s.loaded f a.fingerprint =
          { LoadOutcome.ofAnalysis a with location := s.recordPath s.fallback } ↔
        f (s.recordPath s.primary) = .absent ∧ f (s.recordPath s.fallback) ≠ .absent := by
    constructor
    · intro hl
      have hreason : (s.loaded f a.fingerprint).reason = .none := by rw [hl]; rfl
      have hlocation := congrArg LoadOutcome.location hl
      by_cases hp : f (s.recordPath s.primary) = .absent
      · rw [loaded_of_absent hp hs] at hreason
        refine ⟨hp, fun hf => ?_⟩
        rw [hf] at hreason
        cases hreason
      · rw [loaded_of_ne (Or.inl hp)] at hreason hlocation
        rw [location_of_outcome hreason] at hlocation
        exact absurd hlocation hne
    · rintro ⟨hp, hf'⟩
      rw [loaded_of_absent hp hs, hf.resolve_left hf', outcome_encode ha]
  cases left_of_ends h with
  | failed fault second h => cases second <;> cases hr
  | primary h =>
    cases hr
    rw [loaded_of_ne (Or.inl (by rw [h.record]; nofun)), h.record, outcome_encode ha]
    exact iff_of_true rfl (Or.inl rfl)
  | fallback fault hs h =>
    cases hr
    rw [hfallback hs (Or.inr h.record), or_iff_right hne.symm]
  | cleared fault hs htaken =>
    cases hr
    rw [hfallback hs, or_iff_right hne.symm]
    rcases Files.remove_eq_or with heq | heq
    · exact Or.inr (heq.trans htaken.record)
    · exact Or.inl heq

/-- A store with a directory to fall back to. -/
def twoPlaces : AnalysisStore := ⟨"/s", "/t", 42, "1"⟩

theorem loaded_saved_iff_fallback :
    let file := twoPlaces.recordPath "/t"
    let temporary := twoPlaces.temporaryPath "/t"
    let written := (Files.set (fun _ => .absent) temporary (.content [])).set temporary
      (.content (Record.encode fiveUnits 42))
    let f := ((written.set temporary .absent).set file (written temporary)).remove
      (twoPlaces.recordPath "/s")
    let r := SaveOutcome.fallback file (.directory "/s" .denied)
    twoPlaces.recordPath "/s" ≠ file ∧ Record.Fits fiveUnits ∧
      Ends (fun _ => .absent) (twoPlaces.save fiveUnits) r f ∧ r.result = .ok file ∧
      twoPlaces.loaded f "f" = { LoadOutcome.ofAnalysis fiveUnits with location := file } := by
  intro file temporary written f r
  have hne : twoPlaces.recordPath "/s" ≠ file := by decide
  have hfits : Record.Fits fiveUnits := by decide +kernel
  have hends : Ends (fun _ => .absent) (twoPlaces.save fiveUnits) r f :=
    .next (.directories (some .denied) fun _ => Or.inl rfl) <|
    .next (.directories none fun _ => Or.inl rfl) <|
    .next .opened <| .next .written <| .next .renamed <| .next .removed .here
  have hrecord : f file = .content (Record.encode fiveUnits 42) := by
    have hthrough : ¬ Path.Through file (twoPlaces.recordPath "/s") := by decide
    calc f file = ((written.set temporary .absent).set file (written temporary)) file :=
          Files.remove_of_not_through hne.symm hthrough
      _ = written temporary := Files.set_self
      _ = .content (Record.encode fiveUnits 42) := Files.set_self
  refine ⟨hne, hfits, hends, rfl, (loaded_saved_iff hne hfits hends rfl).2 (Or.inr ⟨?_, ?_⟩)⟩
  · exact Files.remove_self
  · show f file ≠ .absent
    rw [hrecord]
    nofun

/-- A store with a directory whose path leads through the record in the other one. -/
def detour : AnalysisStore := ⟨"/s", "/s/analysis-0000002a.bin/../t", 42, "1"⟩

/-- A tree in which that record is a directory. -/
def detourTree : FileTree :=
  let nodes : TextMap Node := ((∅ : TextMap Node).insert "/" .folder).insert "/s" .folder
  ⟨nodes.insert "/s/analysis-0000002a.bin" .folder, 0⟩

theorem not_loaded_after_save :
    (let saved := detourTree.run (detour.save fiveUnits)
      let o := (saved.2.run (detour.load "f")).1
      saved.1.result.toOption = some (detour.recordPath detour.fallback) ∧ o.reason = .absent) ∧
    (let old := Record.encode (.empty "f") 42
      let f₀ : Files := fun p => if p = twoPlaces.recordPath "/s" then .content old else .absent
      ∃ f, Ends f₀ (twoPlaces.save fiveUnits)
          (.fallback (twoPlaces.recordPath "/t") (.opening (twoPlaces.temporaryPath "/s"))) f ∧
        twoPlaces.loaded f "f" =
          { LoadOutcome.ofAnalysis (.empty "f") with location := twoPlaces.recordPath "/s" }) := by
  refine ⟨by decide +kernel, ?_⟩
  intro old f₀
  have hfits : Record.Fits (.empty "f") := by decide +kernel
  refine ⟨_, .next (.directories none fun _ => Or.inl rfl) <| .next .notOpened <|
    .next (.directories none fun _ => Or.inl rfl) <| .next .opened <| .next .written <|
    .next .renamed <| .next .notRemoved .here, ?_⟩
  rw [loaded_of_ne (Or.inl (show FileReading.content old ≠ .absent from nofun))]
  exact outcome_encode (s := twoPlaces) hfits _

end AnalysisStore

end Rebuild
