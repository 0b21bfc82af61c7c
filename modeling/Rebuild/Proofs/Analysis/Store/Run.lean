/-
  Saving to a plain tree and loading from it again.

  * `AnalysisStore.Houses`: a directory with a path short enough for records and temporary files;
  * `run_save`: what a save comes to on the tree is one of its ends, and loading finds its files;
  * `load_run_failed`, `load_run_primary`: what is loaded after it.
-/
import Rebuild.Proofs.Analysis.Store
import Rebuild.Proofs.Machine.FileTree.Run

namespace Rebuild

open Rebuild.Path Rebuild.FileTree

/-! ## Names of files -/

namespace Text

variable {b : UInt8}

theorem length_hex (width n : Nat) : (hex width n).length = width := by
  induction width generalizing n with
  | zero => rfl
  | succ width ih => rw [hex, List.length_append, ih, List.length_singleton]

theorem hexDigit_ne (n : Nat) : hexDigit n ≠ slash ∧ hexDigit n ≠ 0 := by
  have hdigits : ∀ k < 16, hexDigit k ≠ slash ∧ hexDigit k ≠ 0 := by decide
  have hmod : hexDigit n = hexDigit (n % 16) := by rw [hexDigit, hexDigit, Nat.mod_mod]
  rw [hmod]
  exact hdigits _ (Nat.mod_lt _ (by decide))

theorem ne_of_mem_hex {width n : Nat} (h : b ∈ hex width n) : b ≠ slash ∧ b ≠ 0 := by
  induction width generalizing n with
  | zero => cases h
  | succ width ih =>
    rcases List.mem_append.1 h with h | h
    · exact ih h
    · rw [List.mem_singleton.1 h]
      exact hexDigit_ne n

end Text

/-- Only short texts stand for other places. -/
theorem Path.IsName.of_length {n : Text} (hlength : 2 < n.length)
    (h : ∀ b ∈ n, b ≠ Path.slash ∧ b ≠ 0) : IsName n where
  ne_nil := by
    rintro rfl
    exact absurd hlength (by decide)
  ne_here := by
    rintro rfl
    exact absurd hlength (by decide)
  ne_up := by
    rintro rfl
    exact absurd hlength (by decide)
  slash hmem := (h _ hmem).1 rfl
  zero hmem := (h _ hmem).2 rfl

namespace FileTree

variable {up : List Text} {name : Text}

theorem IsPlace.cons (h : IsPlace up) (hname : IsName name) (hlength : name.length ≤ nameLimit)
    (hpath : (key up).length + 1 + name.length ≤ pathLimit) : IsPlace (name :: up) where
  name := List.forall_mem_cons.2 ⟨hname, h.name⟩
  name_length := List.forall_mem_cons.2 ⟨hlength, h.name_length⟩
  length := by
    rw [key_cons_eq, List.length_append, List.length_cons]
    split
    · rw [List.length_nil]
      omega
    · omega

theorem join_key (h : IsPlace up) (hname : isAbsolute name = false) :
    Path.join (key up) name = key (name :: up) := by
  rw [key_cons_eq, Path.join, if_neg (by simp [hname, key_ne_nil])]
  cases up with
  | nil => rfl
  | cons outer up => rw [if_neg (getLast?_key h), if_neg (List.cons_ne_nil _ _)]

end FileTree

namespace AnalysisStore

variable {s : AnalysisStore} {a : Analysis} {t : FileTree} {dir fingerprint : Text}

/-! ## Places of records -/

/-- A directory that has a path, as its record and its temporary file have. -/
structure Houses (s : AnalysisStore) (dir : Text) : Prop where
  directory : IsPath dir
  record : IsInner (s.recordPath dir)
  temporary : IsInner (s.temporaryPath dir)

/-- A directory whose path is not too long has room for them. -/
theorem houses_key {up : List Text} (hup : IsPlace up)
    (hprocess : ∀ b ∈ s.process, b ≠ slash ∧ b ≠ 0) (hname : s.process.length + 26 ≤ nameLimit)
    (hpath : (key up).length + s.process.length + 27 ≤ pathLimit) : s.Houses (key up) := by
  let record : Text := "analysis-" ++ Checksum.hex s.identity ++ ".bin"
  let temporary : Text := record ++ "." ++ s.process ++ ".tmp"
  have hhex : (Checksum.hex s.identity).length = 8 := Text.length_hex _ _
  have hrecord : record.length = 21 := by
    simp only [record, List.length_append, hhex]
    rfl
  have htemporary : temporary.length = s.process.length + 26 := by
    simp only [temporary, List.length_append, hrecord, show (Text.ofString ".").length = 1 from rfl,
      show (Text.ofString ".tmp").length = 4 from rfl]
    omega
  have hrecord' : ∀ b ∈ record, b ≠ slash ∧ b ≠ 0 := by
    simp only [record, List.forall_mem_append]
    exact ⟨⟨by decide +kernel, fun b => Text.ne_of_mem_hex⟩, by decide +kernel⟩
  have htemporary' : ∀ b ∈ temporary, b ≠ slash ∧ b ≠ 0 := by
    rw [List.forall_mem_append, List.forall_mem_append, List.forall_mem_append]
    exact ⟨⟨⟨hrecord', by decide +kernel⟩, hprocess⟩, by decide +kernel⟩
  have hjoin : s.recordPath (key up) = key (record :: up) := join_key hup rfl
  have hjoin' : s.temporaryPath (key up) = key (temporary :: up) := by
    rw [temporaryPath, hjoin, key_cons_eq, key_cons_eq]
    simp [temporary]
  exact {
    directory := ⟨up, hup, rfl⟩
    record := ⟨record, up, hup.cons (.of_length (by omega) hrecord') (by omega) (by omega), hjoin.symm⟩
    temporary := ⟨temporary, up,
      hup.cons (.of_length (by omega) htemporary') (by omega) (by omega), hjoin'.symm⟩ }

/-! ## Runs -/

theorem placed_saveTo (h : s.Houses dir) (bytes : Text) : (s.saveTo bytes dir).Placed := by
  refine ⟨h.directory, fun r => ?_⟩
  cases r with
  | some fault => trivial
  | none =>
    refine ⟨h.temporary, fun opened => ?_⟩
    cases opened with
    | false => trivial
    | true =>
      refine ⟨h.temporary, fun written => ?_⟩
      cases written with
      | false => exact ⟨h.temporary, trivial⟩
      | true =>
        refine ⟨h.temporary, h.record, fun renamed => ?_⟩
        cases renamed with
        | some fault => exact ⟨h.temporary, trivial⟩
        | none => trivial

theorem placed_save (hp : s.Houses s.primary) (hf : s.fallback ≠ [] → s.Houses s.fallback) :
    (s.save a).Placed := by
  refine (placed_saveTo hp _).bind fun r => ?_
  cases r with
  | ok file => trivial
  | error fault =>
    dsimp only
    split
    · trivial
    next hs =>
    refine (placed_saveTo (hf hs) _).bind fun r => ?_
    cases r with
    | ok file => exact ⟨hp.record, trivial⟩
    | error second => trivial

theorem loaded_of_agrees (hp : s.Houses s.primary) (hf : s.fallback ≠ [] → s.Houses s.fallback)
    {f : Files} (h : t.Agrees f) : s.loaded t.reading fingerprint = s.loaded f fingerprint := by
  have hreading {path : Text} (hpath : IsInner path) : t.reading path = f path := by
    obtain ⟨name, up, hup, rfl⟩ := hpath
    rw [reading_key h.toPlain hup, h.shows hup]
  by_cases hs : s.fallback = []
  · rw [loaded_of_ne (Or.inr hs), loaded_of_ne (Or.inr hs), hreading hp.record]
  · simp only [loaded, hreading hp.record, hreading (hf hs).record]

/-- **What a save comes to on a plain tree** is one of its ends, and what is loaded from the tree
    then is what is loaded from the files at that end. -/
theorem run_save (hp : s.Houses s.primary) (hf : s.fallback ≠ [] → s.Houses s.fallback)
    (ht : t.Plain) :
    ∃ f, FileScript.Ends t.reading (s.save a) (t.run (s.save a)).1 f ∧
      ∀ fingerprint, (t.run (s.save a)).2.run (s.load fingerprint) =
        (s.loaded f fingerprint, (t.run (s.save a)).2) := by
  obtain ⟨f, hagrees, hends⟩ := FileScript.run_ends (placed_save (a := a) hp hf) ht.agrees
  exact ⟨f, hends, fun fingerprint => by rw [run_load, loaded_of_agrees hp hf hagrees]⟩

/-- After a save that failed, nothing is usable that was not. -/
theorem load_run_failed (hp : s.Houses s.primary) (hf : s.fallback ≠ [] → s.Houses s.fallback)
    (ht : t.Plain) {fault : SaveFault} {second : Option SaveFault}
    (hr : (t.run (s.save a)).1 = .failed fault second) :
    let o := ((t.run (s.save a)).2.run (s.load fingerprint)).1
    o.usable? = none ∨ o = (t.run (s.load fingerprint)).1 := by
  obtain ⟨f, hends, hload⟩ := run_save (a := a) hp hf ht
  have hleft := left_of_ends hends
  rw [hr] at hleft
  rw [hload, run_load]
  cases hleft with
  | failed fault second h => exact usable?_of_spared h

/-- After a save to the primary directory, the new record is loaded. -/
theorem load_run_primary (hp : s.Houses s.primary) (hf : s.fallback ≠ [] → s.Houses s.fallback)
    (ht : t.Plain) (ha : Record.Fits a) {file : Text} (hr : (t.run (s.save a)).1 = .primary file) :
    ((t.run (s.save a)).2.run (s.load a.fingerprint)).1 =
      { LoadOutcome.ofAnalysis a with location := file } := by
  obtain ⟨f, hends, hload⟩ := run_save (a := a) hp hf ht
  have hleft := left_of_ends hends
  rw [hr] at hleft
  rw [hload]
  cases hleft with
  | primary h => rw [loaded_of_ne (Or.inl (by rw [h.record]; nofun)), h.record, outcome_encode ha]

end AnalysisStore

end Rebuild
