/-
  What a survey finds does not depend on its threads.

  * `FileTree.getElem?_surveyed`: a sweep that has looked at every path gives each of them its
    snapshot, and nothing else;
  * `FileTree.survey_fst_eq`: so any number of threads finds what one finds.

  `FileTree.survey_inOrder` says this of every order in which the threads go on.
-/
import Rebuild.Machine.Survey
import Rebuild.Proofs.Snapshot.Sweep

namespace Rebuild

theorem sweepThreads_le (wanted items : Nat) : sweepThreads wanted items ≤ max 1 items := by
  have := Nat.mod_le items UInt32.size
  unfold sweepThreads
  omega

theorem sweepThreads_one (items : Nat) : sweepThreads 1 items = 1 := by
  unfold sweepThreads
  omega

namespace FileTree

variable {t : FileTree} {paths : List Text} {threads : Nat}
  {sweep : Sweep (Snapshot × List Log.Entry)}

/-- **A sweep over all paths gives each of them its snapshot**, also one that is there twice. -/
theorem getElem?_surveyed (h : sweep.all = paths.map t.snapshot) (path : Text) :
    (surveyed paths threads sweep).1[path]? =
      if path ∈ paths then some (t.snapshot path).1 else none := by
  have htaken : paths.zip (sweep.all.map (·.1)) = paths.map fun p => (p, (t.snapshot p).1) := by
    rw [h, List.map_map]
    exact List.map_prod_left_eq_zip.symm
  simp only [surveyed, htaken, List.foldl_map]
  rw [getElem?_foldl_insertIfNew (fun p => (t.snapshot p).1)]
  simp

theorem survey_one (t : FileTree) (paths : List Text) :
    t.survey paths 1 = surveyed paths 1 (.alone t.snapshot paths) := by
  simp [survey, sweepThreads_one, Sweep.inOrder]

/-- The snapshots are made of what was seen at the places of the paths, in whichever order it was
    seen. -/
theorem surveyed_of_complete (h : Sweep.Complete t.snapshot paths sweep) (threads : Nat) :
    (surveyed paths threads sweep).1 = (t.survey paths 1).1 := by
  have halone := Sweep.complete_alone t.snapshot paths
  simp only [survey_one, surveyed, h.all_eq, halone.all_eq]

theorem room_of_lt (h : paths.length < UInt32.size) (wanted : Nat) :
    paths.length + sweepThreads wanted paths.length < UInt64.size := by
  have := sweepThreads_le wanted paths.length
  unfold UInt32.size at h
  unfold UInt64.size
  omega

/-- **Any number of threads finds what one finds.** -/
theorem survey_fst_eq (h : paths.length < UInt32.size) (wanted : Nat) :
    (t.survey paths wanted).1 = (t.survey paths 1).1 := by
  have hroom := room_of_lt h wanted
  have hdone := Sweep.isDone_firstTakesAll hroom t.snapshot
  exact surveyed_of_complete (Sweep.complete_inOrder hroom hdone) _

/-- **Surveys do not depend on their threads.**  For any number of threads and whichever order they
    go on in: at no time was a path of the list looked at twice; with two steps for each path and
    one more all threads come to their end; and when they have, every path of the list was looked
    at once, and the snapshots are those that one thread takes, for each path what is there. -/
theorem survey_inOrder (t : FileTree) {paths : List Text} (hpaths : paths.length < UInt32.size)
    (wanted : Nat) (order : List Nat) :
    let n := paths.length
    let threads := sweepThreads wanted n
    let sweep := Sweep.inOrder t.snapshot paths threads order
    (sweep.looked.Nodup ∧ ∀ i ∈ sweep.looked, i < n) ∧
      ((∀ k < threads, 2 * n < order.count k) → sweep.isDone = true) ∧
      (sweep.isDone = true →
        sweep.looked.Perm (List.range n) ∧ sweep.seen.Perm (paths.map t.snapshot) ∧
        (surveyed paths threads sweep).1 = (t.survey paths 1).1 ∧
        ∀ path, (surveyed paths threads sweep).1[path]? =
          if path ∈ paths then some (t.snapshot path).1 else none) := by
  intro n threads sweep
  have hroom := room_of_lt hpaths wanted
  refine ⟨Sweep.once_inOrder hroom _ order, Sweep.isDone_inOrder hroom, fun hdone => ?_⟩
  have hcomplete := Sweep.complete_inOrder hroom hdone
  exact ⟨hcomplete.looked, hcomplete.seen, surveyed_of_complete hcomplete threads,
    getElem?_surveyed hcomplete.all_eq⟩

/-- A file and a directory. -/
def fileAndFolder : FileTree :=
  { nodes := [("/", .folder), ("/a", .file "abc" 7), ("/d", .folder)].foldl
      (fun m e => m.insert e.1 e.2) ∅
    now := 8 }

/-- A file twice, and a directory in between. -/
def fileTwice : List Text := ["/a", "/d", "/a"]

/-- The second of two threads overtakes the first, which has taken a number and not yet looked. -/
def overtaking : List Nat := [0, 1, 1, 1, 1, 0, 0, 1]

theorem survey_inOrder_overtaking :
    let threads := sweepThreads 2 fileTwice.length
    let sweep := Sweep.inOrder fileAndFolder.snapshot fileTwice threads overtaking
    fileTwice.length < UInt32.size ∧ sweep.isDone = true ∧ sweep.looked = [0, 2, 1] ∧
      (surveyed fileTwice threads sweep).1 = (fileAndFolder.survey fileTwice 1).1 ∧
      (surveyed fileTwice threads sweep).1[("/a" : Text)]? = some ⟨.file, 7, 3⟩ := by
  intro threads sweep
  have hpaths : fileTwice.length < UInt32.size := by decide
  have hdone : sweep.isDone = true := by decide +kernel
  obtain ⟨-, -, hend⟩ := survey_inOrder fileAndFolder hpaths 2 overtaking
  obtain ⟨-, -, hsame, hfound⟩ := hend hdone
  exact ⟨hpaths, hdone, by decide +kernel, hsame, (hfound "/a").trans (by decide +kernel)⟩

end FileTree

end Rebuild
