/-
  A plain tree carries out scripts as files may: every change of the tree is a step.

  * `FileTree.Agrees`: the tree is plain, and its places read as the files say;
  * `create_agrees`, `rename_agrees`, `remove_agrees`, `makeDirectories_agrees`: an operation
    fails and leaves the tree as it is, or the changed tree agrees with the changed files;
  * `run_ends`: so what a script comes to on the tree is an end that it may have.
-/
import Rebuild.Proofs.Machine.Files
import Rebuild.Proofs.Machine.FileTree

namespace Rebuild

namespace FileTree

open Rebuild.Path

variable {t t' : FileTree} {f f' : Files} {up up' : List Text} {n : Node}

/-- A plain tree whose places read as the files say. -/
structure Agrees (t : FileTree) (f : Files) : Prop extends Plain t where
  shows : ∀ {up}, IsPlace up → f (key up) = shown (t.node? up)

theorem Plain.agrees (h : t.Plain) : t.Agrees t.reading where
  toPlain := h
  shows hup := reading_key h hup

/-! ## Places one by one -/

theorem node?_of_insert (hup : IsPlace up) (hup' : IsPlace up')
    (hnodes : t'.nodes = t.nodes.insert (key up) n) :
    t'.node? up' = if up' = up then some n else t.node? up' := by
  rw [node?, hnodes, Std.ExtTreeMap.getElem?_insert, node?]
  simp only [Std.LawfulEqCmp.compare_eq_iff_eq]
  by_cases h : up' = up
  · rw [if_pos h, if_pos (by rw [h])]
  · rw [if_neg h, if_neg fun heq => h (hup'.key_inj hup heq.symm)]

theorem node?_of_erase (hup : IsPlace up) (hup' : IsPlace up')
    (hnodes : t'.nodes = t.nodes.erase (key up)) :
    t'.node? up' = if up' = up then none else t.node? up' := by
  rw [node?, hnodes, Std.ExtTreeMap.getElem?_erase, node?]
  simp only [Std.LawfulEqCmp.compare_eq_iff_eq]
  by_cases h : up' = up
  · rw [if_pos h, if_pos (by rw [h])]
  · rw [if_neg h, if_neg fun heq => h (hup'.key_inj hup heq.symm)]

namespace Agrees

/-- A file or a directory is put at a place. -/
theorem insert (h : t.Agrees f) (hup : IsPlace up) (hne : up ≠ [])
    (hparent : (t.node? up.tail).any Node.isDirectory = true)
    (hkind : n.isFile = true ∨ n.isDirectory = true)
    (hold : (t.node? up).any Node.isDirectory = true → n.isDirectory = true)
    (hnodes : t'.nodes = t.nodes.insert (key up) n) :
    t'.Agrees (f.set (key up) (shown (some n))) where
  root := by
    rw [node?_of_insert hup .nil hnodes, if_neg hne.symm]
    exact h.root
  kind {up' m} hup' hm := by
    rw [node?_of_insert hup hup' hnodes] at hm
    split at hm
    · cases hm
      exact hkind
    · exact h.kind hup' hm
  parent {name up'} hup' hm := by
    rw [node?_of_insert hup hup' hnodes] at hm
    rw [node?_of_insert hup hup'.tail hnodes]
    -- the new node may be below the directory, or be the directory
    split
    · next heq =>
      subst heq
      rw [if_neg (List.cons_ne_self name up')] at hm
      exact hold (h.parent hup' hm)
    · split at hm
      · next heq =>
        rw [← heq] at hparent
        exact hparent
      · exact h.parent hup' hm
  shows {up'} hup' := by
    rw [node?_of_insert hup hup' hnodes]
    split
    · next heq => rw [heq, Files.set_self]
    · next hne =>
      rw [Files.set_of_ne fun heq => hne (hup'.key_inj hup heq)]
      exact h.shows hup'

/-- What has nothing below it is taken away. -/
theorem erase (h : t.Agrees f) (hup : IsPlace up) (hne : up ≠ [])
    (hbelow : ∀ {up'}, IsPlace up' → Through (key up') (key up) → t.node? up' = none)
    (hnodes : t'.nodes = t.nodes.erase (key up)) : t'.Agrees (f.remove (key up)) where
  root := by
    rw [node?_of_erase hup .nil hnodes, if_neg hne.symm]
    exact h.root
  kind {up' m} hup' hm := by
    rw [node?_of_erase hup hup' hnodes] at hm
    split at hm
    · cases hm
    · exact h.kind hup' hm
  parent {name up'} hup' hm := by
    rw [node?_of_erase hup hup' hnodes] at hm
    rw [node?_of_erase hup hup'.tail hnodes]
    split at hm
    · exact absurd rfl hm
    split
    · next heq =>
      subst heq
      refine absurd (hbelow hup' ?_) hm
      rw [key_cons hne]
      exact ⟨name, by simp⟩
    · exact h.parent hup' hm
  shows {up'} hup' := by
    rw [node?_of_erase hup hup' hnodes]
    split
    · next heq => rw [heq, Files.remove_self]; rfl
    · next hne' =>
      unfold Files.remove
      split
      · next hgone =>
        rcases hgone with heq | ⟨-, hthrough⟩
        · exact absurd (hup'.key_inj hup heq) hne'
        · rw [hbelow hup' hthrough]
          rfl
      · exact h.shows hup'

end Agrees

theorem any_of_canMake (h : t.canMake up = true) :
    (t.node? up.tail).any Node.isDirectory = true := by
  unfold canMake at h
  split at h
  · next heq => rw [heq]; rfl
  · cases h

/-! ## Writing -/

/-- Opening a place for writing fails, or a file can be put there. -/
theorem openForWriting_spec (ht : t.Plain) (hup : IsPlace up) (hne : up ≠ []) :
    (∃ old, t.openForWriting (key up) = .ok (up, some old) ∧
      (t.node? up.tail).any Node.isDirectory = true ∧
      (t.node? up).any Node.isDirectory = false) ∨
    ∃ fault, t.openForWriting (key up) = .error fault := by
  have hleads := locate_leads ht hup true
  unfold openForWriting
  cases hn : t.node? up with
  | some n =>
    rw [hleads.eq_of_some hn]
    have hparent := ht.parent_tail hup hne (by rw [hn]; nofun)
    cases n with
    | file content modified => exact Or.inl ⟨content, rfl, hparent, rfl⟩
    | program name => exact Or.inr ⟨.denied, rfl⟩
    | directory closed => exact Or.inr ⟨.isDirectory, rfl⟩
    | link | fifo | null | zeros => rcases ht.kind hup hn with hk | hk <;> cases hk
  | none =>
    rcases hleads.of_none hn with ⟨hparent, hl⟩ | ⟨fault, hl, -⟩
    · rw [hl]
      by_cases hmake : t.canMake up = true
      · exact Or.inl ⟨[], by simp [bind, Except.bind, hmake, pure, Except.pure], hparent, rfl⟩
      · exact Or.inr ⟨.noEntry, by simp [bind, Except.bind, hmake]⟩
    · rw [hl]
      exact Or.inr ⟨fault, rfl⟩

theorem create_agrees (h : t.Agrees f) (hup : IsPlace up) (hne : up ≠ []) (content : Text) :
    (∃ t', t.create (key up) content = .ok t' ∧ t'.Agrees (f.set (key up) (.content content))) ∨
      ∃ fault, t.create (key up) content = .error fault := by
  unfold create
  rcases openForWriting_spec h.toPlain hup hne with ⟨old, ho, hparent, hold⟩ | ⟨fault, ho⟩
  · rw [ho]
    refine Or.inl ⟨t.putFile up content, rfl, ?_⟩
    exact h.insert (n := .file content t.now) hup hne hparent (Or.inl rfl)
      (fun hdir => by rw [hold] at hdir; cases hdir) rfl
  · rw [ho]
    exact Or.inr ⟨fault, rfl⟩

/-! ## Removing -/

/-- What lies below a place is listed. -/
theorem node?_of_below_eq_nil (hup : IsPlace up) (hne : up ≠ []) (h : t.below up = [])
    (hup' : IsPlace up') (hthrough : Through (key up') (key up)) : t.node? up' = none := by
  by_contra hsome
  obtain ⟨n, hn⟩ := Option.ne_none_iff_exists'.1 hsome
  obtain ⟨rest, hrest⟩ := hthrough
  have hrest_ne : rest ≠ [] := by
    rintro rfl
    -- the path of a place has no slash at its end
    have hlast : (key up').getLast? = some slash := by rw [← hrest]; simp
    obtain ⟨xs, hxs, rfl⟩ := exists_of_through hup hne hup' ⟨[], hrest⟩
    cases xs with
    | nil => exact hxs rfl
    | cons name xs => exact getLast?_key hup' hlast
  have hmem : (rest, n) ∈ t.below up := by
    rw [mem_below, if_neg hne, List.append_cons, hrest]
    exact ⟨hrest_ne, hn⟩
  rw [h] at hmem
  cases hmem

theorem remove_agrees (h : t.Agrees f) (hup : IsPlace up) (hne : up ≠ []) :
    (t.attempt ((t.remove (key up)).map (·.2))).1 = t ∨
      (t.attempt ((t.remove (key up)).map (·.2))).1.Agrees (f.remove (key up)) := by
  have hleads := locate_leads h.toPlain hup false
  unfold remove
  cases hn : t.node? up with
  | some n =>
    rw [hleads.eq_of_some hn]
    cases hdir : n.isDirectory with
    | true =>
      cases n with
      | directory closed =>
        by_cases hbelow : t.below up = []
        · right
          simp only [hbelow, List.isEmpty_nil, if_true]
          exact h.erase hup hne (node?_of_below_eq_nil hup hne hbelow) rfl
        · left
          simp [hbelow, Except.map, attempt]
      | _ => cases hdir
    | false =>
      right
      have herase : ({ t with nodes := t.nodes.erase (key up) } : FileTree).Agrees
          (f.remove (key up)) := by
        refine h.erase hup hne (fun hup' hthrough => ?_) rfl
        obtain ⟨xs, hxs, rfl⟩ := exists_of_through hup hne hup' hthrough
        exact h.node?_below (by rw [hn]; exact hdir) hxs hup'
      cases n with
      | directory => cases hdir
      | _ => exact herase
  | none =>
    rcases hleads.of_none hn with ⟨-, hl⟩ | ⟨fault, hl, -⟩
    · rw [hl]
      exact Or.inl rfl
    · rw [hl]
      cases fault <;> exact Or.inl rfl

/-! ## Renaming -/

section

variable {source target : List Text}

theorem move_agrees (h : t.Agrees f) (hs : IsPlace source) (hsne : source ≠ [])
    (ht : IsPlace target) (htne : target ≠ []) (hn : t.node? source = some n)
    (hfile : n.isDirectory = false) (hparent : (t.node? target.tail).any Node.isDirectory = true)
    (hold : (t.node? target).any Node.isDirectory = false) :
    (FileTree.put { t with nodes := t.nodes.erase (key source) } target n).Agrees
      ((f.set (key source) .absent).set (key target) (f (key source))) := by
  have hkind : n.isFile = true := (h.kind hs hn).resolve_right (by rw [hfile]; nofun)
  have hshown : ∃ content, shown (some n) = .content content := by
    cases n with
    | directory => cases hfile
    | _ => exact ⟨_, rfl⟩
  obtain ⟨content, hshown⟩ := hshown
  have hcontent : f (key source) = .content content := by rw [h.shows hs, hn, hshown]
  have herased : ({ t with nodes := t.nodes.erase (key source) } : FileTree).Agrees
      (f.remove (key source)) := by
    refine h.erase hs hsne (fun hup' hthrough => ?_) rfl
    obtain ⟨xs, hxs, rfl⟩ := exists_of_through hs hsne hup' hthrough
    exact h.node?_below (by rw [hn]; exact hfile) hxs hup'
  rw [Files.remove_eq_set hcontent] at herased
  rw [hcontent, ← hshown]
  refine herased.insert ht htne ?_ (Or.inl hkind) (fun hdir => ?_) rfl
  · -- the directory around the target is not what was taken away
    rw [node?_of_erase hs ht.tail' rfl, if_neg]
    · exact hparent
    · intro heq
      rw [heq, hn] at hparent
      exact absurd hparent (by simp [hfile])
  · rw [node?_of_erase hs ht rfl] at hdir
    split at hdir
    · cases hdir
    · rw [hold] at hdir
      cases hdir

/-- Renaming fails, or it is a file that is renamed, and not over a directory. -/
theorem rename_spec (h : t.Plain) (hs : IsPlace source) (ht : IsPlace target) (htne : target ≠ []) :
    (∃ n, t.rename (key source) (key target) =
        .ok (FileTree.put { t with nodes := t.nodes.erase (key source) } target n) ∧
      t.node? source = some n ∧ n.isDirectory = false ∧
      (t.node? target.tail).any Node.isDirectory = true ∧
      (t.node? target).any Node.isDirectory = false) ∨
    ∃ fault, t.rename (key source) (key target) = .error fault := by
  rcases (locate_leads h hs false).eq_or with hl | ⟨fault, hl⟩
  swap
  · exact Or.inr ⟨fault, by simp [rename, hl, bind, Except.bind]⟩
  rcases (locate_leads h ht false).eq_or with hl' | ⟨fault, hl'⟩
  swap
  · exact Or.inr ⟨fault, by simp [rename, hl, hl', bind, Except.bind]⟩
  simp only [rename, hl, hl', bind, Except.bind]
  cases hn : t.node? source with
  | none => exact Or.inr ⟨_, rfl⟩
  | some n =>
    cases hm : t.node? target with
    | none =>
      cases n with
      | directory => exact Or.inr ⟨_, rfl⟩
      | file | program | link | fifo | null | zeros =>
        by_cases hmake : t.canMake target = true
        · exact Or.inl ⟨_, by simp [hmake, pure, Except.pure], rfl, rfl, any_of_canMake hmake, rfl⟩
        · exact Or.inr ⟨.noEntry, by simp [hmake]⟩
    | some m =>
      have hparent := h.parent_tail ht htne (by rw [hm]; nofun)
      cases n with
      | directory => exact Or.inr ⟨_, rfl⟩
      | file | program | link | fifo | null | zeros =>
        cases m with
        | directory => exact Or.inr ⟨_, rfl⟩
        | file | program | link | fifo | null | zeros =>
          exact Or.inl ⟨_, rfl, rfl, rfl, hparent, rfl⟩

theorem rename_agrees (h : t.Agrees f) (hs : IsPlace source) (hsne : source ≠ [])
    (ht : IsPlace target) (htne : target ≠ []) :
    (∃ t', t.rename (key source) (key target) = .ok t' ∧
      t'.Agrees ((f.set (key source) .absent).set (key target) (f (key source)))) ∨
    ∃ fault, t.rename (key source) (key target) = .error fault := by
  rcases rename_spec h.toPlain hs ht htne with ⟨n, hr, hn, hfile, hparent, hold⟩ | hr
  · exact Or.inl ⟨_, hr, move_agrees h hs hsne ht htne hn hfile hparent hold⟩
  · exact Or.inr hr

end

/-! ## Making directories -/

theorem makeDirectory_agrees (h : t.Agrees f) (hup : IsPlace up)
    (ht' : t.makeDirectory (key up) = .ok t') :
    t' = t ∨ f (key up) = .absent ∧ t'.Agrees (f.set (key up) .broken) := by
  have hleads := locate_leads h.toPlain hup false
  unfold makeDirectory make at ht'
  cases hn : t.node? up with
  | some n =>
    left
    rw [hleads.eq_of_some hn] at ht'
    simp only [bind, Except.bind, Option.isSome_some, if_true] at ht'
    split at ht'
    · cases ht'
      rfl
    · cases ht'
  | none =>
    rcases hleads.of_none hn with ⟨hparent, hl⟩ | ⟨fault, hl, hfault⟩
    · rw [hl] at ht'
      by_cases hmake : t.canMake up = true
      · right
        simp only [bind, Except.bind, hmake, pure, Except.pure] at ht'
        cases ht'
        refine ⟨by rw [h.shows hup, hn]; rfl, ?_⟩
        exact h.insert (n := .folder) hup (h.ne_nil hn) hparent (Or.inr rfl) (fun _ => rfl) rfl
      · simp [bind, Except.bind, hmake] at ht'
    · rw [hl] at ht'
      cases fault with
      | alreadyThere => cases hfault
      | _ => cases ht'

/-- Nothing is missing but the directories around a place. -/
theorem missing_spec (ht : t.Plain) (hup : IsPlace up) (hne : up ≠ []) {limit : Nat}
    {inner dirs : List Text} (h : t.missing limit (key up) inner = .ok dirs) :
    ∀ d ∈ dirs, d ∈ inner ∨ ∃ up', up' ≠ [] ∧ up' <:+ up ∧ d = key up' := by
  induction limit generalizing up inner with
  | zero => cases h
  | succ limit ih =>
    cases up with
    | nil => exact absurd rfl hne
    | cons name up =>
      have hname := hup.name name List.mem_cons_self
      -- the path itself is one of them
      have hstep : ∀ d ∈ key (name :: up) :: inner,
          d ∈ inner ∨ ∃ up', up' ≠ [] ∧ up' <:+ name :: up ∧ d = key up' := by
        intro d hd
        rcases List.mem_cons.1 hd with rfl | hd
        · exact Or.inr ⟨_, hne, List.suffix_refl _, rfl⟩
        · exact Or.inl hd
      rw [missing, fileName_key hup, directory_key hup] at h
      simp only [if_neg (not_or.2 ⟨hname.ne_here, hname.ne_up⟩), if_neg (key_ne_nil up)] at h
      cases hn : t.node? up with
      | some n =>
        rw [find_of_some ht hup.tail hn] at h
        dsimp only at h
        split at h
        · cases h
          exact hstep
        · cases h
      | none =>
        obtain ⟨fault, hfind, hfault⟩ := find_of_none ht hup.tail hn
        rw [hfind] at h
        simp only [hfault, if_true] at h
        intro d hd
        rcases ih hup.tail (ht.ne_nil hn) h d hd with hd | ⟨up', hup', hsuffix, heq⟩
        · exact hstep d hd
        · exact Or.inr ⟨up', hup', hsuffix.trans (List.suffix_cons _ _), heq⟩

theorem foldlM_makeDirectory_agrees (h : t.Agrees f) (hup : IsPlace up) {dirs : List Text}
    (hdirs : ∀ d ∈ dirs, ∃ up', up' ≠ [] ∧ up' <:+ up ∧ d = key up')
    (ht' : dirs.foldlM (fun t dir => t.makeDirectory dir) t = .ok t') :
    ∃ f', f.Paved f' (key up) ∧ t'.Agrees f' := by
  induction dirs generalizing t f with
  | nil =>
    cases ht'
    exact ⟨f, .refl, h⟩
  | cons d dirs ih =>
    rw [List.foldlM_cons] at ht'
    cases hd : t.makeDirectory d with
    | error fault =>
      rw [hd] at ht'
      cases ht'
    | ok t₁ =>
      rw [hd] at ht'
      have hdirs' := fun d' hd' => hdirs d' (List.mem_cons_of_mem _ hd')
      obtain ⟨up', hne', hsuffix, rfl⟩ := hdirs d List.mem_cons_self
      have hup' : IsPlace up' := by
        obtain ⟨xs, rfl⟩ := hsuffix
        exact hup.of_append
      rcases makeDirectory_agrees h hup' hd with rfl | ⟨habsent, h₁⟩
      · exact ih h hdirs' ht'
      · obtain ⟨f', hpaved, hf'⟩ := ih h₁ hdirs' ht'
        exact ⟨f', (Files.Paved.set habsent (onWay_key hne' hsuffix)).trans hpaved, hf'⟩

theorem makeDirectories_agrees (h : t.Agrees f) (hup : IsPlace up) :
    ∃ f', f.Paved f' (key up) ∧ (t.attempt (t.makeDirectories (key up))).1.Agrees f' := by
  cases hr : t.makeDirectories (key up) with
  | error fault => exact ⟨f, .refl, h⟩
  | ok t' =>
    show ∃ f', f.Paved f' (key up) ∧ t'.Agrees f'
    unfold makeDirectories at hr
    rw [if_neg (key_ne_nil up)] at hr
    cases hn : t.node? up with
    | some n =>
      rw [find_of_some h.toPlain hup hn] at hr
      dsimp only at hr
      split at hr
      · cases hr
        exact ⟨f, .refl, h⟩
      · cases hr
    | none =>
      obtain ⟨fault, hfind, hfault⟩ := find_of_none h.toPlain hup hn
      rw [hfind] at hr
      cases up with
      | nil => exact absurd rfl (h.ne_nil hn)
      | cons name up =>
        have hname := hup.name name List.mem_cons_self
        simp only [hfault, Bool.not_true, fileName_key hup, if_neg hname.ne_nil] at hr
        cases hm : t.missing pathLimit (key (name :: up)) [] with
        | error fault =>
          rw [hm] at hr
          cases hr
        | ok dirs =>
          rw [hm] at hr
          refine foldlM_makeDirectory_agrees h hup (fun d hd => ?_) hr
          exact (missing_spec h.toPlain hup (List.cons_ne_nil _ _) hm d hd).resolve_left nofun

/-! ## Scripts -/

/-- A path that leads to a place as it is written. -/
def IsPath (path : Text) : Prop := ∃ up, IsPlace up ∧ key up = path

/-- The path of a place in a directory. -/
def IsInner (path : Text) : Prop := ∃ name up, IsPlace (name :: up) ∧ key (name :: up) = path

end FileTree

open FileTree

namespace FileScript

variable {α : Type} {t : FileTree} {f : Files}

/-- A script that goes by the paths of places. -/
def Placed : FileScript α → Prop
  | done _ => True
  | makeDirectories path next => IsPath path ∧ ∀ r, (next r).Placed
  | openEmpty path next => IsInner path ∧ ∀ r, (next r).Placed
  | write path _ next => IsInner path ∧ ∀ r, (next r).Placed
  | rename source target next => IsInner source ∧ IsInner target ∧ ∀ r, (next r).Placed
  | remove path next => IsInner path ∧ next.Placed
  | read path next => IsPath path ∧ ∀ r, (next r).Placed

theorem Placed.bind {β : Type} {s : FileScript α} {k : α → FileScript β} (hs : s.Placed)
    (hk : ∀ a, (k a).Placed) : (s.bind k).Placed := by
  induction s with
  | done a => exact hk a
  | makeDirectories path next ih => exact ⟨hs.1, fun r => ih r (hs.2 r)⟩
  | openEmpty path next ih => exact ⟨hs.1, fun r => ih r (hs.2 r)⟩
  | write path content next ih => exact ⟨hs.1, fun r => ih r (hs.2 r)⟩
  | rename source target next ih => exact ⟨hs.1, hs.2.1, fun r => ih r (hs.2.2 r)⟩
  | remove path next ih => exact ⟨hs.1, ih hs.2⟩
  | read path next ih => exact ⟨hs.1, fun r => ih r (hs.2 r)⟩

/-- **What a script comes to on a plain tree** is an end that it may have. -/
theorem run_ends {s : FileScript α} (hs : s.Placed) (h : t.Agrees f) :
    ∃ f', (t.run s).2.Agrees f' ∧ Ends f s (t.run s).1 f' := by
  induction s generalizing t f with
  | done a => exact ⟨f, h, .here⟩
  | makeDirectories path next ih =>
    obtain ⟨⟨up, hup, rfl⟩, hnext⟩ := hs
    obtain ⟨g, hpaved, hg⟩ := makeDirectories_agrees h hup
    obtain ⟨f', hf', hends⟩ := ih (t.attempt (t.makeDirectories (key up))).2 (hnext _) hg
    exact ⟨f', hf', .next (.directories _ hpaved) hends⟩
  | openEmpty path next ih =>
    obtain ⟨⟨name, up, hup, rfl⟩, hnext⟩ := hs
    rcases create_agrees h hup (List.cons_ne_nil _ _) [] with ⟨t', hr, hg⟩ | ⟨fault, hr⟩
    · obtain ⟨f', hf', hends⟩ := ih true (hnext _) hg
      refine ⟨f', ?_, .next .opened ?_⟩ <;> simpa [run, hr, attempt]
    · obtain ⟨f', hf', hends⟩ := ih false (hnext _) h
      refine ⟨f', ?_, .next .notOpened ?_⟩ <;> simpa [run, hr, attempt]
  | write path content next ih =>
    obtain ⟨⟨name, up, hup, rfl⟩, hnext⟩ := hs
    rcases create_agrees h hup (List.cons_ne_nil _ _) content with ⟨t', hr, hg⟩ | ⟨fault, hr⟩
    · obtain ⟨f', hf', hends⟩ := ih true (hnext _) hg
      refine ⟨f', ?_, .next .written ?_⟩ <;> simpa [run, hr, attempt]
    · obtain ⟨f', hf', hends⟩ := ih false (hnext _) h
      refine ⟨f', ?_, .next .notWritten ?_⟩ <;> simpa [run, hr, attempt]
  | rename source target next ih =>
    obtain ⟨⟨name, up, hup, rfl⟩, ⟨name', up', hup', rfl⟩, hnext⟩ := hs
    rcases rename_agrees h hup (List.cons_ne_nil _ _) hup' (List.cons_ne_nil _ _) with
      ⟨t', hr, hg⟩ | ⟨fault, hr⟩
    · obtain ⟨f', hf', hends⟩ := ih none (hnext _) hg
      refine ⟨f', ?_, .next .renamed ?_⟩ <;> simpa [run, hr, attempt]
    · obtain ⟨f', hf', hends⟩ := ih (some fault) (hnext _) h
      refine ⟨f', ?_, .next (.notRenamed fault) ?_⟩ <;> simpa [run, hr, attempt]
  | remove path next ih =>
    obtain ⟨⟨name, up, hup, rfl⟩, hnext⟩ := hs
    rcases remove_agrees h hup (List.cons_ne_nil _ _) with heq | hg
    · obtain ⟨f', hf', hends⟩ := ih hnext h
      refine ⟨f', ?_, .next .notRemoved ?_⟩ <;> simpa [run, heq]
    · obtain ⟨f', hf', hends⟩ := ih hnext hg
      exact ⟨f', hf', .next .removed hends⟩
  | read path next ih =>
    obtain ⟨⟨up, hup, rfl⟩, hnext⟩ := hs
    obtain ⟨f', hf', hends⟩ := ih (t.reading (key up)) (hnext _) h
    have hreading : t.reading (key up) = f (key up) := by
      rw [reading_key h.toPlain hup, h.shows hup]
    refine ⟨f', hf', .next .read ?_⟩
    rw [← hreading]
    exact hends

end FileScript

end Rebuild
