/-
  Trees that have only files and directories, and the paths of their places.

  * `FileTree.Plain`: what is there is in a directory;
  * `FileTree.locate_leads`: where the path of a place leads then;
  * `FileTree.reading_key`: what reading it comes to.
-/
import Mathlib.Data.List.TakeWhile
import Mathlib.Tactic.Common
import Rebuild.Proofs.Path

namespace Rebuild.FileTree

open Rebuild.Path

/-! ## Places -/

/-- A place that has a path, given by the names from it up to the root directory. -/
structure IsPlace (up : List Text) : Prop where
  name : ∀ n ∈ up, IsName n
  name_length : ∀ n ∈ up, n.length ≤ nameLimit
  length : (key up).length ≤ pathLimit

variable {t : FileTree} {up up' : List Text} {name : Text} {follow : Bool}

theorem key_ne_nil (up : List Text) : key up ≠ [] := ofNames_ne_nil _

theorem key_cons (hne : up ≠ []) : key (name :: up) = key up ++ slash :: name := by
  rw [key, List.reverse_cons, ofNames_concat (by simpa using hne), key]

theorem key_cons_eq : key (name :: up) = (if up = [] then [] else key up) ++ slash :: name := by
  split
  · next h => rw [h]; rfl
  · next h => exact key_cons h

namespace IsPlace

theorem nil : IsPlace [] := ⟨nofun, nofun, by decide⟩

theorem reverse (h : IsPlace up) : ∀ n ∈ up.reverse, IsName n := fun n hn =>
  h.name n (List.mem_reverse.1 hn)

theorem reverse_slash (h : IsPlace up) : ∀ n ∈ up.reverse, slash ∉ n := fun n hn =>
  (h.reverse n hn).slash

theorem tail (h : IsPlace (name :: up)) : IsPlace up := by
  refine ⟨fun n hn => h.name n (List.mem_cons_of_mem _ hn),
    fun n hn => h.name_length n (List.mem_cons_of_mem _ hn), ?_⟩
  by_cases hne : up = []
  · rw [hne]
    decide
  · have hlength := h.length
    rw [key_cons hne, List.length_append] at hlength
    omega

theorem tail' (h : IsPlace up) : IsPlace up.tail := by
  cases up with
  | nil => exact h
  | cons name up => exact h.tail

theorem of_append {xs : List Text} (h : IsPlace (xs ++ up)) : IsPlace up := by
  induction xs with
  | nil => exact h
  | cons x xs ih => exact ih h.tail

theorem key_inj (h : IsPlace up) (h' : IsPlace up') (heq : key up = key up') : up = up' :=
  List.reverse_inj.1 (ofNames_injective h.reverse h'.reverse heq)

end IsPlace

theorem getLast?_key (h : IsPlace (name :: up)) : (key (name :: up)).getLast? ≠ some slash := by
  have hname := h.name name List.mem_cons_self
  obtain ⟨b, hb⟩ : ∃ b, name.getLast? = some b := by
    cases hl : name.getLast? with
    | some b => exact ⟨b, rfl⟩
    | none => exact absurd (List.getLast?_eq_none_iff.1 hl) hname.ne_nil
  rw [key_cons_eq, List.getLast?_append, List.getLast?_cons, hb]
  intro heq
  exact hname.slash (List.mem_of_getLast? (hb.trans heq))

theorem fileName_key (h : IsPlace (name :: up)) : fileName (key (name :: up)) = name := by
  rw [key_cons_eq]
  exact fileName_append (h.name name List.mem_cons_self).slash

theorem directory_key (h : IsPlace (name :: up)) : directory (key (name :: up)) = key up := by
  have hslash := (h.name name List.mem_cons_self).slash
  rw [key_cons_eq]
  cases up with
  | nil => exact directory_append hslash nofun
  | cons outer up =>
    rw [if_neg (List.cons_ne_nil _ _), directory_append hslash (getLast?_key h.tail),
      if_neg (key_ne_nil _)]

/-- The directories around a place are on the way to it. -/
theorem onWay_key (hne : up ≠ []) (h : up <:+ up') : OnWay (key up) (key up') := by
  obtain ⟨xs, rfl⟩ := h
  induction xs with
  | nil => exact Or.inl rfl
  | cons x xs ih =>
    right
    have hcons : key (x :: (xs ++ up)) = key (xs ++ up) ++ slash :: x := key_cons (by simp [hne])
    rw [Through, List.cons_append, hcons]
    rcases ih with heq | hthrough
    · rw [← heq]
      exact ⟨x, by simp⟩
    · exact hthrough.trans (List.prefix_append _ _)

/-- What a path leads through is on the way to its place. -/
theorem exists_of_through (h : IsPlace up) (hne : up ≠ []) (h' : IsPlace up')
    (hthrough : Through (key up') (key up)) : ∃ xs, xs ≠ [] ∧ up' = xs ++ up := by
  obtain ⟨rest, hrest⟩ := hthrough
  have hne' : up' ≠ [] := by
    rintro rfl
    have hlength := congrArg List.length hrest
    rw [List.length_append, List.length_append, List.length_singleton,
      show (key []).length = 1 from rfl] at hlength
    exact key_ne_nil up (List.length_eq_zero_iff.1 (by omega))
  have hsplit := congrArg (Text.split slash) hrest
  rw [List.append_assoc, List.singleton_append, Text.split_append, key, key,
    split_ofNames (by simpa using hne) h.reverse_slash,
    split_ofNames (by simpa using hne') h'.reverse_slash] at hsplit
  have hnames : up.reverse ++ Text.split slash rest = up'.reverse := (List.cons.inj hsplit).2
  refine ⟨(Text.split slash rest).reverse, by simpa using Text.split_ne_nil slash rest, ?_⟩
  rw [← List.reverse_reverse up', ← hnames, List.reverse_append, List.reverse_reverse]

theorem zero_notMem_key (h : IsPlace up) : 0 ∉ key up := by
  intro hmem
  have hslash : (0 : UInt8) ≠ slash := by decide
  rcases List.mem_cons.1 hmem with hz | hz
  · exact hslash hz
  · rcases Text.mem_join hz with hs | ⟨n, hn, hz⟩
    · exact hslash (List.mem_singleton.1 hs)
    · exact (h.reverse n hn).zero hz

/-! ## What lies below -/

/-- What lies below a place has its path behind that of the place. -/
theorem mem_below {rest : Text} {n : Node} : (rest, n) ∈ t.below up ↔ rest ≠ [] ∧
    t.nodes[(if up = [] then [] else key up) ++ slash :: rest]? = some n := by
  have hstart : (if up = [] then [slash] else key up ++ [slash]) =
      (if up = [] then [] else key up) ++ [slash] := by
    split_ifs <;> rfl
  simp only [below, List.mem_filterMap, Prod.exists, Std.ExtTreeMap.mem_toList_iff_getElem?_eq_some,
    hstart]
  constructor
  · rintro ⟨path, m, hn, h⟩
    split at h
    · cases h
    · cases h
    · next hne hafter =>
      cases h
      rw [Text.after?_eq_some_iff, List.append_assoc] at hafter
      exact ⟨hne, hafter ▸ hn⟩
  · rintro ⟨hne, hn⟩
    refine ⟨_, n, hn, ?_⟩
    rw [Text.after?_eq_some_iff.2 (List.append_cons _ _ _)]
    split
    · next h => cases h
    · next h => exact absurd (Option.some.inj h) hne
    · next h => rw [Option.some.inj h]

/-! ## Plain trees -/

/-- There are only files and directories, and each is in a directory. -/
structure Plain (t : FileTree) : Prop where
  root : (t.node? []).any Node.isDirectory = true
  kind : ∀ {up n}, IsPlace up → t.node? up = some n → n.isFile = true ∨ n.isDirectory = true
  parent : ∀ {name up}, IsPlace (name :: up) → t.node? (name :: up) ≠ none →
    (t.node? up).any Node.isDirectory = true

namespace Plain

/-- It is enough to look at what is there. -/
theorem of_nodes (hroot : (t.nodes[key []]?).any Node.isDirectory = true)
    (h : ∀ e ∈ t.nodes.toList, (e.2.isFile || e.2.isDirectory) = true ∧
      (t.nodes[directory e.1]?).any Node.isDirectory = true) : t.Plain where
  root := hroot
  kind {up n} _ hn := by
    have hmem : (key up, n) ∈ t.nodes.toList := Std.ExtTreeMap.mem_toList_iff_getElem?_eq_some.2 hn
    simpa using (h _ hmem).1
  parent {name up} hup hn := by
    obtain ⟨n, hn⟩ := Option.ne_none_iff_exists'.1 hn
    have hmem : (key (name :: up), n) ∈ t.nodes.toList :=
      Std.ExtTreeMap.mem_toList_iff_getElem?_eq_some.2 hn
    have hdir := (h _ hmem).2
    rwa [directory_key hup] at hdir

example : Plain ⟨((∅ : TextMap Node).insert "/" .folder).insert "/s" (.file "x" 0), 0⟩ :=
  of_nodes (by decide +kernel) (by decide +kernel)

theorem ne_nil (ht : t.Plain) (h : t.node? up = none) : up ≠ [] := by
  rintro rfl
  have hroot := ht.root
  rw [h] at hroot
  cases hroot

theorem parent_tail (ht : t.Plain) (hup : IsPlace up) (hne : up ≠ []) (h : t.node? up ≠ none) :
    (t.node? up.tail).any Node.isDirectory = true := by
  cases up with
  | nil => exact absurd rfl hne
  | cons name up => exact ht.parent hup h

/-- There is nothing below what is no directory. -/
theorem node?_below (ht : t.Plain) (hup : (t.node? up).any Node.isDirectory = false) {xs : List Text}
    (hxs : xs ≠ []) (h : IsPlace (xs ++ up)) : t.node? (xs ++ up) = none := by
  induction xs with
  | nil => exact absurd rfl hxs
  | cons x xs ih =>
    by_contra hne
    have hdir : (t.node? (xs ++ up)).any Node.isDirectory = true := ht.parent h hne
    by_cases hnil : xs = []
    · rw [hnil, List.nil_append, hup] at hdir
      cases hdir
    · rw [ih hnil h.tail] at hdir
      cases hdir

end Plain

/-! ## Following a path -/

/-- What following the path of a place comes to. -/
inductive Leads (t : FileTree) (up : List Text) : Except FileFault Place → Prop
  | there {n : Node} (h : t.node? up = some n) : Leads t up (.ok ⟨up, some n, false⟩)
  /-- Something could be made. -/
  | free (h : t.node? up = none) (hparent : (t.node? up.tail).any Node.isDirectory = true) :
      Leads t up (.ok ⟨up, none, false⟩)
  | missing {fault : FileFault} (h : t.node? up = none) (hfault : fault.isAbsence = true) :
      Leads t up (.error fault)

namespace Leads

variable {r : Except FileFault Place}

theorem eq_of_some (h : t.Leads up r) {n : Node} (hn : t.node? up = some n) :
    r = .ok ⟨up, some n, false⟩ := by
  cases h with
  | there hsome =>
    rw [hn] at hsome
    cases hsome
    rfl
  | free hnone | missing hnone =>
    rw [hn] at hnone
    cases hnone

theorem of_none (h : t.Leads up r) (hn : t.node? up = none) :
    (t.node? up.tail).any Node.isDirectory = true ∧ r = .ok ⟨up, none, false⟩ ∨
      ∃ fault, r = .error fault ∧ fault.isAbsence = true := by
  cases h with
  | there hsome =>
    rw [hn] at hsome
    cases hsome
  | free hnone hparent => exact Or.inl ⟨hparent, rfl⟩
  | missing hnone hfault => exact Or.inr ⟨_, rfl, hfault⟩

/-- The path leads to its place, or nowhere. -/
theorem eq_or (h : t.Leads up r) :
    r = .ok ⟨up, t.node? up, false⟩ ∨ ∃ fault, r = .error fault := by
  cases h with
  | there hsome => exact Or.inl (by rw [hsome])
  | free hnone => exact Or.inl (by rw [hnone])
  | missing => exact Or.inr ⟨_, rfl⟩

end Leads

section

variable {part : Text} {rest : List Text}

/-- A name that nothing goes by. -/
theorem stretch_of_none (hpart : IsName part) (hlength : part.length ≤ nameLimit)
    (hup : (t.node? up).any Node.isDirectory = true) (hn : t.node? (part :: up) = none) :
    t.stretch follow up (part :: rest) =
      if rest.all (· == []) then .ok (.ends ⟨part :: up, none, rest ≠ []⟩) else .error .noEntry := by
  have hspecial : ¬ (part = [] ∨ part = ".") := fun hs => hs.elim hpart.ne_nil hpart.ne_here
  rw [stretch, if_neg (by simp [hup]), if_neg hspecial, if_neg hpart.ne_up,
    if_neg (Nat.not_lt.2 hlength), hn]

/-- The name of a file or a directory. -/
theorem stretch_of_some (hpart : IsName part) (hlength : part.length ≤ nameLimit)
    (hup : (t.node? up).any Node.isDirectory = true) {n : Node} (hn : t.node? (part :: up) = some n)
    (hkind : n.isFile = true ∨ n.isDirectory = true) :
    t.stretch follow up (part :: rest) = t.stretch follow (part :: up) rest := by
  have hspecial : ¬ (part = [] ∨ part = ".") := fun hs => hs.elim hpart.ne_nil hpart.ne_here
  rw [stretch, if_neg (by simp [hup]), if_neg hspecial, if_neg hpart.ne_up,
    if_neg (Nat.not_lt.2 hlength), hn]
  cases n with
  | file | program | directory => rfl
  | link | fifo | null | zeros => rcases hkind with hkind | hkind <;> cases hkind

end

theorem stretch_leads (follow : Bool) (ht : t.Plain) {parts : List Text} (hparts : parts ≠ [])
    (h : IsPlace (parts.reverse ++ up)) (hup : (t.node? up).any Node.isDirectory = true) :
    ∃ r, t.stretch follow up parts = r.map Stretch.ends ∧ t.Leads (parts.reverse ++ up) r := by
  induction parts generalizing up with
  | nil => exact absurd rfl hparts
  | cons part rest ih =>
    rw [List.reverse_cons, List.append_assoc, List.singleton_append] at h ⊢
    have hmem : part ∈ rest.reverse ++ part :: up := by simp
    have hname := h.name part hmem
    have hlength := h.name_length part hmem
    cases hn : t.node? (part :: up) with
    | none =>
      rw [stretch_of_none hname hlength hup hn]
      cases rest with
      | nil => exact ⟨.ok ⟨part :: up, none, false⟩, rfl, .free hn hup⟩
      | cons next rest =>
        have hnext : next ≠ [] := (h.name next (by simp)).ne_nil
        have hbelow := ht.node?_below (by rw [hn]; rfl) (by simp) h
        exact ⟨.error .noEntry, by simp [hnext, Except.map], .missing hbelow rfl⟩
    | some n =>
      rw [stretch_of_some hname hlength hup hn (ht.kind h.of_append hn)]
      cases rest with
      | nil => exact ⟨.ok ⟨part :: up, some n, false⟩, by rw [stretch, hn]; rfl, .there hn⟩
      | cons next rest =>
        cases hdir : n.isDirectory with
        | true => exact ih (by simp) h (by rw [hn]; exact hdir)
        | false =>
          have hfile : (t.node? (part :: up)).any Node.isDirectory = false := by rw [hn]; exact hdir
          have hbelow := ht.node?_below hfile (by simp) h
          exact ⟨.error .notDirectory, by simp [stretch, hfile, Except.map], .missing hbelow rfl⟩

theorem walk_leads (ht : t.Plain) (h : IsPlace up) (follow : Bool) :
    t.Leads up (t.walk follow linkLimit [] ((key up).split slash)) := by
  obtain ⟨n, hroot⟩ := Option.ne_none_iff_exists'.1 fun h => ht.ne_nil h rfl
  -- the empty part in front of the first slash
  have hskip (parts : List Text) : t.stretch follow [] ([] :: parts) = t.stretch follow [] parts := by
    rw [stretch, if_neg (by simp [ht.root]), if_pos (Or.inl rfl)]
  by_cases hne : up = []
  · subst hne
    have hsplit : (key []).split slash = [[], []] := by decide
    rw [hsplit, walk, hskip, hskip, stretch, hroot]
    exact .there hroot
  · have hparts : up.reverse ≠ [] := by simpa using hne
    have hplace : IsPlace (up.reverse.reverse ++ []) := by simpa using h
    obtain ⟨r, hstretch, hleads⟩ := stretch_leads follow ht hparts hplace ht.root
    rw [List.reverse_reverse, List.append_nil] at hleads
    rw [key, split_ofNames (by simpa using hne) h.reverse_slash, walk, hskip, hstretch]
    cases r with
    | ok place => exact hleads
    | error fault => exact hleads

/-- **The path of a place leads there**, if anything does. -/
theorem locate_leads (ht : t.Plain) (h : IsPlace up) (follow : Bool) :
    t.Leads up (t.locate follow (key up)) := by
  have hpath : (key up).takeWhile (· ≠ 0) = key up := by
    refine List.takeWhile_eq_self_iff.2 fun b hb => ?_
    have hne : b ≠ 0 := by
      rintro rfl
      exact zero_notMem_key h hb
    simpa using hne
  unfold locate
  simp only [hpath, if_neg (Nat.not_lt.2 h.length)]
  exact walk_leads ht h follow

/-! ## Reading -/

theorem find_of_some (ht : t.Plain) (h : IsPlace up) {n : Node} (hn : t.node? up = some n) :
    t.find (key up) = .ok n := by
  rw [find, (locate_leads ht h true).eq_of_some hn]
  rfl

theorem find_of_none (ht : t.Plain) (h : IsPlace up) (hn : t.node? up = none) :
    ∃ fault, t.find (key up) = .error fault ∧ fault.isAbsence = true := by
  rw [find]
  rcases (locate_leads ht h true).of_none hn with ⟨-, hl⟩ | ⟨fault, hl, hfault⟩
  · rw [hl]
    exact ⟨.noEntry, rfl, rfl⟩
  · rw [hl]
    exact ⟨fault, rfl, hfault⟩

/-- What reading comes to, from what is there. -/
def shown : Option Node → FileReading
  | none => .absent
  | some (.file content _) => .content content
  | some (.directory _) => .broken
  | some _ => .content []

/-- **What reading comes to** at a place. -/
theorem reading_key (ht : t.Plain) (h : IsPlace up) : t.reading (key up) = shown (t.node? up) := by
  unfold reading has read
  cases hn : t.node? up with
  | none =>
    obtain ⟨fault, hfind, -⟩ := find_of_none ht h hn
    rw [hfind]
    rfl
  | some n =>
    rw [find_of_some ht h hn]
    cases n <;> rfl

end Rebuild.FileTree
