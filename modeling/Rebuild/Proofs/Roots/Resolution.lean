/-
  From paths to unit names and back.

  * `Roots.Locates`: a path lies behind this root, with these names after it, and behind no deeper
    one; `Roots.nameOf` makes a unit name of the names.  `unitName_eq_ok_iff` says that this is
    how a source is named;
  * `join_relativePath` and `nameOf_concat` say that the names of a source behind its root and the
    segments of its unit are the same but for the suffix;
  * `exists_root_of_sourcePath` and `sourcePath_of_isFile` say which source a unit has.

  `unitName_perm` is on the order of the roots; `sourcePath_unitName` and `unitName_sourcePath` are
  the two ways there and back.
-/
import Rebuild.Machine.FileTree
import Rebuild.Proofs.Roots

namespace Rebuild

open Rebuild.Path

theorem Text.join_concat_append (sep : Text) (parts : List Text) (t s : Text) :
    Text.join sep (parts ++ [t]) ++ s = Text.join sep (parts ++ [t ++ s]) := by
  induction parts with
  | nil => rfl
  | cons u us ih =>
    cases us with
    | nil => simp [Text.join]
    | cons v vs => simpa [Text.join] using ih

namespace Roots

variable {r : Roots} {path root unit stem : Text} {below dirs segments : List Text}

/-! ## The root of a path -/

/-- The path leads to a root and on along these names, and to no root behind that. -/
structure Locates (r : Roots) (path root : Text) (below : List Text) : Prop where
  mem : root ∈ r.roots
  names : namesOf r.current path = namesOf r.current root ++ below
  deepest : ∀ t ∈ r.roots, namesOf r.current t <+: namesOf r.current path →
    (namesOf r.current t).length ≤ (namesOf r.current root).length

/-- The path lies strictly below a root, name by name. -/
def Under (r : Roots) (root path : Text) : Prop :=
  ∃ below, below ≠ [] ∧ namesOf r.current path = namesOf r.current root ++ below

/-- The unit of a source with these names behind its root. -/
def nameOf (r : Roots) (below : List Text) : Text :=
  let name := Text.join [unitSeparator] below
  if name.endsWith r.suffix then name.take (name.length - r.suffix.length) else name

/-- A name without the extension. -/
def strip (r : Roots) (name : Text) : Text :=
  if name.endsWith r.suffix then name.take (name.length - r.suffix.length) else name

theorem nameOf_eq (r : Roots) (below : List Text) :
    r.nameOf below = r.strip (Text.join [unitSeparator] below) := rfl

theorem strip_append (r : Roots) (t : Text) : r.strip (t ++ r.suffix) = t := by
  have hends : Text.endsWith (t ++ r.suffix) r.suffix :=
    List.isSuffixOf_iff_suffix.2 (List.suffix_append t r.suffix)
  rw [strip, if_pos hends, List.length_append, Nat.add_sub_cancel, List.take_left]

theorem validate_eq_ok_iff : r.validate = .ok () ↔
    r.roots ≠ [] ∧ r.bareExtension ≠ [] ∧ ∀ t ∈ r.roots, isAbsolute t = true := by
  unfold validate
  split_ifs with hroots hext
  · simp [hroots]
  · simp [hext]
  · split
    · next root hfind =>
      refine ⟨by simp, fun h => ?_⟩
      have hrelative := List.find?_some hfind
      rw [h.2.2 root (List.mem_of_find?_eq_some hfind)] at hrelative
      cases hrelative
    · next hfind =>
      exact ⟨fun _ => ⟨hroots, hext, by simpa using hfind⟩, fun _ => rfl⟩

theorem root_ne_nil (h : r.validate = .ok ()) (hroot : root ∈ r.roots) : root ≠ [] := by
  rintro rfl
  cases (validate_eq_ok_iff.1 h).2.2 [] hroot

theorem ne_nil_of_names (hnames : namesOf r.current path = namesOf r.current root ++ below)
    (h : below ≠ []) : path ≠ [] := by
  rintro rfl
  exact h (List.append_eq_nil_iff.1 hnames.symm).2

theorem steps_prefix_iff (hroot : root ≠ []) (hpath : path ≠ []) :
    r.steps root <+: r.steps path ↔ namesOf r.current root <+: namesOf r.current path := by
  rw [steps_of_ne_nil hroot, steps_of_ne_nil hpath, List.cons_prefix_cons]
  exact and_iff_right rfl

theorem normalize_eq_iff (hroot : root ≠ []) (hpath : path ≠ []) :
    normalize r.current root = normalize r.current path ↔
      namesOf r.current root = namesOf r.current path := by
  rw [normalize_eq hpath, ← steps_eq_iff fun _ => descends_of_mem_namesOf, steps_of_ne_nil hroot]
  exact ⟨fun h => (List.cons.inj h).2, congrArg _⟩

theorem IsDeepest.unique {roots place root' place' : List Text} (h : r.IsDeepest roots place root')
    (h' : r.IsDeepest roots place place') : root' = place' := by
  obtain ⟨t, ht, rfl⟩ := h.exists_root
  obtain ⟨u, hu, rfl⟩ := h'.exists_root
  have hle := h'.deepest t ht h.holds
  have hge := h.deepest u hu h'.holds
  exact (List.prefix_of_prefix_length_le h.holds h'.holds hle).eq_of_length_le hge

theorem deepest_eq_some_iff {place root : List Text} :
    r.deepest place = some root ↔ r.IsDeepest r.roots place root := by
  have hspec := r.deepest_spec place
  cases hd : r.deepest place with
  | none =>
    rw [hd] at hspec
    refine ⟨nofun, fun h => ?_⟩
    obtain ⟨t, ht, rfl⟩ := h.exists_root
    exact absurd h.holds (hspec t ht)
  | some found =>
    rw [hd] at hspec
    exact ⟨fun h => Option.some.inj h ▸ hspec, fun h => congrArg some (hspec.unique h)⟩

/-- A root that a path leads to and on from is the deepest one if it is so name by name. -/
theorem isDeepest_iff (hvalid : r.validate = .ok ()) (hpath : path ≠ []) (hroot : root ∈ r.roots) :
    r.IsDeepest r.roots (r.steps path) (r.steps root) ↔ ∃ below, r.Locates path root below := by
  have hlength (t u : Text) (ht : t ∈ r.roots) (hu : u ∈ r.roots) :
      (r.steps t).length ≤ (r.steps u).length ↔
        (namesOf r.current t).length ≤ (namesOf r.current u).length := by
    rw [steps_of_ne_nil (root_ne_nil hvalid ht), steps_of_ne_nil (root_ne_nil hvalid hu),
      List.length_cons, List.length_cons, Nat.add_le_add_iff_right]
  constructor
  · intro h
    obtain ⟨below, hbelow⟩ := (steps_prefix_iff (root_ne_nil hvalid hroot) hpath).1 h.holds
    refine ⟨below, hroot, hbelow.symm, fun t ht hheld => ?_⟩
    rw [← hlength t root ht hroot]
    exact h.deepest t ht ((steps_prefix_iff (root_ne_nil hvalid ht) hpath).2 hheld)
  · rintro ⟨below, h⟩
    refine ⟨⟨root, hroot, rfl⟩, ?_, fun t ht hheld => ?_⟩
    · rw [steps_prefix_iff (root_ne_nil hvalid hroot) hpath]
      exact ⟨below, h.names.symm⟩
    · rw [hlength t root ht hroot]
      exact h.deepest t ht ((steps_prefix_iff (root_ne_nil hvalid ht) hpath).1 hheld)

theorem drop_steps (h : r.Locates path root below) (hroot : root ≠ []) (hpath : path ≠ []) :
    (r.steps path).drop (r.steps root).length = below := by
  rw [steps_of_ne_nil hpath, steps_of_ne_nil hroot, h.names, ← List.cons_append, List.drop_left]

/-- **A source is named after the names behind the deepest root**, if there are any. -/
theorem unitName_eq_ok_iff (hvalid : r.validate = .ok ()) :
    r.unitName path = .ok unit ↔
      ∃ root below, r.Locates path root below ∧ below ≠ [] ∧ unit = r.nameOf below := by
  unfold unitName
  constructor
  · intro h
    simp only at h
    split at h
    · cases h
    · next place hd =>
      obtain ⟨root, hroot, rfl⟩ := (deepest_eq_some_iff.1 hd).exists_root
      have hne := root_ne_nil hvalid hroot
      have hpath : path ≠ [] := by
        rintro rfl
        have hnil := List.prefix_nil.1 (deepest_eq_some_iff.1 hd).holds
        rw [steps_of_ne_nil hne] at hnil
        cases hnil
      obtain ⟨below, hlocates⟩ := (isDeepest_iff hvalid hpath hroot).1 (deepest_eq_some_iff.1 hd)
      rw [drop_steps hlocates hne hpath, steps_of_ne_nil hne] at h
      cases below with
      | nil => cases h
      | cons n ns =>
        cases h
        exact ⟨root, n :: ns, hlocates, List.cons_ne_nil n ns, rfl⟩
  · rintro ⟨root, below, h, hbelow, rfl⟩
    have hne := root_ne_nil hvalid h.mem
    have hpath := ne_nil_of_names h.names hbelow
    simp only [deepest_eq_some_iff.2 ((isDeepest_iff hvalid hpath h.mem).2 ⟨below, h⟩),
      drop_steps h hne hpath]
    rw [steps_of_ne_nil hne]
    obtain ⟨n, ns, rfl⟩ := List.exists_cons_of_ne_nil hbelow
    rfl

/-! ## The order of the roots -/

/-- Some root is the deepest that a path leads to, if there is any. -/
theorem exists_locates (hvalid : r.validate = .ok ()) (hpath : path ≠ []) (hroot : root ∈ r.roots)
    (hheld : namesOf r.current root <+: namesOf r.current path) :
    ∃ root below, r.Locates path root below := by
  rw [← steps_prefix_iff (root_ne_nil hvalid hroot) hpath] at hheld
  have hspec := r.deepest_spec (r.steps path)
  cases hd : r.deepest (r.steps path) with
  | none =>
    rw [hd] at hspec
    exact absurd hheld (hspec root hroot)
  | some place =>
    rw [hd] at hspec
    obtain ⟨t, ht, rfl⟩ := hspec.exists_root
    exact ⟨t, (isDeepest_iff hvalid hpath ht).1 hspec⟩

theorem exists_unitName_iff (hvalid : r.validate = .ok ()) :
    (∃ unit, r.unitName path = .ok unit) ↔
      (∃ root ∈ r.roots, r.Under root path) ∧
        ∀ root ∈ r.roots, normalize r.current root ≠ normalize r.current path := by
  simp only [unitName_eq_ok_iff hvalid]
  constructor
  · rintro ⟨_, root, below, h, hbelow, rfl⟩
    refine ⟨⟨root, h.mem, below, hbelow, h.names⟩, fun t ht heq => ?_⟩
    rw [normalize_eq_iff (root_ne_nil hvalid ht) (ne_nil_of_names h.names hbelow)] at heq
    have hle := h.deepest t ht (heq ▸ List.prefix_refl _)
    rw [heq, h.names, List.length_append] at hle
    have hpos := List.length_pos_iff.2 hbelow
    omega
  · rintro ⟨⟨t, ht, behind, hbehind, hnames⟩, hroots⟩
    have hpath := ne_nil_of_names hnames hbehind
    obtain ⟨root, below, h⟩ := exists_locates hvalid hpath ht ⟨behind, hnames.symm⟩
    refine ⟨_, root, below, h, fun hnil => hroots root h.mem ?_, rfl⟩
    rw [normalize_eq_iff (root_ne_nil hvalid h.mem) hpath, h.names, hnil, List.append_nil]

theorem Locates.perm {roots : List Text} (h : r.Locates path root below)
    (hperm : r.roots.Perm roots) : Locates { r with roots } path root below :=
  ⟨hperm.mem_iff.1 h.mem, h.names, fun t ht => h.deepest t (hperm.mem_iff.2 ht)⟩

theorem validate_perm {roots : List Text} (h : r.validate = .ok ()) (hperm : r.roots.Perm roots) :
    validate { r with roots } = .ok () := by
  rw [validate_eq_ok_iff] at h ⊢
  refine ⟨fun hnil => h.1 ?_, h.2.1, fun t ht => h.2.2 t (hperm.mem_iff.2 ht)⟩
  exact List.perm_nil.1 (hnil ▸ hperm)

/-- **The deepest root names a source, in whatever order the roots are.**  A path has a unit name
    exactly if it lies strictly below some root and is not a root itself; the name comes from the
    deepest root that the path leads to; and all orders of the roots give the same name, or
    none. -/
theorem unitName_perm {roots : List Text} (hvalid : r.validate = .ok ())
    (hperm : r.roots.Perm roots) (path : Text) :
    ((∃ unit, r.unitName path = .ok unit) ↔
      (∃ root ∈ r.roots, r.Under root path) ∧
        ∀ root ∈ r.roots, normalize r.current root ≠ normalize r.current path) ∧
    (∀ unit, r.unitName path = .ok unit →
      ∃ root below, r.Locates path root below ∧ below ≠ [] ∧ unit = r.nameOf below) ∧
    ∀ unit, r.unitName path = .ok unit ↔ unitName { r with roots } path = .ok unit := by
  refine ⟨exists_unitName_iff hvalid, fun unit => (unitName_eq_ok_iff hvalid).1, fun unit => ?_⟩
  rw [unitName_eq_ok_iff hvalid, unitName_eq_ok_iff (validate_perm hvalid hperm)]
  constructor
  · rintro ⟨root, below, h, hbelow, rfl⟩
    exact ⟨root, below, h.perm hperm, hbelow, rfl⟩
  · rintro ⟨root, below, h, hbelow, rfl⟩
    exact ⟨root, below, h.perm hperm.symm, hbelow, rfl⟩

/-- A root inside another one, in two spellings. -/
def nestedRoots : Roots := ⟨["/p", "/p/gen/", "/q/../p/gen"], "l"⟩

theorem unitName_perm_nested :
    nestedRoots.validate = .ok () ∧ nestedRoots.roots.Perm ["/q/../p/gen", "/p", "/p/gen/"] ∧
      nestedRoots.unitName "/p/gen/./x/Y.l" = .ok "x.Y" ∧
      unitName { nestedRoots with roots := ["/q/../p/gen", "/p", "/p/gen/"] } "/p/gen/./x/Y.l" =
        .ok "x.Y" := by
  have hvalid : nestedRoots.validate = .ok () := by decide
  have hperm : nestedRoots.roots.Perm ["/q/../p/gen", "/p", "/p/gen/"] := by decide
  have hname : nestedRoots.unitName "/p/gen/./x/Y.l" = .ok "x.Y" := by decide
  exact ⟨hvalid, hperm, hname, ((unitName_perm hvalid hperm _).2.2 _).1 hname⟩

/-- **A root has no unit name**, also where it lies strictly below another root. -/
theorem inner_root_unnamed :
    nestedRoots.validate = .ok () ∧ isAbsolute "/p/gen" = true ∧
      ¬ ((∃ unit, nestedRoots.unitName "/p/gen" = .ok unit) ↔
        ∃ root ∈ nestedRoots.roots, nestedRoots.Under root "/p/gen") := by
  refine ⟨by decide, by decide, fun h => ?_⟩
  obtain ⟨unit, hunit⟩ := h.2 ⟨"/p", by decide, ["gen"], by decide, by decide⟩
  have hname : nestedRoots.unitName "/p/gen" = .error (.isRoot "/p/gen") := by decide
  rw [hname] at hunit
  cases hunit

/-! ## The source of a unit -/

/-- A part of a unit name that can be the name of a file or a directory. -/
structure IsPart (t : Text) : Prop where
  ne_nil : t ≠ []
  separator : unitSeparator ∉ t
  slash : slash ∉ t

theorem IsPart.descends (h : IsPart stem) : Descends stem where
  ne_nil := h.ne_nil
  ne_here := by
    rintro rfl
    exact h.separator (by decide)
  ne_up := by
    rintro rfl
    exact h.separator (by decide)
  slash := h.slash

theorem IsPart.descends_append (h : IsPart stem) (hext : Path.slash ∉ r.bareExtension) :
    Descends (stem ++ r.suffix) := by
  obtain ⟨b, bs, rfl⟩ := List.exists_cons_of_ne_nil h.ne_nil
  have hb : b ≠ unitSeparator := fun he => h.separator (he ▸ List.mem_cons_self)
  refine ⟨nofun, fun he => hb (List.cons.inj he).1, fun he => hb (List.cons.inj he).1, ?_⟩
  have hdot : Path.slash ∉ ("." : Text) := by decide
  simp only [suffix, List.mem_append, not_or]
  exact ⟨h.slash, hdot, hext⟩

theorem segments?_eq_some_iff : segments? unit = some segments ↔
    segments ≠ [] ∧ (∀ t ∈ segments, IsPart t) ∧ unit = Text.join [unitSeparator] segments := by
  unfold segments?
  simp only [Option.ite_none_right_eq_some, Option.some.injEq, List.all_eq_true]
  constructor
  · rintro ⟨hparts, rfl⟩
    refine ⟨Text.split_ne_nil _ _, fun t ht => ?_, (Text.join_split _ _).symm⟩
    have hpart := hparts t ht
    simp only [decide_eq_true_eq, Bool.not_eq_true', List.contains_eq_mem, decide_eq_false_iff_not]
      at hpart
    exact ⟨hpart.1, Text.notMem_of_mem_split ht, hpart.2⟩
  · rintro ⟨hne, hparts, rfl⟩
    rw [Text.split_join hne fun t ht => (hparts t ht).separator]
    refine ⟨fun t ht => ?_, rfl⟩
    simpa using ⟨(hparts t ht).ne_nil, (hparts t ht).slash⟩

theorem nameOf_concat (r : Roots) (dirs : List Text) (stem : Text) :
    r.nameOf (dirs ++ [stem ++ r.suffix]) = Text.join [unitSeparator] (dirs ++ [stem]) := by
  rw [nameOf_eq, ← Text.join_concat_append, strip_append]

theorem descends_of_isPart (hext : slash ∉ r.bareExtension) (h : ∀ t ∈ dirs ++ [stem], IsPart t) :
    ∀ n ∈ dirs ++ [stem ++ r.suffix], Descends n := by
  intro n hn
  rcases List.mem_append.1 hn with hn | hn
  · exact (h n (List.mem_append_left _ hn)).descends
  · rw [List.mem_singleton.1 hn]
    exact (h stem (by simp)).descends_append hext

theorem isPart_of_descends (h : ∀ n ∈ dirs ++ [stem ++ r.suffix], Descends n)
    (hdirs : ∀ d ∈ dirs, unitSeparator ∉ d) (hstem : stem ≠ [] ∧ unitSeparator ∉ stem) :
    ∀ t ∈ dirs ++ [stem], IsPart t := by
  intro t ht
  rcases List.mem_append.1 ht with ht | ht
  · have hd := h t (List.mem_append_left _ ht)
    exact ⟨hd.ne_nil, hdirs t ht, hd.slash⟩
  · rw [List.mem_singleton.1 ht]
    have hlast := (h (stem ++ r.suffix) (by simp)).slash
    exact ⟨hstem.1, hstem.2, fun hmem => hlast (List.mem_append_left _ hmem)⟩

/-- The file of a unit lies behind a root as its parts say. -/
theorem join_relativePath (hroot : root ≠ []) (hext : slash ∉ r.bareExtension)
    (hparts : ∀ t ∈ dirs ++ [stem], IsPart t) :
    join (normalize r.current root) (r.relativePath (dirs ++ [stem])) =
      ofNames (namesOf r.current root ++ (dirs ++ [stem ++ r.suffix])) := by
  rw [relativePath, Text.join_concat_append, normalize_eq hroot]
  exact join_ofNames (fun _ => descends_of_mem_namesOf) (by simp) (descends_of_isPart hext hparts)

/-- Of two roots on one path the longer one would lie inside the other. -/
theorem locates_of_apart (hapart : ∀ root ∈ r.roots, ∀ t ∈ r.roots, ¬ r.Under root t)
    (hroot : root ∈ r.roots) (hnames : namesOf r.current path = namesOf r.current root ++ below) :
    r.Locates path root below := by
  refine ⟨hroot, hnames, fun t ht hheld => ?_⟩
  rw [hnames] at hheld
  rcases List.prefix_or_prefix_of_prefix hheld (List.prefix_append _ _) with hle | ⟨between, heq⟩
  · exact hle.length_le
  · by_cases hbetween : between = []
    · rw [← heq, hbetween, List.append_nil]
    · exact absurd ⟨between, hbetween, heq.symm⟩ (hapart root hroot t ht)

section
variable {isFile : Text → Bool}

/-- A unit with proper parts has a source, whatever files there are. -/
theorem exists_sourcePath_iff (hroots : r.roots ≠ []) :
    (∃ path, r.sourcePath isFile unit = .ok path) ↔ ∃ segments, segments? unit = some segments := by
  obtain ⟨first, rest, hfirst⟩ := List.exists_cons_of_ne_nil hroots
  rw [sourcePath, hfirst]
  cases segments? unit with
  | none => exact ⟨nofun, nofun⟩
  | some segments => exact ⟨fun _ => ⟨segments, rfl⟩, fun _ => ⟨_, rfl⟩⟩

/-- The source of a unit lies behind some root. -/
theorem exists_root_of_sourcePath (h : r.sourcePath isFile unit = .ok path) :
    ∃ root ∈ r.roots, ∃ segments, segments? unit = some segments ∧
      path = join (normalize r.current root) (r.relativePath segments) := by
  unfold sourcePath at h
  split at h
  · cases h
  · cases h
  · next first rest segments hroots hsegments =>
    obtain rfl := Except.ok.inj h
    rw [hroots, hsegments]
    cases hfind : List.find? isFile _ with
    | none => exact ⟨first, List.mem_cons_self, segments, rfl, rfl⟩
    | some path =>
      obtain ⟨root, hroot, rfl⟩ := List.mem_map.1 (List.mem_of_find?_eq_some hfind)
      exact ⟨root, hroot, segments, rfl, rfl⟩

/-- The source of a unit lies behind the first root where it is a file. -/
theorem sourcePath_of_isFile {before after : List Text} (hroots : r.roots = before ++ root :: after)
    (hsegments : segments? unit = some segments)
    (hfile : isFile (join (normalize r.current root) (r.relativePath segments)) = true)
    (hbefore : ∀ t ∈ before,
      isFile (join (normalize r.current t) (r.relativePath segments)) = false) :
    r.sourcePath isFile unit = .ok (join (normalize r.current root) (r.relativePath segments)) := by
  obtain ⟨first, rest, hfirst⟩ : ∃ first rest, r.roots = first :: rest :=
    List.exists_cons_of_ne_nil (hroots ▸ by simp)
  have hfind : (r.roots.map fun t =>
      join (normalize r.current t) (r.relativePath segments)).find? isFile =
      some (join (normalize r.current root) (r.relativePath segments)) := by
    rw [hroots, List.map_append, List.map_cons, List.find?_append, List.find?_cons_of_pos hfile,
      List.find?_eq_none.2 (by simpa using hbefore), Option.none_or]
  rw [hfirst] at hfind
  rw [sourcePath, hfirst, hsegments]
  simp only
  rw [hfind, Option.getD_some]

/-! ## There and back -/

/-- **From a path to a name and back.**  If the place of a path is a regular file behind directories
    without dots, and its name is that of a unit with the extension, then the source of its unit is
    this place, unless an earlier root has such a file as well. -/
theorem sourcePath_unitName {before after : List Text} (hvalid : r.validate = .ok ())
    (hext : slash ∉ r.bareExtension) (hroots : r.roots = before ++ root :: after)
    (hlocates : r.Locates path root (dirs ++ [stem ++ r.suffix]))
    (hdirs : ∀ d ∈ dirs, unitSeparator ∉ d) (hstem : stem ≠ [] ∧ unitSeparator ∉ stem)
    (hfile : isFile (normalize r.current path) = true)
    (hbefore : ∀ t ∈ before,
      isFile (join (normalize r.current t) (r.relativePath (dirs ++ [stem]))) = false) :
    ∃ unit, r.unitName path = .ok unit ∧
      r.sourcePath isFile unit = .ok (normalize r.current path) := by
  have hdescends : ∀ n ∈ dirs ++ [stem ++ r.suffix], Descends n := fun n hn =>
    descends_of_mem_namesOf (hlocates.names ▸ List.mem_append_right _ hn)
  have hparts := isPart_of_descends hdescends hdirs hstem
  have hplace : join (normalize r.current root) (r.relativePath (dirs ++ [stem])) =
      normalize r.current path := by
    rw [join_relativePath (root_ne_nil hvalid hlocates.mem) hext hparts,
      normalize_eq (ne_nil_of_names hlocates.names (by simp)), hlocates.names]
  refine ⟨_, (unitName_eq_ok_iff hvalid).2 ⟨root, _, hlocates, by simp, rfl⟩, ?_⟩
  rw [← hplace] at hfile ⊢
  rw [nameOf_concat]
  exact sourcePath_of_isFile hroots (segments?_eq_some_iff.2 ⟨by simp, hparts, rfl⟩) hfile hbefore

/-- Two roots. -/
def twoRoots : Roots := ⟨["/a", "/b"], "l"⟩

/-- The second root has a source, and a link to a directory beside which there is another. -/
def linkedTree : FileTree :=
  { nodes := [("/", .folder), ("/a", .folder), ("/b", .folder), ("/b/x", .folder),
      ("/b/x/Y.l", .file "y" 1), ("/b/link", .link "/c/d"), ("/c", .folder), ("/c/d", .folder),
      ("/c/A.l", .file "a" 1)].foldl (fun m e => m.insert e.1 e.2) ∅
    now := 1 }

theorem sourcePath_unitName_second :
    linkedTree.isFile (normalize twoRoots.current "/b/x/../x/Y.l") = true ∧
      linkedTree.isFile
        (join (normalize twoRoots.current "/a") (twoRoots.relativePath ["x", "Y"])) = false ∧
      ∃ unit, twoRoots.unitName "/b/x/../x/Y.l" = .ok unit ∧
        twoRoots.sourcePath linkedTree.isFile unit =
          .ok (normalize twoRoots.current "/b/x/../x/Y.l") := by
  have hroots : twoRoots.roots = (["/a"] : List Text) ++ ("/b" : Text) :: [] := rfl
  have hlocates : twoRoots.Locates "/b/x/../x/Y.l" "/b"
      ((["x"] : List Text) ++ ["Y" ++ twoRoots.suffix]) := ⟨by decide, by decide, by decide⟩
  have hfile : linkedTree.isFile (normalize twoRoots.current "/b/x/../x/Y.l") = true := by
    decide +kernel
  have hearlier :
      linkedTree.isFile
        (join (normalize twoRoots.current "/a") (twoRoots.relativePath ["x", "Y"])) = false := by
    decide +kernel
  exact ⟨hfile, hearlier, sourcePath_unitName (by decide) (by decide) hroots hlocates (by decide)
    ⟨by decide, by decide⟩ hfile fun t ht => List.mem_singleton.1 ht ▸ hearlier⟩

/-- **A file may be elsewhere than its path seems to say**: behind a link and out again there is a
    file, and it has a unit, but the place that the path denotes is not the source of that. -/
theorem linked_file_lost :
    linkedTree.isFile "/b/link/../A.l" = true ∧ twoRoots.validate = .ok () ∧
      slash ∉ twoRoots.bareExtension ∧
      twoRoots.Locates "/b/link/../A.l" "/b" ([] ++ ["A" ++ twoRoots.suffix]) ∧
      linkedTree.isFile
        (join (normalize twoRoots.current "/a") (twoRoots.relativePath ["A"])) = false ∧
      twoRoots.unitName "/b/link/../A.l" = .ok "A" ∧
      twoRoots.sourcePath linkedTree.isFile "A" ≠
        .ok (normalize twoRoots.current "/b/link/../A.l") :=
  ⟨by decide +kernel, by decide, by decide, ⟨by decide, by decide, by decide⟩, by decide +kernel,
    by decide, by decide +kernel⟩

/-- **From a name to a path and back.**  If no root lies strictly inside another, the source of a
    unit, whatever files there are, is a source of that unit; and a name has a source exactly if its
    parts are there and have no slash. -/
theorem unitName_sourcePath (hvalid : r.validate = .ok ()) (hext : slash ∉ r.bareExtension)
    (isFile : Text → Bool) :
    ((∀ root ∈ r.roots, ∀ t ∈ r.roots, ¬ r.Under root t) → ∀ unit path,
      r.sourcePath isFile unit = .ok path → r.unitName path = .ok unit) ∧
    ∀ unit, (∃ path, r.sourcePath isFile unit = .ok path) ↔
      ∀ part ∈ unit.split unitSeparator, part ≠ [] ∧ slash ∉ part := by
  refine ⟨fun hapart unit path h => ?_, fun unit => ?_⟩
  · obtain ⟨root, hroot, segments, hsegments, rfl⟩ := exists_root_of_sourcePath h
    obtain ⟨hne, hparts, rfl⟩ := segments?_eq_some_iff.1 hsegments
    obtain rfl | ⟨dirs, stem, rfl⟩ := List.eq_nil_or_concat segments
    · exact absurd rfl hne
    rw [List.concat_eq_append] at hparts ⊢
    rw [join_relativePath (root_ne_nil hvalid hroot) hext hparts, unitName_eq_ok_iff hvalid]
    have hnames :
        namesOf r.current (ofNames (namesOf r.current root ++ (dirs ++ [stem ++ r.suffix]))) =
          namesOf r.current root ++ (dirs ++ [stem ++ r.suffix]) :=
      namesOf_ofNames fun n hn => (List.mem_append.1 hn).elim descends_of_mem_namesOf
        (descends_of_isPart hext hparts n)
    exact ⟨root, _, locates_of_apart hapart hroot hnames, by simp, (nameOf_concat r dirs stem).symm⟩
  · rw [exists_sourcePath_iff (validate_eq_ok_iff.1 hvalid).1]
    constructor
    · rintro ⟨segments, hsegments⟩
      obtain ⟨hne, hparts, rfl⟩ := segments?_eq_some_iff.1 hsegments
      rw [Text.split_join hne fun t ht => (hparts t ht).separator]
      exact fun t ht => ⟨(hparts t ht).ne_nil, (hparts t ht).slash⟩
    · intro hparts
      refine ⟨_, segments?_eq_some_iff.2 ⟨Text.split_ne_nil _ unit, fun t ht => ?_,
        (Text.join_split _ unit).symm⟩⟩
      exact ⟨(hparts t ht).1, Text.notMem_of_mem_split ht, (hparts t ht).2⟩

theorem unitName_sourcePath_second :
    twoRoots.sourcePath linkedTree.isFile "x.Y" = .ok "/b/x/Y.l" ∧
      twoRoots.unitName "/b/x/Y.l" = .ok "x.Y" := by
  have hapart : ∀ root ∈ twoRoots.roots, ∀ t ∈ twoRoots.roots, ¬ twoRoots.Under root t := by
    have hnames : ∀ root ∈ twoRoots.roots, ∀ t ∈ twoRoots.roots,
        (namesOf twoRoots.current t).length = (namesOf twoRoots.current root).length := by decide
    rintro root hroot t ht ⟨between, hbetween, hle⟩
    have hlength := hnames root hroot t ht
    rw [hle, List.length_append] at hlength
    have hpos := List.length_pos_iff.2 hbetween
    omega
  have hsource : twoRoots.sourcePath linkedTree.isFile "x.Y" = .ok "/b/x/Y.l" := by decide +kernel
  exact ⟨hsource, (unitName_sourcePath (by decide) (by decide) _).1 hapart _ _ hsource⟩

end

end Roots

end Rebuild
