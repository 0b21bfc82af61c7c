/-
  Whose units a source has.

  * `Owns`: the units of a source are those recorded for it or, if there is none, the one
    that its place names;
  * `claims_eq`: what is claimed for some sources are their units, in order;
  * `getElem?_foldl_claims`: of the sources with a unit the last one has it.
-/
import Rebuild.Plan.Impact
import Rebuild.Proofs.Containers

namespace Rebuild

/-- A unit is recorded with a source. -/
def Recorded (prior : Option Analysis) (source unit : Text) : Prop :=
  ∃ a r, prior = some a ∧ a.find? unit = some r ∧ r.source = source

/-- A unit of a source: one that is recorded for it or, when none is, the one that the
    place of the source names. -/
def Owns (roots : Roots) (prior : Option Analysis) (source unit : Text) : Prop :=
  Recorded prior source unit ∨
    (∀ other, ¬ Recorded prior source other) ∧ roots.unitName source = .ok unit

theorem recorded_some {a : Analysis} {source unit : Text} :
    Recorded (some a) source unit ↔ ∃ r, a.find? unit = some r ∧ r.source = source := by
  simp [Recorded]

theorem mem_recordedUnits {prior : Option Analysis} {source unit : Text} :
    unit ∈ recordedUnits prior source ↔ Recorded prior source unit := by
  cases prior with
  | none => simp [recordedUnits, Recorded]
  | some a =>
    rw [recorded_some]
    exact a.mem_unitsOfSource source unit

/-! ## Results and errors -/

theorem map_eq_ok {ε α β : Type} {f : α → β} {x : Except ε α} {b : β} :
    x.map f = .ok b ↔ ∃ a, x = .ok a ∧ f a = b := by
  cases x <;> simp [Except.map]

theorem bind_eq_ok {ε α β : Type} {f : α → Except ε β} {x : Except ε α} {b : β} :
    x >>= f = .ok b ↔ ∃ a, x = .ok a ∧ f a = .ok b := by
  cases x <;> simp [bind, Except.bind]

theorem toOption_eq_some {ε α : Type} {x : Except ε α} {a : α} :
    x.toOption = some a ↔ x = .ok a := by
  cases x <;> simp [Except.toOption]

theorem mapM_eq_ok {ε α β : Type} {f : α → Except ε β} {xs : List α} {ys : List β} :
    xs.mapM f = .ok ys ↔ List.Forall₂ (fun x y => f x = .ok y) xs ys := by
  induction xs generalizing ys with
  | nil =>
    rw [List.mapM_nil, List.forall₂_nil_left_iff]
    exact ⟨fun h => (Except.ok.inj h).symm, fun h => h ▸ rfl⟩
  | cons x xs ih =>
    rw [List.mapM_cons, List.forall₂_cons_left_iff]
    constructor
    · intro h
      cases hx : f x with
      | error e => rw [hx] at h; cases h
      | ok y =>
        rw [hx] at h
        cases hxs : xs.mapM f with
        | error e => rw [hxs] at h; cases h
        | ok zs =>
          rw [hxs] at h
          exact ⟨y, zs, rfl, ih.1 hxs, (Except.ok.inj h).symm⟩
    · rintro ⟨y, zs, hx, hxs, rfl⟩
      rw [hx, ih.2 hxs]
      rfl

theorem map_eq_error {ε α β : Type} {f : α → β} {x : Except ε α} {e : ε} :
    x.map f = .error e ↔ x = .error e := by
  cases x <;> simp [Except.map]

theorem bind_eq_error {ε α β : Type} {f : α → Except ε β} {x : Except ε α} {e : ε} :
    x >>= f = .error e ↔ x = .error e ∨ ∃ a, x = .ok a ∧ f a = .error e := by
  cases x <;> simp [bind, Except.bind]

/-- The first failure is that of one of the elements. -/
theorem exists_of_mapM_eq_error {ε α β : Type} {f : α → Except ε β} {xs : List α} {e : ε}
    (h : xs.mapM f = .error e) : ∃ x ∈ xs, f x = .error e := by
  induction xs with
  | nil => cases h
  | cons x xs ih =>
    rw [List.mapM_cons, bind_eq_error] at h
    rcases h with hx | ⟨y, -, h⟩
    · exact ⟨x, List.mem_cons_self, hx⟩
    · rcases bind_eq_error.1 h with hxs | ⟨ys, -, h⟩
      · obtain ⟨x', hx', he⟩ := ih hxs
        exact ⟨x', List.mem_cons_of_mem x hx', he⟩
      · cases h

/-! ## Claims -/

section
variable (roots : Roots) (prior : Option Analysis)

/-- The units of a source; none when its place names no unit. -/
def ownUnits (source : Text) : List Text := ((unitsOf roots prior source).toOption).getD []

variable {roots prior}

theorem unitsOf_eq_ok {source : Text} {units : List Text}
    (h : unitsOf roots prior source = .ok units) :
    ownUnits roots prior source = units ∧ units ≠ [] := by
  refine ⟨by rw [ownUnits, h]; rfl, ?_⟩
  unfold unitsOf at h
  split at h
  · obtain ⟨unit, -, rfl⟩ := map_eq_ok.1 h
    exact List.cons_ne_nil _ _
  · next hne =>
    rw [← Except.ok.inj h]
    exact hne

theorem mem_ownUnits {source unit : Text} :
    unit ∈ ownUnits roots prior source ↔ Owns roots prior source unit := by
  unfold ownUnits unitsOf Owns
  simp only [← mem_recordedUnits]
  split
  · next h =>
    rw [h]
    cases hn : roots.unitName source with
    | error e => simp [Except.map, Except.toOption]
    | ok name => simp [Except.map, Except.toOption, eq_comm]
  · next hne =>
    obtain ⟨first, hf⟩ := List.exists_mem_of_ne_nil _ hne
    simp only [Except.toOption, Option.getD_some, iff_self_or]
    exact fun h => absurd hf (h.1 first)

/-- **What is claimed are the units of the sources**, in order; each source has one. -/
theorem claims_eq {sources : List Text} {claimed : List Claim}
    (h : claims roots prior sources = .ok claimed) :
    claimed = sources.flatMap (fun source => (ownUnits roots prior source).map (·, source)) ∧
      ∀ source ∈ sources, ∃ unit, Owns roots prior source unit := by
  obtain ⟨parts, hp, rfl⟩ := map_eq_ok.1 h
  rw [mapM_eq_ok] at hp
  induction hp with
  | nil => exact ⟨rfl, by simp⟩
  | @cons source units sources parts hx _ ih =>
    obtain ⟨us, hu, rfl⟩ := map_eq_ok.1 hx
    obtain ⟨he, hne⟩ := unitsOf_eq_ok hu
    obtain ⟨h1, h2⟩ := ih (by
      rw [claims, map_eq_ok]
      exact ⟨parts, mapM_eq_ok.2 ‹_›, rfl⟩)
    refine ⟨by rw [List.flatten_cons, h1, List.flatMap_cons, he], fun s hs => ?_⟩
    rcases List.mem_cons.1 hs with rfl | hs
    · obtain ⟨unit, hm⟩ := List.exists_mem_of_ne_nil _ hne
      exact ⟨unit, mem_ownUnits.1 (he ▸ hm)⟩
    · exact h2 s hs

/-- **Claims fail** at a source that has no unit: none is recorded, and its place names none. -/
theorem exists_of_claims_eq_error {sources : List Text} {e : RootsError}
    (h : claims roots prior sources = .error e) :
    ∃ source ∈ sources, (∀ unit, ¬ Recorded prior source unit) ∧
      roots.unitName source = .error e := by
  obtain ⟨source, hs, h⟩ := exists_of_mapM_eq_error (map_eq_error.1 h)
  refine ⟨source, hs, ?_⟩
  have h := map_eq_error.1 h
  unfold unitsOf at h
  split at h
  · next hnil =>
    refine ⟨fun unit hr => ?_, map_eq_error.1 h⟩
    rw [← mem_recordedUnits, hnil] at hr
    cases hr
  · cases h

theorem mem_claims {sources : List Text} {claimed : List Claim}
    (h : claims roots prior sources = .ok claimed) {unit source : Text} :
    (unit, source) ∈ claimed ↔ source ∈ sources ∧ Owns roots prior source unit := by
  rw [(claims_eq h).1]
  simp only [List.mem_flatMap, List.mem_map, Prod.mk.injEq, mem_ownUnits]
  constructor
  · rintro ⟨s, hs, u, hu, rfl, rfl⟩
    exact ⟨hs, hu⟩
  · rintro ⟨hs, hu⟩
    exact ⟨source, hs, unit, hu, rfl, rfl⟩

theorem mem_map_claims {sources : List Text} {claimed : List Claim}
    (h : claims roots prior sources = .ok claimed) {unit : Text} :
    unit ∈ claimed.map (·.1) ↔ ∃ source ∈ sources, Owns roots prior source unit := by
  simp only [List.mem_map, Prod.exists, mem_claims h]
  constructor
  · rintro ⟨u, source, ho, rfl⟩
    exact ⟨source, ho⟩
  · rintro ⟨source, ho⟩
    exact ⟨unit, source, ho, rfl⟩

variable (roots prior)

/-- The last of some sources that has a unit. -/
def LastOwner (sources : List Text) (unit source : Text) : Prop :=
  ∃ earlier later, sources = earlier ++ source :: later ∧ Owns roots prior source unit ∧
    ∀ other ∈ later, ¬ Owns roots prior other unit

variable {roots prior}

theorem exists_lastOwner {sources : List Text} {unit : Text}
    (h : ∃ source ∈ sources, Owns roots prior source unit) :
    ∃ source, LastOwner roots prior sources unit source := by
  induction sources with
  | nil => simp at h
  | cons s sources ih =>
    by_cases hl : ∃ source ∈ sources, Owns roots prior source unit
    · obtain ⟨source, earlier, later, he, ho, hno⟩ := ih hl
      exact ⟨source, s :: earlier, later, by rw [he]; rfl, ho, hno⟩
    · obtain ⟨source, hs, ho⟩ := h
      rcases List.mem_cons.1 hs with rfl | hs
      · exact ⟨source, [], sources, rfl, ho, fun t ht hot => hl ⟨t, ht, hot⟩⟩
      · exact absurd ⟨source, hs, ho⟩ hl

theorem LastOwner.mem {sources : List Text} {unit source : Text}
    (h : LastOwner roots prior sources unit source) :
    source ∈ sources ∧ Owns roots prior source unit := by
  obtain ⟨earlier, later, rfl, ho, -⟩ := h
  exact ⟨by simp, ho⟩

theorem lastOwner_singleton {path unit source : Text} :
    LastOwner roots prior [path] unit source ↔ source = path ∧ Owns roots prior path unit := by
  constructor
  · intro hl
    obtain ⟨hs, ho⟩ := hl.mem
    obtain rfl := List.mem_singleton.1 hs
    exact ⟨rfl, ho⟩
  · rintro ⟨rfl, ho⟩
    exact ⟨[], [], rfl, ho, by simp⟩

/-- **Of the sources with a unit the last one has it.** -/
theorem getElem?_foldl_claims {sources : List Text} {claimed : List Claim}
    (h : claims roots prior sources = .ok claimed) (m : TextMap Text) (unit source : Text) :
    (claimed.foldl (fun m c => m.insert c.1 c.2) m)[unit]? = some source ↔
      LastOwner roots prior sources unit source ∨
        (∀ other ∈ sources, ¬ Owns roots prior other unit) ∧ m[unit]? = some source := by
  have hfold : claimed.foldl (fun m c => m.insert c.1 c.2) m = sources.foldl
      (fun m s => (ownUnits roots prior s).foldl (fun m unit => m.insert unit s) m) m := by
    rw [(claims_eq h).1, List.foldl_flatMap]
    simp only [List.foldl_map]
  rw [hfold]
  refine (foldl_eq_iff (fun (m : TextMap Text) (unit : Text) => m[unit]?)
    (fun m s => (ownUnits roots prior s).foldl (fun m unit => m.insert unit s) m)
    (fun s unit => Owns roots prior s unit) (fun s _ => some s) ?_ ?_ sources m unit
    (some source)).trans (or_congr_left ⟨?_, ?_⟩)
  · intro m s unit ho
    rw [getElem?_foldl_insert_const, if_pos (mem_ownUnits.2 ho)]
  · intro m s unit hno
    rw [getElem?_foldl_insert_const, if_neg fun hm => hno (mem_ownUnits.1 hm)]
  · rintro ⟨earlier, s, later, he, ho, ⟨⟩, hl⟩
    exact ⟨earlier, later, he, ho, hl⟩
  · rintro ⟨earlier, later, he, ho, hl⟩
    exact ⟨earlier, source, later, he, ho, rfl, hl⟩

end

end Rebuild
