/-
  Manifests and records.

  * `Renderable`: the records that a manifest can hold;
  * `Reading.Holds`: a reading has come to these records.  The lines of a unit add its record
    (`Reading.leads_unitLines`), which is how records are read back (`Renderable.parse_render`);
  * `Reading.Holds.line`: no line, whoever wrote it, adds what a manifest could not hold
    (`renderable_of_parse`).

  `parse_render_iff` puts both directions together.
-/
import Mathlib.Data.List.Nodup
import Rebuild.Proofs.Path
import Rebuild.Proofs.Toolchain.Manifest.Grammar

namespace Rebuild.Manifest

/-! ## Records that a manifest can hold -/

/-- The byte that ends a line. -/
abbrev lineEnd : UInt8 := Text.byte '\n'

/-- A name that can stand before a value. -/
structure IsName (t : Text) : Prop where
  word : IsWord t
  one_line : lineEnd ∉ t

/-- A value that can end a line. -/
structure IsValue (t : Text) : Prop where
  ne_nil : t ≠ []
  trimmed : IsTrimmed t
  one_line : lineEnd ∉ t

/-- A record whose texts can stand in a manifest. -/
structure Writable (r : UnitRecord) : Prop where
  name : IsName r.name
  source : IsValue r.source
  dependencies : ∀ d ∈ r.dependencies, IsValue d
  facts : ∀ f ∈ r.facts, IsValue f
  artifacts : ∀ a ∈ r.artifacts, IsValue a

/-- Records that can stand in one manifest. -/
structure Renderable (rs : List UnitRecord) : Prop where
  nodup : (rs.map (·.name)).Nodup
  writable : ∀ r ∈ rs, Writable r

/-! ## The lines that are written -/

/-- A line as it is written, without its end. -/
def lineOf (directive unit value : Text) : Text := directive ++ " " ++ (unit ++ " " ++ value)

/-- The lines of a unit. -/
def unitLines (r : UnitRecord) : List Text :=
  [lineOf "unit" r.name r.source] ++ r.dependencies.toList.map (lineOf "dep" r.name) ++
    r.facts.toList.map (lineOf "fact" r.name) ++ r.artifacts.map (lineOf "artifact" r.name)

theorem renderLine_eq (directive unit : Text) :
    renderLine directive unit = fun value => lineOf directive unit value ++ [lineEnd] := by
  funext value
  simp only [renderLine, lineOf, List.append_assoc]
  rfl

theorem render_eq (rs : List UnitRecord) :
    render rs = (rs.flatMap unitLines).flatMap (· ++ [lineEnd]) := by
  rw [render, List.flatMap_assoc]
  refine congrArg (List.flatMap · rs) (funext fun r => ?_)
  simp only [renderUnit, unitLines, renderLine_eq, List.flatMap_append, List.flatMap_map,
    List.flatMap_singleton]

/-- Lines that are ended one by one are told apart again; nothing follows the last end. -/
theorem linesOf_flatMap {ls : List Text} (h : ∀ l ∈ ls, lineEnd ∉ l) :
    linesOf (ls.flatMap (· ++ [lineEnd])) = ls ++ [[]] := by
  have hsplit := Text.split_flatMap_concat h List.not_mem_nil
  rwa [List.append_nil] at hsplit

section
variable {directive unit value : Text}

theorem says_lineOf (hd : IsWord directive) (hu : IsName unit) (hv : IsValue value) :
    Says (lineOf directive unit value) directive unit value := by
  have hgap : IsGap " " := ⟨by decide, by decide +kernel⟩
  have hrest : IsTrimmed (unit ++ " " ++ value) := isTrimmed_append hu.word hv.trimmed hv.ne_nil
  have hcontent : IsTrimmed (directive ++ " " ++ (unit ++ " " ++ value)) :=
    isTrimmed_append hd hrest (by simp [hv.ne_nil])
  refine ⟨hd, hu.word, hv.ne_nil, hv.trimmed, _, _, hgap, hgap, hcontent, [], [], ?_⟩
  simp [lineOf]

theorem lineEnd_notMem_lineOf (hd : lineEnd ∉ directive) (hu : IsName unit) (hv : IsValue value) :
    lineEnd ∉ lineOf directive unit value := by
  have hblank : lineEnd ∉ (" " : Text) := by decide
  simp only [lineOf, List.mem_append, not_or]
  exact ⟨⟨hd, hblank⟩, ⟨hu.one_line, hblank⟩, hv.one_line⟩

theorem IsDetail.isWord (h : IsDetail directive) : IsWord directive := by
  rcases h with rfl | rfl | rfl <;> exact ⟨by decide, by decide +kernel⟩

theorem IsDetail.lineEnd_notMem (h : IsDetail directive) : lineEnd ∉ directive := by
  rcases h with rfl | rfl | rfl <;> decide

end

theorem Writable.lineEnd_notMem {r : UnitRecord} (h : Writable r) :
    ∀ l ∈ unitLines r, lineEnd ∉ l := by
  have hdetail {directive value : Text} (hd : IsDetail directive) (hv : IsValue value) :
      lineEnd ∉ lineOf directive r.name value :=
    lineEnd_notMem_lineOf hd.lineEnd_notMem h.name hv
  intro l hl
  simp only [unitLines, List.mem_append, List.mem_singleton, List.mem_map,
    Std.ExtTreeSet.mem_toList] at hl
  rcases hl with ((rfl | ⟨d, hd, rfl⟩) | ⟨f, hf, rfl⟩) | ⟨a, ha, rfl⟩
  · exact lineEnd_notMem_lineOf (by decide) h.name h.source
  · exact hdetail (Or.inl rfl) (h.dependencies d hd)
  · exact hdetail (Or.inr (Or.inl rfl)) (h.facts f hf)
  · exact hdetail (Or.inr (Or.inr rfl)) (h.artifacts a ha)

/-! ## What a reading holds -/

theorem name_of_directive? {directive value : Text} {change : UnitRecord → UnitRecord}
    (h : directive? directive value = some change) (rec : UnitRecord) :
    (change rec).name = rec.name := by
  unfold directive? at h
  split_ifs at h <;> cases h <;> rfl

namespace Reading

/-- A reading holds these records, and knows the place of each. -/
structure Holds (r : Reading) (rs : List UnitRecord) : Prop where
  records : r.records.toList = rs
  places : ∀ (unit : Text) (place : Nat),
    r.places[unit]? = some place ↔ (rs.map (·.name))[place]? = some unit

section
variable {r r' : Reading} {rs : List UnitRecord} {t directive unit value : Text}

theorem holds_empty : Holds {} [] where
  records := rfl
  places unit place := by simp

theorem Holds.getElem?_places_eq_none (h : r.Holds rs) :
    r.places[unit]? = none ↔ unit ∉ rs.map (·.name) := by
  rw [Option.eq_none_iff_forall_ne_some, List.mem_iff_getElem?, not_exists]
  exact forall_congr' fun place => not_congr (h.places unit place)

theorem Holds.nodup (h : r.Holds rs) : (rs.map (·.name)).Nodup := by
  rw [List.nodup_iff_getElem?_ne_getElem?]
  intro i j hij hj he
  obtain ⟨unit, hunit⟩ : ∃ unit, (rs.map (·.name))[j]? = some unit :=
    ⟨_, List.getElem?_eq_getElem hj⟩
  have hi := (h.places unit i).2 (he.trans hunit)
  rw [(h.places unit j).2 hunit] at hi
  exact hij.ne' (Option.some.inj hi)

theorem Holds.declare (h : r.Holds rs) (hunit : unit ∉ rs.map (·.name)) (source : Text) :
    (r.declare unit source).Holds (rs ++ [{ name := unit, source }]) where
  records := by rw [Reading.declare, Array.toList_push, h.records]
  places u place := by
    have hsize : r.records.size = (rs.map (·.name)).length := by
      rw [List.length_map, ← h.records, Array.length_toList]
    rw [Reading.declare, Std.ExtTreeMap.getElem?_insert, List.map_append, List.map_singleton,
      getElem?_concat_eq_some, hsize, ← h.places]
    split_ifs with hu
    · rw [Std.LawfulEqCmp.compare_eq_iff_eq] at hu
      subst hu
      rw [h.getElem?_places_eq_none.2 hunit]
      simp [eq_comm]
    · rw [Std.LawfulEqCmp.compare_eq_iff_eq] at hu
      simp [hu]

/-- A change of a record that keeps its name. -/
theorem Holds.modify (h : r.Holds rs) (place : Nat) {change : UnitRecord → UnitRecord}
    (hname : ∀ rec, (change rec).name = rec.name) :
    Holds { r with records := r.records.modify place change } (rs.modify place change) where
  records := by rw [Array.toList_modify, h.records]
  places u p := by
    rw [map_modify_of_eq hname]
    exact h.places u p

/-! ## Writing and reading back -/

/-- Reading these lines leads from records to records. -/
def Leads (lines : List Text) (rs rs' : List UnitRecord) : Prop :=
  ∀ r : Reading, r.Holds rs → ∃ r', r.Runs lines r' ∧ r'.Holds rs'

variable {rs₁ rs' : List UnitRecord} {lines : List Text} {rec : UnitRecord}

theorem Leads.nil (rs : List UnitRecord) : Leads [] rs rs := fun r h => ⟨r, Runs.nil r, h⟩

theorem Leads.append {more : List Text} (h : Leads lines rs rs₁) (hmore : Leads more rs₁ rs') :
    Leads (lines ++ more) rs rs' := by
  intro r hr
  obtain ⟨r₁, hr₁, hholds₁⟩ := h r hr
  obtain ⟨r', hr', hholds'⟩ := hmore r₁ hholds₁
  exact ⟨r', hr₁.append hr', hholds'⟩

/-- The line that declares a unit adds its record. -/
theorem leads_unit {source : Text} (hname : IsName unit) (hsource : IsValue source)
    (hunit : unit ∉ rs.map (·.name)) :
    Leads [lineOf "unit" unit source] rs (rs ++ [{ name := unit, source }]) := by
  intro r h
  have hword : IsWord "unit" := ⟨by decide, by decide +kernel⟩
  have hline := line_unit (says_lineOf hword hname hsource) (h.getElem?_places_eq_none.2 hunit)
  exact ⟨_, Runs.single hline, h.declare hunit source⟩

/-- A line about the last unit changes its record. -/
theorem leads_detail {change : UnitRecord → UnitRecord}
    (hchange : directive? directive value = some change) (hname : IsName rec.name)
    (hvalue : IsValue value) :
    Leads [lineOf directive rec.name value] (rs ++ [rec]) (rs ++ [change rec]) := by
  intro r h
  have hs := says_lineOf (isDetail_of_directive? hchange).isWord hname hvalue
  have hplace : r.places[rec.name]? = some rs.length := by
    rw [h.places, List.map_append, List.map_singleton, getElem?_concat_eq_some, List.length_map]
    exact Or.inr ⟨rfl, rfl⟩
  have hholds := h.modify rs.length (name_of_directive? hchange)
  have hlast : (rs ++ [rec]).modify rs.length change = rs ++ [change rec] := by
    rw [List.modify_eq_take_drop, List.take_left, List.drop_left]
    rfl
  rw [hlast] at hholds
  exact ⟨_, Runs.single (line_detail hs hchange hplace), hholds⟩

/-- Lines with the same directive, one behind the other. -/
theorem leads_details (rs : List UnitRecord) (rec : UnitRecord) (directive : Text)
    (change : Text → UnitRecord → UnitRecord)
    (hchange : ∀ v, directive? directive v = some (change v)) (hname : IsName rec.name)
    {vs : List Text} (hvs : ∀ v ∈ vs, IsValue v) :
    Leads (vs.map (lineOf directive rec.name)) (rs ++ [rec])
      (rs ++ [vs.foldl (fun rec v => change v rec) rec]) := by
  induction vs generalizing rec with
  | nil => exact Leads.nil _
  | cons v vs ih =>
    obtain ⟨hv, hvs⟩ := List.forall_mem_cons.1 hvs
    have hkeep := name_of_directive? (hchange v) rec
    have hrest := ih (change v rec) (hkeep ▸ hname) hvs
    rw [hkeep] at hrest
    exact (leads_detail (hchange v) hname hv).append hrest

end

end Reading

section
variable (rec : UnitRecord) (vs : List Text)

theorem foldl_dependencies :
    vs.foldl (fun rec v => { rec with dependencies := rec.dependencies.insert v }) rec =
      { rec with dependencies := rec.dependencies.insertMany vs } := by
  induction vs generalizing rec with
  | nil => rfl
  | cons v vs ih => rw [List.foldl_cons, ih, Std.ExtTreeSet.insertMany_cons]

theorem foldl_facts :
    vs.foldl (fun rec v => { rec with facts := rec.facts.insert v }) rec =
      { rec with facts := rec.facts.insertMany vs } := by
  induction vs generalizing rec with
  | nil => rfl
  | cons v vs ih => rw [List.foldl_cons, ih, Std.ExtTreeSet.insertMany_cons]

theorem foldl_artifacts :
    vs.foldl (fun rec v => { rec with artifacts := rec.artifacts ++ [v] }) rec =
      { rec with artifacts := rec.artifacts ++ vs } := by
  induction vs generalizing rec with
  | nil => simp
  | cons v vs ih => rw [List.foldl_cons, ih, List.append_assoc, List.singleton_append]

end

namespace Reading

variable {rs : List UnitRecord}

/-- The lines of a unit add its record. -/
theorem leads_unitLines {rec : UnitRecord} (h : Writable rec)
    (hunit : rec.name ∉ rs.map (·.name)) : Leads (unitLines rec) rs (rs ++ [rec]) := by
  have hdeclared := leads_unit h.name h.source hunit
  have hdependencies := leads_details rs { name := rec.name, source := rec.source } "dep"
    (fun v rec => { rec with dependencies := rec.dependencies.insert v }) (fun _ => rfl) h.name
    (fun d hd => h.dependencies d (Std.ExtTreeSet.mem_toList.1 hd))
  rw [foldl_dependencies, insertMany_empty_toList] at hdependencies
  have hfacts := leads_details rs { rec with facts := ∅, artifacts := [] } "fact"
    (fun v rec => { rec with facts := rec.facts.insert v }) (fun _ => rfl) h.name
    (fun f hf => h.facts f (Std.ExtTreeSet.mem_toList.1 hf))
  rw [foldl_facts, insertMany_empty_toList] at hfacts
  have hartifacts := leads_details rs { rec with artifacts := [] } "artifact"
    (fun v rec => { rec with artifacts := rec.artifacts ++ [v] }) (fun _ => rfl) h.name h.artifacts
  rw [foldl_artifacts, List.nil_append] at hartifacts
  exact ((hdeclared.append hdependencies).append hfacts).append hartifacts

theorem leads_flatMap_unitLines (rs : List UnitRecord) {more : List UnitRecord}
    (hmore : ∀ rec ∈ more, Writable rec)
    (hnodup : ((rs ++ more).map (·.name)).Nodup) :
    Leads (more.flatMap unitLines) rs (rs ++ more) := by
  induction more generalizing rs with
  | nil => simpa using Leads.nil rs
  | cons rec more ih =>
    obtain ⟨hrec, hmore⟩ := List.forall_mem_cons.1 hmore
    have hfresh : rec.name ∉ rs.map (·.name) := by
      intro hmem
      rw [List.map_append] at hnodup
      exact List.disjoint_of_nodup_append hnodup hmem List.mem_cons_self
    rw [List.append_cons] at hnodup ⊢
    exact (leads_unitLines hrec hfresh).append (ih _ hmore hnodup)

end Reading

/-- **Records that a manifest can hold are read back from it.** -/
theorem Renderable.parse_render {rs : List UnitRecord} (h : Renderable rs) :
    parse (render rs) = .ok rs := by
  have hlines : ∀ l ∈ rs.flatMap unitLines, lineEnd ∉ l := by
    intro l hl
    obtain ⟨rec, hrec, hl⟩ := List.mem_flatMap.1 hl
    exact (h.writable rec hrec).lineEnd_notMem l hl
  obtain ⟨r, hr, hholds⟩ :=
    Reading.leads_flatMap_unitLines [] h.writable h.nodup {} Reading.holds_empty
  have hend : r.line [] = .ok r :=
    Reading.line_of_silent ⟨[], ⟨⟨by simp, by simp⟩, [], [], by simp⟩, Or.inl rfl⟩
  rw [parse, render_eq, linesOf_flatMap hlines, hr.append (Reading.Runs.single hend)]
  exact congrArg Except.ok hholds.records

/-! ## Reading anything -/

section
variable {t directive unit value : Text} {rec : UnitRecord}

/-- What stands in a line without an end has no line end. -/
theorem Says.one_line (h : Says t directive unit value) (ht : lineEnd ∉ t) :
    lineEnd ∉ unit ∧ lineEnd ∉ value := by
  obtain ⟨-, -, -, -, gap, gap', -, -, -, front, back, -, -, rfl⟩ := h
  simp only [List.mem_append, not_or] at ht
  exact ⟨ht.1.2.2.1.1, ht.1.2.2.2⟩

theorem Says.isName (h : Says t directive unit value) (ht : lineEnd ∉ t) : IsName unit :=
  ⟨h.unit_word, (h.one_line ht).1⟩

theorem Says.isValue (h : Says t directive unit value) (ht : lineEnd ∉ t) : IsValue value :=
  ⟨h.value_ne_nil, h.value_trimmed, (h.one_line ht).2⟩

theorem writable_new (hunit : IsName unit) (hvalue : IsValue value) :
    Writable { name := unit, source := value } :=
  ⟨hunit, hvalue, by simp, by simp, by simp⟩

theorem Writable.directive? {change : UnitRecord → UnitRecord} (h : Writable rec)
    (hvalue : IsValue value) (hchange : directive? directive value = some change) :
    Writable (change rec) := by
  unfold Manifest.directive? at hchange
  split_ifs at hchange <;> cases hchange
  · exact { h with dependencies := forall_mem_insert.2 ⟨hvalue, h.dependencies⟩ }
  · exact { h with facts := forall_mem_insert.2 ⟨hvalue, h.facts⟩ }
  · have hnew := List.forall_mem_singleton.2 hvalue
    exact { h with artifacts := List.forall_mem_append.2 ⟨h.artifacts, hnew⟩ }

end

namespace Reading

section
variable {r r' : Reading} {t directive unit value : Text} {rs : List UnitRecord}

/-- What a line that is read can do. -/
theorem line_cases (h : r.line t = .ok r') :
    r' = r ∨ ∃ directive unit value, Says t directive unit value ∧
      r.follow directive unit value = .ok r' := by
  by_cases hsilent : Silent t
  · rw [line_of_silent hsilent] at h
    exact Or.inl (Except.ok.inj h).symm
  by_cases hs : ∃ directive unit value, Says t directive unit value
  · obtain ⟨directive, unit, value, hs⟩ := hs
    rw [line_of_words hsilent hs] at h
    exact Or.inr ⟨_, _, _, hs, h⟩
  · rw [line_of_other hsilent fun d u v hs' => hs ⟨d, u, v, hs'⟩] at h
    cases h

/-- What a directive that is followed can do. -/
theorem follow_cases (h : r.follow directive unit value = .ok r') :
    r.places[unit]? = none ∧ r' = r.declare unit value ∨
      ∃ place change, directive? directive value = some change ∧
        r' = { r with records := r.records.modify place change } := by
  unfold follow at h
  cases hplace : r.places[unit]? with
  | none =>
    simp only [hplace] at h
    split_ifs at h
    exact Or.inl ⟨rfl, (Except.ok.inj h).symm⟩
  | some place =>
    simp only [hplace] at h
    split_ifs at h
    cases hchange : directive? directive value with
    | none => simp [hchange] at h
    | some change =>
      simp only [hchange] at h
      exact Or.inr ⟨place, change, rfl, (Except.ok.inj h).symm⟩

/-- **A line that is read keeps the records such that a manifest can hold them.** -/
theorem Holds.line (h : r.Holds rs) (hrs : ∀ rec ∈ rs, Writable rec) (ht : lineEnd ∉ t)
    (hline : r.line t = .ok r') : ∃ rs', r'.Holds rs' ∧ ∀ rec ∈ rs', Writable rec := by
  rcases line_cases hline with rfl | ⟨directive, unit, value, hs, hfollow⟩
  · exact ⟨rs, h, hrs⟩
  rcases follow_cases hfollow with ⟨hunit, rfl⟩ | ⟨place, change, hchange, rfl⟩
  · refine ⟨_, h.declare (h.getElem?_places_eq_none.1 hunit) value, ?_⟩
    have hnew := writable_new (hs.isName ht) (hs.isValue ht)
    exact List.forall_mem_append.2 ⟨hrs, List.forall_mem_singleton.2 hnew⟩
  · refine ⟨_, h.modify place (name_of_directive? hchange), ?_⟩
    exact forall_mem_modify hrs (fun _ hrec => hrec.directive? (hs.isValue ht) hchange) place

/-- **So does reading lines.** -/
theorem Holds.lines {number : Nat} {ts : List Text} (h : r.Holds rs)
    (hrs : ∀ rec ∈ rs, Writable rec) (hts : ∀ t ∈ ts, lineEnd ∉ t)
    (hlines : r.lines number ts = .ok r') : ∃ rs', r'.Holds rs' ∧ ∀ rec ∈ rs', Writable rec := by
  induction ts generalizing r rs number with
  | nil =>
    obtain rfl : r = r' := Except.ok.inj hlines
    exact ⟨rs, h, hrs⟩
  | cons t ts ih =>
    obtain ⟨ht, hts⟩ := List.forall_mem_cons.1 hts
    rw [Reading.lines] at hlines
    cases hline : r.line t with
    | error fault => simp [hline] at hlines
    | ok r₁ =>
      simp only [hline] at hlines
      obtain ⟨rs₁, h₁, hrs₁⟩ := h.line hrs ht hline
      exact ih h₁ hrs₁ hts hlines

end

end Reading

/-- **Whatever is read from a text can be written.** -/
theorem renderable_of_parse {t : Text} {rs : List UnitRecord} (h : parse t = .ok rs) :
    Renderable rs := by
  rw [parse] at h
  cases hlines : ({} : Reading).lines 1 (linesOf t) with
  | error e =>
    rw [hlines] at h
    cases h
  | ok r =>
    rw [hlines] at h
    obtain ⟨rs', hholds, hrs'⟩ := Reading.holds_empty.lines (List.forall_mem_nil _)
      (fun _ hl => Text.notMem_of_mem_split hl) hlines
    obtain rfl : rs' = rs := hholds.records.symm.trans (Except.ok.inj h)
    exact ⟨hholds.nodup, hrs'⟩

/-- **Records are read back from what is written of them exactly if their names differ and their
    texts can stand in a line**, and these are the only ones that are ever read: writing what was
    read from any text and reading it again changes nothing. -/
theorem parse_render_iff :
    (∀ rs, parse (render rs) = .ok rs ↔ Renderable rs) ∧
      ∀ t rs, parse t = .ok rs → Renderable rs ∧ parse (render rs) = parse t := by
  refine ⟨fun rs => ⟨renderable_of_parse, Renderable.parse_render⟩, fun t rs h => ?_⟩
  have hrs := renderable_of_parse h
  exact ⟨hrs, hrs.parse_render.trans h.symm⟩

/-- A manifest whose directives are not in the order in which they are written. -/
def interleaved : Text :=
  "unit a /src/a\r\n# \n\nunit b  /src/b \ndep a b\n\tartifact b /out/b\nfact a x = 1\ndep a b"

/-- The records of `interleaved`. -/
def interleavedRecords : List UnitRecord :=
  [{ name := "a", source := "/src/a", dependencies := .ofTexts ["b"], facts := .ofTexts ["x = 1"] },
    { name := "b", source := "/src/b", artifacts := ["/out/b"] }]

theorem parse_render_iff_interleaved : parse interleaved = .ok interleavedRecords ∧
    Renderable interleavedRecords ∧ parse (render interleavedRecords) = parse interleaved := by
  have h : parse interleaved = .ok interleavedRecords := by decide +kernel
  exact ⟨h, parse_render_iff.2 _ _ h⟩

end Rebuild.Manifest
