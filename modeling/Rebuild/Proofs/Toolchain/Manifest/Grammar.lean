/-
  Which texts are manifests.

  A line may stand behind others (`Allowed`) if it says nothing, declares a unit that has no line
  of its own yet, or says something of one that has; `Offends` lists what else can be the matter
  with it.  A text is a manifest if each of its lines may stand behind those before it.

  * `Reading.line_of_allowed` and `Reading.line_of_offends`: what one line does to a reading;
  * `Reading.runs_of_grammatical` and `Reading.lines_of_offends`: what reading many lines does.

  `parse_outcome` tells for every text whether it is read, and else which line is at fault.
-/
import Rebuild.Proofs.Containers
import Rebuild.Proofs.Toolchain.Manifest.Line

namespace Rebuild.Manifest

/-! ## The grammar -/

/-- A directive that says something of a unit with a line of its own. -/
def IsDetail (directive : Text) : Prop :=
  directive = "dep" ∨ directive = "fact" ∨ directive = "artifact"

/-- One of these lines is the unit's own. -/
def Declared (lines : List Text) (unit : Text) : Prop :=
  ∃ line ∈ lines, ∃ source, Says line "unit" unit source

/-- The line may stand behind the earlier ones. -/
def Allowed (earlier : List Text) (line : Text) : Prop :=
  Silent line ∨ ∃ directive unit value, Says line directive unit value ∧
    (directive = "unit" ∧ ¬ Declared earlier unit ∨ IsDetail directive ∧ Declared earlier unit)

/-- The line may not stand behind the earlier ones, and why. -/
inductive Offends (earlier : List Text) (line : Text) : ManifestFault → Prop
  | incomplete (hsilent : ¬ Silent line)
      (h : ∀ directive unit value, ¬ Says line directive unit value) :
      Offends earlier line .incomplete
  | declaredTwice {unit value : Text} (h : Says line "unit" unit value)
      (hunit : Declared earlier unit) : Offends earlier line (.declaredTwice unit)
  | undeclared {directive unit value : Text} (hsilent : ¬ Silent line)
      (h : Says line directive unit value) (hdirective : directive ≠ "unit")
      (hunit : ¬ Declared earlier unit) : Offends earlier line (.undeclared unit)
  | unknownDirective {directive unit value : Text} (hsilent : ¬ Silent line)
      (h : Says line directive unit value) (hdirective : directive ≠ "unit")
      (hdetail : ¬ IsDetail directive) (hunit : Declared earlier unit) :
      Offends earlier line (.unknownDirective directive)

/-- Each line may stand behind those before it. -/
def Grammatical (lines : List Text) : Prop :=
  ∀ earlier line, earlier ++ [line] <+: lines → Allowed earlier line

section
variable {earlier lines : List Text} {line directive unit value : Text} {fault : ManifestFault}

theorem IsDetail.ne_unit (h : IsDetail directive) : directive ≠ "unit" := by
  rcases h with rfl | rfl | rfl <;> decide

theorem IsDetail.directive? (h : IsDetail directive) (value : Text) :
    ∃ change, directive? directive value = some change := by
  rcases h with rfl | rfl | rfl <;> exact ⟨_, rfl⟩

theorem directive?_of_not_isDetail (h : ¬ IsDetail directive) (value : Text) :
    directive? directive value = none := by
  obtain ⟨hdep, hfact, hartifact⟩ : directive ≠ "dep" ∧ directive ≠ "fact" ∧
      directive ≠ "artifact" := by
    rwa [IsDetail, not_or, not_or] at h
  rw [Manifest.directive?, if_neg hdep, if_neg hfact, if_neg hartifact]

theorem isDetail_of_directive? {change : UnitRecord → UnitRecord}
    (h : directive? directive value = some change) : IsDetail directive := by
  by_contra hno
  rw [directive?_of_not_isDetail hno] at h
  cases h

theorem Says.not_silent_of_unit (h : Says line "unit" unit value) : ¬ Silent line :=
  h.not_silent (by decide)

theorem Says.not_silent_of_isDetail (h : Says line directive unit value)
    (hdetail : IsDetail directive) : ¬ Silent line := by
  refine h.not_silent ?_
  rcases hdetail with rfl | rfl | rfl <;> decide

theorem allowed_or_offends (earlier : List Text) (line : Text) :
    Allowed earlier line ∨ ∃ fault, Offends earlier line fault := by
  by_cases hsilent : Silent line
  · exact Or.inl (Or.inl hsilent)
  by_cases h : ∃ directive unit value, Says line directive unit value
  · obtain ⟨directive, unit, value, h⟩ := h
    by_cases hd : directive = "unit" <;> by_cases hunit : Declared earlier unit
    · subst hd
      exact Or.inr ⟨_, .declaredTwice h hunit⟩
    · exact Or.inl (Or.inr ⟨_, _, _, h, Or.inl ⟨hd, hunit⟩⟩)
    · by_cases hdetail : IsDetail directive
      · exact Or.inl (Or.inr ⟨_, _, _, h, Or.inr ⟨hdetail, hunit⟩⟩)
      · exact Or.inr ⟨_, .unknownDirective hsilent h hd hdetail hunit⟩
    · exact Or.inr ⟨_, .undeclared hsilent h hd hunit⟩
  · exact Or.inr ⟨_, .incomplete hsilent fun d u v hs => h ⟨d, u, v, hs⟩⟩

theorem Offends.not_allowed (h : Offends earlier line fault) : ¬ Allowed earlier line := by
  rintro (hsilent | ⟨directive, unit, value, hs, hd⟩)
  · cases h with
    | incomplete hno | undeclared hno | unknownDirective hno => exact hno hsilent
    | declaredTwice h => exact h.not_silent_of_unit hsilent
  · cases h with
    | incomplete _ h => exact h _ _ _ hs
    | declaredTwice h hunit =>
      obtain ⟨rfl, rfl, rfl⟩ := hs.unique h
      rcases hd with ⟨-, hno⟩ | ⟨hdetail, -⟩
      · exact hno hunit
      · exact hdetail.ne_unit rfl
    | undeclared _ h hne hunit =>
      obtain ⟨rfl, rfl, rfl⟩ := hs.unique h
      rcases hd with ⟨hd, -⟩ | ⟨-, hyes⟩
      · exact hne hd
      · exact hunit hyes
    | unknownDirective _ h hne hdetail =>
      obtain ⟨rfl, rfl, rfl⟩ := hs.unique h
      rcases hd with ⟨hd, -⟩ | ⟨hyes, -⟩
      · exact hne hd
      · exact hdetail hyes

theorem declared_concat : Declared (earlier ++ [line]) unit ↔
    Declared earlier unit ∨ ∃ source, Says line "unit" unit source := by
  simp only [Declared, List.mem_append, List.mem_singleton, or_and_right, exists_or,
    exists_eq_left]

theorem Grammatical.of_prefix (h : Grammatical lines) (hpre : earlier <+: lines) :
    Grammatical earlier :=
  fun before line hline => h before line (hline.trans hpre)

theorem grammatical_nil : Grammatical [] := by
  intro earlier line h
  simpa using h.length_le

theorem grammatical_concat :
    Grammatical (lines ++ [line]) ↔ Grammatical lines ∧ Allowed lines line := by
  refine ⟨fun h => ⟨h.of_prefix (List.prefix_append _ _), h _ _ (List.prefix_refl _)⟩, ?_⟩
  rintro ⟨hlines, hline⟩ before last hpre
  rcases List.prefix_concat_iff.1 hpre with he | hpre
  · obtain ⟨rfl, hlast⟩ := List.append_inj' he rfl
    rwa [List.singleton_inj.1 hlast]
  · exact hlines before last hpre

/-- **Lines that are no manifest have a first one that is at fault.** -/
theorem exists_offends (h : ¬ Grammatical lines) : ∃ earlier line fault,
    earlier ++ [line] <+: lines ∧ Grammatical earlier ∧ Offends earlier line fault := by
  induction lines using List.reverseRecOn with
  | nil => exact absurd grammatical_nil h
  | append_singleton lines line ih =>
    by_cases hlines : Grammatical lines
    · rw [grammatical_concat, not_and] at h
      obtain ⟨fault, hfault⟩ := (allowed_or_offends lines line).resolve_left (h hlines)
      exact ⟨lines, line, fault, List.prefix_refl _, hlines, hfault⟩
    · obtain ⟨earlier, first, fault, hpre, h⟩ := ih hlines
      exact ⟨earlier, first, fault, hpre.trans (List.prefix_append _ _), h⟩

end

/-! ## One line -/

namespace Reading

/-- A reading knows the units that the lines declare. -/
def Knows (r : Reading) (lines : List Text) : Prop :=
  ∀ unit, unit ∈ r.places ↔ Declared lines unit

variable {r : Reading} {earlier lines : List Text} {line directive unit value : Text}
  {fault : ManifestFault}

theorem getElem?_places_eq_none (h : r.Knows earlier) (hunit : ¬ Declared earlier unit) :
    r.places[unit]? = none :=
  Std.ExtTreeMap.getElem?_eq_none fun hmem => hunit ((h unit).1 hmem)

theorem exists_getElem?_places (h : r.Knows earlier) (hunit : Declared earlier unit) :
    ∃ place, r.places[unit]? = some place :=
  mem_iff_exists.1 ((h unit).2 hunit)

theorem line_unit (hs : Says line "unit" unit value) (hunit : r.places[unit]? = none) :
    r.line line = .ok (r.declare unit value) := by
  rw [line_of_words hs.not_silent_of_unit hs, follow, hunit]
  exact if_pos rfl

theorem line_detail {change : UnitRecord → UnitRecord} {place : Nat}
    (hs : Says line directive unit value) (hchange : directive? directive value = some change)
    (hunit : r.places[unit]? = some place) :
    r.line line = .ok { r with records := r.records.modify place change } := by
  have hdetail := isDetail_of_directive? hchange
  rw [line_of_words (hs.not_silent_of_isDetail hdetail) hs, follow, hunit]
  dsimp only
  rw [if_neg hdetail.ne_unit, hchange]

/-- **A line that may stand there is read, and makes its unit known.** -/
theorem line_of_allowed (h : r.Knows earlier) (hline : Allowed earlier line) :
    ∃ r', r.line line = .ok r' ∧ r'.Knows (earlier ++ [line]) := by
  rcases hline with hsilent | ⟨directive, unit, value, hs, ⟨rfl, hunit⟩ | ⟨hdetail, hunit⟩⟩
  · refine ⟨r, line_of_silent hsilent, fun unit => ?_⟩
    rw [h, declared_concat, or_iff_left]
    rintro ⟨source, hs⟩
    exact hs.not_silent_of_unit hsilent
  · refine ⟨_, line_unit hs (getElem?_places_eq_none h hunit), fun u => ?_⟩
    rw [declared_concat, ← h, declare, Std.ExtTreeMap.mem_insert,
      Std.LawfulEqCmp.compare_eq_iff_eq, or_comm]
    refine or_congr_right ⟨fun he => ⟨value, he ▸ hs⟩, ?_⟩
    rintro ⟨source, hs'⟩
    exact (hs.unique hs').2.1.symm
  · obtain ⟨place, hplace⟩ := exists_getElem?_places h hunit
    obtain ⟨change, hchange⟩ := hdetail.directive? value
    refine ⟨_, line_detail hs hchange hplace, fun u => ?_⟩
    rw [declared_concat, ← h, or_iff_left]
    rintro ⟨source, hs'⟩
    exact hdetail.ne_unit (hs.unique hs').1.symm

theorem line_of_offends (h : r.Knows earlier) (hline : Offends earlier line fault) :
    r.line line = .error fault := by
  cases hline with
  | incomplete hsilent hno => exact line_of_other hsilent hno
  | declaredTwice hs hunit =>
    obtain ⟨place, hplace⟩ := exists_getElem?_places h hunit
    rw [line_of_words hs.not_silent_of_unit hs, follow, hplace]
    exact if_pos rfl
  | undeclared hsilent hs hdirective hunit =>
    rw [line_of_words hsilent hs, follow, getElem?_places_eq_none h hunit]
    exact if_neg hdirective
  | unknownDirective hsilent hs hdirective hdetail hunit =>
    obtain ⟨place, hplace⟩ := exists_getElem?_places h hunit
    rw [line_of_words hsilent hs, follow, hplace]
    dsimp only
    rw [if_neg hdirective, directive?_of_not_isDetail hdetail]

/-! ## All lines -/

/-- Reading these lines leads from one reading to another. -/
def Runs (r : Reading) (lines : List Text) (r' : Reading) : Prop :=
  ∀ number, r.lines number lines = .ok r'

theorem lines_append (r : Reading) (number : Nat) (xs ys : List Text) :
    r.lines number (xs ++ ys) =
      (r.lines number xs).bind fun r => r.lines (number + xs.length) ys := by
  induction xs generalizing r number with
  | nil => rfl
  | cons x xs ih =>
    rw [List.cons_append, Reading.lines, Reading.lines]
    cases r.line x with
    | error fault => rfl
    | ok r =>
      dsimp only
      rw [ih, List.length_cons, Nat.add_right_comm, Nat.add_assoc number]

theorem Runs.nil (r : Reading) : r.Runs [] r := fun _ => rfl

theorem Runs.single {r r' : Reading} (h : r.line line = .ok r') : r.Runs [line] r' := by
  intro number
  rw [Reading.lines, h]
  rfl

theorem Runs.append {r r₁ r' : Reading} {more : List Text} (h : r.Runs lines r₁)
    (hmore : r₁.Runs more r') : r.Runs (lines ++ more) r' := by
  intro number
  rw [lines_append, h, Except.bind, hmore]

theorem knows_empty : Knows {} [] := by
  intro unit
  refine iff_of_false Std.ExtTreeMap.not_mem_empty ?_
  rintro ⟨line, hline, -⟩
  exact List.not_mem_nil hline

/-- **The lines of a manifest are read, and their units known in the end.** -/
theorem runs_of_grammatical (h : Grammatical lines) : ∃ r, Runs {} lines r ∧ r.Knows lines := by
  induction lines using List.reverseRecOn with
  | nil => exact ⟨{}, Runs.nil _, knows_empty⟩
  | append_singleton lines line ih =>
    obtain ⟨hlines, hline⟩ := grammatical_concat.1 h
    obtain ⟨r, hr, hknows⟩ := ih hlines
    obtain ⟨r', hr', hknows'⟩ := line_of_allowed hknows hline
    exact ⟨r', hr.append (Runs.single hr'), hknows'⟩

/-- **Reading ends at the first line that is at fault**, whatever follows. -/
theorem lines_of_offends (number : Nat) (h : Grammatical earlier)
    (hline : Offends earlier line fault) (hpre : earlier ++ [line] <+: lines) :
    ({} : Reading).lines number lines = .error ⟨number + earlier.length, fault⟩ := by
  obtain ⟨later, rfl⟩ := hpre
  obtain ⟨r, hr, hknows⟩ := runs_of_grammatical h
  rw [List.append_assoc, lines_append, hr, Except.bind, List.singleton_append, Reading.lines,
    line_of_offends hknows hline]

end Reading

/-! ## All texts -/

section
variable {t : Text}

theorem exists_parse_eq_ok (h : Grammatical (linesOf t)) : ∃ rs, parse t = .ok rs := by
  obtain ⟨r, hr, -⟩ := Reading.runs_of_grammatical h
  exact ⟨r.records.toList, by rw [parse, hr]; rfl⟩

theorem parse_of_offends {earlier : List Text} {line : Text} {fault : ManifestFault}
    (h : Grammatical earlier) (hline : Offends earlier line fault)
    (hpre : earlier ++ [line] <+: linesOf t) :
    parse t = .error ⟨earlier.length + 1, fault⟩ := by
  rw [parse, Reading.lines_of_offends 1 h hline hpre, Nat.add_comm]
  rfl

/-- The error of a text is that of its first line at fault. -/
theorem parse_eq_error {e : ManifestError} : parse t = .error e ↔
    ∃ earlier line, earlier ++ [line] <+: linesOf t ∧ Grammatical earlier ∧
      Offends earlier line e.fault ∧ e.line = earlier.length + 1 := by
  constructor
  · intro h
    have hno : ¬ Grammatical (linesOf t) := by
      intro hyes
      obtain ⟨rs, hrs⟩ := exists_parse_eq_ok hyes
      simp [hrs] at h
    obtain ⟨earlier, line, fault, hpre, hearlier, hline⟩ := exists_offends hno
    rw [parse_of_offends hearlier hline hpre] at h
    cases h
    exact ⟨earlier, line, hpre, hearlier, hline, rfl⟩
  · rintro ⟨earlier, line, hpre, hearlier, hline, hnumber⟩
    rw [parse_of_offends hearlier hline hpre, ← hnumber]

end

/-- **A text is read exactly if each of its lines may stand behind those before it**; else the
    error names the first line that may not and what is the matter with it, and texts with the
    same lines up to that one have the same error. -/
theorem parse_outcome (t : Text) :
    ((∃ rs, parse t = .ok rs) ↔ Grammatical (linesOf t)) ∧
    (∀ e, parse t = .error e ↔ ∃ earlier line, earlier ++ [line] <+: linesOf t ∧
      Grammatical earlier ∧ ¬ Allowed earlier line ∧ Offends earlier line e.fault ∧
        e.line = earlier.length + 1) ∧
    ∀ e, parse t = .error e → ∀ t', (linesOf t').take e.line = (linesOf t).take e.line →
      parse t' = .error e := by
  refine ⟨⟨?_, exists_parse_eq_ok⟩, fun e => parse_eq_error.trans ?_, fun e he t' hlines => ?_⟩
  · rintro ⟨rs, hrs⟩
    by_contra hno
    obtain ⟨earlier, line, fault, hpre, hearlier, hline⟩ := exists_offends hno
    rw [parse_of_offends hearlier hline hpre] at hrs
    cases hrs
  · constructor
    · rintro ⟨earlier, line, hpre, hearlier, hline, hnumber⟩
      exact ⟨earlier, line, hpre, hearlier, hline.not_allowed, hline, hnumber⟩
    · rintro ⟨earlier, line, hpre, hearlier, -, hline, hnumber⟩
      exact ⟨earlier, line, hpre, hearlier, hline, hnumber⟩
  · obtain ⟨earlier, line, hpre, hearlier, hline, hnumber⟩ := parse_eq_error.1 he
    refine parse_eq_error.2 ⟨earlier, line, ?_, hearlier, hline, hnumber⟩
    have hlength : e.line = (earlier ++ [line]).length := by simpa using hnumber
    rw [List.prefix_iff_eq_take, ← hlength] at hpre ⊢
    rw [hpre, hlines]

/-- A manifest whose third line has an unknown directive, and another one with the same three
    lines. -/
theorem parse_outcome_unknown :
    parse "unit a /a\r\n\n\tlink a m \ndep b a" = .error ⟨3, .unknownDirective "link"⟩ ∧
      parse "unit a /a\r\n\n\tlink a m " = .error ⟨3, .unknownDirective "link"⟩ := by
  have h : parse "unit a /a\r\n\n\tlink a m \ndep b a" = .error ⟨3, .unknownDirective "link"⟩ :=
    by decide +kernel
  exact ⟨h, (parse_outcome _).2.2 _ h _ (by decide +kernel)⟩

end Rebuild.Manifest
