/-
  Arrays, sets and maps that a fold builds.

  What is read after a fold is what its last step for the key wrote: `foldl_eq_iff`, and
  `foldl_const` when all steps write the same.  Besides, marks set one after the other
  (`getD_foldl_set`), lists of disjoint lists (`IsAt`), and lists whose elements own keys
  (`Owned`).
-/
import Mathlib.Data.List.Perm.Subperm
import Mathlib.Tactic.Common
import Rebuild.Text

namespace Rebuild

/-! ## What a fold leaves -/

section
variable {σ γ κ β : Type} (look : σ → κ → β)

/-- **The last step that writes to a key counts**; a key that no step writes to keeps its
    value. -/
theorem foldl_eq_iff (step : σ → γ → σ) (writes : γ → κ → Prop) (value : γ → κ → β)
    (hwrite : ∀ s c k, writes c k → look (step s c) k = value c k)
    (hkeep : ∀ s c k, ¬ writes c k → look (step s c) k = look s k) (l : List γ) (s : σ) (k : κ)
    (v : β) : look (l.foldl step s) k = v ↔
      (∃ earlier c later, l = earlier ++ c :: later ∧ writes c k ∧ value c k = v ∧
          ∀ d ∈ later, ¬ writes d k) ∨
        (∀ c ∈ l, ¬ writes c k) ∧ look s k = v := by
  induction l generalizing s with
  | nil => simp
  | cons c l ih =>
    rw [List.foldl_cons, ih]
    constructor
    · rintro (⟨earlier, d, later, rfl, h⟩ | ⟨hl, h⟩)
      · exact Or.inl ⟨c :: earlier, d, later, rfl, h⟩
      · by_cases hc : writes c k
        · rw [hwrite s c k hc] at h
          exact Or.inl ⟨[], c, l, rfl, hc, h, hl⟩
        · rw [hkeep s c k hc] at h
          exact Or.inr ⟨List.forall_mem_cons.2 ⟨hc, hl⟩, h⟩
    · rintro (⟨earlier, d, later, he, hd, hv, hl⟩ | ⟨hl, h⟩)
      · cases earlier with
        | nil =>
          obtain ⟨rfl, rfl⟩ := List.cons.inj he
          exact Or.inr ⟨hl, (hwrite s c k hd).trans hv⟩
        | cons c' earlier =>
          obtain ⟨rfl, rfl⟩ := List.cons.inj he
          exact Or.inl ⟨earlier, d, later, rfl, hd, hv, hl⟩
      · obtain ⟨hc, hl⟩ := List.forall_mem_cons.1 hl
        exact Or.inr ⟨hl, (hkeep s c k hc).trans h⟩

/-- When every step writes the same, what is read is that for the keys of the steps. -/
theorem foldl_const [DecidableEq κ] [BEq κ] [LawfulBEq κ] (step : σ → κ → σ) (value : κ → β)
    (h : ∀ s c k, look (step s c) k = if c = k then value k else look s k) (l : List κ) (s : σ)
    (k : κ) : look (l.foldl step s) k = if k ∈ l then value k else look s k := by
  induction l generalizing s with
  | nil => simp
  | cons c l ih =>
    rw [List.foldl_cons, ih, h]
    simp only [List.mem_cons, eq_comm (a := k)]
    split_ifs <;> first | rfl | tauto

end

/-! ## Arrays of marks -/

section
variable {α : Type}

@[simp] theorem size_foldl_set (b : α) (vs : List Nat) (s : Array α) :
    (vs.foldl (fun s v => s.setIfInBounds v b) s).size = s.size := by
  induction vs generalizing s with
  | nil => rfl
  | cons v vs ih => rw [List.foldl_cons, ih, Array.size_setIfInBounds]

theorem getD_setIfInBounds (s : Array α) (i v : Nat) (b d : α) :
    (s.setIfInBounds i b).getD v d = if v = i ∧ v < s.size then b else s.getD v d := by
  simp only [Array.getD_eq_getD_getElem?, Array.getElem?_setIfInBounds]
  by_cases h : i = v
  · subst h
    by_cases hs : i < s.size <;> simp [hs]
  · simp [h, Ne.symm h]

theorem getD_foldl_set (b d : α) (vs : List Nat) (s : Array α) (v : Nat) :
    (vs.foldl (fun s v => s.setIfInBounds v b) s).getD v d =
      if v ∈ vs ∧ v < s.size then b else s.getD v d := by
  induction vs generalizing s with
  | nil => simp
  | cons w vs ih =>
    rw [List.foldl_cons, ih, getD_setIfInBounds, Array.size_setIfInBounds]
    simp only [List.mem_cons]
    split_ifs <;> first | rfl | tauto

/-- A default value at the end changes nothing. -/
theorem getD_push_default (s : Array α) (d : α) (v : Nat) : (s.push d).getD v d = s.getD v d := by
  simp only [Array.getD_eq_getD_getElem?, Array.getElem?_push]
  split
  · next h => simp [h]
  · rfl

theorem lt_size_of_getD {s : Array Bool} {v : Nat} (h : s.getD v false = true) : v < s.size := by
  by_contra hv
  simp [Array.getD_eq_getD_getElem?, Array.getElem?_eq_none (Nat.le_of_not_lt hv)] at h

end

/-- A number is inserted into one of the sets of an array. -/
theorem mem_getD_modify_insert {s : Array (Std.ExtTreeSet Nat)} {v w x y : Nat}
    (hv : v < s.size) :
    y ∈ (s.modify v (·.insert w)).getD x ∅ ↔ (x = v ∧ y = w) ∨ y ∈ s.getD x ∅ := by
  simp only [Array.getD_eq_getD_getElem?, Array.getElem?_modify]
  by_cases hx : v = x
  · subst hx
    simp [Array.getElem?_eq_getElem hv, Std.ExtTreeSet.mem_insert,
      Std.LawfulEqCmp.compare_eq_iff_eq, eq_comm (a := y)]
  · simp [hx, Ne.symm hx]

/-- Different numbers below a bound are at most as many as the bound. -/
theorem length_le_of_nodup_lt {vs : List Nat} {n : Nat} (hd : vs.Nodup) (h : ∀ v ∈ vs, v < n) :
    vs.length ≤ n := by
  have : vs.Subperm (List.range n) := hd.subperm fun v hv => List.mem_range.2 (h v hv)
  simpa using this.length_le

/-- In a list that strictly descends in a measure, members of one measure are equal. -/
theorem eq_of_descending {α : Type} {f : α → Nat} {l : List α}
    (h : l.Pairwise fun a b => f b < f a) {a b : α} (ha : a ∈ l) (hb : b ∈ l)
    (he : f a = f b) : a = b := by
  induction l with
  | nil => simp at ha
  | cons c l ih =>
    obtain ⟨hc, hl⟩ := List.pairwise_cons.1 h
    rcases List.mem_cons.1 ha with rfl | ha' <;> rcases List.mem_cons.1 hb with rfl | hb'
    · rfl
    · exact absurd he (Nat.ne_of_gt (hc b hb'))
    · exact absurd he (Nat.ne_of_lt (hc a ha'))
    · exact ih hl ha' hb'

/-- Positions in an ascending list are ordered as its members. -/
theorem lt_iff_of_ascending {l : List Nat} (h : l.Pairwise (· < ·)) {i j a b : Nat}
    (hi : l[i]? = some a) (hj : l[j]? = some b) : i < j ↔ a < b := by
  obtain ⟨hil, rfl⟩ := List.getElem?_eq_some_iff.1 hi
  obtain ⟨hjl, rfl⟩ := List.getElem?_eq_some_iff.1 hj
  have hp := List.pairwise_iff_getElem.1 h
  rcases Nat.lt_trichotomy i j with hlt | rfl | hlt
  · exact iff_of_true hlt (hp i j hil hjl hlt)
  · exact iff_of_false (Nat.lt_irrefl _) (Nat.lt_irrefl _)
  · exact iff_of_false (Nat.lt_asymm hlt) (Nat.lt_asymm (hp j i hjl hil hlt))

theorem getElem?_concat_eq_some {α : Type} {l : List α} {a b : α} {i : Nat} :
    (l ++ [a])[i]? = some b ↔ l[i]? = some b ∨ i = l.length ∧ a = b := by
  rcases Nat.lt_trichotomy i l.length with hi | rfl | hi
  · rw [List.getElem?_append_left hi, or_iff_left]
    rintro ⟨rfl, -⟩
    exact Nat.lt_irrefl _ hi
  · simp
  · have hlength : (l ++ [a]).length ≤ i := by
      rwa [List.length_append, List.length_singleton]
    rw [List.getElem?_eq_none hlength, List.getElem?_eq_none (Nat.le_of_lt hi)]
    simp [Nat.ne_of_gt hi]

/-! ## Lists with one element changed -/

theorem map_modify_of_eq {α β : Type} {f : α → β} {change : α → α} (h : ∀ a, f (change a) = f a)
    (l : List α) (i : Nat) : (l.modify i change).map f = l.map f := by
  refine List.ext_getElem? fun j => ?_
  rw [List.getElem?_map, List.getElem?_modify, List.getElem?_map]
  cases l[j]? with
  | none => rfl
  | some a => by_cases hi : i = j <;> simp [hi, h]

theorem forall_mem_modify {α : Type} {p : α → Prop} {change : α → α} {l : List α}
    (hl : ∀ a ∈ l, p a) (hchange : ∀ a, p a → p (change a)) (i : Nat) :
    ∀ a ∈ l.modify i change, p a := by
  intro b hb
  obtain ⟨j, hj⟩ := List.mem_iff_getElem?.1 hb
  rw [List.getElem?_modify, Option.map_eq_map, Option.map_eq_some_iff] at hj
  obtain ⟨a, ha, rfl⟩ := hj
  have hpa := hl a (List.mem_of_getElem? ha)
  split_ifs
  · exact hchange a hpa
  · exact hpa

section
variable {α : Type} {l : List α} {a : α} {i : Nat}

theorem getElem?_set_of_some (h : l[i]? = some a) (b : α) (x : Nat) :
    (l.set i b)[x]? = if x = i then some b else l[x]? := by
  have hi : i < l.length := (List.getElem?_eq_some_iff.1 h).1
  rw [List.getElem?_set]
  by_cases hx : i = x
  · simp [hx, hx ▸ hi]
  · simp [hx, Ne.symm hx]

theorem getElem?_set_same (h : l[i]? = some a) (b : α) : (l.set i b)[i]? = some b :=
  (getElem?_set_of_some h b i).trans (if_pos rfl)

theorem set_same (h : l[i]? = some a) : l.set i a = l := by
  obtain ⟨hi, rfl⟩ := List.getElem?_eq_some_iff.1 h
  exact List.set_getElem_self hi

theorem mem_set_same (h : l[i]? = some a) (b : α) : b ∈ l.set i b :=
  List.mem_of_getElem? (getElem?_set_same h b)

theorem countP_set_of_some (h : l[i]? = some a) (b : α) (q : α → Bool) :
    (l.set i b).countP q + (if q a then 1 else 0) = l.countP q + if q b then 1 else 0 := by
  induction l generalizing i with
  | nil => simp at h
  | cons d l ih =>
    cases i with
    | zero =>
      obtain rfl : d = a := by simpa using h
      simp only [List.set_cons_zero, List.countP_cons]
      omega
    | succ i =>
      have := ih (i := i) (by simpa using h)
      simp only [List.set_cons_succ, List.countP_cons]
      omega

theorem count_set_of_some [DecidableEq α] (h : l[i]? = some a) (b c : α) :
    (l.set i b).count c + (if a = c then 1 else 0) = l.count c + if b = c then 1 else 0 := by
  simpa [List.count] using countP_set_of_some h b (· == c)

end

/-! ## Lists whose elements own keys -/

section
variable {α κ : Type} {l : List α} {key : α → Option κ} {used used' : κ → Prop} {a b : α} {i : Nat}

/-- The keys in use are those that elements have, each of them one. -/
structure Owned (used : κ → Prop) (key : α → Option κ) (l : List α) : Prop where
  used_iff : ∀ k, used k ↔ ∃ (i : Nat) (a : α), l[i]? = some a ∧ key a = some k
  unique : ∀ (i j : Nat) (a b : α) (k : κ),
    l[i]? = some a → l[j]? = some b → key a = some k → key b = some k → i = j

namespace Owned

theorem used_of (h : Owned used key l) (hi : l[i]? = some a) {k : κ} (hk : key a = some k) :
    used k :=
  (h.used_iff k).2 ⟨i, a, hi, hk⟩

theorem nil (hused : ∀ k, ¬ used k) : Owned used key [] := by
  refine ⟨fun k => ⟨fun h => absurd h (hused k), ?_⟩, ?_⟩
  · rintro ⟨i, a, hi, -⟩
    simp at hi
  · intro i j a b k hi
    simp at hi

theorem congr (h : Owned used key l) (hused : ∀ k, used' k ↔ used k) : Owned used' key l :=
  ⟨fun k => (hused k).trans (h.used_iff k), h.unique⟩

/-- Changes of the elements that leave their keys alone. -/
theorem map (h : Owned used key l) {f : α → α} (hf : ∀ a, key (f a) = key a) :
    Owned used key (l.map f) := by
  refine ⟨fun k => (h.used_iff k).trans ?_, ?_⟩
  · simp only [List.getElem?_map, Option.map_eq_some_iff]
    constructor
    · rintro ⟨i, a, hi, hk⟩
      exact ⟨i, f a, ⟨a, hi, rfl⟩, (hf a).trans hk⟩
    · rintro ⟨i, _, ⟨a, hi, rfl⟩, hk⟩
      exact ⟨i, a, hi, (hf a).symm.trans hk⟩
  · intro i j a b k hi hj ha hb
    simp only [List.getElem?_map, Option.map_eq_some_iff] at hi hj
    obtain ⟨a, hi, rfl⟩ := hi
    obtain ⟨b, hj, rfl⟩ := hj
    exact h.unique i j a b k hi hj ((hf a).symm.trans ha) ((hf b).symm.trans hb)

/-- A new element without a key. -/
theorem concat (h : Owned used key l) (hb : key b = none) : Owned used key (l ++ [b]) := by
  have hold {i : Nat} {a : α} {k : κ} (hi : (l ++ [b])[i]? = some a) (hk : key a = some k) :
      l[i]? = some a := by
    rw [List.getElem?_append] at hi
    split_ifs at hi with hlt
    · exact hi
    · obtain rfl : a = b := by simpa using List.mem_of_getElem? hi
      simp [hb] at hk
  refine ⟨fun k => (h.used_iff k).trans ?_, fun i j a c k hi hj ha hc =>
    h.unique i j a c k (hold hi ha) (hold hj hc) ha hc⟩
  constructor
  · rintro ⟨i, a, hi, hk⟩
    have hlt := (List.getElem?_eq_some_iff.1 hi).1
    exact ⟨i, a, by rwa [List.getElem?_append_left hlt], hk⟩
  · rintro ⟨i, a, hi, hk⟩
    exact ⟨i, a, hold hi hk, hk⟩

/-- One element changes its key for another that no one else has. -/
theorem set (h : Owned used key l) (hi : l[i]? = some a)
    (hfresh : ∀ k, key b = some k → key a = some k ∨ ¬ used k)
    (hused : ∀ k, used' k ↔ key b = some k ∨ used k ∧ key a ≠ some k) :
    Owned used' key (l.set i b) := by
  have hnew {j : Nat} {c : α} {k : κ} (hj : (l.set i b)[j]? = some c) (hji : j ≠ i) :
      l[j]? = some c := by
    rwa [getElem?_set_of_some hi, if_neg hji] at hj
  have hself : (l.set i b)[i]? = some b := getElem?_set_same hi b
  -- who has a key of the changed element is that element
  have honly {j : Nat} {c : α} {k : κ} (hj : l[j]? = some c) (hc : key c = some k)
      (hb : key b = some k) : j = i := by
    rcases hfresh k hb with ha | hk
    · exact h.unique j i c a k hj hi hc ha
    · exact absurd (h.used_of hj hc) hk
  refine ⟨fun k => (hused k).trans ⟨?_, ?_⟩, fun j m c d k hj hm hc hd => ?_⟩
  · rintro (hb | ⟨hk, ha⟩)
    · exact ⟨i, b, hself, hb⟩
    · obtain ⟨j, c, hj, hc⟩ := (h.used_iff k).1 hk
      have hji : j ≠ i := by
        rintro rfl
        exact ha (Option.some.inj (hi.symm.trans hj) ▸ hc)
      exact ⟨j, c, by rwa [getElem?_set_of_some hi, if_neg hji], hc⟩
  · rintro ⟨j, c, hj, hc⟩
    by_cases hji : j = i
    · subst hji
      exact Or.inl (Option.some.inj (hself.symm.trans hj) ▸ hc)
    · have hj := hnew (k := k) hj hji
      refine Or.inr ⟨h.used_of hj hc, fun ha => hji (h.unique j i c a k hj hi hc ha)⟩
  · by_cases hji : j = i <;> by_cases hmi : m = i
    · rw [hji, hmi]
    · subst hji
      obtain rfl := Option.some.inj (hself.symm.trans hj)
      exact (honly (hnew (k := k) hm hmi) hd hc).symm
    · subst hmi
      obtain rfl := Option.some.inj (hself.symm.trans hm)
      exact honly (hnew (k := k) hj hji) hc hd
    · exact h.unique j m c d k (hnew (k := k) hj hji) (hnew (k := k) hm hmi) hc hd

/-- One element changes, and keeps its key. -/
theorem keep (h : Owned used key l) (hi : l[i]? = some a) (hkey : key b = key a)
    (hused : ∀ k, used' k ↔ used k) : Owned used' key (l.set i b) := by
  refine h.set hi (fun k hb => Or.inl (hkey ▸ hb)) fun k => (hused k).trans ?_
  constructor
  · intro hk
    by_cases ha : key a = some k
    · exact Or.inl (hkey.trans ha)
    · exact Or.inr ⟨hk, ha⟩
  · rintro (hb | ⟨hk, -⟩)
    · exact h.used_of hi (hkey ▸ hb)
    · exact hk

/-- One element takes a key that is not in use. -/
theorem take (h : Owned used key l) (hi : l[i]? = some a) {k : κ} (ha : key a = none)
    (hb : key b = some k) (hk : ¬ used k) (hused : ∀ x, used' x ↔ x = k ∨ used x) :
    Owned used' key (l.set i b) := by
  refine h.set hi (fun x hx => ?_) fun x => (hused x).trans ?_
  · obtain rfl := Option.some.inj (hb.symm.trans hx)
    exact Or.inr hk
  · simp [ha, hb, eq_comm]

/-- One element gives its key back. -/
theorem give (h : Owned used key l) (hi : l[i]? = some a) {k : κ} (ha : key a = some k)
    (hb : key b = none) (hused : ∀ x, used' x ↔ x ≠ k ∧ used x) :
    Owned used' key (l.set i b) := by
  refine h.set hi (fun x hx => ?_) fun x => (hused x).trans ?_
  · simp [hb] at hx
  · simp [ha, hb, eq_comm, and_comm]

end Owned

end

/-! ## Maps filled by a fold -/

section
variable {α β : Type} [Ord α] [Std.TransOrd α] [Std.LawfulEqOrd α]

omit [Std.LawfulEqOrd α] in
theorem mem_iff_exists {m : Std.ExtTreeMap α β} {k : α} : k ∈ m ↔ ∃ v, m[k]? = some v := by
  rw [← Std.ExtTreeMap.isSome_getElem?_iff_mem, Option.isSome_iff_exists]

/-- **The last binding of a key wins**; a key that is not bound keeps its value. -/
theorem getElem?_foldl_insert (l : List (α × β)) (m : Std.ExtTreeMap α β) (k : α) (v : β) :
    (l.foldl (fun m c => m.insert c.1 c.2) m)[k]? = some v ↔
      (∃ earlier later, l = earlier ++ (k, v) :: later ∧ ∀ c ∈ later, c.1 ≠ k) ∨
        (∀ c ∈ l, c.1 ≠ k) ∧ m[k]? = some v := by
  refine (foldl_eq_iff (fun (m : Std.ExtTreeMap α β) (k : α) => m[k]?)
    (fun m (c : α × β) => m.insert c.1 c.2) (fun c k => c.1 = k) (fun c _ => some c.2)
    ?_ ?_ l m k (some v)).trans (or_congr_left ⟨?_, ?_⟩)
  · rintro m c _ rfl
    exact Std.ExtTreeMap.getElem?_insert_self
  · intro m c k hc
    rw [Std.ExtTreeMap.getElem?_insert,
      if_neg fun h => hc (Std.LawfulEqCmp.compare_eq_iff_eq.1 h)]
  · rintro ⟨earlier, ⟨k, v⟩, later, rfl, rfl, ⟨⟩, hl⟩
    exact ⟨earlier, later, rfl, hl⟩
  · rintro ⟨earlier, later, rfl, hl⟩
    exact ⟨earlier, (k, v), later, rfl, rfl, rfl, hl⟩

/-- A key is bound when it is in the list or was bound before. -/
theorem mem_foldl_insert (l : List (α × β)) (m : Std.ExtTreeMap α β) (k : α) :
    k ∈ l.foldl (fun m c => m.insert c.1 c.2) m ↔ (∃ c ∈ l, c.1 = k) ∨ k ∈ m := by
  induction l generalizing m with
  | nil => simp
  | cons c l ih =>
    rw [List.foldl_cons, ih, Std.ExtTreeMap.mem_insert, Std.LawfulEqCmp.compare_eq_iff_eq,
      List.exists_mem_cons_iff]
    simp only [or_assoc, or_left_comm]

/-- All keys of a list bound to one value. -/
theorem getElem?_foldl_insert_const [DecidableEq α] (ks : List α) (v : β)
    (m : Std.ExtTreeMap α β) (k : α) :
    (ks.foldl (fun m k => m.insert k v) m)[k]? = if k ∈ ks then some v else m[k]? := by
  refine foldl_const (fun (m : Std.ExtTreeMap α β) (k : α) => m[k]?) (fun m k => m.insert k v)
    (fun _ => some v) (fun m j k => ?_) ks m k
  simp only [Std.ExtTreeMap.getElem?_insert, Std.LawfulEqCmp.compare_eq_iff_eq]

/-- Keys of a list bound to values of their own; a key that was bound before keeps its value. -/
theorem getElem?_foldl_insertIfNew [DecidableEq α] (value : α → β) (ks : List α)
    (m : Std.ExtTreeMap α β) (k : α) :
    (ks.foldl (fun m k => m.insertIfNew k (value k)) m)[k]? =
      m[k]?.or (if k ∈ ks then some (value k) else none) := by
  induction ks generalizing m with
  | nil => simp
  | cons j ks ih =>
    rw [List.foldl_cons, ih, Std.ExtTreeMap.getElem?_insertIfNew]
    simp only [Std.LawfulEqCmp.compare_eq_iff_eq, List.mem_cons]
    by_cases hjk : j = k
    · subst hjk
      by_cases hj : j ∈ m <;> simp [hj]
    · simp [hjk, Ne.symm hjk]

/-- When every key has one value in the list, the map holds exactly the list. -/
theorem getElem?_foldl_insert_of_unique {l : List (α × β)}
    (hl : ∀ c ∈ l, ∀ d ∈ l, c.1 = d.1 → c.2 = d.2) (k : α) (v : β) :
    (l.foldl (fun m c => m.insert c.1 c.2) (∅ : Std.ExtTreeMap α β))[k]? = some v ↔
      (k, v) ∈ l := by
  rw [getElem?_foldl_insert]
  constructor
  · rintro (⟨earlier, later, rfl, -⟩ | ⟨-, h⟩)
    · simp
    · simp at h
  · intro hm
    have hk : k ∈ l.foldl (fun m c => m.insert c.1 c.2) (∅ : Std.ExtTreeMap α β) :=
      (mem_foldl_insert l ∅ k).2 (Or.inl ⟨_, hm, rfl⟩)
    obtain ⟨w, hw⟩ := mem_iff_exists.1 hk
    rcases (getElem?_foldl_insert l ∅ k w).1 hw with ⟨earlier, later, he, h⟩ | ⟨-, h⟩
    · have hwl : (k, w) ∈ l := by rw [he]; simp
      have hvw : v = w := hl _ hm _ hwl rfl
      exact Or.inl ⟨earlier, later, hvw ▸ he, h⟩
    · simp at h

/-- The entries of a map, in order, make up the map. -/
theorem foldl_insert_toList (m : Std.ExtTreeMap α β) :
    m.toList.foldl (fun m c => m.insert c.1 c.2) ∅ = m := by
  have hunique : ∀ c ∈ m.toList, ∀ d ∈ m.toList, c.1 = d.1 → c.2 = d.2 := by
    rintro ⟨k, v⟩ hv ⟨_, w⟩ hw rfl
    rw [Std.ExtTreeMap.mem_toList_iff_getElem?_eq_some] at hv hw
    exact Option.some.inj (hv.symm.trans hw)
  refine Std.ExtTreeMap.ext_getElem? fun k => Option.ext fun v => ?_
  rw [getElem?_foldl_insert_of_unique hunique, Std.ExtTreeMap.mem_toList_iff_getElem?_eq_some]

end

@[simp] theorem mem_ofTexts {ts : List Text} {t : Text} : t ∈ TextSet.ofTexts ts ↔ t ∈ ts := by
  rw [TextSet.ofTexts, Std.ExtTreeSet.mem_ofList, List.contains_iff_mem]

/-- The texts of a set, in order, make up the set. -/
theorem ofTexts_toList (s : TextSet) : TextSet.ofTexts s.toList = s := by
  refine Std.ExtTreeSet.ext_mem fun t => ?_
  rw [mem_ofTexts, Std.ExtTreeSet.mem_toList]

theorem insertMany_empty_toList (s : TextSet) :
    (∅ : TextSet).insertMany s.toList = s := by
  rw [← Std.ExtTreeSet.ofList_eq_insertMany_empty]
  exact ofTexts_toList s

theorem forall_mem_insert {s : TextSet} {t : Text} {p : Text → Prop} :
    (∀ u ∈ s.insert t, p u) ↔ p t ∧ ∀ u ∈ s, p u := by
  simp only [Std.ExtTreeSet.mem_insert, Std.LawfulEqCmp.compare_eq_iff_eq, @eq_comm _ t,
    forall_eq_or_imp]

/-- The keys of the entries that pass a test. -/
theorem mem_keys_filter {β : Type} {m : TextMap β} {p : Text → β → Bool} {k : Text} :
    k ∈ TextSet.ofTexts (m.filter p).keys ↔ ∃ v, m[k]? = some v ∧ p k v = true := by
  rw [mem_ofTexts, Std.ExtTreeMap.mem_keys, mem_iff_exists]
  simp only [Std.ExtTreeMap.getElem?_filter', Option.filter_eq_some_iff]

theorem nodup_toList {α : Type} [Ord α] [Std.TransOrd α] [Std.LawfulEqOrd α]
    {t : Std.ExtTreeSet α} : t.toList.Nodup :=
  Std.ExtTreeSet.distinct_toList.imp fun hne he => hne (Std.LawfulEqCmp.compare_eq_iff_eq.2 he)

/-- A set of texts is a list of its own order. -/
theorem toList_ofTexts_keys {β : Type} (m : TextMap β) :
    (TextSet.ofTexts m.keys).toList = m.keys := by
  refine List.Perm.eq_of_pairwise (fun x y _ _ hxy hyx => ?_)
    Std.ExtTreeSet.ordered_toList Std.ExtTreeMap.ordered_keys ?_
  · rw [Std.OrientedOrd.eq_swap, hyx] at hxy
    cases hxy
  · rw [List.perm_ext_iff_of_nodup nodup_toList Std.ExtTreeMap.nodup_keys]
    intro x
    rw [Std.ExtTreeSet.mem_toList, mem_ofTexts]

/-! ## Lists of disjoint lists -/

section
variable {α : Type} {l : List (List α)}

/-- The member `u` stands in list `i`. -/
def IsAt (l : List (List α)) (i : Nat) (u : α) : Prop := ∃ us, l[i]? = some us ∧ u ∈ us

/-- No member stands in two of the lists. -/
def Apart (l : List (List α)) : Prop := ∀ i j u, IsAt l i u → IsAt l j u → i = j

theorem IsAt.lt_length {i : Nat} {u : α} (h : IsAt l i u) : i < l.length := by
  obtain ⟨us, hi, -⟩ := h
  exact (List.getElem?_eq_some_iff.1 hi).1

theorem exists_isAt {u : α} : (∃ i, IsAt l i u) ↔ ∃ us ∈ l, u ∈ us := by
  constructor
  · rintro ⟨i, us, hi, hu⟩
    exact ⟨us, List.mem_of_getElem? hi, hu⟩
  · rintro ⟨us, hus, hu⟩
    obtain ⟨i, hi⟩ := List.mem_iff_getElem?.1 hus
    exact ⟨i, us, hi, hu⟩

theorem apart_of_pairwise (h : l.Pairwise fun us vs => ∀ u ∈ us, u ∉ vs) : Apart l := by
  rintro i j u ⟨us, hi, hu⟩ ⟨vs, hj, hv⟩
  obtain ⟨hil, rfl⟩ := List.getElem?_eq_some_iff.1 hi
  obtain ⟨hjl, rfl⟩ := List.getElem?_eq_some_iff.1 hj
  have hp := List.pairwise_iff_getElem.1 h
  rcases Nat.lt_trichotomy i j with hlt | rfl | hlt
  · exact absurd hv (hp i j hil hjl hlt u hu)
  · rfl
  · exact absurd hu (hp j i hjl hil hlt u hv)

end

end Rebuild
