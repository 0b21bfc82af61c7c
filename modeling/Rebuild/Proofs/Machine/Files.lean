/-
  What holds wherever a script is interrupted, and what holds at its end.

  * `FileScript.Ensures` states both, and there is one rule for each operation;
  * `Ensures.bind`: one script after the other;
  * `Kept`: what a path had is still there, or a directory that was made.
-/
import Mathlib.Tactic.Common
import Rebuild.Machine.Files

namespace Rebuild

/-! ## What is kept -/

namespace Files

variable {f f' : Files} {path p : Text} {r : FileReading}

@[simp] theorem set_self : f.set path r path = r := if_pos rfl

theorem set_of_ne (h : p ≠ path) : f.set path r p = f p := if_neg h

theorem remove_self : f.remove path path = .absent := if_pos (Or.inl rfl)

theorem remove_of_not_through (hne : p ≠ path) (h : ¬ Path.Through p path) :
    f.remove path p = f p := by
  apply if_neg
  rintro (hp | ⟨-, ht⟩)
  · exact hne hp
  · exact h ht

/-- Nothing leads through a file. -/
theorem remove_of_content {content : Text} (h : f path = .content content) (hne : p ≠ path) :
    f.remove path p = f p := by
  apply if_neg
  rintro (hp | ⟨hb, -⟩)
  · exact hne hp
  · rw [h] at hb
    cases hb

theorem remove_eq_set {content : Text} (h : f path = .content content) :
    f.remove path = f.set path .absent := by
  funext p
  by_cases hp : p = path
  · rw [hp, remove_self, set_self]
  · rw [remove_of_content h hp, set_of_ne hp]

/-- Where nothing was, only removing a directory takes something away. -/
theorem remove_eq_or : f.remove path p = f p ∨ f.remove path p = .absent := by
  unfold remove
  split
  · exact Or.inr rfl
  · exact Or.inl rfl

theorem Paved.refl {dir : Text} : f.Paved f dir := fun _ => Or.inl rfl

theorem Paved.trans {f'' : Files} {dir : Text} (h : f.Paved f' dir) (h' : f'.Paved f'' dir) :
    f.Paved f'' dir := by
  intro p
  rcases h p with heq | ⟨habsent, hbroken, hway⟩
  · rw [← heq]
    exact h' p
  · rcases h' p with heq | ⟨habsent', -, -⟩
    · exact Or.inr ⟨habsent, heq.trans hbroken, hway⟩
    · rw [hbroken] at habsent'
      cases habsent'

theorem Paved.set {dir : Text} (habsent : f path = .absent) (hway : Path.OnWay path dir) :
    f.Paved (f.set path .broken) dir := by
  intro p
  by_cases hp : p = path
  · rw [hp]
    exact Or.inr ⟨habsent, set_self, hway⟩
  · exact Or.inl (set_of_ne hp)

end Files

/-- What was read is read again, or a directory was made where nothing was; `way` says that this
    is possible. -/
def FileReading.Kept (way : Prop) (r r' : FileReading) : Prop :=
  r' = r ∨ r = .absent ∧ r' = .broken ∧ way

namespace FileReading.Kept

variable {way way' : Prop} {r r' r'' : FileReading}

theorem refl : Kept way r r := Or.inl rfl

theorem mono (hw : way → way') (h : Kept way r r') : Kept way' r r' := by
  rcases h with h | ⟨h, h', hway⟩
  · exact Or.inl h
  · exact Or.inr ⟨h, h', hw hway⟩

theorem trans (h : Kept way r r') (h' : Kept way r' r'') : Kept way r r'' := by
  rcases h with rfl | ⟨h, rfl, hway⟩
  · exact h'
  · rcases h' with rfl | ⟨h', -⟩
    · exact Or.inr ⟨h, rfl, hway⟩
    · cases h'

end FileReading.Kept

/-! ## Runs of scripts -/

namespace FileScript

variable {α β : Type} {f f' : Files} {s : FileScript α} {inv : Files → Prop}
  {post : α → Files → Prop}

@[simp] theorem ends_done_iff {a b : α} : Ends f (.done b) a f' ↔ a = b ∧ f' = f := by
  constructor
  · intro h
    cases h with
    | here => exact ⟨rfl, rfl⟩
    | next hs => cases hs
  · rintro ⟨rfl, rfl⟩
    exact .here

/-- A read has one outcome, and changes nothing. -/
@[simp] theorem ends_read_iff {a : α} {path : Text} {next : FileReading → FileScript α} :
    Ends f (.read path next) a f' ↔ Ends f (next (f path)) a f' := by
  constructor
  · intro h
    cases h with
    | next hs h =>
      cases hs
      exact h
  · intro h
    exact .next .read h

/-- Wherever the script is interrupted, the files are as `inv` says, and at its end they and its
    value are as `post` says. -/
def Ensures (f : Files) (s : FileScript α) (inv : Files → Prop) (post : α → Files → Prop) : Prop :=
  ∀ f' s', Reaches f s f' s' → inv f' ∧ ∀ a, s' = .done a → post a f'

namespace Ensures

theorem here (h : Ensures f s inv post) : inv f := (h f s .here).1

theorem of_done {a : α} (h : Ensures f (.done a) inv post) : post a f := (h f _ .here).2 a rfl

/-- What a script ensures, what is left of it after a step ensures too. -/
theorem step {s' : FileScript α} (h : Ensures f s inv post) (hs : Step f s f' s') :
    Ensures f' s' inv post :=
  fun _ _ hr => h _ _ (.next hs hr)

/-- A script that is not at its end ensures what is left of it ensures after any first step. -/
theorem of_step (hinv : inv f) (hs : ∀ a, s ≠ .done a)
    (h : ∀ f' s', Step f s f' s' → Ensures f' s' inv post) : Ensures f s inv post := by
  intro f' s' hr
  cases hr with
  | here => exact ⟨hinv, fun a ha => absurd ha (hs a)⟩
  | next hstep hrest => exact h _ _ hstep _ _ hrest

theorem done {a : α} (hinv : inv f) (hpost : post a f) : Ensures f (.done a) inv post := by
  intro f' s' hr
  cases hr with
  | here =>
    refine ⟨hinv, fun b hb => ?_⟩
    cases hb
    exact hpost
  | next hstep => cases hstep

section

variable {path content source target : Text}

theorem makeDirectories {next : Option FileFault → FileScript α} (hinv : inv f)
    (h : ∀ r f', f.Paved f' path → Ensures f' (next r) inv post) :
    Ensures f (.makeDirectories path next) inv post := by
  refine of_step hinv (fun _ => nofun) fun f' s' hs => ?_
  cases hs with
  | directories r hpaved => exact h r f' hpaved

theorem openEmpty {next : Bool → FileScript α} (hinv : inv f)
    (hopened : Ensures (f.set path (.content [])) (next true) inv post)
    (hnot : Ensures f (next false) inv post) : Ensures f (.openEmpty path next) inv post := by
  refine of_step hinv (fun _ => nofun) fun f' s' hs => ?_
  cases hs with
  | opened => exact hopened
  | notOpened => exact hnot

theorem write {next : Bool → FileScript α} (hinv : inv f)
    (hwritten : Ensures (f.set path (.content content)) (next true) inv post)
    (hcut : ∀ n, Ensures (f.set path (.content (content.take n))) (next false) inv post)
    (hnot : Ensures f (next false) inv post) : Ensures f (.write path content next) inv post := by
  refine of_step hinv (fun _ => nofun) fun f' s' hs => ?_
  cases hs with
  | written => exact hwritten
  | cutShort n => exact hcut n
  | notWritten => exact hnot

theorem rename {next : Option FileFault → FileScript α} (hinv : inv f)
    (hrenamed : Ensures ((f.set source .absent).set target (f source)) (next none) inv post)
    (hnot : ∀ fault, Ensures f (next (some fault)) inv post) :
    Ensures f (.rename source target next) inv post := by
  refine of_step hinv (fun _ => nofun) fun f' s' hs => ?_
  cases hs with
  | renamed => exact hrenamed
  | notRenamed fault => exact hnot fault

theorem remove {next : FileScript α} (hinv : inv f) (hremoved : Ensures (f.remove path) next inv post)
    (hnot : Ensures f next inv post) : Ensures f (.remove path next) inv post := by
  refine of_step hinv (fun _ => nofun) fun f' s' hs => ?_
  cases hs with
  | removed => exact hremoved
  | notRemoved => exact hnot

theorem read {next : FileReading → FileScript α} (hinv : inv f)
    (h : Ensures f (next (f path)) inv post) : Ensures f (.read path next) inv post := by
  refine of_step hinv (fun _ => nofun) fun f' s' hs => ?_
  cases hs with
  | read => exact h

end

/-- **One script after the other.** -/
theorem bind {k : α → FileScript β} {post : β → Files → Prop}
    (h : Ensures f s inv fun a f' => Ensures f' (k a) inv post) :
    Ensures f (s.bind k) inv post := by
  induction s generalizing f with
  | done a => exact h.of_done
  | makeDirectories path next ih =>
    exact .makeDirectories h.here fun r f' hpaved => ih r (h.step (.directories r hpaved))
  | openEmpty path next ih =>
    exact .openEmpty h.here (ih true (h.step .opened)) (ih false (h.step .notOpened))
  | write path content next ih =>
    exact .write h.here (ih true (h.step .written)) (fun n => ih false (h.step (.cutShort n)))
      (ih false (h.step .notWritten))
  | rename source target next ih =>
    exact .rename h.here (ih none (h.step .renamed)) fun fault =>
      ih (some fault) (h.step (.notRenamed fault))
  | remove path next ih => exact .remove h.here (ih (h.step .removed)) (ih (h.step .notRemoved))
  | read path next ih => exact .read h.here (ih (f path) (h.step .read))

/-- The same of less. -/
theorem mono {inv' : Files → Prop} {post' : α → Files → Prop} (h : Ensures f s inv post)
    (hinv : ∀ f', inv f' → inv' f') (hpost : ∀ a f', post a f' → post' a f') :
    Ensures f s inv' post' := by
  intro f' s' hr
  obtain ⟨hi, hp⟩ := h f' s' hr
  exact ⟨hinv f' hi, fun a ha => hpost a f' (hp a ha)⟩

end Ensures

end FileScript

end Rebuild
