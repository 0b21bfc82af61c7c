/-
  Actions: effects on a target, put together from smaller ones.

  An action changes a target of type `T` and may leave something in a journal of type `J`.
  There may also be no action at all (`missing`); running that is a fault, which is why
  `Action.execute` may have no result.

  * `composite`, `filter` and `transformBefore` build larger actions; they leave out what
    does nothing where they can;
  * `Action.sift` is what becomes of something behind an action that may be left out;
  * `ActionExpr` is the expression of a built action: `build` makes the action and
    `meaning` says in plain words what it is to do.
-/

namespace Rebuild

/-- An effect on a target. -/
inductive Action (J T : Type) where
  /-- There is none. -/
  | missing
  /-- The one that does nothing. -/
  | nothing
  /-- Any other; no result if a missing action was to be run. -/
  | run (effect : J → T → Option (J × T))

namespace Action

variable {J T U : Type}

/-- Runs an action. -/
def execute (a : Action J T) (j : J) (t : T) : Option (J × T) :=
  match a with
  | missing => none
  | nothing => some (j, t)
  | run effect => effect j t

/-- The action is known to do nothing. -/
def isNoOp : Action J T → Bool
  | missing | nothing => true
  | run _ => false

/-- What the action makes of a target.  One that is known to do nothing is not run, so it may be
    missing. -/
def sift (a : Action J T) (j : J) (t : T) : Option (J × T) :=
  if a.isNoOp then some (j, t) else a.execute j t

/-- Where nothing comes of running an action, leaving it out makes no difference. -/
theorem getD_sift (a : Action J T) (j : J) (t : T) :
    (a.sift j t).getD (j, t) = (a.execute j t).getD (j, t) := by
  cases a <;> rfl

/-- The action of a function. -/
def of (f : J → T → J × T) : Action J T := run fun j t => some (f j t)

/-- Runs actions in order. -/
def executeAll : List (Action J T) → J → T → Option (J × T)
  | [], j, t => some (j, t)
  | a :: as, j, t => (a.execute j t).bind fun (j, t) => executeAll as j t

/-- The actions in order, without those known to do nothing; a single one stays as it
    is. -/
def composite (as : List (Action J T)) : Action J T :=
  match as.filter (!·.isNoOp) with
  | [] => nothing
  | [a] => a
  | live => run (executeAll live)

/-- The action where the predicate holds.  The predicate may look at the journal. -/
def filter (a : Action J T) (p : J → T → Bool) : Action J T :=
  if a.isNoOp then nothing else run fun j t => if p j t then a.execute j t else some (j, t)

/-- The action on what the conversion makes of the target.  The target stays as the conversion
    leaves it. -/
def transformBefore (a : Action J U) (convert : J → T → U × J × T) : Action J T :=
  run fun j t =>
    let (u, j, t) := convert j t
    (a.execute j u).map fun (j, _) => (j, t)

end Action

/-! ## Expressions -/

/-- How an action is put together. -/
inductive ActionExpr (J : Type) : Type → Type 1 where
  | missing {T : Type} : ActionExpr J T
  | nothing {T : Type} : ActionExpr J T
  | apply {T : Type} (f : J → T → J × T) : ActionExpr J T
  | composite {T : Type} {n : Nat} (parts : Fin n → ActionExpr J T) : ActionExpr J T
  | filter {T : Type} (part : ActionExpr J T) (p : J → T → Bool) : ActionExpr J T
  | transform {T U : Type} (part : ActionExpr J U) (convert : J → T → U × J × T) : ActionExpr J T

namespace ActionExpr

variable {J T : Type}

instance : Inhabited (ActionExpr J T) := ⟨nothing⟩

/-- The action of an expression. -/
def build {T : Type} : ActionExpr J T → Action J T
  | missing => .missing
  | nothing => .nothing
  | apply f => .of f
  | composite parts => .composite (List.ofFn fun i => (parts i).build)
  | filter part p => .filter part.build p
  | transform part convert => .transformBefore part.build convert

/-- Does some things one after the other. -/
def inOrder : List (J → T → J × T) → J → T → J × T
  | [], j, t => (j, t)
  | f :: fs, j, t =>
    let (j, t) := f j t
    inOrder fs j t

/-- What an expression is to do. -/
def meaning {T : Type} : ActionExpr J T → J → T → J × T
  | missing, j, t | nothing, j, t => (j, t)
  | apply f, j, t => f j t
  | composite parts, j, t => inOrder (List.ofFn fun i => (parts i).meaning) j t
  | filter part p, j, t => if p j t then part.meaning j t else (j, t)
  | transform part convert, j, t =>
    let (u, j, t) := convert j t
    ((part.meaning j u).1, t)

end ActionExpr

end Rebuild
