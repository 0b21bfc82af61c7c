/-
  Reading shell scripts.

  Each reader takes the text that is left and returns what it read together with the rest;
  it fails on a syntax error.  The number in front is a bound on the depth of the readers.
-/
import Rebuild.Machine.Shell.Syntax

namespace Rebuild.Shell

/-- The quote around a command whose output is wanted. -/
def backquote : UInt8 := 0x60

/-- The first byte of a text is this one. -/
def begins (c : Char) (t : Text) : Bool := t.head? == some (Text.byte c)

/-- Skips blanks, comments and lines that go on. -/
def skipBlanks : Nat → Text → Text
  | 0, t => t
  | n + 1, t =>
    let t := t.dropWhile isBlank
    if begins '#' t then t.dropWhile (· ≠ newline)
    else if ("\\\n" : Text).isPrefixOf t then skipBlanks n (t.drop 2)
    else t

/-- Skips blanks, comments and ends of lines. -/
def skipLines : Nat → Text → Text
  | 0, t => t
  | n + 1, t =>
    let t := skipBlanks n t
    if begins '\n' t then skipLines n (t.drop 1) else t

/-- The unquoted word in front of a text, and the rest. -/
def bareWord (t : Text) : Text × Text :=
  (t.takeWhile fun b => !endsWord b, t.dropWhile fun b => !endsWord b)

/-- The words that end a list of commands. -/
def closers : List Text := ["then", "else", "elif", "fi", "do", "done", "esac", "\x7d"]

/-- The words that a command begins with that is not simple. -/
def keyword? (t : Text) : Option Text :=
  let (word, _) := bareWord t
  if (["if", "while", "until", "for", "case", "\x7b", "!"] : List Text).contains word then some word
  else none

/-- No command begins here. -/
def atEnd (t : Text) : Bool :=
  t == [] || begins ')' t || begins ';' t || closers.contains (bareWord t).1

/-- The rest after a word that has to come next. -/
def expect (n : Nat) (word t : Text) : Option Text :=
  let t := skipLines n t
  if (bareWord t).1 = word then some (bareWord t).2 else none

/-- What stands between quotes that take everything literally, and the rest. -/
def singleQuoted (t : Text) : Option (Text × Text) :=
  match t.cut (Text.byte '\'') with
  | (body, some rest) => some (body, rest)
  | (_, none) => none

/-- The text up to the parentheses that close an arithmetic expression, and the rest. -/
def upToClose : Nat → Text → Text → Option (Text × Text)
  | _, _, [] => none
  | depth, acc, b :: t =>
    if b = Text.byte '(' then upToClose (depth + 1) (b :: acc) t
    else if b = Text.byte ')' then
      match depth with
      | 0 => if begins ')' t then some (acc.reverse, t.drop 1) else none
      | depth + 1 => upToClose depth (b :: acc) t
    else upToClose depth (b :: acc) t

/-- What follows the empty brackets that come next. -/
def emptyBrackets? (n : Nat) (t : Text) : Option Text :=
  let t := skipBlanks n t
  if begins '(' t then
    let t := skipBlanks n (t.drop 1)
    if begins ')' t then some (t.drop 1) else none
  else none

/-- What the marks behind the name of a variable ask for, and the rest. -/
def changeOf (t : Text) : Change × Text :=
  let orEmpty := begins ':' t
  let u := if orEmpty then t.drop 1 else t
  if begins '-' u then (.otherwise orEmpty, u.drop 1)
  else if begins '=' u then (.assign orEmpty, u.drop 1)
  else if begins '?' u then (.demand orEmpty, u.drop 1)
  else if begins '+' u then (.instead orEmpty, u.drop 1)
  else if ("##" : Text).isPrefixOf t then (.dropStart true, t.drop 2)
  else if begins '#' t then (.dropStart false, t.drop 1)
  else if ("%%" : Text).isPrefixOf t then (.dropEnd true, t.drop 2)
  else if begins '%' t then (.dropEnd false, t.drop 1)
  else (.keep, t)

/-- The name of a variable in front of a text, and the rest. -/
def variableName (t : Text) : Text × Text :=
  match t with
  | [] => ([], [])
  | b :: rest =>
    if startsName b then (t.takeWhile inName, t.dropWhile inName)
    else if isDigit b || ("@*#?$!-" : Text).contains b then ([b], rest)
    else ([], t)

/-- Where the pieces of a word end. -/
inductive Ending
  /-- Where words end. -/
  | word
  /-- At a double quote. -/
  | quote
  /-- At a closing brace. -/
  | brace
  /-- At the end of the text. -/
  | text
deriving DecidableEq

/-- The pieces end in front of this text. -/
def Ending.here (e : Ending) (t : Text) : Bool :=
  match e with
  | word => t.head?.all endsWord
  | quote => begins '"' t
  | brace => begins '\x7d' t
  | text => t == []

mutual

/-- Reads the pieces of a word up to its end; `inQuotes` holds within double quotes. -/
def pieces (n : Nat) (ending : Ending) (inQuotes : Bool) (t : Text) : Option (Word × Text) :=
  match n with
  | 0 => none
  | n + 1 =>
    if ending.here t then some ([], t)
    else match t with
    | [] => none
    | b :: rest => do
      let (p, rest) ← piece n inQuotes b rest
      let (ps, rest) ← pieces n ending inQuotes rest
      return (p ++ ps, rest)

/-- Reads one piece, of which the first byte is given. -/
def piece (n : Nat) (inQuotes : Bool) (b : UInt8) (rest : Text) : Option (Word × Text) :=
  match n with
  | 0 => none
  | n + 1 =>
    if b = Text.byte '\\' then
      match rest with
      | [] => some ([.quoted [b]], [])
      | c :: rest =>
        if c = newline then some ([], rest)
        else if inQuotes && !("$\x60\"\\" : Text).contains c then some ([.quoted [b, c]], rest)
        else some ([.quoted [c]], rest)
    else if b = Text.byte '\'' ∧ !inQuotes then do
      let (body, rest) ← singleQuoted rest
      return ([.quoted body], rest)
    else if b = Text.byte '"' ∧ !inQuotes then do
      let (ps, rest) ← pieces n .quote true rest
      return (if ps.isEmpty then [.quoted []] else ps, rest.drop 1)
    else if b = backquote then
      match rest.cut b with
      | (body, some rest) => do
        let (c, _) ← list n 0 body
        return ([.output c inQuotes], rest)
      | (_, none) => none
    else if b = Text.byte '$' then dollar n inQuotes rest
    else some ([if inQuotes then .quoted [b] else .plain [b]], rest)

/-- Reads what follows a dollar sign. -/
def dollar (n : Nat) (inQuotes : Bool) (t : Text) : Option (Word × Text) :=
  match n with
  | 0 => none
  | n + 1 =>
    if ("((" : Text).isPrefixOf t then do
      let (body, rest) ← upToClose 0 [] (t.drop 2)
      let (ps, _) ← pieces n .text true body
      return ([.number ps inQuotes], rest)
    else if begins '(' t then do
      let (c, rest) ← list n 0 (t.drop 1)
      let rest := skipLines n rest
      if begins ')' rest then return ([.output c inQuotes], rest.drop 1) else none
    else if begins '\x7b' t then
      let inner := t.drop 1
      let (lengthName, afterLength) := variableName (inner.drop 1)
      if begins '#' inner ∧ lengthName ≠ [] ∧ begins '\x7d' afterLength then
        some ([.variable lengthName .length [] inQuotes], afterLength.drop 1)
      else do
        let (name, rest) :=
          if inner.head?.any isDigit then (inner.takeWhile isDigit, inner.dropWhile isDigit)
          else variableName inner
        if name = [] then none
        let (change, rest) := changeOf rest
        let (word, rest) ← pieces n .brace (inQuotes && !change.takesPattern) rest
        return ([.variable name change word inQuotes], rest.drop 1)
    else
      let (name, rest) := variableName t
      if name = [] then some ([.quoted "$"], t)
      else some ([.variable name .keep [] inQuotes], rest)

/-- Reads redirections as long as there are some. -/
def redirects (n : Nat) (t : Text) : Option (List Redirect × Text) :=
  match n with
  | 0 => none
  | n + 1 => do
    let t := skipBlanks n t
    let digits := t.takeWhile isDigit
    let rest := t.drop digits.length
    let reading := begins '<' rest
    if !reading && !begins '>' rest then return ([], t)
    let fd := if digits ≠ [] then decimal digits else if reading then 0 else 1
    let rest := rest.drop 1
    let (direction, rest) :=
      if begins '&' rest then (Direction.duplicate, rest.drop 1)
      else if !reading && begins '>' rest then (.append, rest.drop 1)
      else if !reading && begins '|' rest then (.output, rest.drop 1)
      else (if reading then .input else .output, rest)
    let (target, rest) ← pieces n .word false (skipBlanks n rest)
    if target.isEmpty then none
    let (more, rest) ← redirects n rest
    return (.mk fd direction target :: more, rest)

/-- Reads the words of a list up to the end of the command. -/
def wordList (n : Nat) (t : Text) : Option (List Word × Text) :=
  match n with
  | 0 => none
  | n + 1 => do
    let t := skipBlanks n t
    if t.head?.all endsWord then return ([], t)
    let (w, rest) ← pieces n .word false t
    let (ws, rest) ← wordList n rest
    return (w :: ws, rest)

/-- Reads the rest of a simple command. -/
def simple (n line : Nat) (assignments : List (Text × Word)) (words : List Word)
    (directions : List Redirect) (t : Text) : Option (Command × Text) :=
  match n with
  | 0 => none
  | n + 1 => do
    let (more, t) ← redirects n t
    let directions := directions ++ more
    let name := t.takeWhile inName
    let behind := t.drop name.length
    if t.head?.all endsWord then
      if assignments.isEmpty && words.isEmpty && directions.isEmpty then none
      else return (.simple line assignments words directions, t)
    else if let some rest := (if words.isEmpty ∧ assignments.isEmpty ∧ name ≠ [] then
        emptyBrackets? n behind else none) then
      let rest := skipLines n rest
      let (body, rest) ← command n (line + rest.count newline) rest
      return (.define name body, rest)
    else if words.isEmpty ∧ t.head?.any startsName ∧ begins '=' behind then
      let (value, rest) ← pieces n .word false (behind.drop 1)
      simple n line (assignments ++ [(name, value)]) words directions rest
    else
      let (w, rest) ← pieces n .word false t
      simple n line assignments (words ++ [w]) directions rest

/-- Reads the patterns of an arm. -/
def patterns (n : Nat) (t : Text) : Option (List Word × Text) :=
  match n with
  | 0 => none
  | n + 1 => do
    let (w, rest) ← pieces n .word false (skipBlanks n t)
    let rest := skipBlanks n rest
    if begins '|' rest then
      let (ws, rest) ← patterns n (rest.drop 1)
      return (w :: ws, rest)
    else if begins ')' rest then return ([w], rest.drop 1)
    else none

/-- Reads the arms of a choice. -/
def arms (n lines : Nat) (t : Text) : Option (List (List Word × Command) × Text) :=
  match n with
  | 0 => none
  | n + 1 => do
    let t := skipLines n t
    if (bareWord t).1 = "esac" then return ([], (bareWord t).2)
    let (ps, rest) ← patterns n (if begins '(' t then t.drop 1 else t)
    let (body, rest) ← list n lines rest
    let rest := skipLines n rest
    let rest := if (";;" : Text).isPrefixOf rest then rest.drop 2 else rest
    let (more, rest) ← arms n lines rest
    return ((ps, body) :: more, rest)

/-- Reads what follows the condition of a branch. -/
def branches (n lines : Nat) (t : Text) : Option (Command × Text) :=
  match n with
  | 0 => none
  | n + 1 => do
    let (condition, rest) ← list n lines t
    let rest ← expect n "then" rest
    let (body, rest) ← list n lines rest
    let rest := skipLines n rest
    let (word, behind) := bareWord rest
    if word = "elif" then
      let (other, rest) ← branches n lines behind
      return (.ifThen condition body other, rest)
    else if word = "else" then
      let (other, rest) ← list n lines behind
      let rest ← expect n "fi" rest
      return (.ifThen condition body other, rest)
    else if word = "fi" then return (.ifThen condition body .nothing, behind)
    else none

/-- Reads a body between `do` and `done`. -/
def doBody (n lines : Nat) (t : Text) : Option (Command × Text) :=
  match n with
  | 0 => none
  | n + 1 => do
    let rest ← expect n "do" t
    let (body, rest) ← list n lines rest
    let rest ← expect n "done" rest
    return (body, rest)

/-- Reads a command that begins with a keyword. -/
def compound (n lines : Nat) (word t : Text) : Option (Command × Text) :=
  match n with
  | 0 => none
  | n + 1 =>
    if word = "if" then branches n lines t
    else if word = "while" ∨ word = "until" then do
      let (condition, rest) ← list n lines t
      let (body, rest) ← doBody n lines rest
      return (.loop (word = "while") condition body, rest)
    else if word = "for" then do
      let (name, rest) := bareWord (skipBlanks n t)
      if name = [] then none
      let next := skipLines n rest
      if (bareWord next).1 = "in" then
        let (words, rest) ← wordList n (bareWord next).2
        let rest := if begins ';' rest then rest.drop 1 else rest
        let (body, rest) ← doBody n lines rest
        return (.forEach name (some words) body, rest)
      else
        let (body, rest) ← doBody n lines (if begins ';' next then next.drop 1 else next)
        return (.forEach name none body, rest)
    else if word = "case" then do
      let (subject, rest) ← pieces n .word false (skipBlanks n t)
      let rest ← expect n "in" rest
      let (as, rest) ← arms n lines rest
      return (.choose subject as, rest)
    else do
      let (body, rest) ← list n lines t
      let rest ← expect n "\x7d" rest
      return (body, rest)

/-- Reads a command with its redirections. -/
def command (n lines : Nat) (t : Text) : Option (Command × Text) :=
  match n with
  | 0 => none
  | n + 1 =>
    let redirect (c : Command) (rest : Text) : Option (Command × Text) := do
      let (rs, rest) ← redirects n rest
      return (if rs.isEmpty then c else .redirected c rs, rest)
    match keyword? t with
    | some word => do
      let (c, rest) ← compound n lines word (bareWord t).2
      redirect c rest
    | none =>
      if begins '(' t then do
        let (c, rest) ← list n lines (t.drop 1)
        let rest := skipLines n rest
        if begins ')' rest then redirect (.subshell c) (rest.drop 1) else none
      else simple n (lines - t.count newline) [] [] [] t

/-- Reads the commands of a pipeline. -/
def pipeParts (n lines : Nat) (t : Text) : Option (List Command × Text) :=
  match n with
  | 0 => none
  | n + 1 => do
    let (c, rest) ← command n lines (skipBlanks n t)
    let rest := skipBlanks n rest
    if begins '|' rest && !("||" : Text).isPrefixOf rest then
      let (cs, rest) ← pipeParts n lines (skipLines n (rest.drop 1))
      return (c :: cs, rest)
    else return ([c], rest)

/-- Reads a pipeline. -/
def pipeline (n lines : Nat) (t : Text) : Option (Command × Text) :=
  match n with
  | 0 => none
  | n + 1 => do
    let negated := (bareWord t).1 == ("!" : Text)
    let (cs, rest) ← pipeParts n lines (if negated then (bareWord t).2 else t)
    return match negated, cs with
      | false, [c] => (c, rest)
      | _, _ => (.pipeline negated cs, rest)

/-- Reads pipelines that depend on one another, of which the first was read. -/
def andOr (n lines : Nat) (first : Command) (t : Text) : Option (Command × Text) :=
  match n with
  | 0 => none
  | n + 1 => do
    let t := skipBlanks n t
    let both := ("&&" : Text).isPrefixOf t
    if both || ("||" : Text).isPrefixOf t then
      let (second, rest) ← pipeline n lines (skipLines n (t.drop 2))
      andOr n lines (if both then .andThen first second else .orElse first second) rest
    else return (first, t)

/-- Reads a list of commands up to what closes it. -/
def list (n lines : Nat) (t : Text) : Option (Command × Text) :=
  match n with
  | 0 => none
  | n + 1 => do
    let t := skipLines n t
    if atEnd t then return (.nothing, t)
    let (first, rest) ← pipeline n lines t
    let (c, rest) ← andOr n lines first rest
    let rest := skipBlanks n rest
    let single := begins '\n' rest || begins '&' rest ||
      (begins ';' rest && !(";;" : Text).isPrefixOf rest)
    let c := if begins '&' rest then .background c else c
    if single then
      let (more, rest) ← list n lines (rest.drop 1)
      return (match more with | .nothing => c | _ => .sequence c more, rest)
    else return (c, rest)

end

/-- The command that a script is; none if it has a syntax error. -/
def read? (script : Text) : Option Command := do
  let bound := 20 * script.length + 100
  let (c, rest) ← list bound (script.count newline + 1) script
  if rest = [] then return c else none

end Rebuild.Shell
