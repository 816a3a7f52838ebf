/-!
# Arguments of a command

`Arguments.scan` sorts the words of a command line into options, operands and a command that takes
the rest, by the rules of a `Grammar`.  An option is `--name value`, `--name=value`, `-n value`,
`-n=value` or `-nvalue`; flags are options without a value, and short ones may share a hyphen.
After `--` every word is an operand.  A word that begins with a hyphen is a value only where the
grammar says so.
-/

namespace DesignTokens

/-- Which words that begin with a hyphen an argument takes as its value. -/
inductive Hyphens where
  | refused
  /-- Negative numbers alone. -/
  | numbers
  | any
deriving DecidableEq, Repr

/-- An option that a command knows. -/
structure OptionRule where
  long : String
  short : Option Char := none
  /-- Without a value it is a flag. -/
  takesValue : Bool := true
  hyphens : Hyphens := .refused
  /-- Whether it may be given more than once. -/
  repeats : Bool := false
  /-- Whether the words after it are not looked at. -/
  stops : Bool := false

/-- What a command takes. -/
structure Grammar where
  options : List OptionRule := []
  /-- One entry for each operand, in order. -/
  operands : List Hyphens := []
  commands : List String := []

/-- The sorted words of a command line. -/
structure Arguments where
  /-- The options with their values, in order; the value of a flag is empty. -/
  options : List (String × String) := []
  operands : List String := []
  /-- A command and the words after it. -/
  command : Option (String × List String) := none

namespace Arguments

/-! ### Negative numbers -/

/-- Whether characters are digits with at most one `.`, before the `e`, and at most one `e`, neither
of them first. -/
def isNumberTail (seenPoint seenMark : Bool) : List Char → Bool
  | [] => true
  | c :: cs =>
    if c.isDigit then isNumberTail seenPoint seenMark cs
    else if c = '.' then !seenPoint && !seenMark && isNumberTail true seenMark cs
    else if c = 'e' then !seenMark && !cs.isEmpty && isNumberTail seenPoint true cs
    else false

/-- Whether what follows a hyphen looks like a number. -/
def isNumber : List Char → Bool
  | [] => false
  | c :: cs => c.isDigit && isNumberTail false false cs

/-! ### Single words -/

/-- What is known while words are sorted. -/
structure State where
  sorted : Arguments := {}
  /-- An option that waits for its value. -/
  pending : Option OptionRule := none
  /-- Whether the words after this are not looked at. -/
  stopped : Bool := false

/-- Whether the option that waits takes words of a kind. -/
def State.pendingTakes (state : State) (kind : Hyphens) : Bool :=
  match state.pending with
  | some rule => rule.hyphens == kind
  | none => false

/-- Whether the next operand may be a negative number. -/
def State.operandTakesNumber (grammar : Grammar) (state : State) : Bool :=
  grammar.operands[state.sorted.operands.length]? == some .numbers

/-- Whether a word is a value here, and not an option or `--`. -/
def State.isValue (grammar : Grammar) (state : State) (word : List Char) : Bool :=
  match word with
  | '-' :: '-' :: _ => state.pendingTakes .any
  | '-' :: c :: cs =>
    state.pendingTakes .any
      || (isNumber (c :: cs) && (state.pendingTakes .numbers || state.operandTakesNumber grammar))
  | _ => true

/-- Records an option with its value, unless it was given before and may not be repeated. -/
def State.record (state : State) (rule : OptionRule) (value : String) : Option State :=
  if !rule.repeats && state.sorted.options.any (·.1 == rule.long) then none
  else
    some
      { sorted := { state.sorted with options := state.sorted.options ++ [(rule.long, value)] }
        stopped := rule.stops }

/-- Takes a word as the value of the option that waits, or else as an operand. -/
def State.takeValue (grammar : Grammar) (state : State) (word : String) : Option State :=
  match state.pending with
  | some rule => state.record rule word
  | none =>
    if state.sorted.operands.length < grammar.operands.length then
      some
        { state with
          sorted := { state.sorted with operands := state.sorted.operands ++ [word] } }
    else none

/-- Takes a long option without its hyphens. -/
def State.takeLong (grammar : Grammar) (state : State) (word : List Char) : Option State := do
  let name := String.ofList (word.takeWhile (· != '='))
  let rule ← grammar.options.find? (·.long == name)
  match word.dropWhile (· != '=') with
  | [] => if rule.takesValue then some { state with pending := some rule } else state.record rule ""
  | _ :: value => if rule.takesValue then state.record rule (String.ofList value) else none

/-- Takes short options without their hyphen: flags, and at the end an option with its value. -/
def State.takeShort (grammar : Grammar) (state : State) : List Char → Option State
  | [] => some state
  | c :: cs =>
    match grammar.options.find? (·.short == some c) with
    | none => none
    | some rule =>
      if !rule.takesValue then
        match state.record rule "" with
        | none => none
        | some state => if state.stopped then some state else takeShort grammar state cs
      else
        match cs with
        | [] => some { state with pending := some rule }
        | '=' :: value => state.record rule (String.ofList value)
        | value => state.record rule (String.ofList value)

/-- Takes a word that is an option. -/
def State.takeOption (grammar : Grammar) (state : State) (word : List Char) : Option State :=
  if state.pending.isSome then none
  else
    match word with
    | '-' :: '-' :: name => state.takeLong grammar name
    | _ :: letters => state.takeShort grammar letters
    | [] => none

/-! ### All words -/

/-- Takes the words after `--`. -/
def State.takeOperands (grammar : Grammar) (state : State) (words : List String) :
    Option Arguments :=
  let operands := state.sorted.operands ++ words
  if state.pending.isNone && operands.length ≤ grammar.operands.length then
    some { state.sorted with operands }
  else none

/-- Takes a word as a value or as an option. -/
def State.take (grammar : Grammar) (state : State) (word : String) : Option State :=
  if state.isValue grammar word.toList then state.takeValue grammar word
  else state.takeOption grammar word.toList

/-- Sorts the words that are left. -/
def State.finish (grammar : Grammar) (state : State) : List String → Option Arguments
  | [] => if state.pending.isSome then none else some state.sorted
  | word :: words =>
    if state.pending.isNone && grammar.commands.contains word then
      some { state.sorted with command := some (word, words) }
    else if word == "--" && !state.isValue grammar word.toList then state.takeOperands grammar words
    else
      match state.take grammar word with
      | none => none
      | some state => if state.stopped then some state.sorted else finish grammar state words

/-- Sorts the words of a command line; none if they do not follow the grammar. -/
def scan (grammar : Grammar) (words : List String) : Option Arguments :=
  State.finish grammar {} words

/-! ### Values -/

/-- Whether a flag is given. -/
def has (arguments : Arguments) (name : String) : Bool :=
  arguments.options.any (·.1 == name)

/-- The values of an option, in order. -/
def values (arguments : Arguments) (name : String) : List String :=
  (arguments.options.filter (·.1 == name)).map Prod.snd

/-- The value of an option that may be left out; none only if it is there and cannot be read. -/
def optional {α : Type} (arguments : Arguments) (name : String) (read : String → Option α) :
    Option (Option α) :=
  match arguments.values name with
  | [] => some none
  | value :: _ => (read value).map some

end Arguments

end DesignTokens
