import Mustache.Command.Flag
import Mustache.Text.Integer

/-!
# Reading the command line

First each argument is classified by itself: `classify` knows long flags by any unambiguous
beginning and short flags with something attached.  Then the arguments are gone through from left
to right, and the flags take effect in that order.
-/

namespace Mustache

namespace Command

/-- What stands in one argument together with a flag. -/
structure Attached where
  value : Text
  /-- Does an equals sign stand before it? -/
  equals : Bool

/-- What an argument is by itself. -/
inductive Argument where
  | operand (text : Text)
  /-- A flag, spelled with two dashes or with one. -/
  | flag (flag : Flag) (long : Bool) (attached : Option Attached)
  /-- It looks like a flag, and there is none of that name. -/
  | unknown (text : Text)
  /-- Two dashes: operands only from here on. -/
  | separator

/-- Is the argument spelled like a negative number?  A line feed at its end does not count. -/
def looksNegative : Text → Bool
  | '-' :: rest =>
    let areDigits (s : Text) := s.all fun c => (Text.digitValue? c).isSome
    match (Text.dropEnding ['\n'] rest).splitOn '.' with
    | [whole] => !whole.isEmpty && areDigits whole
    | [whole, fraction] => areDigits whole && !fraction.isEmpty && areDigits fraction
    | _ => false
  | _ => false

/-- The flags that an argument may be short for, each with its spelling and what is attached. -/
def candidates (s : Text) : List (Text × Argument) :=
  let name := s.takeWhile (· ≠ '=')
  match s with
  | '-' :: '-' :: _ =>
    let attached := if '=' ∈ s then some ⟨s.drop (name.length + 1), true⟩ else none
    (Flag.spellings.filter fun entry => name.isPrefixOf entry.1).map fun entry =>
      (entry.1, .flag entry.2 true attached)
  | _ =>
    (Flag.spellings.filter fun entry => entry.1 = s.take 2).map fun entry =>
      (entry.1, .flag entry.2 false (some ⟨s.drop 2, false⟩))

/-- What an argument before the separator is. -/
def classify (s : Text) : Except UsageError Argument :=
  if s.head? ≠ some '-' ∨ s = ['-'] then .ok (.operand s)
  else
    let long := s.take 2 = ['-', '-']
    let name := s.takeWhile (· ≠ '=')
    match Flag.spellings.lookup s, Flag.spellings.lookup name with
    | some flag, _ => .ok (.flag flag long none)
    | none, some flag => .ok (.flag flag long (some ⟨s.drop (name.length + 1), true⟩))
    | none, none =>
      match candidates s with
      | [] => .ok (if looksNegative s ∨ ' ' ∈ s then .operand s else .unknown s)
      | [candidate] => .ok candidate.2
      | several => .error (.ambiguous s (several.map Prod.fst))

/-- What the arguments are, one by one. -/
def classifyAll : List Text → Except UsageError (List Argument)
  | [] => .ok []
  | s :: rest =>
    if s = ['-', '-'] then .ok (.separator :: rest.map .operand)
    else do
      let first ← classify s
      let later ← classifyAll rest
      return first :: later

/-! ### Flags joined in one argument -/

/-- The flags that stand in one argument. -/
structure Joined where
  /-- Those without a value, in order. -/
  plain : List Flag := []
  /-- The one with a value, which comes last; its value may still be owed. -/
  valued : Option (Flag × Option Text) := none
  /-- What is left and spells no flag. -/
  rest : Option Text := none

/-- The short flags behind `flag` in one argument; `flag` takes no value. -/
def joinShort (flag : Flag) : Text → Except UsageError Joined
  | [] => .ok { plain := [flag] }
  | c :: tail =>
    if c = '-' then .error (.ignoredValue flag (c :: tail))
    else
      match Flag.spellings.lookup ['-', c] with
      | none => .ok { plain := [flag], rest := some ('-' :: c :: tail) }
      | some next =>
        if next.takesValue then
          let value := if tail.head? = some '=' then tail.tail else tail
          .ok { plain := [flag], valued := some (next, if tail = [] then none else some value) }
        else if tail.head? = some '=' then .error (.ignoredValue next tail.tail)
        else (joinShort next tail).map fun j => { j with plain := flag :: j.plain }

/-- The flags of one argument. -/
def join (flag : Flag) (long : Bool) (attached : Option Attached) : Except UsageError Joined :=
  match attached with
  | none => .ok (if flag.takesValue then { valued := some (flag, none) } else { plain := [flag] })
  | some a =>
    if flag.takesValue then .ok { valued := some (flag, some a.value) }
    else if long ∨ a.equals ∨ a.value = [] then .error (.ignoredValue flag a.value)
    else joinShort flag a.value

/-! ### The settings of a command line -/

/-- The settings of a command line. -/
structure Options where
  template : Text
  data : Option Text := none
  dataFile : Option Text := none
  partialsFile : Option Text := none
  partialsDir : Option Text := none
  output : Option Text := none
  maxDepth : Option Int := none
  verbose : Bool := false

/-- Why no rendering follows on a command line. -/
inductive Refusal where
  /-- Help was asked for. -/
  | help
  | usage (error : UsageError)

/-- The settings so far, and the arguments that fit nowhere. -/
structure Draft where
  template : Option Text := none
  options : Options
  unrecognized : List Text := []

namespace Draft

/-- The draft after a flag without a value. -/
def apply (d : Draft) : Flag → Except Refusal Draft
  | .help => .error .help
  | .verbose => .ok { d with options := { d.options with verbose := true } }
  | _ => .ok d

/-- The draft after a flag with a value; an earlier value of the flag is forgotten. -/
def assign (d : Draft) (flag : Flag) (value : Text) : Except Refusal Draft :=
  let o := d.options
  match flag with
  | .data => .ok { d with options := { o with data := value } }
  | .dataFile => .ok { d with options := { o with dataFile := value } }
  | .partialsFile => .ok { d with options := { o with partialsFile := value } }
  | .partialsDir => .ok { d with options := { o with partialsDir := value } }
  | .output => .ok { d with options := { o with output := value } }
  | .maxDepth =>
    match Text.integer? value with
    | some n => .ok { d with options := { o with maxDepth := n } }
    | none => .error (.usage (.badInteger .maxDepth value))
  | .help | .verbose => .ok d

/-- The draft after an argument that fits nowhere. -/
def reject (d : Draft) (s : Text) : Draft := { d with unrecognized := d.unrecognized ++ [s] }

/-- The draft after the flags of one argument. -/
def applyAll (d : Draft) (joined : Joined) (value : Option (Flag × Text)) :
    Except Refusal Draft := do
  let d ← joined.plain.foldlM apply { d with unrecognized := d.unrecognized ++ joined.rest.toList }
  match value with
  | none => return d
  | some (flag, value) => d.assign flag value

/-- The draft after the first of the arguments, and those that it leaves: a flag may take the next
argument for its value.  The first operand is the template; the separator goes with it if it stands
right before or right behind it. -/
def step (d : Draft) : Argument → List Argument → Except Refusal (Draft × List Argument)
  | .unknown s, rest => .ok (d.reject s, rest)
  | .separator, rest =>
    match d.template, rest with
    | none, .operand s :: later => .ok ({ d with template := some s }, later)
    | _, _ => .ok (d.reject ['-', '-'], rest)
  | .operand s, rest =>
    match d.template, rest with
    | none, .separator :: later => .ok ({ d with template := some s }, later)
    | none, _ => .ok ({ d with template := some s }, rest)
    | some _, _ => .ok (d.reject s, rest)
  | .flag flag long attached, rest => do
    let joined ← (join flag long attached).mapError .usage
    match joined.valued, rest with
    | none, _ => return (← d.applyAll joined none, rest)
    | some (flag, some value), _ => return (← d.applyAll joined (some (flag, value)), rest)
    | some (flag, none), .operand value :: later =>
      return (← d.applyAll joined (some (flag, value)), later)
    | some (flag, none), _ => .error (.usage (.noValue flag))

/-- The draft after all of the arguments, at most `count` of them. -/
def read (d : Draft) : Nat → List Argument → Except Refusal Draft
  | count + 1, first :: rest => do
    let (d, rest) ← d.step first rest
    d.read count rest
  | _, _ => .ok d

end Draft

/-- The settings that arguments spell, if `maxDepth` is the bound on nested partials without a flag
for it. -/
def Options.ofArguments (maxDepth : Option Int) (arguments : List Text) :
    Except Refusal Options := do
  let arguments ← (classifyAll arguments).mapError .usage
  let blank : Draft := { options := { template := [], maxDepth := maxDepth } }
  let draft ← blank.read arguments.length arguments
  match draft.template, draft.unrecognized with
  | none, _ => .error (.usage .noTemplate)
  | some template, [] => return { draft.options with template := template }
  | some _, unrecognized => .error (.usage (.unrecognized unrecognized))

end Command

end Mustache
