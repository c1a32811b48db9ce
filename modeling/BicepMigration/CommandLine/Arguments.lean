/-!
# Arguments

A command takes options and operands. An option has a long name and may have a letter; it is a switch, or it
takes a value, which stands behind an equals sign, behind the letter, or in the next argument. Every other
argument is an operand, and after `--` all arguments are.

A value is read when the argument after it has been recognised. Hence an argument that no rule allows is
reported rather than a faulty value right before it.
-/

namespace BicepMigration.CommandLine

/-- Why arguments are no command. -/
inductive UsageFault where
  /-- Help is asked for. -/
  | help
  /-- A command is missing. -/
  | noCommand
  /-- No command has the name. -/
  | unknownCommand
  /-- No rule allows the argument. -/
  | unknownArgument
  /-- An operand is missing. -/
  | missingOperand
  /-- A value is missing or empty. -/
  | missingValue
  /-- A value cannot be read. -/
  | faultyValue
  /-- A switch has a value. -/
  | surplusValue
  /-- An option is given twice. -/
  | repeated
  deriving DecidableEq, Repr

/-- The wording of a fault. -/
def UsageFault.message : UsageFault → String
  | help => "help was asked for"
  | noCommand => "a command is missing"
  | unknownCommand => "there is no such command"
  | unknownArgument => "an argument is not expected"
  | missingOperand => "an operand is missing"
  | missingValue => "a value is missing"
  | faultyValue => "a value cannot be read"
  | surplusValue => "a switch takes no value"
  | repeated => "an option cannot be given twice"

/-- What a value has to be. -/
inductive ValueKind where
  | text
  | path
  | seconds
  deriving DecidableEq, Repr

/-- An option. Without a kind of value, it is a switch. -/
structure OptionRule where
  name : String
  letter : Option Char
  value : Option ValueKind
  deriving DecidableEq, Repr

/-- The operands: one or, if many are allowed, one or more. -/
structure OperandRule where
  kind : ValueKind
  many : Bool
  deriving DecidableEq, Repr

/-- The options and operands of a command. -/
structure ArgumentRules where
  options : List OptionRule
  operand : Option OperandRule
  deriving DecidableEq, Repr

/-- What a command is given. -/
structure Given where
  /-- Values of options, by the names of the options. -/
  values : List (String × String)
  switches : List String
  operands : List String
  deriving DecidableEq, Repr

/-- What has been recognised but not read. -/
inductive Pending where
  | nothing
  /-- An option that takes a value, which may still be to come. -/
  | option (name : String) (kind : ValueKind) (value : Option String)
  | operands (texts : List String)
  deriving DecidableEq, Repr

/-- A state of the recognition. -/
structure Progress where
  given : Given
  pending : Pending
  deriving DecidableEq, Repr

/-- Nothing is given. -/
def Progress.start : Progress := ⟨⟨[], [], []⟩, .nothing⟩

/-- The number that digits denote. -/
def digitsValue? (value : Nat) : List Char → Option Nat
  | [] => some value
  | c :: cs => if c.isDigit then digitsValue? (10 * value + (c.toNat - '0'.toNat)) cs else none

/-- Reads digits, with or without a plus sign, that denote a number of at most 64 bits. -/
def readSeconds? (text : String) : Option Nat := do
  let digits :=
    match text.toList with
    | '+' :: cs => cs
    | cs => cs
  guard (digits ≠ [])
  let value ← digitsValue? 0 digits
  guard (value < Nat.pow 2 64)
  some value

/-- Checks a value. -/
def ValueKind.check (kind : ValueKind) (text : String) : Except UsageFault Unit :=
  match kind with
  | .text => .ok ()
  | .path => if text = "" then .error .missingValue else .ok ()
  | .seconds => if (readSeconds? text).isSome then .ok () else .error .faultyValue

namespace ArgumentRules

/-- The kind of the operands. -/
def operandKind (rules : ArgumentRules) : ValueKind :=
  match rules.operand with
  | none => .text
  | some rule => rule.kind

/-- Reads what is pending. -/
def settle (rules : ArgumentRules) (progress : Progress) : Except UsageFault Given := do
  let given := progress.given
  match progress.pending with
  | .nothing => pure given
  | .option _ _ none => throw .missingValue
  | .option name kind (some value) =>
    if (given.values.lookup name).isSome then throw .repeated
    kind.check value
    pure { given with values := given.values ++ [(name, value)] }
  | .operands texts =>
    texts.forM (rules.operandKind.check ·)
    pure { given with operands := given.operands ++ texts }

/-- Takes an option, with a value if one is attached. -/
def takeOption (rules : ArgumentRules) (progress : Progress) (rule : OptionRule) (attached : Option String) :
    Except UsageFault Progress :=
  match rule.value, attached with
  | none, some _ => .error .surplusValue
  | none, none => do
    let given ← rules.settle progress
    if rule.name ∈ given.switches then throw .repeated
    if rule.name = "help" then throw .help
    pure ⟨{ given with switches := given.switches ++ [rule.name] }, .nothing⟩
  | some kind, none => do
    let given ← rules.settle progress
    pure ⟨given, .option rule.name kind none⟩
  | some kind, some value => do
    let given ← rules.settle progress
    let given ← rules.settle ⟨given, .option rule.name kind (some value)⟩
    pure ⟨given, .nothing⟩

/-- Takes an operand. -/
def takeOperand (rules : ArgumentRules) (progress : Progress) (text : String) : Except UsageFault Progress :=
  match rules.operand with
  | none => .error .unknownArgument
  | some rule =>
    match progress.pending with
    | .operands texts =>
      if rule.many then .ok ⟨progress.given, .operands (texts ++ [text])⟩ else .error .unknownArgument
    | _ =>
      if !rule.many && progress.given.operands ≠ [] then .error .unknownArgument
      else (rules.settle progress).map fun given => ⟨given, .operands [text]⟩

/-- Splits at the first equals sign. -/
def splitAtEquals (cs : List Char) : String × Option String :=
  match cs.dropWhile (· ≠ '=') with
  | [] => (String.ofList cs, none)
  | _ :: value => (String.ofList (cs.takeWhile (· ≠ '=')), some (String.ofList value))

/-- Takes an argument that starts with two hyphens, given the rest of it. -/
def takeLong (rules : ArgumentRules) (progress : Progress) (cs : List Char) : Except UsageFault Progress :=
  let (name, attached) := splitAtEquals cs
  match rules.options.find? (·.name = name) with
  | none => .error .unknownArgument
  | some rule => rules.takeOption progress rule attached

/-- The value behind a letter. -/
def valueAfterLetter : List Char → Option String
  | [] => none
  | '=' :: cs => some (String.ofList cs)
  | cs => some (String.ofList cs)

/-- Takes letters behind a hyphen. -/
def takeLetters (rules : ArgumentRules) (progress : Progress) : List Char → Except UsageFault Progress
  | [] => .ok progress
  | c :: cs =>
    match rules.options.find? (·.letter = some c) with
    | none => .error .unknownArgument
    | some rule =>
      match rule.value with
      | some _ => rules.takeOption progress rule (valueAfterLetter cs)
      | none => do rules.takeLetters (← rules.takeOption progress rule none) cs

/-- Takes an argument that is no option: the value that an option waits for, or an operand. -/
def takeOther (rules : ArgumentRules) (progress : Progress) (text : String) : Except UsageFault Progress :=
  match progress.pending with
  | .option name kind none => .ok ⟨progress.given, .option name kind (some text)⟩
  | _ => rules.takeOperand progress text

/-- Takes arguments. -/
def takeAll (rules : ArgumentRules) (progress : Progress) : List String → Except UsageFault Progress
  | [] => .ok progress
  | text :: rest =>
    match text.toList with
    | ['-', '-'] => rest.foldlM rules.takeOperand progress
    | '-' :: '-' :: cs => do rules.takeAll (← rules.takeLong progress cs) rest
    | '-' :: c :: cs => do rules.takeAll (← rules.takeLetters progress (c :: cs)) rest
    | _ => do rules.takeAll (← rules.takeOther progress text) rest

/-- Reads arguments. -/
def read (rules : ArgumentRules) (arguments : List String) : Except UsageFault Given := do
  rules.settle (← rules.takeAll .start arguments)

end ArgumentRules

end BicepMigration.CommandLine
