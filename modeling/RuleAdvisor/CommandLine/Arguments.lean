import RuleAdvisor.CommandLine.Similar
import RuleAdvisor.Decimal.Numeral
import RuleAdvisor.Watering.Readings

/-!
The arguments of the command line: a command's name, its operands and its options. An option that
needs a value takes the argument after it, whatever that is, or what follows it in its own; the
last of repeated options counts, and `--` ends the options.
-/

namespace RuleAdvisor.CommandLine

structure OptionSpec where
  short : Char
  long : String
  /-- What its value is called, if it has one. -/
  valueName : Option String
  deriving DecidableEq

namespace OptionSpec

def shown (spec : OptionSpec) : String :=
  let value := (spec.valueName.map fun name => s!" <{name}>").getD ""
  s!"-{spec.short}, --{spec.long}{value}"

def moisture : OptionSpec := ⟨'m', "moisture", some "percent"⟩
def temperature : OptionSpec := ⟨'t', "temperature", some "celsius"⟩
def humidity : OptionSpec := ⟨'a', "humidity", some "percent"⟩
def explain : OptionSpec := ⟨'e', "explain", none⟩

end OptionSpec

inductive UsageError where
  | noCommand
  | unknownCommand (name : String)
  | unknownOption (argument : String) (candidates : List String)
  | missingTotal
  | badTotal (text : String)
  | missingOption (spec : OptionSpec)
  | valueMissing (spec : OptionSpec)
  | badValue (spec : OptionSpec) (text : String)
  deriving DecidableEq

inductive Expectation where
  | wholeNumber
  | number
  deriving DecidableEq

def Expectation.message : Expectation → String
  | wholeNumber => "Expected a whole number."
  | number => "Expected a number."

def commandNames : List String := ["move", "estimate", "rules"]

def suggestion : List String → String
  | [] => ""
  | [word] => s!"\n(Did you mean {word}?)"
  | words => "\n(Did you mean one of " ++ ", ".intercalate words ++ "?)"

def optionSuggestion (argument : String) (candidates : List String) : String :=
  match argument.toList with
  | '-' :: '-' :: _ => suggestion (similarTo argument candidates)
  | _ => ""

def UsageError.message : UsageError → String
  | noCommand => "error: missing command"
  | unknownCommand name =>
      s!"error: unknown command '{name}'" ++ suggestion (similarTo name (commandNames ++ ["help"]))
  | unknownOption argument candidates =>
      s!"error: unknown option '{argument}'" ++ optionSuggestion argument candidates
  | missingTotal => "error: missing required argument 'total'"
  | badTotal text =>
      s!"error: command-argument value '{text}' is invalid for argument 'total'. "
        ++ Expectation.wholeNumber.message
  | missingOption spec => s!"error: required option '{spec.shown}' not specified"
  | valueMissing spec => s!"error: option '{spec.shown}' argument missing"
  | badValue spec text =>
      s!"error: option '{spec.shown}' argument '{text}' is invalid. "
        ++ Expectation.number.message

inductive Command (α : Type) where
  | move (total : α)
  | estimate (readings : Watering.Readings α) (explain : Bool)
  | rules

variable {α : Type} [Number α]

def readTotal (text : String) : Except Expectation α :=
  match Decimal.natural? 10 (Text.trimChars text.toList) with
  | some value => .ok (Number.ofNat value)
  | none => .error .wholeNumber

def readReading (text : String) : Except Expectation α :=
  match Decimal.Numeral.ofChars? (Text.trimChars text.toList) with
  | none => .error .number
  | some numeral =>
      let value : α := numeral.value
      if Number.isFinite value then .ok value else .error .number

structure Given (α : Type) where
  spec : OptionSpec
  value : Option α

structure Parsed (α : Type) where
  given : List (Given α)
  operands : List String
  /-- The first unknown option and everything unclaimed after it. -/
  unknown : List String

namespace Parsed

def empty : Parsed α := ⟨[], [], []⟩

def give (spec : OptionSpec) (value : Option α) (parsed : Parsed α) : Parsed α :=
  { parsed with given := ⟨spec, value⟩ :: parsed.given }

/-- Adds an argument in front: behind an unknown option it is unclaimed. -/
def add (afterUnknown : Bool) (argument : String) (parsed : Parsed α) : Parsed α :=
  if afterUnknown then { parsed with unknown := argument :: parsed.unknown }
  else { parsed with operands := argument :: parsed.operands }

def valueOf (parsed : Parsed α) (spec : OptionSpec) : Option α :=
  (parsed.given.reverse.find? fun given => given.spec == spec).bind Given.value

def has (parsed : Parsed α) (spec : OptionSpec) : Bool :=
  parsed.given.any fun given => given.spec == spec

end Parsed

inductive OptionMatch where
  | ends
  | exactly (spec : OptionSpec)
  | withValue (spec : OptionSpec) (value : List Char)
  /-- A flag at the head of a group of short options; the rest is read next. -/
  | flagBefore (spec : OptionSpec) (rest : List Char)
  | unknown
  | plain

def splitAtEquals (text : List Char) : Option (List Char × List Char) :=
  let name := text.takeWhile (· != '=')
  match text.dropWhile (· != '=') with
  | '=' :: value => if name.isEmpty then none else some (name, value)
  | _ => none

def OptionMatch.ofLong (specs : List OptionSpec) (name : List Char) : OptionMatch :=
  match specs.find? fun spec => spec.long.toList == name with
  | some spec => exactly spec
  | none =>
      match splitAtEquals name with
      | none => unknown
      | some (long, value) =>
          match specs.find? fun spec => spec.long.toList == long && spec.valueName.isSome with
          | some spec => withValue spec value
          | none => unknown

/-- A short option, alone, with its value, or before other flags. -/
def OptionMatch.ofShort (specs : List OptionSpec) (short : Char) (rest : List Char) :
    OptionMatch :=
  match specs.find? fun spec => spec.short == short with
  | none => unknown
  | some spec =>
      if rest.isEmpty then exactly spec
      else if spec.valueName.isSome then withValue spec rest
      else flagBefore spec ('-' :: rest)

/-- A lone dash is no option. -/
def OptionMatch.ofArgument (specs : List OptionSpec) : List Char → OptionMatch
  | ['-', '-'] => ends
  | '-' :: '-' :: name => ofLong specs name
  | '-' :: short :: rest => ofShort specs short rest
  | _ => plain

theorem OptionMatch.ofLong_ne_flagBefore (specs : List OptionSpec) (name group : List Char)
    (spec : OptionSpec) : ofLong specs name ≠ flagBefore spec group := by
  unfold ofLong
  split
  · simp
  · split
    · simp
    · split <;> simp

theorem OptionMatch.group_of_ofShort {specs : List OptionSpec} {short : Char}
    {rest group : List Char} {spec : OptionSpec}
    (found : ofShort specs short rest = flagBefore spec group) : group = '-' :: rest := by
  unfold ofShort at found
  split at found
  · cases found
  · split at found
    · cases found
    · split at found
      · cases found
      · cases found
        rfl

theorem OptionMatch.length_group_lt {specs : List OptionSpec} {argument group : List Char}
    {spec : OptionSpec} (found : ofArgument specs argument = flagBefore spec group) :
    group.length < argument.length := by
  unfold ofArgument at found
  split at found
  · cases found
  · exact absurd found (ofLong_ne_flagBefore _ _ _ _)
  · rw [group_of_ofShort found]
    simp
  · cases found

def readValue (spec : OptionSpec) (text : List Char) : Except UsageError α :=
  match readReading (String.ofList text) with
  | .ok value => .ok value
  | .error _ => .error (.badValue spec (String.ofList text))

/-- The arguments and their letters, which every step of the parser makes fewer. -/
def weight (arguments : List (List Char)) : Nat := arguments.flatten.length + arguments.length

/-- Reads arguments against the options of a command. Values are read as they are met, so the
first fault in the order of the arguments is the one reported. -/
def parseOptions (specs : List OptionSpec) (afterUnknown : Bool) :
    List (List Char) → Except UsageError (Parsed α)
  | [] => .ok .empty
  | argument :: rest =>
      match found : OptionMatch.ofArgument specs argument with
      | .ends =>
          let texts := rest.map String.ofList
          .ok (if afterUnknown then ⟨[], [], "--" :: texts⟩ else ⟨[], texts, []⟩)
      | .exactly spec =>
          if spec.valueName.isNone then
            (parseOptions specs afterUnknown rest).map (Parsed.give spec none)
          else
            match rest with
            | [] => .error (.valueMissing spec)
            | text :: rest => do
                let value ← readValue spec text
                (parseOptions specs afterUnknown rest).map (Parsed.give spec (some value))
      | .withValue spec text => do
          let value ← readValue spec text
          (parseOptions specs afterUnknown rest).map (Parsed.give spec (some value))
      | .flagBefore spec group =>
          have _shorter := OptionMatch.length_group_lt found
          (parseOptions specs afterUnknown (group :: rest)).map (Parsed.give spec none)
      | .unknown =>
          (parseOptions specs true rest).map (Parsed.add true (String.ofList argument))
      | .plain =>
          (parseOptions specs afterUnknown rest).map
            (Parsed.add afterUnknown (String.ofList argument))
termination_by arguments => weight arguments
decreasing_by all_goals simp_all [weight]; try omega

def looksLikeOption : List Char → Bool
  | '-' :: _ :: _ => true
  | _ => false

/-- The arguments in front of the first option, with those behind `--`, and the rest. -/
def splitOperands (arguments : List String) : List String × List String :=
  match arguments with
  | [] => ([], [])
  | "--" :: rest => (rest, [])
  | argument :: rest =>
      if looksLikeOption argument.toList then ([], argument :: rest)
      else
        let (operands, others) := splitOperands rest
        (argument :: operands, others)

def unknownOption (specs : List OptionSpec) (argument : String) : UsageError :=
  .unknownOption argument ((specs.map OptionSpec.long ++ ["help"]).map ("--" ++ ·))

def checkKnown (specs : List OptionSpec) (parsed : Parsed α) : Except UsageError Unit :=
  match parsed.unknown with
  | [] => .ok ()
  | argument :: _ => .error (unknownOption specs argument)

def required (parsed : Parsed α) (spec : OptionSpec) : Except UsageError α :=
  match parsed.valueOf spec with
  | some value => .ok value
  | none => .error (.missingOption spec)

def parseMove (operands others : List String) : Except UsageError (Command α) := do
  let parsed : Parsed α ← parseOptions [] false (others.map String.toList)
  checkKnown [] parsed
  match operands ++ parsed.operands with
  | [] => .error .missingTotal
  | text :: _ =>
      match readTotal text with
      | .ok total => pure (.move total)
      | .error _ => .error (.badTotal text)

def estimateOptions : List OptionSpec := [.moisture, .temperature, .humidity, .explain]

def parseEstimate (others : List String) : Except UsageError (Command α) := do
  let parsed ← parseOptions estimateOptions false (others.map String.toList)
  let soilMoisture ← required parsed .moisture
  let temperature ← required parsed .temperature
  let airHumidity ← required parsed .humidity
  checkKnown estimateOptions parsed
  pure (.estimate ⟨soilMoisture, temperature, airHumidity⟩ (parsed.has .explain))

def parseRules (others : List String) : Except UsageError (Command α) := do
  let parsed : Parsed α ← parseOptions [] false (others.map String.toList)
  checkKnown [] parsed
  pure .rules

/-- The command that the arguments ask for. Operands beyond those needed are ignored. -/
def Command.parse (arguments : List String) : Except UsageError (Command α) :=
  match splitOperands arguments with
  | ([], []) => .error .noCommand
  | ([], option :: _) => .error (unknownOption [] option)
  | (name :: operands, others) =>
      if name = "move" then parseMove operands others
      else if name = "estimate" then parseEstimate others
      else if name = "rules" then parseRules others
      else .error (.unknownCommand name)

end RuleAdvisor.CommandLine
