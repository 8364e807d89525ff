import RuleAdvisor.CommandLine.Arguments
import RuleAdvisor.CommandLine.Settings
import RuleAdvisor.Shipped
import RuleAdvisor.Watering.Estimate

/-!
The command line as a function: from the environment, the arguments and a random value to what is
printed and the exit code. Settings that cannot be read come first, faults of the arguments next.
-/

namespace RuleAdvisor.CommandLine

open Log

inductive Stream where
  | output
  | errors
  deriving DecidableEq

structure Printed where
  stream : Stream
  line : String
  deriving DecidableEq

structure Outcome where
  exitCode : Nat
  printed : List Printed
  deriving DecidableEq

namespace Outcome

def failed (lines : List String) : Outcome := ⟨1, lines.map (⟨.errors, ·⟩)⟩

def text (outcome : Outcome) (stream : Stream) : String :=
  String.join ((outcome.printed.filter fun printed => printed.stream == stream).map
    fun printed => printed.line ++ "\n")

end Outcome

/-- Styles are shown if colours are wanted and forced, as output is no terminal of its own. -/
def terminalFor (environment : Record String) (settings : Settings) : Terminal :=
  if settings.colors && environment.get? "FORCE_COLOR" == some "1" then .styled else .plain

def loggerFor (settings : Settings) (terminal : Terminal) : Logger :=
  ⟨settings.level, [⟨.console settings.colors, .debug⟩], terminal⟩

def printedBy : Log.Outcome → Option Printed
  | .written _ (.shown .standard line) => some ⟨.output, line⟩
  | .written _ (.shown .warnings line) => some ⟨.errors, line⟩
  | .written _ (.kept _ _) => none
  | .complaint text => some ⟨.errors, text⟩

def printedLog (outcomes : List Log.Outcome) : List Printed := outcomes.filterMap printedBy

def output (lines : List String) : List Printed := lines.map (⟨.output, ·⟩)

def refused (terminal : Terminal) (printed : List Printed) (report : FailureReport) : Outcome :=
  let mark := terminal.paint [.red] "✗ Error:"
  ⟨1, printed ++ [⟨.errors, mark ++ " " ++ report.message⟩]⟩

variable {α : Type} [Number α] [NumberText α]

def runMove (logger : Logger) (total random : α) : Outcome :=
  let terminal := logger.terminal
  let rules : Counting.Rules α := Shipped.gameRules
  match (rules.choose total (.constant random)).1 with
  | .error refusal => refused terminal [] refusal.report
  | .ok count =>
      let logged := logger.log .debug
        s!"Move from {NumberText.plain total}: {NumberText.plain count}"
      let lines :=
        [terminal.paint [.cyan, .bold] (Report.spoken total count),
          terminal.paint [.gray] (Report.runningTotal total count)]
      let lost :=
        if total + count == rules.target then
          [terminal.paint [.red] s!"Computer said {NumberText.plain rules.target} and loses"]
        else []
      ⟨0, printedLog logged ++ output (lines ++ lost)⟩

def divider : String := String.ofList (List.replicate 40 '─')

def runEstimate (logger : Logger) (readings : Watering.Readings α) (explain : Bool) : Outcome :=
  let terminal := logger.terminal
  match Watering.load Shipped.wateringBase (some logger) with
  | (.error refusal, logged) => refused terminal (printedLog logged) refusal.report
  | (.ok estimator, loaded) =>
      match estimator.explain readings with
      | (.error refusal, logged) =>
          refused terminal (printedLog (loaded ++ logged)) refusal.report
      | (.ok decision, logged) =>
          let styles : List Text.Style := if decision.fallback then [.yellow] else [.green, .bold]
          let line := terminal.paint styles (Report.duration decision.duration decision.fallback)
          let account :=
            if explain then
              terminal.paint [.gray] divider :: Watering.explanation estimator.base decision
            else []
          ⟨0, printedLog (loaded ++ logged) ++ output (line :: account)⟩

def runRules (α : Type) [Number α] [NumberText α] (logger : Logger) : Outcome :=
  let terminal := logger.terminal
  let base : Fuzzy.RuleBase α := Shipped.wateringBase
  match Watering.load base (some logger) with
  | (.error refusal, logged) => refused terminal (printedLog logged) refusal.report
  | (.ok _, loaded) =>
      let lines :=
        match Report.ruleBase base with
        | title :: rest => terminal.paint [.cyan, .bold] title :: rest
        | [] => []
      ⟨0, printedLog loaded ++ output lines⟩

def runCommand (logger : Logger) (random : α) : Command α → Outcome
  | .move total => runMove logger total random
  | .estimate readings explain => runEstimate logger readings explain
  | .rules => runRules α logger

/-- Runs the program; every random number it asks for is `random`. -/
def run (environment : Record String) (arguments : List String) (random : α) : Outcome :=
  let read := readSettings environment
  if !read.errors.isEmpty then
    .failed ("Configuration errors:" :: read.errors.map ("  - " ++ ·))
  else
    match (Command.parse arguments : Except UsageError (Command α)) with
    | .error fault => .failed [fault.message]
    | .ok command =>
        runCommand (loggerFor read.settings (terminalFor environment read.settings)) random command

end RuleAdvisor.CommandLine
