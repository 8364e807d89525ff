import Mathlib.Data.List.Forall2
import RuleAdvisor.Proofs.Log.Delivery
import RuleAdvisor.Proofs.Text.Styling

/-!
Colours on a console. A run with colours writes as many lines as the same run without, in the same
order and on the same channels, and the lines differ in their styles at most.
-/

namespace RuleAdvisor.Log

theorem Level.unstyled_colored (level : Level) (terminal : Terminal) (line : String) :
    Text.unstyled (level.colored terminal line).toList = Text.unstyled line.toList := by
  unfold Level.colored
  split
  · rfl
  · cases terminal with
    | plain => rfl
    | styled =>
        rw [Terminal.paint, Text.Style.paint, String.toList_ofList]
        exact Text.unstyled_paintChars level.styles line.toList

/-- The lines that two runs write for a message: to the same sink and on the same channel, which is
that for warnings exactly if the message is a warning or worse. -/
def SameButStyles (level : Level) (text : String) (colored plain : Outcome) : Prop :=
  ∃ place channel line, colored = .written place (.shown channel line)
    ∧ plain = .written place (.shown channel (level.tag ++ text))
    ∧ (channel = .warnings ↔ level = .warning ∨ level = .critical)
    ∧ Text.unstyled line.toList = Text.unstyled (level.tag ++ text).toList

theorem Level.channel_eq_warnings_iff (level : Level) :
    level.channel = .warnings ↔ level = .warning ∨ level = .critical := by
  cases level <;> decide

namespace Logger

def consoles (level : Level) (terminal : Terminal) (colors : Bool) (thresholds : List Level) :
    Logger :=
  ⟨level, thresholds.map fun threshold => ⟨.console colors, threshold⟩, terminal⟩

section Consoles

variable (level : Level) (terminal : Terminal) (thresholds : List Level)

/-- Which consoles a message reaches does not depend on the colours. -/
theorem log_consoles (colors : Bool) (message : Level) (text : String) :
    (consoles level terminal colors thresholds).log message text
      = (thresholds.zipIdx.filter fun entry =>
          decide (level.rank ≤ message.rank ∧ entry.1.rank ≤ message.rank)).map fun entry =>
            .written entry.2 (.shown message.channel
              (if colors then message.colored terminal (message.line text)
                else message.line text)) := by
  rw [log_eq, audience, consoles, List.zipIdx_map, List.filter_map, List.map_map]
  rfl

theorem log_sameButStyles (message : Level) (text : String) :
    List.Forall₂ (SameButStyles message text)
      ((consoles level terminal true thresholds).log message text)
      ((consoles level terminal false thresholds).log message text) := by
  rw [log_consoles, log_consoles, List.forall₂_map_left_iff, List.forall₂_map_right_iff,
    List.forall₂_same]
  intro entry _
  exact ⟨entry.2, message.channel, _, rfl, rfl, message.channel_eq_warnings_iff,
    message.unstyled_colored terminal (message.line text)⟩

end Consoles

/-- The writes that come of a step in two runs; there are some only if it is a message. -/
def Step.SameWrites (step : Step) (colored plain : List Outcome) : Prop :=
  match step with
  | .log level text => List.Forall₂ (SameButStyles level text) colored plain
  | .setLevel _ | .getLevel => colored = [] ∧ plain = []

/-- A run with colours answers as the run without, and its writes are the same but for styles, step
by step. -/
theorem colors_only_decorate (level : Level) (terminal : Terminal) (thresholds : List Level)
    (steps : List Step) :
    let colored := (consoles level terminal true thresholds).trace steps
    let plain := (consoles level terminal false thresholds).trace steps
    colored.length = steps.length ∧ plain.length = steps.length
      ∧ ∀ (index : Nat) (step : Step), steps[index]? = some step → ∃ one other : Result,
        colored[index]? = some one ∧ plain[index]? = some other ∧ one.answer = other.answer
          ∧ step.SameWrites one.outcomes other.outcomes := by
  refine ⟨length_trace _ steps, length_trace _ steps, ?_⟩
  intro index step given
  have taken (colors : Bool) :
      ((consoles level terminal colors thresholds).trace steps)[index]?
        = some ((consoles (levelAfter level (steps.take index)) terminal colors thresholds).step
          step) := by
    rw [trace_getElem?, given, Option.map_some]
    rfl
  refine ⟨_, _, taken true, taken false, ?_⟩
  cases step with
  | log message text => exact ⟨rfl, log_sameButStyles _ terminal thresholds message text⟩
  | setLevel next => exact ⟨rfl, rfl, rfl⟩
  | getLevel => exact ⟨rfl, rfl, rfl⟩

/-- A message in two lines, the first of which breaks off in the middle of a control sequence. -/
theorem colors_only_decorate_broken :
    let message : Step := .log .critical "pump\x1b[3\nblocked"
    let steps : List Step := [.setLevel .warning, message]
    let colored := (consoles .debug .styled true [.info, .critical]).trace steps
    let plain := (consoles .debug .styled false [.info, .critical]).trace steps
    steps[1]? = some message
      ∧ ∃ one other : Result, colored[1]? = some one ∧ plain[1]? = some other
        ∧ one.answer = other.answer ∧ message.SameWrites one.outcomes other.outcomes
        ∧ other.outcomes.length = 2 := by
  intro message steps colored plain
  obtain ⟨-, -, followed⟩ :=
    colors_only_decorate .debug .styled [.info, .critical] steps
  obtain ⟨one, other, first, second, answers, writes⟩ := followed 1 message rfl
  have both : other.outcomes.length = 2 := by
    obtain rfl := Option.some.inj second
    rfl
  exact ⟨rfl, one, other, first, second, answers, writes, both⟩

end Logger
end RuleAdvisor.Log
