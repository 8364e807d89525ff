import Mathlib.Data.List.Basic
import RuleAdvisor.Log.Logger

/-!
What a logger delivers over a whole run. A message that reaches the logger is written once to each
sink that it reaches, in the order of the sinks; a sink that fails is complained about once and
keeps the message from no other. Only steps that set the level change the logger. Of two loggers
that differ in their levels, the one with the lower level delivers all that the other does.
-/

namespace RuleAdvisor

section Places

variable {β γ : Type}

theorem filterMap_zipIdx_place (f : β → Option γ) (xs : List β) (start place : Nat) :
    ((xs.zipIdx start).filterMap fun entry => if entry.2 = place then f entry.1 else none)
      = if start ≤ place then (xs[place - start]?.bind f).toList else [] := by
  induction xs generalizing start with
  | nil => simp
  | cons x rest ih =>
      rw [List.zipIdx_cons, List.filterMap_cons, ih]
      rcases Nat.lt_trichotomy start place with before | rfl | beyond
      · have next : place - start = place - (start + 1) + 1 := by omega
        simp [Nat.ne_of_lt before, Nat.le_of_lt before, Nat.succ_le_of_lt before, next]
      · have past : ¬ start + 1 ≤ start := Nat.not_succ_le_self start
        cases found : f x <;> simp [past, found]
      · have notYet : ¬ start ≤ place := Nat.not_le.mpr beyond
        have notLater : ¬ start + 1 ≤ place := by omega
        simp [Nat.ne_of_gt beyond, notYet, notLater]

theorem filterMap_zipIdx_fst (f : β → Option γ) (xs : List β) :
    (xs.zipIdx.filterMap fun entry => f entry.1) = xs.filterMap f := by
  have unplaced : xs.zipIdx.map Prod.fst = xs := List.zipIdx_map_fst 0 xs
  calc (xs.zipIdx.filterMap fun entry => f entry.1)
      = (xs.zipIdx.map Prod.fst).filterMap f := List.filterMap_map.symm
    _ = xs.filterMap f := by rw [unplaced]

theorem filterMap_sublist_map {f : β → Option γ} {g : β → γ}
    (own : ∀ x y, f x = some y → y = g x) (xs : List β) :
    (xs.filterMap f).Sublist (xs.map g) := by
  induction xs with
  | nil => exact .slnil
  | cons x rest ih =>
      rw [List.map_cons]
      cases found : f x with
      | none =>
          rw [List.filterMap_cons_none found]
          exact ih.cons _
      | some y =>
          rw [List.filterMap_cons_some found, own x y found]
          exact ih.cons_cons _

end Places

namespace Log

def SinkKind.delivery? (kind : SinkKind) (terminal : Terminal) (level : Level) (line : String) :
    Option Delivery :=
  match kind with
  | memory => some (.kept level line)
  | failing _ => none
  | console colors =>
      some (.shown level.channel (if colors then level.colored terminal line else line))

def SinkKind.complaint? : SinkKind → Option String
  | failing reason => some (complaintText reason)
  | memory | console _ => none

namespace Outcome

def place? : Outcome → Option Nat
  | written sink _ => some sink
  | complaint _ => none

def complaint? : Outcome → Option String
  | written _ _ => none
  | complaint text => some text

def arrival? (outcome : Outcome) (place : Nat) : Option Delivery :=
  match outcome with
  | written sink delivery => if sink = place then some delivery else none
  | complaint _ => none

end Outcome

/-- All that arrived in the sink at a place, in order. -/
def arrivals (outcomes : List Outcome) (place : Nat) : List Delivery :=
  outcomes.filterMap fun outcome => outcome.arrival? place

section Receiving

variable (kind : SinkKind) (terminal : Terminal) (level : Level) (line : String)

theorem arrival?_receive (index place : Nat) :
    (kind.receive terminal index level line).arrival? place
      = if index = place then kind.delivery? terminal level line else none := by
  cases kind <;> simp [SinkKind.receive, SinkKind.delivery?, Outcome.arrival?]

theorem complaint?_receive (index : Nat) :
    (kind.receive terminal index level line).complaint? = kind.complaint? := by
  cases kind <;> rfl

theorem place?_receive {index place : Nat}
    (written : (kind.receive terminal index level line).place? = some place) : place = index := by
  cases kind <;> simp_all [SinkKind.receive, Outcome.place?]

end Receiving

/-- What becomes of a message of a level that is given to the logger. -/
structure Delivered (logger : Logger) (level : Level) (text : String) (outcomes : List Outcome) :
    Prop where
  /-- It arrives once, behind the tag of its level, in every sink that it reaches. -/
  arrivals_eq : ∀ place sink, logger.sinks[place]? = some sink → arrivals outcomes place
    = if logger.level.rank ≤ level.rank ∧ sink.threshold.rank ≤ level.rank then
        (sink.kind.delivery? logger.terminal level (level.tag ++ text)).toList
      else []
  nowhere_else : ∀ place, logger.sinks[place]? = none → arrivals outcomes place = []
  inOrder : (outcomes.filterMap Outcome.place?).Pairwise (· < ·)
  /-- Every failing sink that it reaches is complained about once. -/
  complaints_eq : outcomes.filterMap Outcome.complaint?
    = (logger.sinks.filter fun sink =>
        decide (logger.level.rank ≤ level.rank ∧ sink.threshold.rank ≤ level.rank)).filterMap
          fun sink => sink.kind.complaint?

namespace Logger

variable (logger : Logger)

/-- The sinks that a message of a level reaches, with their places. -/
def audience (level : Level) : List (Sink × Nat) :=
  logger.sinks.zipIdx.filter fun entry =>
    decide (logger.level.rank ≤ level.rank ∧ entry.1.threshold.rank ≤ level.rank)

theorem log_eq (level : Level) (text : String) :
    logger.log level text = (logger.audience level).map fun entry =>
      entry.1.kind.receive logger.terminal entry.2 level (level.line text) := by
  rw [← List.filterMap_eq_map, audience, List.filterMap_filter]
  by_cases reached : logger.level.rank ≤ level.rank
  · simp [log, Level.reaches, reached]
  · simp [log, Level.reaches, reached]

theorem arrivals_log (level : Level) (text : String) (place : Nat) :
    arrivals (logger.log level text) place = (logger.sinks[place]?.bind fun sink =>
      if logger.level.rank ≤ level.rank ∧ sink.threshold.rank ≤ level.rank then
        sink.kind.delivery? logger.terminal level (level.tag ++ text)
      else none).toList := by
  have atPlace : ∀ entry : Sink × Nat,
      (if decide (logger.level.rank ≤ level.rank ∧ entry.1.threshold.rank ≤ level.rank) then
        (entry.1.kind.receive logger.terminal entry.2 level (level.line text)).arrival? place
      else none) = if entry.2 = place then
          if logger.level.rank ≤ level.rank ∧ entry.1.threshold.rank ≤ level.rank then
            entry.1.kind.delivery? logger.terminal level (level.tag ++ text)
          else none
        else none := by
    intro entry
    rw [arrival?_receive, Level.line]
    grind
  rw [arrivals, log_eq, List.filterMap_map, audience, List.filterMap_filter]
  simp only [Function.comp, atPlace]
  exact filterMap_zipIdx_place (fun sink =>
    if logger.level.rank ≤ level.rank ∧ sink.threshold.rank ≤ level.rank then
      sink.kind.delivery? logger.terminal level (level.tag ++ text)
    else none) logger.sinks 0 place

theorem places_log (level : Level) (text : String) :
    ((logger.log level text).filterMap Outcome.place?).Pairwise (· < ·) := by
  have places : (logger.sinks.zipIdx.map Prod.snd).Pairwise (· < ·) := by
    rw [List.zipIdx_map_snd]
    exact List.pairwise_lt_range'
  rw [log_eq, List.filterMap_map]
  refine places.sublist (.trans (filterMap_sublist_map ?_ (logger.audience level))
    (List.filter_sublist.map Prod.snd))
  intro entry place written
  exact place?_receive _ _ _ _ written

theorem complaints_log (level : Level) (text : String) :
    (logger.log level text).filterMap Outcome.complaint?
      = (logger.sinks.filter fun sink =>
          decide (logger.level.rank ≤ level.rank ∧ sink.threshold.rank ≤ level.rank)).filterMap
            fun sink => sink.kind.complaint? := by
  rw [log_eq, List.filterMap_map, audience, List.filterMap_filter, List.filterMap_filter]
  simp only [Function.comp, complaint?_receive]
  exact filterMap_zipIdx_fst (fun sink =>
    if decide (logger.level.rank ≤ level.rank ∧ sink.threshold.rank ≤ level.rank) then
      sink.kind.complaint?
    else none) logger.sinks

theorem log_delivered (level : Level) (text : String) :
    Delivered logger level text (logger.log level text) where
  arrivals_eq place sink listed := by
    rw [logger.arrivals_log, listed, Option.bind_some, apply_ite Option.toList]
    rfl
  nowhere_else place missing := by
    rw [logger.arrivals_log, missing]
    rfl
  inOrder := logger.places_log level text
  complaints_eq := logger.complaints_log level text

end Logger

namespace Logger

def Step.newLevel? : Step → Option Level
  | .setLevel level => some level
  | .log _ _ | .getLevel => none

/-- The level after some steps: the last that was set, and if none was, the one before them. -/
def levelAfter (level : Level) (steps : List Step) : Level :=
  (steps.filterMap Step.newLevel?).getLast?.getD level

def withLevel (logger : Logger) (level : Level) : Logger := { logger with level := level }

/-- What comes of a step taken by the logger, but for the logger it leaves. -/
def Result.Follows (result : Result) (logger : Logger) : Step → Prop
  | .log level text => result.answer = none ∧ Delivered logger level text result.outcomes
  | .setLevel _ => result.answer = none ∧ result.outcomes = []
  | .getLevel => result.answer = some logger.level ∧ result.outcomes = []

theorem step_follows (logger : Logger) (step : Step) : (logger.step step).Follows logger step := by
  cases step with
  | log level text => exact ⟨rfl, logger.log_delivered level text⟩
  | setLevel level => exact ⟨rfl, rfl⟩
  | getLevel => exact ⟨rfl, rfl⟩

theorem logger_step (logger : Logger) (step : Step) :
    (logger.step step).logger = logger.withLevel (levelAfter logger.level [step]) := by
  cases step <;> rfl

theorem levelAfter_append (level : Level) (first second : List Step) :
    levelAfter level (first ++ second) = levelAfter (levelAfter level first) second := by
  cases set : (second.filterMap Step.newLevel?).getLast? <;>
    simp [levelAfter, List.getLast?_append, set]

/-- Each step is taken by the logger as it was given, at the level that the steps before left. -/
theorem trace_getElem? (logger : Logger) (steps : List Step) (index : Nat) :
    (logger.trace steps)[index]? = steps[index]?.map fun step =>
      (logger.withLevel (levelAfter logger.level (steps.take index))).step step := by
  induction steps generalizing logger index with
  | nil => rfl
  | cons step rest ih =>
      cases index with
      | zero => rfl
      | succ earlier =>
          have levels : levelAfter logger.level (step :: rest.take earlier)
              = levelAfter (levelAfter logger.level [step]) (rest.take earlier) :=
            levelAfter_append logger.level [step] (rest.take earlier)
          rw [trace, List.getElem?_cons_succ, List.getElem?_cons_succ, ih, logger_step,
            List.take_succ_cons, levels]
          rfl

theorem length_trace (logger : Logger) (steps : List Step) :
    (logger.trace steps).length = steps.length := by
  induction steps generalizing logger with
  | nil => rfl
  | cons step rest ih => rw [trace, List.length_cons, List.length_cons, ih]

def outcomes (logger : Logger) (steps : List Step) : List Outcome :=
  (logger.trace steps).flatMap Result.outcomes

section Levels

variable (logger : Logger) {low high : Level} (atMost : low.rank ≤ high.rank)

include atMost

theorem audience_sublist (level : Level) :
    ((logger.withLevel high).audience level).Sublist ((logger.withLevel low).audience level) := by
  apply List.monotone_filter_right
  intro entry taken
  obtain ⟨reached, accepted⟩ := of_decide_eq_true taken
  exact decide_eq_true ⟨Nat.le_trans atMost reached, accepted⟩

theorem log_sublist (level : Level) (text : String) :
    ((logger.withLevel high).log level text).Sublist
      ((logger.withLevel low).log level text) := by
  rw [log_eq, log_eq]
  exact (logger.audience_sublist atMost level).map _

theorem step_sublist (step : Step) :
    ((logger.withLevel high).step step).outcomes.Sublist
      ((logger.withLevel low).step step).outcomes := by
  cases step with
  | log level text => exact logger.log_sublist atMost level text
  | setLevel level => exact .refl _
  | getLevel => exact .refl _

theorem outcomes_sublist {steps : List Step} (unset : ∀ step ∈ steps, step.newLevel? = none) :
    ((logger.withLevel high).outcomes steps).Sublist ((logger.withLevel low).outcomes steps) := by
  induction steps with
  | nil => exact .slnil
  | cons step rest ih =>
      -- A step that sets no level leaves both loggers as they were.
      have kept (level : Level) :
          ((logger.withLevel level).step step).logger = logger.withLevel level := by
        rw [logger_step]
        simp [levelAfter, unset step List.mem_cons_self, withLevel]
      have later := ih fun other member => unset other (List.mem_cons_of_mem _ member)
      simp only [outcomes, trace, List.flatMap_cons, kept]
      exact (logger.step_sublist atMost step).append later

end Levels

/-- Of a run, each step is taken at the level that was set last and comes to what it says: a
message is delivered, nothing else is written, and only setting the level leaves another logger. If
no step sets it, all that comes of the run at a level comes of it, in the same order, at every
lower level too. -/
theorem run_delivers (logger : Logger) (steps : List Step) :
    (logger.trace steps).length = steps.length
      ∧ (∀ index step, steps[index]? = some step → ∃ result,
        (logger.trace steps)[index]? = some result
          ∧ result.Follows (logger.withLevel (levelAfter logger.level (steps.take index))) step
          ∧ result.logger
            = logger.withLevel (levelAfter logger.level (steps.take (index + 1))))
      ∧ ∀ low high : Level, low.rank ≤ high.rank →
        (∀ step ∈ steps, step.newLevel? = none) →
        ((logger.withLevel high).outcomes steps).Sublist
          ((logger.withLevel low).outcomes steps) := by
  refine ⟨logger.length_trace steps, ?_,
    fun _ _ atMost unset => logger.outcomes_sublist atMost unset⟩
  intro index step given
  have levels : levelAfter logger.level (steps.take (index + 1))
      = levelAfter (levelAfter logger.level (steps.take index)) [step] := by
    rw [List.take_add_one, given, Option.toList_some, levelAfter_append]
  refine ⟨_, by rw [trace_getElem?, given, Option.map_some], step_follows _ step, ?_⟩
  rw [logger_step, levels]
  rfl

def crowded : Logger :=
  ⟨.info, [⟨.memory, .debug⟩, ⟨.failing "disk full", .info⟩, ⟨.memory, .warning⟩], .plain⟩

/-- The level is raised between two messages, and of two messages one is below a level. -/
theorem run_delivers_crowded :
    (∃ result, (crowded.trace [.log .info "a", .setLevel .critical, .log .warning "b",
          .getLevel])[2]? = some result
        ∧ result.Follows (crowded.withLevel .critical) (.log .warning "b")
        ∧ result.logger = crowded.withLevel .critical)
      ∧ ((crowded.withLevel .warning).outcomes [.log .info "a", .log .warning "b"]).Sublist
        ((crowded.withLevel .debug).outcomes [.log .info "a", .log .warning "b"]) := by
  constructor
  · exact (run_delivers crowded [.log .info "a", .setLevel .critical, .log .warning "b",
      .getLevel]).2.1 2 (.log .warning "b") rfl
  · exact (run_delivers crowded [.log .info "a", .log .warning "b"]).2.2 .debug .warning
      (by decide) (by decide)

end Logger
end Log
end RuleAdvisor
