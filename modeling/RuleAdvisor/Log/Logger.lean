import RuleAdvisor.Log.Console

/-!
Loggers: a threshold and a list of sinks. A message at or above the threshold is written, in the
order of the sinks, to each sink whose own threshold it reaches. A sink that fails is complained
about and does not keep the message from the sinks behind it.
-/

namespace RuleAdvisor.Log

inductive SinkKind where
  /-- Keeps each line with its level. -/
  | memory
  /-- Fails at every write with an error that gives a reason. A failure that cannot be written as a
  text is left out. -/
  | failing (reason : String)
  | console (colors : Bool)
  deriving DecidableEq

structure Sink where
  kind : SinkKind
  threshold : Level
  deriving DecidableEq

/-- A line that arrived: in memory with its level, or on a channel of the console. -/
inductive Delivery where
  | kept (level : Level) (line : String)
  | shown (channel : Channel) (line : String)
  deriving DecidableEq

inductive Outcome where
  | written (sink : Nat) (delivery : Delivery)
  | complaint (text : String)
  deriving DecidableEq

def complaintText (reason : String) : String :=
  "Logger sink error: " ++ if reason = "" then "Error" else "Error: " ++ reason

def SinkKind.receive (kind : SinkKind) (terminal : Terminal) (index : Nat) (level : Level)
    (line : String) : Outcome :=
  match kind with
  | memory => .written index (.kept level line)
  | failing reason => .complaint (complaintText reason)
  | console colors =>
      let shown := if colors then level.colored terminal line else line
      .written index (.shown level.channel shown)

structure Logger where
  level : Level
  sinks : List Sink
  terminal : Terminal
  deriving DecidableEq

namespace Logger

def log (logger : Logger) (level : Level) (text : String) : List Outcome :=
  if level.reaches logger.level then
    logger.sinks.zipIdx.filterMap fun (sink, index) =>
      if level.reaches sink.threshold then
        some (sink.kind.receive logger.terminal index level (level.line text))
      else none
  else []

inductive Step where
  | log (level : Level) (text : String)
  | setLevel (level : Level)
  | getLevel
  deriving DecidableEq

/-- The logger after a step, the level it was asked for, and what became of the message. -/
structure Result where
  logger : Logger
  answer : Option Level
  outcomes : List Outcome

def step (logger : Logger) : Step → Result
  | .log level text => ⟨logger, none, logger.log level text⟩
  | .setLevel level => ⟨{ logger with level := level }, none, []⟩
  | .getLevel => ⟨logger, some logger.level, []⟩

def trace : Logger → List Step → List Result
  | _, [] => []
  | logger, step :: rest =>
      let result := logger.step step
      result :: trace result.logger rest

end Logger

structure Message where
  level : Level
  text : String
  deriving DecidableEq

def deliver (logger : Option Logger) (messages : List Message) : List Outcome :=
  match logger with
  | some logger => messages.flatMap fun message => logger.log message.level message.text
  | none => []

end RuleAdvisor.Log
