import RuleAdvisor.Log.Level
import RuleAdvisor.Text.Style

/-!
Log lines on a console: the channel a level goes to, and its colour where colours are wanted and
the terminal shows them.
-/

namespace RuleAdvisor.Log

inductive Channel where
  | standard
  | warnings
  deriving DecidableEq

inductive Terminal where
  | plain
  | styled
  deriving DecidableEq

def Terminal.paint (terminal : Terminal) (styles : List Text.Style) (text : String) : String :=
  match terminal with
  | plain => text
  | styled => Text.Style.paint styles text

namespace Level

def channel : Level → Channel
  | debug | info => .standard
  | warning | critical => .warnings

def styles : Level → List Text.Style
  | debug => [.gray]
  | info => []
  | warning => [.yellow]
  | critical => [.red]

def colored (level : Level) (terminal : Terminal) (line : String) : String :=
  if level.styles.isEmpty then line else terminal.paint level.styles line

end Level
end RuleAdvisor.Log
