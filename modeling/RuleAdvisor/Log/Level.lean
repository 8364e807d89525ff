import RuleAdvisor.Text.Character

/-!
Log levels: four grades of severity, their names and the tags in front of their lines.
-/

namespace RuleAdvisor.Log

inductive Level where
  | debug
  | info
  | warning
  | critical
  deriving DecidableEq

namespace Level

def rank : Level → Nat
  | debug => 0
  | info => 1
  | warning => 2
  | critical => 3

def all : List Level := [debug, info, warning, critical]

def ofRank? (rank : Nat) : Option Level := all.find? fun level => level.rank == rank

def name : Level → String
  | debug => "DEBUG"
  | info => "INFO"
  | warning => "WARNING"
  | critical => "CRITICAL"

def reaches (level threshold : Level) : Bool := decide (threshold.rank ≤ level.rank)

def ofName? (text : String) : Option Level :=
  let name := Text.capitals (Text.trim text)
  all.find? fun level => level.name == name

def tag : Level → String
  | debug => "[DEBUG]    "
  | info => "\u2139\ufe0f [INFO]     "
  | warning => "\u26a0\ufe0f [WARNING]  "
  | critical => "🚨 [CRITICAL] "

def line (level : Level) (text : String) : String := level.tag ++ text

end Level
end RuleAdvisor.Log
