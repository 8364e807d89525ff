import RuleAdvisor.Log.Level
import RuleAdvisor.Record

/-!
Settings of the command line, read from environment variables. Blank ones count as not set.
-/

namespace RuleAdvisor.CommandLine

structure Settings where
  level : Log.Level
  colors : Bool
  deriving DecidableEq

def Settings.usual : Settings := ⟨.info, true⟩

structure SettingsRead where
  settings : Settings
  errors : List String
  deriving DecidableEq

def filled? (environment : Record String) (name : String) : Option String :=
  (environment.get? name).filter fun text => !Text.isAllBlank text

def readLevel (environment : Record String) (read : SettingsRead) : SettingsRead :=
  match filled? environment "DECIDE_LOG_LEVEL" with
  | none => read
  | some text =>
      match Log.Level.ofName? text with
      | some level => { read with settings.level := level }
      | none =>
          let names := ", ".intercalate (Log.Level.all.map Log.Level.name)
          let error := s!"DECIDE_LOG_LEVEL must be one of {names} (got \"{text}\")"
          { read with errors := read.errors ++ [error] }

def readColors (environment : Record String) (read : SettingsRead) : SettingsRead :=
  match filled? environment "DECIDE_LOG_COLORS" with
  | none => read
  | some text =>
      let choice := Text.smalls (Text.trim text)
      if choice = "true" then { read with settings.colors := true }
      else if choice = "false" then { read with settings.colors := false }
      else
        let error := s!"DECIDE_LOG_COLORS must be true or false (got \"{text}\")"
        { read with errors := read.errors ++ [error] }

/-- A setting that cannot be read keeps its usual value. -/
def readSettings (environment : Record String) : SettingsRead :=
  readColors environment (readLevel environment ⟨.usual, []⟩)

end RuleAdvisor.CommandLine
