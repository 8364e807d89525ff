import RuleAdvisor.Fuzzy.RuleBase
import RuleAdvisor.Issue

/-!
Sensor readings for one estimate, and the input variables they supply.
-/

namespace RuleAdvisor.Watering

open Fuzzy

structure Readings (α : Type) where
  soilMoisture : α
  temperature : α
  airHumidity : α

def suppliers : List (String × String) :=
  [("soilMoisture", "soil_moisture"), ("temperature", "temperature"),
    ("airHumidity", "air_humidity")]

def supplied : List String := suppliers.map Prod.snd

variable {α : Type}

def Readings.values (readings : Readings α) : Record α where
  entries := supplied.zip [readings.soilMoisture, readings.temperature, readings.airHumidity]
  distinct := by simp [supplied, suppliers]

def supplyIssues (base : RuleBase α) : List (Issue α) :=
  base.inputs.zipIdx.filterMap fun (v, index) =>
    if supplied.contains v.name then none
    else some (.error s!"inputs[{index}].name" (.unsuppliedInput v.name supplied))

end RuleAdvisor.Watering
