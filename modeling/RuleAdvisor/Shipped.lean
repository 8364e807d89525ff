import RuleAdvisor.Counting.Rules
import RuleAdvisor.Fuzzy.RuleBase

/-!
The configuration the program comes with: the rules of "Don't Say 21" and the rule base for the
watering time.
-/

namespace RuleAdvisor.Shipped

open Fuzzy

variable {α : Type} [Number α]

/-- Whoever says 21 loses, and a turn says up to three numbers. -/
def gameRules : Counting.Rules α := ⟨21, 3⟩

def triangular (a b c : α) : Shape α := ⟨.triangular, [a, b, c]⟩

def trapezoidal (a b c d : α) : Shape α := ⟨.trapezoidal, [a, b, c, d]⟩

def soilMoisture : Variable α where
  name := "soil_moisture"
  unit := "%"
  domain := ⟨0, 100⟩
  categories := .mk [
    ("dry", trapezoidal 0 0 20 40),
    ("moist", triangular 30 50 70),
    ("wet", trapezoidal 60 80 100 100)] (by simp)

def temperature : Variable α where
  name := "temperature"
  unit := "C"
  domain := ⟨0, 45⟩
  categories := .mk [
    ("cold", trapezoidal 0 0 10 18),
    ("warm", triangular 15 23 30),
    ("hot", trapezoidal 27 35 45 45)] (by simp)

def airHumidity : Variable α where
  name := "air_humidity"
  unit := "%"
  domain := ⟨0, 100⟩
  categories := .mk [
    ("low", trapezoidal 0 0 25 45),
    ("medium", triangular 35 50 65),
    ("high", trapezoidal 55 75 100 100)] (by simp)

def wateringTime : Output α where
  name := "watering_time"
  unit := " min"
  domain := ⟨0, 60⟩
  categories := .mk [
    ("none", triangular 0 0 10),
    ("short", triangular 5 15 25),
    ("medium", triangular 20 30 40),
    ("long", trapezoidal 35 45 60 60)] (by simp)
  resolution := 1

def soilIs (category : String) : Condition := ⟨"soil_moisture", category, false⟩

def temperatureIs (category : String) : Condition := ⟨"temperature", category, false⟩

def airIs (category : String) : Condition := ⟨"air_humidity", category, false⟩

def wateringRules : List Rule := [
  ⟨"R1", "Wet soil needs no water", [soilIs "wet"], "none"⟩,
  ⟨"R2", "Dry soil on a hot day needs a long watering",
    [soilIs "dry", temperatureIs "hot"], "long"⟩,
  ⟨"R3", "Dry soil on a warm day needs a medium watering",
    [soilIs "dry", temperatureIs "warm"], "medium"⟩,
  ⟨"R4", "Dry soil on a cold day needs a short watering",
    [soilIs "dry", temperatureIs "cold"], "short"⟩,
  ⟨"R5", "Moist soil on a hot day needs a medium watering",
    [soilIs "moist", temperatureIs "hot"], "medium"⟩,
  ⟨"R6", "Moist soil on a warm day needs a short watering",
    [soilIs "moist", temperatureIs "warm"], "short"⟩,
  ⟨"R7", "Moist soil on a cold day needs no water",
    [soilIs "moist", temperatureIs "cold"], "none"⟩,
  ⟨"R8", "Dry air over dry soil needs a long watering",
    [airIs "low", soilIs "dry"], "long"⟩,
  ⟨"R9", "Humid air needs no water unless the soil is dry",
    [airIs "high", ⟨"soil_moisture", "dry", true⟩], "none"⟩]

def wateringBase : RuleBase α :=
  ⟨"1.0.0", [soilMoisture, temperature, airHumidity], wateringTime, wateringRules⟩

end RuleAdvisor.Shipped
