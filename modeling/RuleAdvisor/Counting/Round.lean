import RuleAdvisor.Counting.Choice
import RuleAdvisor.Decimal.Numeral

/-!
Rounds of the counting game between a human and the computer. A step either leads to a new round
or is refused, and a refused step leaves the round as it was.
-/

namespace RuleAdvisor.Counting

inductive Player where
  | human
  | computer
  deriving DecidableEq

namespace Player

def name : Player → String
  | human => "human"
  | computer => "computer"

def other : Player → Player
  | human => computer
  | computer => human

end Player

variable {α : Type} [Number α]

def countUp (last : α) : Nat → α → List α
  | 0, _ => []
  | fuel + 1, number => if number ≤ last then number :: countUp last fuel (number + 1) else []

/-- The `count` numbers after `start`, if there is an end to them. Adding one may be rounded, which
the spare fuel covers. -/
def spokenAfter (start count : α) : List α :=
  let first := start + 1
  let last := start + count
  countUp last ((Number.steps (last - first)).getD 0 + 2) first

def spokenText [NumberText α] (start count : α) : String := listedText (spokenAfter start count)

/-- A typed count, refused as no whole number before it is refused for its size. -/
def readCount (rules : Rules α) (typed : String) : Except (Refusal α) α :=
  match Decimal.integer? (Text.trimChars typed.toList) with
  | none => .error (.notWhole rules.longestTurn)
  | some value =>
      let count : α := Number.ofInt value
      if count < 1 ∨ rules.longestTurn < count then .error (.typedCount rules.longestTurn)
      else .ok count

structure Turn (α : Type) where
  player : Player
  count : α
  spoken : List α

structure Round (α : Type) where
  /-- The last number spoken, 0 before the first turn. -/
  total : α
  toMove : Player
  history : List (Turn α)
  /-- Who spoke the target, once it is spoken. -/
  loser : Option Player

namespace Round

def start (first : Player) : Round α := ⟨0, first, [], none⟩

def speak (rules : Rules α) (round : Round α) (count : α) : Except (Refusal α) (Round α) :=
  if round.loser.isSome then .error .roundOver
  else if !Number.isInteger count ∨ count < 1 ∨ rules.longestTurn < count then
    .error (.count rules.longestTurn count)
  else if rules.target - round.total < count then
    .error (.pastTarget count rules.target round.total)
  else
    let total := round.total + count
    .ok {
      total := total
      toMove := round.toMove.other
      history := round.history ++ [⟨round.toMove, count, spokenAfter round.total count⟩]
      loser := if total == rules.target then some round.toMove else none }

def speakTyped (rules : Rules α) (round : Round α) (typed : String) :
    Except (Refusal α) (Round α) :=
  match readCount rules typed with
  | .error refusal => .error refusal
  | .ok count => round.speak rules count

def playComputer (rules : Rules α) (round : Round α) (source : RandomSource α) :
    Except (Refusal α) (Round α) × RandomSource α :=
  if round.loser.isSome then (.error .roundOver, source)
  else if round.toMove ≠ .computer then (.error .notComputersTurn, source)
  else
    match rules.choose round.total source with
    | (.error refusal, source) => (.error refusal, source)
    | (.ok count, source) => (round.speak rules count, source)

def winner (round : Round α) : Option Player := round.loser.map Player.other

end Round

inductive Step (α : Type) where
  | speak (count : α)
  | typed (text : String)
  | computer
  /-- The computer plays if it is its turn, and otherwise `count` is spoken. -/
  | either (count : α)

structure Play (α : Type) where
  round : Round α
  source : RandomSource α

namespace Play

def attempt (rules : Rules α) (play : Play α) :
    Step α → Except (Refusal α) (Round α) × RandomSource α
  | .speak count => (play.round.speak rules count, play.source)
  | .typed text => (play.round.speakTyped rules text, play.source)
  | .computer => play.round.playComputer rules play.source
  | .either count =>
      if play.round.toMove = .computer then play.round.playComputer rules play.source
      else (play.round.speak rules count, play.source)

def step (rules : Rules α) (play : Play α) (step : Step α) : Play α × Option (Refusal α) :=
  match play.attempt rules step with
  | (.ok round, source) => (⟨round, source⟩, none)
  | (.error refusal, source) => (⟨play.round, source⟩, some refusal)

def trace (rules : Rules α) : Play α → List (Step α) → List (Play α × Option (Refusal α))
  | _, [] => []
  | play, step :: rest =>
      let next := play.step rules step
      next :: trace rules next.1 rest

def run (rules : Rules α) (play : Play α) (steps : List (Step α)) : Play α :=
  steps.foldl (fun play step => (play.step rules step).1) play

end Play
end RuleAdvisor.Counting
