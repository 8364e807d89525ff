import RuleAdvisor.Counting.Position

/-!
The choice of a count: the one that reaches the next safe total if the rules allow it, and a
random one, for which the source is asked once, if the total is safe already. A source of random
numbers is any sequence of values, with the count of those drawn so far.
-/

namespace RuleAdvisor

structure RandomSource (α : Type) where
  value : Nat → α
  draws : Nat

namespace RandomSource

variable {α : Type}

def next (source : RandomSource α) : α × RandomSource α :=
  (source.value source.draws, { source with draws := source.draws + 1 })

def constant (value : α) : RandomSource α := ⟨fun _ => value, 0⟩

def ofArray [Number α] (values : Array α) : RandomSource α :=
  ⟨fun index => values.getD index Number.notANumber, 0⟩

end RandomSource

namespace Counting

variable {α : Type} [Number α]

/-- The count that a random value in `[0, 1)` stands for, each from 1 to `most` alike. -/
def countFor (most value : α) : Except (Refusal α) α :=
  if !Number.isFinite value ∨ value < 0 ∨ 1 ≤ value then .error (.random value)
  else .ok (1 + Number.floor (value * most))

def drawCount (most : α) (source : RandomSource α) :
    Except (Refusal α) α × RandomSource α :=
  let drawn := source.next
  (countFor most drawn.1, drawn.2)

namespace Rules

def winningCount? (rules : Rules α) (total : α) : Option α :=
  match rules.nextSafe? total with
  | some safe =>
      let distance := safe - total
      if 1 ≤ distance ∧ distance ≤ rules.longestTurn then some distance else none
  | none => none

def choose (rules : Rules α) (total : α) (source : RandomSource α) :
    Except (Refusal α) α × RandomSource α :=
  match rules.check, rules.checkTotal total with
  | .error refusal, _ => (.error refusal, source)
  | .ok _, .error refusal => (.error refusal, source)
  | .ok _, .ok _ =>
      match rules.winningCount? total with
      | some count => (.ok count, source)
      | none => drawCount (rules.mostAtRandom total) source

end Rules
end Counting
end RuleAdvisor
