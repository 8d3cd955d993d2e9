import ActiveSet.Decimal.Text
import ActiveSet.Workspace
/-
  What a solve reports on its way

  Every decision of a solve is an event. `Event.text` words it, and
  `Event.isWarning` tells the events that announce an end short of success
  from the steps on the way there.
-/

namespace ActiveSet

/-- One decision of a solve. -/
inductive Event (α : Type) where
  | started (value condition : α)
  | dependentEquality (index : Nat)
  | limitReached (limit : Nat) (infeasibility : α)
  | onlyDegenerate (candidates : List Nat)
  | adding (iteration candidate : Nat) (slack : α)
  | dualStep (step : α) (dropped : Label)
  | partialStep (step : α) (dropped : Label)
  | fullStep (step : α) (candidate : Nat)
  | noStep (candidate : Nat)
  | degenerate (candidate : Nat)

namespace Event

/-- Whether the event announces that something went wrong. -/
def isWarning {α : Type} : Event α → Bool
  | dependentEquality _ | limitReached .. | onlyDegenerate _ | noStep _ | degenerate _ => true
  | started .. | adding .. | dualStep .. | partialStep .. | fullStep .. => false

/-- The greatest length of a line in a list of indices, without its closing bracket. -/
def lineWidth : Nat := 74

/-- Appends indices to a list that is broken into lines; a new line starts with one blank. -/
def breakLines : List String → (lines line : String) → String
  | [], lines, line => lines ++ line
  | w :: ws, lines, line =>
    if lineWidth < line.length + 1 + w.length then
      breakLines ws (lines ++ line ++ "\n") (" " ++ w)
    else breakLines ws lines (line ++ " " ++ w)

/-- The greatest number of indices that are listed in full. -/
def fullLength : Nat := 1000

/-- How many indices are listed at either end of a longer list. -/
def edgeLength : Nat := 3

/-- Indices as texts, each as wide as the widest. -/
def aligned (indices : List Nat) : List String :=
  let texts := indices.map toString
  let width := texts.foldl (fun w t => max w t.length) 0
  texts.map fun t => String.ofList (List.replicate (width - t.length) ' ') ++ t

/-- A list of indices in brackets; of a long one the two ends. -/
def indexList (indices : List Nat) : String :=
  let texts :=
    if fullLength < indices.length then
      let ends := aligned (indices.take edgeLength ++ indices.drop (indices.length - edgeLength))
      ends.take edgeLength ++ "..." :: ends.drop edgeLength
    else aligned indices
  match texts with
  | [] => "[]"
  | t :: ts => breakLines ts "" ("[" ++ t) ++ "]"

/-- The event in words. -/
def text : Event Float → String
  | started value condition =>
    "Unconstrained minimum " ++ Decimal.generalText 10 value ++ ", condition estimate " ++
      Decimal.generalText 3 condition
  | dependentEquality i =>
    "Equality constraint " ++ toString i ++ " is linearly dependent on the previous ones"
  | limitReached limit infeasibility =>
    "Iteration limit " ++ toString limit ++ " reached with total infeasibility " ++
      Decimal.generalText 3 infeasibility
  | onlyDegenerate candidates =>
    "Only degenerate constraints remain violated: " ++ indexList candidates
  | adding iteration candidate slack =>
    "Iteration " ++ toString iteration ++ ": adding constraint " ++ toString candidate ++
      " with slack " ++ Decimal.generalText 6 slack
  | dualStep step dropped =>
    "Dual step " ++ Decimal.generalText 6 step ++ ", dropping constraint " ++
      toString dropped.code
  | partialStep step dropped =>
    "Partial step " ++ Decimal.generalText 6 step ++ ", dropping constraint " ++
      toString dropped.code
  | fullStep step candidate =>
    "Full step " ++ Decimal.generalText 6 step ++ ", constraint " ++ toString candidate ++
      " added"
  | noStep candidate =>
    "Constraint " ++ toString candidate ++ " admits neither a primal nor a dual step"
  | degenerate candidate =>
    "Constraint " ++ toString candidate ++ " is degenerate, rolling back"

end Event

end ActiveSet
