/-
  Solving the queued rules.

  `solve` sweeps over the rules until none of them makes progress.  Then every
  rule is stuck on unbound slots, and the first rule that can be settled is:
  two slots that must agree are linked, and an unbound callee gets the type its
  call asks for.  When no rule is left, the slots whose only writer never
  completes become `()`.  Whenever a slot was bound in this way the sweeping
  starts again.

  Both loops have a budget: a sweep that makes progress and binds no slot
  leaves only stuck rules behind, and each new round of sweeps is preceded by
  the binding of a slot.
-/
import Semcheck.Infer.Unify

namespace Semcheck

/-- An error with the place of the rule that failed. -/
structure Failure where
  error : InferError
  span : Location
deriving DecidableEq

namespace EngineM

/-- Bind a slot to the erroneous type unless something else bound it. -/
def poison (s : Slot) : EngineM Unit := do
  match ← ask fun e => e.shallow (.slot s) with
  | .slot root => bind root .error
  | _ => return

end EngineM

open EngineM

namespace Rule

/-- Make the arguments of a call agree with the parameters. -/
def unifyArgs : List Ty → List Ty → InferM Unit
  | param :: params, arg :: args => do
    unify param arg
    unifyArgs params args
  | _, _ => return

/-- Apply a rule; says whether it is settled, or has to wait. -/
def apply : Rule → InferM Bool
  | .same left right _ => do
    let leftNow ← InferM.shallow (.slot left)
    let rightNow ← InferM.shallow (.slot right)
    match leftNow, rightNow with
    | .slot l, .slot r => return l = r
    | _, _ =>
      unify (.slot left) (.slot right)
      return true
  | .call callee args returns _ => do
    match ← InferM.shallow (.slot callee) with
    | .slot _ => return false
    | .error =>
      liftM (poison returns)
      return true
    | .funct params result =>
      if params.length ≠ args.length then throw (.argumentCount params.length args.length)
      unifyArgs params args
      unify (.slot returns) result
      return true
    | .functAny result =>
      unify (.slot returns) result
      return true
    | other => throw (.notFunct (← InferM.resolve other))

/-- Apply a rule and put it back if it has to wait.  A call that failed has an
    erroneous result.  Says whether the rule is done with, and how it failed. -/
def attempt (rule : Rule) : EngineM (Bool × List Failure) := do
  match ← rule.apply.run with
  | .ok true => return (true, [])
  | .ok false =>
    modify fun e => e.addRule rule
    return (false, [])
  | .error err =>
    match rule with
    | .call _ _ returns _ => poison returns
    | .same _ _ _ => pure ()
    return (true, [⟨err, rule.span⟩])

def sweep : List Rule → EngineM (Bool × List Failure)
  | [] => return (false, [])
  | rule :: rest => do
    let (done, failures) ← rule.attempt
    let (done', failures') ← sweep rest
    return (done || done', failures ++ failures')

/-- Sweep over the queued rules until a sweep makes no progress. -/
def sweepsWithin : Nat → EngineM (List Failure)
  | 0 => throw .budget
  | budget + 1 => do
    let rules := (← get).rules
    modify fun e => { e with rules := [] }
    let (progressed, failures) ← sweep rules
    if progressed then
      return failures ++ (← sweepsWithin budget)
    else
      return failures

/-- Bind a slot as the first of the stuck rules that can be settled asks for;
    the rules before it are dropped.  Says whether there was such a rule. -/
def settle : List Rule → EngineM Bool
  | [] => do
    modify fun e => { e with rules := [] }
    return false
  | .same left right _ :: rest => do
    let root ← ask fun e => e.shallow (.slot right)
    match ← ask fun e => e.shallow (.slot left) with
    | .slot leftRoot =>
      if root = .slot leftRoot then settle rest
      else
        bind leftRoot root
        modify fun e => { e with rules := rest }
        return true
    | _ => settle rest
  | .call callee args returns span :: rest => do
    match ← ask fun e => e.shallow (.slot callee) with
    | .slot root =>
      let wanted ← ask fun e => e.resolve (.funct args (.slot returns))
      if wanted.containsSlot root then settle rest
      else
        bind root wanted
        modify fun e => { e with rules := .call callee args returns span :: rest }
        return true
    | _ => settle rest

end Rule

/-- Bind the unbound slots whose only writer never completes to `()`.  Says
    whether there was one. -/
def defaultDiverging : EngineM Bool := do
  let slots := (← get).divergingSlots
  slots.forM fun s => bind s Ty.unit
  return !slots.isEmpty

/-- At most `budget` rounds of sweeping and settling. -/
def solveWithin : Nat → EngineM (List Failure)
  | 0 => throw .budget
  | budget + 1 => do
    let failures ← Rule.sweepsWithin ((← get).slots.length + 2)
    if ← Rule.settle (← get).rules then
      return failures ++ (← solveWithin budget)
    if ← defaultDiverging then
      return failures ++ (← solveWithin budget)
    return failures

/-- Process every queued rule; the result lists the rules that failed. -/
def solve : EngineM (List Failure) := do
  solveWithin ((← get).slots.length + 1)

end Semcheck
