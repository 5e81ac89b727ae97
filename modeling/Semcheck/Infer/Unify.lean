/-
  Unification.

  `unify expected found` makes the two types agree by binding slots.  Two
  distinct unbound slots are not linked at once: a rule is queued that they
  have the same type.  An error inside a structure is reported as a mismatch of
  the whole structure, and what was bound before the error stays bound.

  In the lax mode a bound slot on the expected side whose type does not match
  the found type takes the found type instead.

  Unification descends along the structure of the expected type; only where it
  meets a bound slot does it go on with another type, the one the slot stands
  for.  Each time it does so it either gets closer to the end of the chain of
  bindings, or a slot was bound in the meantime.  With `n` slots this happens at
  most `n * (n + 1)` times on a path, which gives the budget of `unify`.
-/
import Semcheck.Infer.Engine

namespace Semcheck

namespace InferM

def shallow (t : Ty) : InferM Ty :=
  liftM (EngineM.ask fun e => e.shallow t)

def resolve (t : Ty) : InferM Ty :=
  liftM (EngineM.ask fun e => e.resolve t)

/-- The two types do not agree. -/
def mismatch {α : Type} (expected found : Ty) : InferM α := do
  let expected ← resolve expected
  let found ← resolve found
  throw (.mismatch expected found)

/-- Any error of the step is a mismatch of the two types. -/
def orMismatch (step : InferM Unit) (expected found : Ty) : InferM Unit :=
  tryCatch step fun _ => mismatch expected found

/-- Bind an unbound slot to a type, unless the type contains the slot. -/
def bindSlot (s : Slot) (t : Ty) : InferM Unit := do
  let t ← resolve t
  if t.containsSlot s then throw (.recursive s t)
  liftM (EngineM.bind s t)

/-- Require two unbound slots to have the same type. -/
def sameSlots (left right : Slot) : InferM Unit := do
  if left ≠ right then
    let span ← liftM (EngineM.ask fun e => e.origin left)
    modify fun e => e.addRule (.same left right span)

/-- Require two lists of types to have one length. -/
def sameLength (expected found : List Ty) : InferM Unit := do
  if expected.length ≠ found.length then throw (.mismatch (.tuple expected) (.tuple found))

/-- In the lax mode, replace the type of a bound slot by a type that does not
    match it; says whether that was done. -/
def overwrite (s : Slot) (found : Ty) : InferM Bool := do
  let e ← get
  if e.strict then return false
  if !(← liftM (EngineM.ask fun e => e.isBound s)) then return false
  let current ← resolve (.slot s)
  let incoming ← resolve found
  if current.isMatch incoming || incoming.containsSlot s then return false
  liftM (EngineM.rebind s incoming)
  return true

end InferM

open InferM

mutual

/-- Make `found` agree with `expected`.  Where `expected` is a bound slot,
    `deeper` goes on with the type the slot stands for. -/
def unifyWith (deeper : Ty → Ty → InferM Unit) : Ty → Ty → InferM Unit
  | .slot s, found => do
    if ← overwrite s found then return
    let expected ← shallow (.slot s)
    let found ← shallow found
    match expected, found with
    | .slot left, .slot right => sameSlots left right
    | .slot left, found => bindSlot left found
    | expected, .slot right => bindSlot right expected
    | expected, found => deeper expected found
  | .error, found => do
    match ← shallow found with
    | .slot s => bindSlot s .error
    | _ => return
  | .pointer m t, found => do
    match ← shallow found with
    | .slot s => bindSlot s (.pointer m t)
    | .error => return
    | .pointer m' t' =>
      if m ≠ m' then mismatch (.pointer m t) (.pointer m' t')
      else orMismatch (unifyWith deeper t t') (.pointer m t) (.pointer m' t')
    | found => mismatch (.pointer m t) found
  | .struct id, found => do
    match ← shallow found with
    | .slot s => bindSlot s (.struct id)
    | .error => return
    | .struct id' => if id ≠ id' then mismatch (.struct id) (.struct id')
    | found => mismatch (.struct id) found
  | .funct ps r, found => do
    match ← shallow found with
    | .slot s => bindSlot s (.funct ps r)
    | .error => return
    | .funct ps' r' =>
      orMismatch (do sameLength ps ps'; unifyEachWith deeper ps ps') (.funct ps r) (.funct ps' r')
      orMismatch (unifyWith deeper r r') (.funct ps r) (.funct ps' r')
    | .functAny r' => orMismatch (unifyWith deeper r r') (.funct ps r) (.functAny r')
    | found => mismatch (.funct ps r) found
  | .functAny r, found => do
    match ← shallow found with
    | .slot s => bindSlot s (.functAny r)
    | .error => return
    | .funct ps' r' => orMismatch (unifyWith deeper r r') (.functAny r) (.funct ps' r')
    | .functAny r' => orMismatch (unifyWith deeper r r') (.functAny r) (.functAny r')
    | found => mismatch (.functAny r) found
  | .tuple ts, found => do
    match ← shallow found with
    | .slot s => bindSlot s (.tuple ts)
    | .error => return
    | .tuple ts' =>
      orMismatch (do sameLength ts ts'; unifyEachWith deeper ts ts') (.tuple ts) (.tuple ts')
    | found => mismatch (.tuple ts) found
termination_by structural expected => expected

/-- Make the entries of two lists agree, from the left. -/
def unifyEachWith (deeper : Ty → Ty → InferM Unit) : List Ty → List Ty → InferM Unit
  | t :: ts, t' :: ts' => do
    unifyWith deeper t t'
    unifyEachWith deeper ts ts'
  | _, _ => return
termination_by structural expected => expected

end

/-- Unification that goes through a bound slot at most `budget - 1` times on
    every path. -/
def unifyWithin : Nat → Ty → Ty → InferM Unit
  | 0, _, _ => throwThe Fault .budget
  | budget + 1, expected, found => unifyWith (unifyWithin budget) expected found

/-- Make `found` agree with `expected`. -/
def unify (expected found : Ty) : InferM Unit := do
  let n := (← get).slots.length
  unifyWithin ((n + 1) * (n + 1)) expected found

/-- Learn the type of a slot. -/
def inferType (s : Slot) (t : Ty) : InferM Unit :=
  unify (.slot s) t

end Semcheck
