/-
  The state of type inference for one function body.

  Lowering allocates a slot wherever a type is not known yet, and binds it
  once the type is learned.  `Bindings` lists the bound slots in the order in
  which they were bound.  The type of a slot is written without slots that are
  bound at that time, so it mentions only slots that are bound later or never;
  following all bindings is therefore one pass over the list, from the oldest
  to the newest (`Bindings.apply`).

  * `Engine` adds the allocated slots, the queued rules and the mode: in the
    strict mode a bound slot keeps its type, in the lax mode a conflicting type
    replaces it;
  * `Engine.shallow` follows bindings at the top of a type, `Engine.resolve`
    everywhere, and `Engine.concretize` also closes what stays open;
  * a slot that was never allocated is a `Fault` for whoever looks at it.
-/
import Semcheck.Defect
import Semcheck.Ty.Text

namespace Semcheck

/-! ## Errors and rules -/

/-- Why two types cannot be made equal, or a call cannot be typed. -/
inductive InferError where
  /-- Two types that must agree do not. -/
  | mismatch (expected found : Ty)
  /-- A called value is not a function. -/
  | notFunct (found : Ty)
  /-- A call passes the wrong number of arguments. -/
  | argumentCount (expected found : Nat)
  /-- A slot would have to contain itself. -/
  | recursive (slot : Slot) (type : Ty)
deriving DecidableEq

def InferError.message : InferError → String
  | .mismatch expected found =>
    "type mismatch: expected " ++ expected.debug ++ ", found " ++ found.debug
  | .notFunct found => found.debug ++ " is not callable"
  | .argumentCount expected found =>
    "expected " ++ toString expected ++ " arguments, found " ++ toString found
  | .recursive slot type => slot.text ++ " occurs in " ++ type.debug

/-- A constraint that waits until more is known. -/
inductive Rule where
  /-- The two slots have the same type. -/
  | same (left right : Slot) (span : Location)
  /-- The callee is a function that takes the arguments and returns the type
      of the slot `returns`. -/
  | call (callee : Slot) (args : List Ty) (returns : Slot) (span : Location)
deriving DecidableEq

/-- Where the constraint arose. -/
def Rule.span : Rule → Location
  | .same _ _ span | .call _ _ _ span => span

/-! ## Bindings -/

/-- The bound slots with their types, in the order in which they were bound. -/
abbrev Bindings := List (Slot × Ty)

namespace Bindings

/-- The type a slot is bound to. -/
def find? (b : Bindings) (s : Slot) : Option Ty :=
  (List.find? (fun entry => entry.1 = s) b).map Prod.snd

/-- The type with every bound slot replaced by what it stands for. -/
def apply (b : Bindings) (t : Ty) : Ty :=
  b.foldl (fun t entry => Ty.subst entry.1 entry.2 t) t

/-- Follow the bindings while the type is a bound slot. -/
def head (b : Bindings) (t : Ty) : Ty :=
  b.foldl (fun t entry => if t = .slot entry.1 then entry.2 else t) t

/-- Bind an unbound slot. -/
def bind (b : Bindings) (s : Slot) (t : Ty) : Bindings :=
  b ++ [(s, t)]

/-- Replace the type of a bound slot. -/
def rebind (b : Bindings) (s : Slot) (t : Ty) : Bindings :=
  b.filter (fun entry => entry.1 ≠ s) ++ [(s, t)]

end Bindings

/-! ## The engine -/

/-- An allocated slot. -/
structure SlotInfo where
  /-- What introduced the slot. -/
  origin : Location
  /-- The only writer of the slot never completes, so that `()` will do. -/
  diverging : Bool

structure Engine where
  slots : List SlotInfo
  bindings : Bindings
  rules : List Rule
  strict : Bool

/-- A step of inference that cannot fail but for a fault. -/
abbrev EngineM := StateT Engine (Except Fault)

/-- A step of inference; the changes made before an error stay. -/
abbrev InferM := ExceptT InferError EngineM

namespace Engine

def empty (strict : Bool) : Engine where
  slots := []
  bindings := []
  rules := []
  strict := strict

def addSlot (e : Engine) (origin : Location) : Slot × Engine :=
  (⟨e.slots.length⟩, { e with slots := e.slots ++ [⟨origin, false⟩] })

def addRule (e : Engine) (rule : Rule) : Engine :=
  { e with rules := e.rules ++ [rule] }

def info (e : Engine) (s : Slot) : Except Fault SlotInfo :=
  match e.slots[s.index]? with
  | some info => .ok info
  | none => .error (.slot s.index)

def origin (e : Engine) (s : Slot) : Except Fault Location := do
  return (← e.info s).origin

def isBound (e : Engine) (s : Slot) : Except Fault Bool := do
  let _ ← e.info s
  return (e.bindings.find? s).isSome

/-- Note that the only writer of the slot never completes. -/
def markDiverging (e : Engine) (s : Slot) : Except Fault Engine := do
  let _ ← e.info s
  return { e with slots := e.slots.modify s.index fun info => { info with diverging := true } }

/-- The slots are allocated. -/
def checkSlots (e : Engine) (slots : List Slot) : Except Fault Unit :=
  slots.forM fun s => do
    let _ ← e.info s

/-- Follow the bindings at the top of a type. -/
def shallow (e : Engine) (t : Ty) : Except Fault Ty := do
  e.checkSlots t.slot?.toList
  let root := e.bindings.head t
  e.checkSlots root.slot?.toList
  return root

/-- Follow the bindings everywhere in a type. -/
def resolve (e : Engine) (t : Ty) : Except Fault Ty := do
  e.checkSlots t.slots
  let resolved := e.bindings.apply t
  e.checkSlots resolved.slots
  return resolved

/-- Resolve a type and close what stays open with errors. -/
def concretize (e : Engine) (t : Ty) : Except Fault Ty := do
  return (← e.resolve t).closeSlots

/-- The allocated slots that are not bound. -/
def unbound (e : Engine) : List (Slot × SlotInfo) :=
  (e.slots.zipIdx.map fun entry => ((⟨entry.2⟩ : Slot), entry.1)).filter fun entry =>
    (e.bindings.find? entry.1).isNone

/-- The slots that are not bound, with what introduced them. -/
def unresolved (e : Engine) : List (Slot × Location) :=
  e.unbound.map fun entry => (entry.1, entry.2.origin)

/-- The slots that are not bound and whose only writer never completes. -/
def divergingSlots (e : Engine) : List Slot :=
  (e.unbound.filter fun entry => entry.2.diverging).map Prod.fst

end Engine

/-! ## Steps -/

namespace EngineM

def ask {α : Type} (question : Engine → Except Fault α) : EngineM α := do
  question (← get)

def bind (s : Slot) (t : Ty) : EngineM Unit := do
  let _ ← ask fun e => e.info s
  modify fun e => { e with bindings := e.bindings.bind s t }

def rebind (s : Slot) (t : Ty) : EngineM Unit := do
  let _ ← ask fun e => e.info s
  modify fun e => { e with bindings := e.bindings.rebind s t }

end EngineM

end Semcheck
