/-
  When the steps of a function are well typed, and what they read.

  The type of an access is the type of its register, of what the register
  points to if the access goes through the pointer, and then of the chain of
  fields (`Access.type?`).  Under construction a type may still be a bound slot
  where its parts are needed; the parameter `view` says how to look through it.

  `Instruction.Typed`, `Event.Typed` say when a step is well typed, for any
  notion of "this access has that type".
-/
import Mathlib.Data.List.Forall2
import Semcheck.Decl.Table
import Semcheck.Proofs.Ir.Flow

namespace Semcheck

open Option Access

/-! ## Types of accesses -/

def Ty.pointee? : Ty → Option Ty
  | .pointer _ pointee => some pointee
  | _ => none

namespace Table

/-- The type of the field or element with the given number. -/
def member? (t : Table) (index : Nat) : Ty → Option Ty
  | .struct id => (t.struct? id).bind fun entry => (entry.fields[index]?).map Field.type
  | .tuple elements => elements[index]?
  | _ => none

/-- The type at the end of a chain of fields. -/
def project? (t : Table) (view : Ty → Ty) : List Nat → Ty → Option Ty
  | [], type => some type
  | index :: rest, type => (t.member? index (view type)).bind (t.project? view rest)

theorem project?_append (t : Table) (view : Ty → Ty) (fields : List Nat) (index : Nat) (type : Ty) :
    t.project? view (fields ++ [index]) type =
      (t.project? view fields type).bind fun member => t.member? index (view member) := by
  induction fields generalizing type with
  | nil => simp [project?]
  | cons i fields ih =>
    rw [List.cons_append, project?, project?, bind_assoc]
    exact congrArg _ (funext ih)

end Table

/-- The type of what an access reaches. -/
def Access.type? (table : Table) (view : Ty → Ty) (registers : List Register) :
    Access → Option Ty
  | .discard => none
  | .place r fields deref =>
    registers[r.index]?.bind fun register =>
      (if deref then (view register.type).pointee? else some register.type).bind
        (table.project? view fields)

theorem Access.type?_register (table : Table) (view : Ty → Ty) (registers : List Register)
    (r : RegisterId) :
    (register r).type? table view registers = registers[r.index]?.map Register.type := by
  simp only [register, type?]
  cases registers[r.index]? <;> rfl

theorem Access.type?_field {table : Table} {view : Ty → Ty} {registers : List Register}
    {a : Access} {type member : Ty} {index : Nat} (h : a.type? table view registers = some type)
    (hm : table.member? index (view type) = some member) :
    (a.field index).type? table view registers = some member := by
  cases a with
  | discard => cases h
  | place r fields deref =>
    simp only [type?, bind_eq_some_iff] at h
    obtain ⟨register, hr, base, hb, hp⟩ := h
    simp [field, type?, hr, hb, Table.project?_append, hp, hm]

/-- The type of what an access of a finished function reaches. -/
def Function.accessType? (table : Table) (f : Function) (a : Access) : Option Ty :=
  a.type? table id f.registers

/-! ## Typing -/

section Typing

variable (table : Table) (has : Access → Ty → Prop)

/-- The destination takes a value of the type; everything can be discarded. -/
def Access.Takes (dest : Access) (t : Ty) : Prop :=
  dest = .discard ∨ has dest t

/-- The type of a literal.  A struct has one operand for each declared field,
    of the type of that field. -/
def Literal.Typed : Literal → Ty → Prop
  | .int _, t => t = .struct .int
  | .bool _, t => t = .struct .bool
  | .tuple elements, t => ∃ types, List.Forall₂ has elements types ∧ t = .tuple types
  | .struct id operands, t => t = .struct id ∧ ∃ entry, table.struct? id = some entry ∧
    List.Forall₂ has operands (entry.fields.map Field.type)
  | .funct id, t => ∃ f, table.funct? id = some f ∧ t = f.signature

/-- The types of the operands and of the destination agree.  A mutable pointer
    may be moved to where an immutable one is wanted. -/
def Instruction.Typed : Instruction → Prop
  | .literal value dest => ∃ t, value.Typed table has t ∧ dest.Takes has t
  | .move source dest => ∃ t, has source t ∧
    (dest.Takes has t ∨ ∃ u, t = .pointer true u ∧ dest.Takes has (.pointer false u))
  | .address source mutable dest => ∃ t, has source t ∧ dest.Takes has (.pointer mutable t)
  | .call callee args dest => ∃ params returns, has callee (.funct params returns) ∧
    List.Forall₂ has args params ∧ dest.Takes has returns

/-- Tests are of truth values, and results of the type the function returns; a
    function without a result returns `()`. -/
def Event.Typed (returns : Ty) : Event → Prop
  | .run i => i.Typed table has
  | .test a => has a (.struct .bool)
  | .exit result => (result = .discard ∧ returns = .unit) ∨ has result returns

variable {table has} {has' : Access → Ty → Prop}

variable (hmono : ∀ a t, has a t → has' a t)
include hmono

theorem Access.Takes.mono {dest : Access} {t : Ty} (h : dest.Takes has t) : dest.Takes has' t :=
  h.imp id (hmono _ _)

theorem Literal.Typed.mono {value : Literal} {t : Ty} (h : value.Typed table has t) :
    value.Typed table has' t := by
  cases value with
  | int | bool | funct => exact h
  | tuple elements =>
    obtain ⟨types, htypes, rfl⟩ := h
    exact ⟨types, htypes.imp hmono, rfl⟩
  | struct id operands =>
    obtain ⟨ht, entry, hentry, hfields⟩ := h
    exact ⟨ht, entry, hentry, hfields.imp hmono⟩

theorem Event.Typed.mono {returns : Ty} {ev : Event} (h : ev.Typed table has returns) :
    ev.Typed table has' returns := by
  cases ev with
  | test a => exact hmono _ _ h
  | exit result => exact h.imp id (hmono _ _)
  | run i =>
    cases i with
    | literal value dest =>
      obtain ⟨t, hv, hd⟩ := h
      exact ⟨t, hv.mono hmono, hd.mono hmono⟩
    | move source dest =>
      obtain ⟨t, hs, hd⟩ := h
      exact ⟨t, hmono _ _ hs, hd.imp (·.mono hmono) fun ⟨u, hu, hd⟩ => ⟨u, hu, hd.mono hmono⟩⟩
    | address source mutable dest =>
      obtain ⟨t, hs, hd⟩ := h
      exact ⟨t, hmono _ _ hs, hd.mono hmono⟩
    | call callee args dest =>
      obtain ⟨params, returns, hc, ha, hd⟩ := h
      exact ⟨params, returns, hmono _ _ hc, ha.imp hmono, hd.mono hmono⟩

end Typing

/-! ## Reading and writing -/

/-- The register that must have a value for the destination to exist: the one
    it starts from, unless it is that register as a whole. -/
def Access.needs : Access → List RegisterId
  | .discard | .place _ [] false => []
  | .place r _ _ => [r]

def Instruction.reads (i : Instruction) : List RegisterId :=
  i.sources.filterMap Access.base? ++ i.dest.needs

def Terminator.reads (t : Terminator) : List RegisterId :=
  t.accesses.filterMap Access.base?

def Event.reads : Event → List RegisterId
  | .run i => i.reads
  | .test a => [a].filterMap Access.base?
  | .exit result => [result].filterMap Access.base?

/-- Whether an instruction writes the whole register. -/
def Instruction.Writes (i : Instruction) (r : RegisterId) : Prop :=
  i.dest = .register r

instance (i : Instruction) (r : RegisterId) : Decidable (i.Writes r) :=
  inferInstanceAs (Decidable (i.dest = .register r))

/-- The number of times the whole register was written. -/
def History.writes (h : History) (r : RegisterId) : Nat :=
  h.countP fun i => i.Writes r

end Semcheck
