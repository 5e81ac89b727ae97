/-
  Types.

  Scalars such as `int` and `bool` are builtin structs, and `()` is the empty
  tuple.  `Ty.error` stands for a type that was already complained about and
  `Ty.slot` for one that is not inferred yet.  A function type has a known list
  of parameters (`Ty.funct`) or an unknown one (`Ty.functAny`).

  * `Ty.parts` lists the types inside a type, and everything that is asked
    about "some part" of a type is a question about this list;
  * `Ty.isSame` is equality (`isSame_iff`);
  * `Ty.isMatch` is compatibility: an open or an erroneous part agrees with
    anything, and an unknown parameter list with every parameter list.
-/
namespace Semcheck

/-- A struct, by its number in the declaration table. -/
structure StructId where
  index : Nat
deriving DecidableEq

/-- An inference slot, by its number. -/
structure Slot where
  index : Nat
deriving DecidableEq

/-- A type. -/
inductive Ty where
  /-- Already diagnosed; no further diagnostic is due. -/
  | error
  /-- Not yet inferred. -/
  | slot (slot : Slot)
  | pointer (mutable : Bool) (pointee : Ty)
  | struct (id : StructId)
  | funct (params : List Ty) (returns : Ty)
  /-- A function whose parameters are not known. -/
  | functAny (returns : Ty)
  | tuple (elements : List Ty)

namespace Ty

/-- The empty tuple `()`. -/
def unit : Ty := .tuple []

def isUnit : Ty → Bool
  | .tuple [] => true
  | _ => false

def isError : Ty → Bool
  | .error => true
  | _ => false

/-- The slot of a type that is one. -/
def slot? : Ty → Option Slot
  | .slot s => some s
  | _ => none

/-! ## Parts -/

mutual

/-- The type itself and all types inside it, outside first; the result of a
    function comes before its parameters. -/
def parts : Ty → List Ty
  | .error => [.error]
  | .slot s => [.slot s]
  | .pointer m t => .pointer m t :: t.parts
  | .struct id => [.struct id]
  | .funct ps r => .funct ps r :: (r.parts ++ partsOfList ps)
  | .functAny r => .functAny r :: r.parts
  | .tuple ts => .tuple ts :: partsOfList ts

/-- The parts of the types of a list, in order. -/
def partsOfList : List Ty → List Ty
  | [] => []
  | t :: ts => t.parts ++ partsOfList ts

end

/-- No part is an error or a slot. -/
def isResolved (t : Ty) : Bool :=
  t.parts.all fun part => !part.isError && part.slot?.isNone

/-- Some part is an error. -/
def containsError (t : Ty) : Bool :=
  t.parts.any isError

/-- The slots among the parts. -/
def slots (t : Ty) : List Slot :=
  t.parts.filterMap slot?

/-- The given slot is a part. -/
def containsSlot (t : Ty) (s : Slot) : Bool :=
  t.slots.contains s

/-- The structs among the parts. -/
def structs (t : Ty) : List StructId :=
  t.parts.filterMap fun
    | .struct id => some id
    | _ => none

/-! ## Equality -/

mutual

/-- The two types are equal. -/
def isSame : Ty → Ty → Bool
  | .error, .error => true
  | .slot s, .slot s' => s = s'
  | .pointer m t, .pointer m' t' => m = m' && t.isSame t'
  | .struct id, .struct id' => id = id'
  | .funct ps r, .funct ps' r' => r.isSame r' && allSame ps ps'
  | .functAny r, .functAny r' => r.isSame r'
  | .tuple ts, .tuple ts' => allSame ts ts'
  | _, _ => false

/-- The two lists are equal. -/
def allSame : List Ty → List Ty → Bool
  | [], [] => true
  | t :: ts, t' :: ts' => t.isSame t' && allSame ts ts'
  | _, _ => false

end

mutual

theorem isSame_refl : ∀ t : Ty, t.isSame t = true
  | .error => rfl
  | .slot s => by simp [isSame]
  | .pointer m t => by simp [isSame, isSame_refl t]
  | .struct id => by simp [isSame]
  | .funct ps r => by simp [isSame, isSame_refl r, allSame_refl ps]
  | .functAny r => by simp [isSame, isSame_refl r]
  | .tuple ts => by simp [isSame, allSame_refl ts]

theorem allSame_refl : ∀ ts : List Ty, allSame ts ts = true
  | [] => rfl
  | t :: ts => by simp [allSame, isSame_refl t, allSame_refl ts]

end

mutual

theorem eq_of_isSame : ∀ {t t' : Ty}, t.isSame t' = true → t = t'
  | .error, t', h => by cases t' <;> simp_all [isSame]
  | .slot s, t', h => by cases t' <;> simp_all [isSame]
  | .pointer m t, t', h => by
    cases t' <;> simp_all [isSame]
    exact eq_of_isSame h.2
  | .struct id, t', h => by cases t' <;> simp_all [isSame]
  | .funct ps r, t', h => by
    cases t' <;> simp_all [isSame]
    exact ⟨eq_of_allSame h.2, eq_of_isSame h.1⟩
  | .functAny r, t', h => by
    cases t' <;> simp_all [isSame]
    exact eq_of_isSame h
  | .tuple ts, t', h => by
    cases t' <;> simp_all [isSame]
    exact eq_of_allSame h

theorem eq_of_allSame : ∀ {ts ts' : List Ty}, allSame ts ts' = true → ts = ts'
  | [], ts', h => by cases ts' <;> simp_all [allSame]
  | t :: ts, ts', h => by
    cases ts' <;> simp_all [allSame]
    exact ⟨eq_of_isSame h.1, eq_of_allSame h.2⟩

end

/-- `isSame` decides equality. -/
theorem isSame_iff {t t' : Ty} : t.isSame t' = true ↔ t = t' :=
  ⟨eq_of_isSame, fun h => h ▸ isSame_refl t⟩

instance : DecidableEq Ty := fun t t' => decidable_of_iff (t.isSame t' = true) isSame_iff

/-! ## Compatibility -/

mutual

/-- The two types agree up to open and erroneous parts. -/
def isMatch : Ty → Ty → Bool
  | .error, _ | .slot _, _ => true
  | .pointer m t, .pointer m' t' => m = m' && t.isMatch t'
  | .struct id, .struct id' => id = id'
  | .funct ps r, .funct ps' r' => r.isMatch r' && allMatch ps ps'
  | .funct _ r, .functAny r' | .functAny r, .funct _ r' | .functAny r, .functAny r' => r.isMatch r'
  | .tuple ts, .tuple ts' => allMatch ts ts'
  | _, .error | _, .slot _ => true
  | _, _ => false

/-- The two lists have one length and agree entry by entry. -/
def allMatch : List Ty → List Ty → Bool
  | [], [] => true
  | t :: ts, t' :: ts' => t.isMatch t' && allMatch ts ts'
  | _, _ => false

end

/-! ## Substitution -/

mutual

/-- The type with `u` in place of the slot `s`. -/
def subst (s : Slot) (u : Ty) : Ty → Ty
  | .error => .error
  | .slot s' => if s' = s then u else .slot s'
  | .pointer m t => .pointer m (subst s u t)
  | .struct id => .struct id
  | .funct ps r => .funct (substList s u ps) (subst s u r)
  | .functAny r => .functAny (subst s u r)
  | .tuple ts => .tuple (substList s u ts)

/-- The types with `u` in place of the slot `s`. -/
def substList (s : Slot) (u : Ty) : List Ty → List Ty
  | [] => []
  | t :: ts => subst s u t :: substList s u ts

end

mutual

/-- The type with every slot replaced by an error. -/
def closeSlots : Ty → Ty
  | .error | .slot _ => .error
  | .pointer m t => .pointer m t.closeSlots
  | .struct id => .struct id
  | .funct ps r => .funct (closeSlotsList ps) r.closeSlots
  | .functAny r => .functAny r.closeSlots
  | .tuple ts => .tuple (closeSlotsList ts)

/-- The types with every slot replaced by an error. -/
def closeSlotsList : List Ty → List Ty
  | [] => []
  | t :: ts => t.closeSlots :: closeSlotsList ts

end

end Ty

end Semcheck
