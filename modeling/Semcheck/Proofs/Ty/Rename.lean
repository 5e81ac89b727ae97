/-
  Types with their structs renamed.

  The numbers of structs depend on the order of their declarations.  `Ty.rename`
  exchanges the numbers in a type.  Nothing that is asked about a type depends on
  them, as long as different structs keep different numbers.
-/
import Mathlib.Logic.Function.Basic
import Semcheck.Proofs.Ty.Inst
import Semcheck.Ty.Text

namespace Semcheck

open List

namespace Ty

mutual

/-- The type with other numbers for its structs. -/
def rename (f : StructId → StructId) : Ty → Ty
  | .error => .error
  | .slot s => .slot s
  | .pointer m t => .pointer m (t.rename f)
  | .struct id => .struct (f id)
  | .funct ps r => .funct (renameList f ps) (r.rename f)
  | .functAny r => .functAny (r.rename f)
  | .tuple ts => .tuple (renameList f ts)

/-- The types with other numbers for their structs. -/
def renameList (f : StructId → StructId) : List Ty → List Ty
  | [] => []
  | t :: ts => t.rename f :: renameList f ts

end

variable {f : StructId → StructId}

@[simp] theorem renameList_eq_map (f : StructId → StructId) (ts : List Ty) :
    renameList f ts = ts.map (rename f) := by
  induction ts with
  | nil => rfl
  | cons t ts ih => exact congrArg (t.rename f :: ·) ih

@[simp] theorem rename_error : rename f .error = .error := rfl
@[simp] theorem rename_slot (s : Slot) : rename f (.slot s) = .slot s := rfl
@[simp] theorem rename_struct (id : StructId) : rename f (.struct id) = .struct (f id) := rfl
@[simp] theorem rename_pointer (m : Bool) (t : Ty) :
    rename f (.pointer m t) = .pointer m (t.rename f) := rfl
@[simp] theorem rename_functAny (r : Ty) : rename f (.functAny r) = .functAny (r.rename f) := rfl
@[simp] theorem rename_funct (ps : List Ty) (r : Ty) :
    rename f (.funct ps r) = .funct (ps.map (rename f)) (r.rename f) :=
  congrArg (Ty.funct · (r.rename f)) (renameList_eq_map f ps)
@[simp] theorem rename_tuple (ts : List Ty) : rename f (.tuple ts) = .tuple (ts.map (rename f)) :=
  congrArg Ty.tuple (renameList_eq_map f ts)
@[simp] theorem rename_unit : rename f .unit = .unit := rfl

@[simp] theorem rename_id (t : Ty) : t.rename id = t := by
  induction t using Ty.induct with
  | error => simp
  | slot s => simp
  | pointer m t ih => simp [ih]
  | struct id => simp
  | funct ps r hps ih => simp [ih, map_congr_left (g := id) hps]
  | functAny r ih => simp [ih]
  | tuple ts hts => simp [map_congr_left (g := id) hts]

@[simp] theorem rename_eq_slot {t : Ty} {s : Slot} : t.rename f = .slot s ↔ t = .slot s := by
  cases t <;> simp

@[simp] theorem slot?_rename (t : Ty) : (t.rename f).slot? = t.slot? := by
  cases t <;> rfl

@[simp] theorem isError_rename (t : Ty) : (t.rename f).isError = t.isError := by
  cases t <;> rfl

@[simp] theorem isUnit_rename (t : Ty) : (t.rename f).isUnit = t.isUnit := by
  cases t with
  | tuple ts => cases ts <;> rfl
  | _ => rfl

theorem parts_rename (t : Ty) : (t.rename f).parts = t.parts.map (rename f) := by
  have hlist : ∀ ts : List Ty, (∀ t ∈ ts, (t.rename f).parts = t.parts.map (rename f)) →
      partsOfList (ts.map (rename f)) = (partsOfList ts).map (rename f) := by
    intro ts hts
    rw [partsOfList_eq, partsOfList_eq, flatMap_map, map_flatMap]
    exact flatMap_congr hts
  induction t using Ty.induct with
  | error | slot _ | struct _ => rfl
  | pointer m t ih => simp [parts, ih]
  | funct ps r hps ih => simp [parts, ih, hlist ps hps]
  | functAny r ih => simp [parts, ih]
  | tuple ts hts => simp [parts, hlist ts hts]

@[simp] theorem containsError_rename (t : Ty) : (t.rename f).containsError = t.containsError := by
  simp [containsError, parts_rename, Function.comp_def]

@[simp] theorem slots_rename (t : Ty) : (t.rename f).slots = t.slots := by
  simp [slots, parts_rename, filterMap_map]

@[simp] theorem containsSlot_rename (t : Ty) (s : Slot) :
    (t.rename f).containsSlot s = t.containsSlot s := by
  simp [containsSlot]

theorem structs_rename (t : Ty) : (t.rename f).structs = t.structs.map f := by
  simp only [structs, parts_rename, filterMap_map, map_filterMap]
  refine filterMap_congr fun part _ => ?_
  cases part <;> simp

theorem rename_inst (θ : Slot → Ty) (t : Ty) :
    (t.inst θ).rename f = (t.rename f).inst fun s => (θ s).rename f := by
  induction t using Ty.induct with
  | error | slot _ | struct _ => rfl
  | pointer m t ih | functAny t ih => simp [ih]
  | tuple ts ih => simpa using ih
  | funct ps r ihs ih => simpa [ih] using ihs

@[simp] theorem rename_subst (s : Slot) (u t : Ty) :
    (subst s u t).rename f = subst s (u.rename f) (t.rename f) := by
  simp only [subst_eq_inst, rename_inst, apply_ite (rename f), rename_slot]

@[simp] theorem rename_closeSlots (t : Ty) : t.closeSlots.rename f = (t.rename f).closeSlots := by
  simp only [closeSlots_eq_inst, rename_inst, rename_error]

/-- The text of a type shows the names of its structs, not their numbers. -/
theorem text_rename {name name' : StructId → String} (h : ∀ id, name' (f id) = name id) (t : Ty) :
    (t.rename f).text name' = t.text name := by
  have hlist : ∀ ts : List Ty, (∀ t ∈ ts, (t.rename f).text name' = t.text name) →
      texts name' (ts.map (rename f)) = texts name ts := by
    intro ts hts
    induction ts with
    | nil => rfl
    | cons t ts ih =>
      rw [forall_mem_cons] at hts
      rw [map_cons, texts, texts, hts.1, ih hts.2]
  induction t using Ty.induct with
  | error => simp [text]
  | slot s => simp [text]
  | pointer m t ih => cases m <;> simp [text, ih]
  | struct id => simp [text, h]
  | funct ps r hps ih => simp [text, ih, hlist ps hps]
  | functAny r ih => simp [text, ih]
  | tuple ts hts =>
    have hts' := hlist ts hts
    rcases ts with _ | ⟨t, _ | ⟨u, ts⟩⟩
    · simp [text, texts]
    · simp [text, hts t (by simp)]
    · rw [rename_tuple, map_cons, map_cons, text, text, ← map_cons, ← map_cons,
        hts']
      all_goals simp

section Injective

variable (hf : Function.Injective f)
include hf

theorem isMatch_rename (t u : Ty) : (t.rename f).isMatch (u.rename f) = t.isMatch u := by
  have hlist : ∀ ts us : List Ty,
      (∀ t ∈ ts, ∀ u, (t.rename f).isMatch (u.rename f) = t.isMatch u) →
      allMatch (ts.map (rename f)) (us.map (rename f)) = allMatch ts us := by
    intro ts
    induction ts with
    | nil => intro us _; cases us <;> simp [allMatch]
    | cons t ts ih =>
      intro us hts
      rw [forall_mem_cons] at hts
      cases us with
      | nil => simp [allMatch]
      | cons u us => simp [allMatch, hts.1 u, ih us hts.2]
  induction t using Ty.induct generalizing u with
  | error => simp [isMatch]
  | slot s => simp [isMatch]
  | pointer m t ih => cases u <;> simp [isMatch, ih]
  | struct id => cases u <;> simp [isMatch, hf.eq_iff]
  | funct ps r hps ih => cases u <;> simp [isMatch, ih, hlist ps _ hps]
  | functAny r ih => cases u <;> simp [isMatch, ih]
  | tuple ts hts => cases u <;> simp [isMatch, hlist ts _ hts]

end Injective

end Ty

end Semcheck
