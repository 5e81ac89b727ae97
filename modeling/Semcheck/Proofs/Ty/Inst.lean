/-
  Instances of types, and types that agree.

  A slot that occurs properly in a type has another instance than the type
  (`inst_ne`): this is why unification may reject a recursive binding.

  Types agree (`Ty.Agree`) if they are equal up to erroneous parts and unknown
  parameter lists.  Plain types that agree are equal, and types that agree match.
-/
import Mathlib.Data.List.Forall2
import Semcheck.Proofs.Ty.Subst

namespace Semcheck

open List Ty

namespace Ty

variable {θ : Slot → Ty} {t t' p : Ty} {ts ts' : List Ty} {s : Slot}

/-! ## Instances -/

/-- Replacing a slot by a type with the same instance changes no instance. -/
theorem inst_subst {u : Ty} (h : θ s = u.inst θ) (t : Ty) : (subst s u t).inst θ = t.inst θ := by
  induction t using Ty.induct with
  | error | struct _ => rfl
  | slot s' =>
    rw [subst]
    split
    · rename_i hs
      rw [← h, inst_slot, hs]
    · rfl
  | pointer m t ih | functAny t ih => simp [subst, ih]
  | tuple ts ih => simpa [subst, substList_eq] using ih
  | funct ps r ihs ih => simpa [subst, substList_eq, ih] using ihs

theorem mem_parts_inst (h : p ∈ t.parts) : p.inst θ ∈ (t.inst θ).parts := by
  induction t using Ty.induct with
  | error | slot _ | struct _ =>
    simp only [mem_parts_error, mem_parts_slot, mem_parts_struct] at h
    subst h
    exact mem_parts_self _
  | pointer m t ih | functAny t ih =>
    simp only [mem_parts_pointer, mem_parts_functAny] at h
    rcases h with rfl | h
    · exact mem_parts_self _
    · simp [ih h]
  | tuple ts ih =>
    rcases mem_parts_tuple.1 h with rfl | ⟨t, ht, h⟩
    · exact mem_parts_self _
    · rw [inst_tuple, mem_parts_tuple]
      exact .inr ⟨_, mem_map_of_mem ht, ih t ht h⟩
  | funct ps r ihs ih =>
    rcases mem_parts_funct.1 h with rfl | h | ⟨t, ht, h⟩
    · exact mem_parts_self _
    · simp [ih h]
    · rw [inst_funct, mem_parts_funct]
      exact .inr (.inr ⟨_, mem_map_of_mem ht, ihs t ht h⟩)

/-- A type becomes closed if its slots get closed types. -/
theorem closed_inst (h : ∀ s ∈ t.slots, (θ s).Closed) : (t.inst θ).Closed := by
  intro s' hs'
  obtain ⟨s, hs, hmem⟩ := mem_slots_of_inst hs'
  exact h s hs s' hmem

/-- The instance of a proper part is smaller than the instance of the type. -/
theorem sizeOf_inst_part (h : p ∈ t.parts) : p = t ∨ sizeOf (p.inst θ) < sizeOf (t.inst θ) := by
  induction t using Ty.induct with
  | error | slot _ | struct _ => exact .inl (by simpa using h)
  | pointer m t ih | functAny t ih =>
    simp only [mem_parts_pointer, mem_parts_functAny] at h
    refine h.imp id fun h => ?_
    simp only [inst_pointer, inst_functAny, pointer.sizeOf_spec, functAny.sizeOf_spec]
    rcases ih h with rfl | hlt <;> omega
  | tuple ts ih =>
    refine (mem_parts_tuple.1 h).imp id fun h => ?_
    obtain ⟨t, ht, h⟩ := h
    have hmem := sizeOf_lt_of_mem (mem_map_of_mem (f := inst θ) ht)
    simp only [inst_tuple, tuple.sizeOf_spec]
    rcases ih t ht h with rfl | hlt <;> omega
  | funct ps r ihs ih =>
    refine (mem_parts_funct.1 h).imp id fun h => ?_
    simp only [inst_funct, funct.sizeOf_spec]
    rcases h with h | ⟨t, ht, h⟩
    · rcases ih h with rfl | hlt <;> omega
    · have hmem := sizeOf_lt_of_mem (mem_map_of_mem (f := inst θ) ht)
      rcases ihs t ht h with rfl | hlt <;> omega

/-- A slot that occurs properly in a type has another instance than the type. -/
theorem inst_ne (hs : s ∈ t.slots) (ht : t.slot? = none) : θ s ≠ t.inst θ := by
  intro heq
  rcases sizeOf_inst_part (θ := θ) (mem_slots.1 hs) with rfl | hlt
  · cases ht
  · rw [inst_slot, heq] at hlt
    exact Nat.lt_irrefl _ hlt

/-! ## Agreement -/

/-- The types are equal up to erroneous parts and unknown parameter lists. -/
inductive Agree : Ty → Ty → Prop
  | error (t : Ty) : Agree .error t
  | errorRight (t : Ty) : Agree t .error
  | slot (s : Slot) : Agree (.slot s) (.slot s)
  | pointer {m : Bool} {t t' : Ty} : Agree t t' → Agree (.pointer m t) (.pointer m t')
  | struct (id : StructId) : Agree (.struct id) (.struct id)
  | funct {ps ps' : List Ty} {r r' : Ty} : List.Forall₂ Agree ps ps' → Agree r r' →
    Agree (.funct ps r) (.funct ps' r')
  | functAny {r r' : Ty} : Agree r r' → Agree (.functAny r) (.functAny r')
  | unknown {ps' : List Ty} {r r' : Ty} : Agree r r' → Agree (.functAny r) (.funct ps' r')
  | unknownRight {ps : List Ty} {r r' : Ty} : Agree r r' → Agree (.funct ps r) (.functAny r')
  | tuple {ts ts' : List Ty} : List.Forall₂ Agree ts ts' → Agree (.tuple ts) (.tuple ts')

namespace Agree

theorem refl (t : Ty) : Agree t t := by
  induction t using Ty.induct with
  | error => exact .error _
  | slot s => exact .slot s
  | pointer m t ih => exact .pointer ih
  | struct id => exact .struct id
  | funct ps r ihs ih => exact .funct (forall₂_same.2 ihs) ih
  | functAny r ih => exact .functAny ih
  | tuple ts ih => exact .tuple (forall₂_same.2 ih)

theorem of_eq (h : t = t') : Agree t t' :=
  h ▸ refl t

theorem forall₂_imp {P : Ty → Ty → Prop} {ts ts' : List Ty} (h : Forall₂ Agree ts ts')
    (hP : ∀ t ∈ ts, ∀ t' ∈ ts', Agree t t' → P t t') : Forall₂ P ts ts' := by
  induction h with
  | nil => exact .nil
  | cons h hs ih =>
    refine .cons (hP _ (by simp) _ (by simp) h) (ih fun t ht t' ht' => ?_)
    exact hP t (mem_cons_of_mem _ ht) t' (mem_cons_of_mem _ ht')

theorem symm (h : Agree t t') : Agree t' t := by
  induction t using Ty.induct generalizing t' with
  | error => exact .errorRight _
  | slot s => cases h with
    | errorRight => exact .error _
    | slot => exact .slot s
  | pointer m t ih => cases h with
    | errorRight => exact .error _
    | pointer h => exact .pointer (ih h)
  | struct id => cases h with
    | errorRight => exact .error _
    | struct => exact .struct id
  | functAny r ih => cases h with
    | errorRight => exact .error _
    | functAny h => exact .functAny (ih h)
    | unknown h => exact .unknownRight (ih h)
  | tuple ts ih => cases h with
    | errorRight => exact .error _
    | tuple h => exact .tuple (forall₂_imp h fun t ht _ _ ha => ih t ht ha).flip
  | funct ps r ihs ih => cases h with
    | errorRight => exact .error _
    | unknownRight h => exact .unknown (ih h)
    | funct hs h => exact .funct (forall₂_imp hs fun t ht _ _ ha => ihs t ht ha).flip (ih h)

/-- Agreement of instances, entry by entry. -/
theorem cons {ts ts' : List Ty} (h : Agree (t.inst θ) (t'.inst θ))
    (hs : Agree ((Ty.tuple ts).inst θ) ((Ty.tuple ts').inst θ)) :
    Agree ((Ty.tuple (t :: ts)).inst θ) ((Ty.tuple (t' :: ts')).inst θ) := by
  rw [inst_tuple, inst_tuple] at hs ⊢
  cases hs with
  | tuple hs => exact .tuple (.cons h hs)

/-- Function types agree if the parameters and the results do. -/
theorem signature {ps ps' : List Ty} {r r' : Ty}
    (hs : Agree ((Ty.tuple ps).inst θ) ((Ty.tuple ps').inst θ)) (h : Agree (r.inst θ) (r'.inst θ)) :
    Agree ((Ty.funct ps r).inst θ) ((Ty.funct ps' r').inst θ) := by
  rw [inst_tuple, inst_tuple] at hs
  rw [inst_funct, inst_funct]
  cases hs with
  | tuple hs => exact .funct hs h

/-- Plain types that agree are equal. -/
theorem eq_of_plain (h : Agree t t') (ht : t.Plain) (ht' : t'.Plain) : t = t' := by
  induction t using Ty.induct generalizing t' with
  | error => exact absurd ht not_plain_error
  | functAny r => exact absurd ht not_plain_functAny
  | slot s => cases h with
    | errorRight => exact absurd ht' not_plain_error
    | slot => rfl
  | struct id => cases h with
    | errorRight => exact absurd ht' not_plain_error
    | struct => rfl
  | pointer m t ih => cases h with
    | errorRight => exact absurd ht' not_plain_error
    | pointer h => rw [ih h (all_pointer.1 ht).2 (all_pointer.1 ht').2]
  | tuple ts ih => cases h with
    | errorRight => exact absurd ht' not_plain_error
    | tuple h =>
      have heq := forall₂_imp (P := Eq) h fun t hm t' hm' ha =>
        ih t hm ha ((all_tuple.1 ht).2 t hm) ((all_tuple.1 ht').2 t' hm')
      rw [forall₂_eq_eq_eq] at heq
      rw [heq]
  | funct ps r ihs ih => cases h with
    | errorRight => exact absurd ht' not_plain_error
    | unknownRight h => exact absurd ht' not_plain_functAny
    | funct hs h =>
      have heq := forall₂_imp (P := Eq) hs fun t hm t' hm' ha =>
        ihs t hm ha ((all_funct.1 ht).2.2 t hm) ((all_funct.1 ht').2.2 t' hm')
      rw [forall₂_eq_eq_eq] at heq
      rw [heq, ih h (all_funct.1 ht).2.1 (all_funct.1 ht').2.1]

end Agree

theorem allMatch_of_forall₂ (h : Forall₂ (fun t t' => t.isMatch t' = true) ts ts') :
    allMatch ts ts' = true := by
  induction h with
  | nil => rfl
  | cons h _ ih => simp [allMatch, h, ih]

theorem Agree.isMatch (h : Agree t t') : t.isMatch t' = true := by
  induction t using Ty.induct generalizing t' with
  | error | slot _ => cases t' <;> rfl
  | struct id => cases h with
    | errorRight => rfl
    | struct => simp [isMatch]
  | pointer m t ih => cases h with
    | errorRight => rfl
    | pointer h => simp [isMatch, ih h]
  | functAny r ih => cases h with
    | errorRight => rfl
    | functAny h | unknown h => exact ih h
  | tuple ts ih => cases h with
    | errorRight => rfl
    | tuple h => exact allMatch_of_forall₂ (forall₂_imp h fun t ht _ _ ha => ih t ht ha)
  | funct ps r ihs ih => cases h with
    | errorRight => rfl
    | unknownRight h => exact ih h
    | funct hs h =>
      rw [isMatch, ih h, Bool.true_and]
      exact allMatch_of_forall₂ (forall₂_imp hs fun t ht _ _ ha => ihs t ht ha)

theorem length_eq_of_allMatch (h : allMatch ts ts' = true) : ts.length = ts'.length := by
  induction ts generalizing ts' with
  | nil => cases ts' with
    | nil => rfl
    | cons t' ts' => cases h
  | cons t ts ih => cases ts' with
    | nil => cases h
    | cons t' ts' =>
      rw [allMatch, Bool.and_eq_true] at h
      simp [ih h.2]

theorem allMatch_of_inst
    (ih : ∀ t ∈ ts, ∀ t' : Ty, (t.inst θ).isMatch (t'.inst θ) = true → t.isMatch t' = true)
    (h : allMatch (ts.map (inst θ)) (ts'.map (inst θ)) = true) : allMatch ts ts' = true := by
  induction ts generalizing ts' with
  | nil => cases ts' with
    | nil => rfl
    | cons t' ts' => exact h
  | cons t ts ihs => cases ts' with
    | nil => exact h
    | cons t' ts' =>
      rw [forall_mem_cons] at ih
      simp only [map_cons, allMatch, Bool.and_eq_true] at h ⊢
      exact ⟨ih.1 t' h.1, ihs ih.2 h.2⟩

/-- What becomes known later does not make types match. -/
theorem isMatch_of_inst (h : (t.inst θ).isMatch (t'.inst θ) = true) : t.isMatch t' = true := by
  induction t using Ty.induct generalizing t' with
  | error | slot _ => cases t' <;> rfl
  | struct id => cases t' with
    | error | slot _ => rfl
    | struct id' => exact h
    | _ => simp [isMatch] at h
  | pointer m t ih => cases t' with
    | error | slot _ => rfl
    | pointer m' t' =>
      simp only [inst_pointer, isMatch, Bool.and_eq_true] at h ⊢
      exact ⟨h.1, ih h.2⟩
    | _ => simp [isMatch] at h
  | functAny r ih => cases t' with
    | error | slot _ => rfl
    | funct ps' r' =>
      simp only [inst_funct, inst_functAny, isMatch] at h ⊢
      exact ih h
    | functAny r' => exact ih h
    | _ => simp [isMatch] at h
  | tuple ts ih => cases t' with
    | error | slot _ => rfl
    | tuple ts' =>
      simp only [inst_tuple, isMatch] at h ⊢
      exact allMatch_of_inst (fun t ht _ => ih t ht) h
    | _ => simp [isMatch] at h
  | funct ps r ihs ih => cases t' with
    | error | slot _ => rfl
    | funct ps' r' =>
      simp only [inst_funct, isMatch, Bool.and_eq_true] at h ⊢
      exact ⟨ih h.1, allMatch_of_inst (fun t ht _ => ihs t ht) h.2⟩
    | functAny r' =>
      simp only [inst_funct, inst_functAny, isMatch] at h ⊢
      exact ih h
    | _ => simp [isMatch] at h

theorem inst_ne_of_not_match (h : t.isMatch t' ≠ true) : t.inst θ ≠ t'.inst θ :=
  fun heq => h (isMatch_of_inst (Agree.of_eq heq).isMatch)

end Ty

end Semcheck
