/-
  Two unifications, side by side.

  One is about some types, and the other about the same types with other numbers for
  structs.  A relation between their steps that all the parts keep holds between the
  two as a whole (`InferM.Paired.unifyWith`).  A relation that looks at one of the
  steps only is a property of unification, and one for the renaming that changes
  nothing compares two ways to go on below a bound slot.
-/
import Semcheck.Infer.Unify
import Semcheck.Proofs.Ty.Rename

namespace Semcheck.InferM

open Ty List

/-- What is asked of a relation `R` between steps, where `R g x y` also says that `y` gives `g a` if
    `x` gives `a`. -/
structure Paired (f : StructId → StructId)
    (R : {α : Type} → (α → α) → InferM α → InferM α → Prop) : Prop where
  pure : R id (pure ()) (pure ())
  bind : ∀ {α : Type} {g : α → α} {x y : InferM α} {k k' : α → InferM Unit}, R g x y →
    (∀ a, R id (k a) (k' (g a))) → R id (x >>= k) (y >>= k')
  shallow : ∀ t, R (Ty.rename f) (shallow t) (shallow (t.rename f))
  mismatch : ∀ t u : Ty, R (α := Unit) id (mismatch t u) (mismatch (t.rename f) (u.rename f))
  orMismatch : ∀ {x y : InferM Unit} (t u : Ty), R id x y →
    R id (orMismatch x t u) (orMismatch y (t.rename f) (u.rename f))
  bindSlot : ∀ s t, R id (bindSlot s t) (bindSlot s (t.rename f))
  sameSlots : ∀ s s', R id (sameSlots s s') (sameSlots s s')
  sameLength : ∀ ts us : List Ty, R id (sameLength ts us)
    (sameLength (ts.map (Ty.rename f)) (us.map (Ty.rename f)))
  overwrite : ∀ s t, R id (overwrite s t) (overwrite s (t.rename f))

namespace Paired

variable {f : StructId → StructId} {R : {α : Type} → (α → α) → InferM α → InferM α → Prop}
  {deeper deeper' : Ty → Ty → InferM Unit}

theorem unifyLists (h : Paired f R) {ts : List Ty}
    (hts : ∀ t ∈ ts, ∀ u, R id (unifyWith deeper t u) (unifyWith deeper' (t.rename f) (u.rename f)))
    (us : List Ty) : R id (do InferM.sameLength ts us; unifyEachWith deeper ts us)
      (do InferM.sameLength (ts.map (.rename f)) (us.map (.rename f))
          unifyEachWith deeper' (ts.map (.rename f)) (us.map (.rename f))) := by
  refine h.bind (h.sameLength ts us) fun _ => ?_
  induction ts generalizing us with
  | nil =>
    simp only [map_nil, unifyEachWith]
    exact h.pure
  | cons t ts ih =>
    rw [forall_mem_cons] at hts
    cases us with
    | nil =>
      simp only [map_nil, unifyEachWith]
      exact h.pure
    | cons u us =>
      simp only [map_cons, unifyEachWith]
      exact h.bind (hts.1 u) fun _ => ih hts.2 us

theorem unifyWith (h : Paired f R) (hf : Function.Injective f)
    (hd : ∀ t u, R id (deeper t u) (deeper' (t.rename f) (u.rename f))) (t u : Ty) :
    R id (unifyWith deeper t u) (unifyWith deeper' (t.rename f) (u.rename f)) := by
  induction t using Ty.induct generalizing u with
  | error =>
    rw [rename_error, Semcheck.unifyWith, Semcheck.unifyWith]
    refine h.bind (h.shallow u) fun found => ?_
    cases found with
    | slot s => exact h.bindSlot s .error
    | _ => exact h.pure
  | slot s =>
    rw [rename_slot, Semcheck.unifyWith, Semcheck.unifyWith]
    refine h.bind (h.overwrite s u) fun written => ?_
    cases written with
    | true => exact h.pure
    | false =>
      refine h.bind (h.shallow (.slot s)) fun expected => h.bind (h.shallow u) fun found => ?_
      cases expected with
      | slot left =>
        cases found with
        | slot right => exact h.sameSlots left right
        | _ => exact h.bindSlot left _
      | _ =>
        cases found with
        | slot right => exact h.bindSlot right _
        | _ => exact hd _ _
  | pointer m t ih =>
    rw [rename_pointer, Semcheck.unifyWith, Semcheck.unifyWith]
    refine h.bind (h.shallow u) fun found => ?_
    cases found with
    | slot s => exact h.bindSlot s (.pointer m t)
    | error => exact h.pure
    | pointer m' t' =>
      rw [rename_pointer]
      dsimp only
      by_cases hm : m ≠ m'
      · rw [if_pos hm, if_pos hm]
        exact h.mismatch (.pointer m t) (.pointer m' t')
      · rw [if_neg hm, if_neg hm]
        exact h.orMismatch (.pointer m t) (.pointer m' t') (ih t')
    | _ => exact h.mismatch (.pointer m t) _
  | struct id =>
    rw [rename_struct, Semcheck.unifyWith, Semcheck.unifyWith]
    refine h.bind (h.shallow u) fun found => ?_
    cases found with
    | slot s => exact h.bindSlot s (.struct id)
    | error => exact h.pure
    | struct id' =>
      simp only [rename_struct, ne_eq, hf.eq_iff]
      by_cases hid : ¬ id = id'
      · rw [if_pos hid, if_pos hid]
        exact h.mismatch (.struct id) (.struct id')
      · rw [if_neg hid, if_neg hid]
        exact h.pure
    | _ => exact h.mismatch (.struct id) _
  | funct ps r hps ih =>
    have hclash := h.mismatch (.funct ps r)
    have hparts := fun {x y} u => h.orMismatch (x := x) (y := y) (.funct ps r) u
    have hbind := fun s => h.bindSlot s (.funct ps r)
    rw [rename_funct] at hclash hparts hbind ⊢
    rw [Semcheck.unifyWith, Semcheck.unifyWith]
    refine h.bind (h.shallow u) fun found => ?_
    cases found with
    | slot s => exact hbind s
    | error => exact h.pure
    | funct ps' r' =>
      have hparts := fun {x y} => hparts (x := x) (y := y) (.funct ps' r')
      rw [rename_funct] at hparts ⊢
      exact h.bind (hparts (h.unifyLists hps ps')) fun _ => hparts (ih r')
    | functAny r' => exact hparts (.functAny r') (ih r')
    | _ => exact hclash _
  | functAny r ih =>
    rw [rename_functAny, Semcheck.unifyWith, Semcheck.unifyWith]
    refine h.bind (h.shallow u) fun found => ?_
    cases found with
    | slot s => exact h.bindSlot s (.functAny r)
    | error => exact h.pure
    | funct ps' r' => exact h.orMismatch (.functAny r) (.funct ps' r') (ih r')
    | functAny r' => exact h.orMismatch (.functAny r) (.functAny r') (ih r')
    | _ => exact h.mismatch (.functAny r) _
  | tuple ts hts =>
    have hclash := h.mismatch (.tuple ts)
    have hentries := fun us => h.orMismatch (.tuple ts) (.tuple us) (h.unifyLists hts us)
    have hbind := fun s => h.bindSlot s (.tuple ts)
    simp only [rename_tuple] at hclash hentries hbind ⊢
    rw [Semcheck.unifyWith, Semcheck.unifyWith]
    refine h.bind (h.shallow u) fun found => ?_
    cases found with
    | slot s => exact hbind s
    | error => exact h.pure
    | tuple ts' =>
      rw [rename_tuple]
      exact hentries ts'
    | _ => exact hclash _

end Paired

end Semcheck.InferM
