/-
  Following bindings one at a time.

  The bindings of an engine are a graph: an edge leads from a bound slot to every
  slot that its type mentions (`Bindings.Refers`).  Ordered bindings have no cycle
  (`Ordered.acyclic`), so to follow them step by step comes to an end:

  * at the top of a type (`Leads`), with what `Bindings.head` finds in one pass;
  * everywhere (`Resolves`), with the result of `Bindings.apply`;
  * everywhere, and once more over the result to close it (`Concretizes`).
-/
import Mathlib.Logic.Relation
import Semcheck.Proofs.Infer.Solution

namespace Semcheck

open Ty List Option

namespace Bindings

variable {b : Bindings} {s s' : Slot} {t : Ty}

/-! ## The graph -/

theorem find?_eq_none : b.find? s = none ↔ s ∉ b.keys := by
  rw [← find?_isSome, not_isSome_iff_eq_none]

theorem mem_of_find? (h : b.find? s = some t) : (s, t) ∈ b := by
  obtain ⟨entry, hentry, rfl⟩ := map_eq_some_iff.1 h
  obtain rfl : entry.1 = s := by simpa using find?_some hentry
  exact mem_of_find?_eq_some hentry

/-- The type of a bound slot mentions the slot `s'`. -/
def Refers (b : Bindings) (s s' : Slot) : Prop :=
  ∃ t, b.find? s = some t ∧ s' ∈ t.slots

theorem height_bound_lt (h : b.Ordered) (hs : (s, t) ∈ b) : b.height t < b.height (.slot s) := by
  induction b with
  | nil => cases hs
  | cons x b ih =>
    obtain ⟨s', u⟩ := x
    rcases mem_cons.1 hs with heq | hs
    · cases heq
      have hle := height_le b t
      rw [height, if_neg h.1, height, if_pos (by simp [mem_slots])]
      omega
    · obtain ⟨hne, hnot⟩ := h.2.1 _ hs
      have hne' : s' ∉ (Ty.slot s).slots := by simpa [mem_slots, eq_comm] using hne
      rw [height, if_neg hnot, height, if_neg hne']
      exact ih h.2.2 hs

theorem Ordered.height_lt (h : b.Ordered) (hr : b.Refers s s') :
    b.height (.slot s') < b.height (.slot s) := by
  obtain ⟨t, ht, hs'⟩ := hr
  have hmono : b.height (.slot s') ≤ b.height t :=
    height_mono b fun s hs => by
      obtain rfl : s = s' := by simpa [mem_slots] using hs
      exact hs'
  exact Nat.lt_of_le_of_lt hmono (height_bound_lt h (mem_of_find? ht))

/-- **Ordered bindings have no cycle.** -/
theorem Ordered.acyclic (h : b.Ordered) (s : Slot) : ¬ Relation.TransGen b.Refers s s := by
  have hlt : ∀ {s'}, Relation.TransGen b.Refers s s' →
      b.height (.slot s') < b.height (.slot s) := by
    intro s' hpath
    induction hpath with
    | single hr => exact h.height_lt hr
    | tail _ hr ih => exact Nat.lt_trans (h.height_lt hr) ih
  exact fun hcycle => Nat.lt_irrefl _ (hlt hcycle)

/-! ## Following at the top -/

/-- Following the bindings while the type is a bound slot leads from the first type
    to the second one. -/
inductive Leads (b : Bindings) : Ty → Ty → Prop
  | known {t : Ty} (h : t.slot? = none) : Leads b t t
  | unbound {s : Slot} (h : b.find? s = none) : Leads b (.slot s) (.slot s)
  | bound {s : Slot} {t u : Ty} (h : b.find? s = some t) (ht : Leads b t u) : Leads b (.slot s) u

theorem head_bound (h : b.Ordered) (hs : (s, t) ∈ b) : b.head (.slot s) = b.head t := by
  induction b with
  | nil => cases hs
  | cons x b ih =>
    obtain ⟨s', u⟩ := x
    rcases mem_cons.1 hs with heq | hs
    · cases heq
      have hne : t ≠ .slot s := by
        rintro rfl
        exact h.1 (by simp [mem_slots])
      rw [head_cons, head_cons, if_pos rfl, if_neg hne]
    · obtain ⟨hne, hnot⟩ := h.2.1 _ hs
      have hne' : t ≠ .slot s' := by
        rintro rfl
        exact hnot (by simp [mem_slots])
      rw [head_cons, head_cons, if_neg (by simpa using hne), if_neg hne']
      exact ih h.2.2 hs

theorem Ordered.leads (h : b.Ordered) (t : Ty) : b.Leads t (b.head t) := by
  -- the types on the way get nearer to the end
  induction hn : b.height t using Nat.strongRecOn generalizing t with
  | ind n ih =>
    cases t with
    | slot s =>
      cases hs : b.find? s with
      | none =>
        rw [head_unbound (find?_eq_none.1 hs)]
        exact .unbound hs
      | some u =>
        have hmem := mem_of_find? hs
        rw [head_bound h hmem]
        exact .bound hs (ih _ (hn ▸ height_bound_lt h hmem) u rfl)
    | _ =>
      rw [head_of_not_slot b rfl]
      exact .known rfl

/-! ## Following everywhere -/

/-- The second type is built anew from the first one: `top` brings the top of a type
    into its final form, and `last` is put for a slot that stays. -/
inductive Rebuilds (top : Ty → Ty → Prop) (last : Slot → Ty) : Ty → Ty → Prop
  | error {t : Ty} (h : top t .error) : Rebuilds top last t .error
  | slot {t : Ty} {s : Slot} (h : top t (.slot s)) : Rebuilds top last t (last s)
  | struct {t : Ty} {id : StructId} (h : top t (.struct id)) : Rebuilds top last t (.struct id)
  | pointer {t u u' : Ty} {m : Bool} (h : top t (.pointer m u)) (hu : Rebuilds top last u u') :
      Rebuilds top last t (.pointer m u')
  | functAny {t r r' : Ty} (h : top t (.functAny r)) (hr : Rebuilds top last r r') :
      Rebuilds top last t (.functAny r')
  | tuple {t : Ty} {ts ts' : List Ty} (h : top t (.tuple ts))
      (hts : List.Forall₂ (Rebuilds top last) ts ts') : Rebuilds top last t (.tuple ts')
  | funct {t r r' : Ty} {ps ps' : List Ty} (h : top t (.funct ps r))
      (hps : List.Forall₂ (Rebuilds top last) ps ps') (hr : Rebuilds top last r r') :
      Rebuilds top last t (.funct ps' r')

/-- Follow the bindings at the top, and then in the parts. -/
def Resolves (b : Bindings) : Ty → Ty → Prop :=
  Rebuilds b.Leads .slot

/-- Resolve a type, and then its parts once more; what stays open is erroneous. -/
def Concretizes (b : Bindings) : Ty → Ty → Prop :=
  Rebuilds b.Resolves fun _ => .error

theorem Rebuilds.map {top : Ty → Ty → Prop} {last : Slot → Ty} {f : Ty → Ty} {ts : List Ty}
    (h : ∀ t ∈ ts, Rebuilds top last t (f t)) : Forall₂ (Rebuilds top last) ts (ts.map f) := by
  rw [forall₂_map_right_iff]
  exact forall₂_same.2 h

theorem Resolves.of_bound {u v : Ty} (h : b.find? s = some u) (hu : b.Resolves u v) :
    b.Resolves (.slot s) v := by
  cases hu with
  | error ht => exact .error (.bound h ht)
  | slot ht => exact .slot (.bound h ht)
  | struct ht => exact .struct (.bound h ht)
  | pointer ht hu => exact .pointer (.bound h ht) hu
  | functAny ht hr => exact .functAny (.bound h ht) hr
  | tuple ht hts => exact .tuple (.bound h ht) hts
  | funct ht hps hr => exact .funct (.bound h ht) hps hr

theorem Ordered.resolves (h : b.Ordered) (t : Ty) : b.Resolves t (b.apply t) := by
  -- through a bound slot the types get nearer to the end, and otherwise smaller
  induction hn : b.height t using Nat.strongRecOn generalizing t with
  | ind n ih =>
    replace hn := Nat.le_of_eq hn
    have part {t p : Ty} (hp : p ∈ t.parts) (hle : b.height t ≤ n) : b.height p ≤ n :=
      Nat.le_trans (height_mono b fun s hs =>
        mem_slots.2 (parts_trans (mem_slots.1 hs) hp)) hle
    induction t using Ty.induct with
    | error =>
      rw [apply_error]
      exact .error (.known rfl)
    | struct id =>
      rw [apply_struct]
      exact .struct (.known rfl)
    | slot s =>
      cases hs : b.find? s with
      | none =>
        rw [apply_unbound (find?_eq_none.1 hs)]
        exact .slot (.unbound hs)
      | some u =>
        have hmem := mem_of_find? hs
        rw [apply_bound h hmem]
        exact .of_bound hs (ih _ (Nat.lt_of_lt_of_le (height_bound_lt h hmem) hn) u rfl)
    | pointer m t iht =>
      rw [apply_pointer]
      exact .pointer (.known rfl) (iht (part (by simp [mem_parts_self]) hn))
    | functAny r ihr =>
      rw [apply_functAny]
      exact .functAny (.known rfl) (ihr (part (by simp [mem_parts_self]) hn))
    | tuple ts ihts =>
      rw [apply_tuple]
      exact .tuple (.known rfl) (Rebuilds.map fun t ht => ihts t ht (part (by
        simpa using .inr ⟨t, ht, mem_parts_self t⟩) hn))
    | funct ps r ihps ihr =>
      rw [apply_funct]
      exact .funct (.known rfl) (Rebuilds.map fun t ht => ihps t ht (part (by
        simpa using .inr (.inr ⟨t, ht, mem_parts_self t⟩)) hn))
        (ihr (part (by simp [mem_parts_self]) hn))

/-- The parts of a type without bound slots are left as they are. -/
theorem Resolves.concretizes (h : b.Ordered) {v : Ty} (hv : ∀ s ∈ b.keys, s ∉ v.slots)
    (ht : b.Resolves t v) : b.Concretizes t v.closeSlots := by
  have part {v p : Ty} (hp : p ∈ v.parts) (hv : ∀ s ∈ b.keys, s ∉ v.slots) :
      (∀ s ∈ b.keys, s ∉ p.slots) ∧ b.Resolves p p := by
    have hfree : ∀ s ∈ b.keys, s ∉ p.slots := fun s hs hmem =>
      hv s hs (mem_slots.2 (parts_trans (mem_slots.1 hmem) hp))
    have hp := h.resolves p
    rw [apply_eq_self hfree] at hp
    exact ⟨hfree, hp⟩
  induction v using Ty.induct generalizing t with
  | error => exact .error ht
  | slot s => exact .slot ht
  | struct id => exact .struct ht
  | pointer m u ih =>
    obtain ⟨hfree, hu⟩ := part (p := u) (by simp [mem_parts_self]) hv
    exact .pointer ht (ih hfree hu)
  | functAny r ih =>
    obtain ⟨hfree, hr⟩ := part (p := r) (by simp [mem_parts_self]) hv
    exact .functAny ht (ih hfree hr)
  | tuple ts ih =>
    rw [closeSlots, closeSlotsList_eq]
    refine .tuple ht (Rebuilds.map fun u hu => ?_)
    obtain ⟨hfree, hu'⟩ := part (p := u) (by simpa using .inr ⟨u, hu, mem_parts_self u⟩) hv
    exact ih u hu hfree hu'
  | funct ps r ihs ih =>
    rw [closeSlots, closeSlotsList_eq]
    obtain ⟨hfree, hr⟩ := part (p := r) (by simp [mem_parts_self]) hv
    refine .funct ht (Rebuilds.map fun u hu => ?_) (ih hfree hr)
    obtain ⟨hfree, hu'⟩ :=
      part (p := u) (by simpa using .inr (.inr ⟨u, hu, mem_parts_self u⟩)) hv
    exact ihs u hu hfree hu'

end Bindings

end Semcheck
