/-
  The parts of a type under substitution.

  In an instance `Ty.inst θ` every slot is replaced by what the substitution `θ`
  gives for it, all at once.  Replacing one slot (`Ty.subst`) and closing all slots
  (`Ty.closeSlots`) are special cases.

  Slots, structs and errors of a type are its parts, so that one lemma on the
  parts of an instance (`mem_parts_of_inst`) says what a substitution can add to
  a type and what it leaves out.

  * `Ty.Within n k`: only the first `n` slots and the first `k` structs occur;
  * `Ty.Plain`: no part is erroneous or a function with unknown parameters;
  * `Ty.Closed`: no part is a slot.
-/
import Semcheck.Ty.Basic

namespace Semcheck

open List

namespace Ty

variable {p t r u : Ty} {s : Slot} {id : StructId} {ts ps : List Ty} {n k : Nat}

/-- Induction on types, with the hypothesis for every member of a list. -/
@[elab_as_elim]
theorem induct {motive : Ty → Prop} (error : motive .error) (slot : ∀ s, motive (.slot s))
    (pointer : ∀ m t, motive t → motive (.pointer m t)) (struct : ∀ id, motive (.struct id))
    (funct : ∀ ps r, (∀ p ∈ ps, motive p) → motive r → motive (.funct ps r))
    (functAny : ∀ r, motive r → motive (.functAny r))
    (tuple : ∀ ts, (∀ t ∈ ts, motive t) → motive (.tuple ts)) (t : Ty) : motive t :=
  @Ty.rec motive (fun ts => ∀ t ∈ ts, motive t) error slot pointer struct funct functAny tuple
    (fun _ h => nomatch h)
    (fun _ _ h hs _ ht => (mem_cons.1 ht).elim (fun e => e ▸ h) (hs _)) t

/-! ## Parts -/

theorem partsOfList_eq (ts : List Ty) : partsOfList ts = ts.flatMap parts := by
  induction ts with
  | nil => rfl
  | cons t ts ih => exact congrArg (t.parts ++ ·) ih

theorem mem_parts_self (t : Ty) : t ∈ t.parts := by
  cases t <;> exact mem_cons_self

@[simp] theorem mem_parts_error : p ∈ (error).parts ↔ p = .error :=
  mem_singleton

@[simp] theorem mem_parts_slot : p ∈ (slot s).parts ↔ p = .slot s :=
  mem_singleton

@[simp] theorem mem_parts_struct : p ∈ (struct id).parts ↔ p = .struct id :=
  mem_singleton

@[simp] theorem mem_parts_pointer {m : Bool} :
    p ∈ (pointer m t).parts ↔ p = .pointer m t ∨ p ∈ t.parts :=
  mem_cons

@[simp] theorem mem_parts_functAny : p ∈ (functAny r).parts ↔ p = .functAny r ∨ p ∈ r.parts :=
  mem_cons

theorem mem_partsOfList : p ∈ partsOfList ts ↔ ∃ t ∈ ts, p ∈ t.parts := by
  rw [partsOfList_eq, mem_flatMap]

@[simp] theorem mem_parts_tuple : p ∈ (tuple ts).parts ↔ p = .tuple ts ∨ ∃ t ∈ ts, p ∈ t.parts :=
  mem_cons.trans (or_congr_right mem_partsOfList)

@[simp] theorem mem_parts_funct :
    p ∈ (funct ps r).parts ↔ p = .funct ps r ∨ p ∈ r.parts ∨ ∃ t ∈ ps, p ∈ t.parts :=
  mem_cons.trans (or_congr_right (mem_append.trans (or_congr_right mem_partsOfList)))

theorem parts_trans {q : Ty} (hp : p ∈ q.parts) (hq : q ∈ t.parts) : p ∈ t.parts := by
  induction t using Ty.induct with
  | error | slot _ | struct _ => simp_all
  | pointer m t ih | functAny t ih =>
    rcases (by simpa using hq) with rfl | hq
    · exact hp
    · simp [ih hq]
  | tuple ts ih =>
    rcases (by simpa using hq) with rfl | ⟨t, ht, hq⟩
    · exact hp
    · exact mem_parts_tuple.2 (.inr ⟨t, ht, ih t ht hq⟩)
  | funct ps r ihs ih =>
    rcases (by simpa using hq) with rfl | hq | ⟨t, ht, hq⟩
    · exact hp
    · simp [ih hq]
    · exact mem_parts_funct.2 (.inr (.inr ⟨t, ht, ihs t ht hq⟩))

theorem mem_slots : s ∈ t.slots ↔ .slot s ∈ t.parts := by
  simp only [slots, mem_filterMap]
  constructor
  · rintro ⟨p, hp, hs⟩
    cases p <;> simp_all [slot?]
  · exact fun h => ⟨_, h, rfl⟩

theorem slot?_eq_none (h : ∀ s, t ≠ .slot s) : t.slot? = none := by
  cases t with
  | slot s => exact absurd rfl (h s)
  | _ => rfl

theorem mem_structs : id ∈ t.structs ↔ .struct id ∈ t.parts := by
  simp only [structs, mem_filterMap]
  constructor
  · rintro ⟨p, hp, hs⟩
    cases p <;> simp_all
  · exact fun h => ⟨_, h, rfl⟩

theorem containsError_iff : t.containsError = true ↔ .error ∈ t.parts := by
  simp only [containsError, any_eq_true]
  constructor
  · rintro ⟨p, hp, he⟩
    cases p <;> simp_all [isError]
  · exact fun h => ⟨_, h, rfl⟩

theorem containsSlot_iff : t.containsSlot s = true ↔ s ∈ t.slots := by
  simp [containsSlot]

/-! ## Instances -/

mutual

/-- The type with `θ s` in place of every slot `s`. -/
def inst (θ : Slot → Ty) : Ty → Ty
  | .error => .error
  | .slot s => θ s
  | .pointer m t => .pointer m (inst θ t)
  | .struct id => .struct id
  | .funct ps r => .funct (instList θ ps) (inst θ r)
  | .functAny r => .functAny (inst θ r)
  | .tuple ts => .tuple (instList θ ts)

/-- The types with `θ s` in place of every slot `s`. -/
def instList (θ : Slot → Ty) : List Ty → List Ty
  | [] => []
  | t :: ts => inst θ t :: instList θ ts

end

variable {θ : Slot → Ty}

theorem instList_eq (θ : Slot → Ty) (ts : List Ty) : instList θ ts = ts.map (inst θ) := by
  induction ts with
  | nil => rfl
  | cons t ts ih => simp [instList, ih]

@[simp] theorem inst_error : (error).inst θ = .error := rfl

@[simp] theorem inst_slot (s : Slot) : (slot s).inst θ = θ s := rfl

@[simp] theorem inst_struct (id : StructId) : (struct id).inst θ = .struct id := rfl

@[simp] theorem inst_pointer (m : Bool) (t : Ty) :
    (pointer m t).inst θ = .pointer m (t.inst θ) := rfl

@[simp] theorem inst_functAny (r : Ty) : (functAny r).inst θ = .functAny (r.inst θ) := rfl

@[simp] theorem inst_tuple (ts : List Ty) : (tuple ts).inst θ = .tuple (ts.map (inst θ)) := by
  rw [inst, instList_eq]

@[simp] theorem inst_funct (ps : List Ty) (r : Ty) :
    (funct ps r).inst θ = .funct (ps.map (inst θ)) (r.inst θ) := by
  rw [inst, instList_eq]

/-- An instance depends on what the slots of the type get. -/
theorem inst_congr {θ' : Slot → Ty} (h : ∀ s ∈ t.slots, θ s = θ' s) : t.inst θ = t.inst θ' := by
  simp only [mem_slots] at h
  induction t using Ty.induct with
  | error | struct _ => rfl
  | slot s => exact h s (by simp)
  | pointer m t ih | functAny t ih => simp [ih fun s hs => h s (by simp [hs])]
  | tuple ts ih =>
    have hts := fun t ht => ih t ht fun s hs => h s (mem_parts_tuple.2 (.inr ⟨t, ht, hs⟩))
    rw [inst_tuple, inst_tuple, map_congr_left hts]
  | funct ps r ihs ih =>
    have hr := ih fun s hs => h s (mem_parts_funct.2 (.inr (.inl hs)))
    have hps := fun t ht => ihs t ht fun s hs => h s (mem_parts_funct.2 (.inr (.inr ⟨t, ht, hs⟩)))
    rw [inst_funct, inst_funct, hr, map_congr_left hps]

theorem inst_slots (t : Ty) : t.inst .slot = t := by
  induction t using Ty.induct with
  | error | slot _ | struct _ => rfl
  | pointer m t ih | functAny t ih => simp [ih]
  | tuple ts ih => simp [map_congr_left (g := id) ih]
  | funct ps r ihs ih => simp [ih, map_congr_left (g := id) ihs]

/-- A part of an instance comes from a part of the type: it is inside what a slot gets, or it is
    the instance of another part. -/
theorem mem_parts_of_inst (h : p ∈ (t.inst θ).parts) :
    ∃ q ∈ t.parts, (∃ s, q = .slot s ∧ p ∈ (θ s).parts) ∨ q.slot? = none ∧ p = q.inst θ := by
  induction t using Ty.induct with
  | error | struct _ => exact ⟨_, mem_parts_self _, .inr ⟨rfl, by simpa using h⟩⟩
  | slot s => exact ⟨_, mem_parts_self _, .inl ⟨s, rfl, h⟩⟩
  | pointer m t ih | functAny t ih =>
    simp only [inst_pointer, inst_functAny, mem_parts_pointer, mem_parts_functAny] at h
    rcases h with rfl | h
    · exact ⟨_, mem_parts_self _, .inr ⟨rfl, rfl⟩⟩
    · obtain ⟨q, hq, hp⟩ := ih h
      exact ⟨q, by simp [hq], hp⟩
  | tuple ts ih =>
    simp only [inst_tuple, mem_parts_tuple, mem_map] at h
    rcases h with rfl | ⟨_, ⟨t, ht, rfl⟩, h⟩
    · exact ⟨_, mem_parts_self _, .inr ⟨rfl, (inst_tuple ts).symm⟩⟩
    · obtain ⟨q, hq, hp⟩ := ih t ht h
      exact ⟨q, mem_parts_tuple.2 (.inr ⟨t, ht, hq⟩), hp⟩
  | funct ps r ihs ih =>
    simp only [inst_funct, mem_parts_funct, mem_map] at h
    rcases h with rfl | h | ⟨_, ⟨t, ht, rfl⟩, h⟩
    · exact ⟨_, mem_parts_self _, .inr ⟨rfl, (inst_funct ps r).symm⟩⟩
    · obtain ⟨q, hq, hp⟩ := ih h
      exact ⟨q, by simp [hq], hp⟩
    · obtain ⟨q, hq, hp⟩ := ihs t ht h
      exact ⟨q, mem_parts_funct.2 (.inr (.inr ⟨t, ht, hq⟩)), hp⟩

theorem mem_slots_of_inst {s' : Slot} (h : s' ∈ (t.inst θ).slots) :
    ∃ s ∈ t.slots, s' ∈ (θ s).slots := by
  simp only [mem_slots] at h ⊢
  obtain ⟨q, hq, ⟨s, rfl, hs⟩ | ⟨hnone, heq⟩⟩ := mem_parts_of_inst h
  · exact ⟨s, hq, hs⟩
  · cases q with
    | slot s => cases hnone
    | _ => simp at heq

/-! ## Substitution -/

theorem substList_eq (s : Slot) (u : Ty) (ts : List Ty) :
    substList s u ts = ts.map (subst s u) := by
  induction ts with
  | nil => rfl
  | cons t ts ih => simp [substList, ih]

theorem closeSlotsList_eq (ts : List Ty) : closeSlotsList ts = ts.map closeSlots := by
  induction ts with
  | nil => rfl
  | cons t ts ih => simp [closeSlotsList, ih]

/-- Replacing one slot leaves the others alone. -/
theorem subst_eq_inst (s : Slot) (u t : Ty) :
    subst s u t = t.inst fun s' => if s' = s then u else .slot s' := by
  induction t using Ty.induct with
  | error | slot _ | struct _ => rfl
  | pointer m t ih | functAny t ih => simp [subst, ih]
  | tuple ts ih => simpa [subst, substList_eq] using ih
  | funct ps r ihs ih => simpa [subst, substList_eq, ih] using ihs

/-- Closing a type makes all slots erroneous. -/
theorem closeSlots_eq_inst (t : Ty) : t.closeSlots = t.inst fun _ => .error := by
  induction t using Ty.induct with
  | error | slot _ | struct _ => rfl
  | pointer m t ih | functAny t ih => simp [closeSlots, ih]
  | tuple ts ih => simpa [closeSlots, closeSlotsList_eq] using ih
  | funct ps r ihs ih => simpa [closeSlots, closeSlotsList_eq, ih] using ihs

theorem mem_slots_subst {s' : Slot} (h : s' ∈ (subst s u t).slots) :
    (s ∈ t.slots ∧ s' ∈ u.slots) ∨ (s' ∈ t.slots ∧ s' ≠ s) := by
  rw [subst_eq_inst] at h
  obtain ⟨r, hr, h⟩ := mem_slots_of_inst h
  split at h
  · rename_i heq
    exact .inl ⟨heq ▸ hr, h⟩
  · rename_i hne
    obtain rfl : s' = r := by simpa [mem_slots] using h
    exact .inr ⟨hr, hne⟩

/-- A slot that does not occur can be replaced by anything. -/
theorem subst_eq_self (h : s ∉ t.slots) : subst s u t = t := by
  have hothers : ∀ s' ∈ t.slots, (if s' = s then u else .slot s') = Ty.slot s' :=
    fun s' hs' => if_neg fun heq : s' = s => h (heq ▸ hs')
  rw [subst_eq_inst, inst_congr hothers, inst_slots]

/-! ## Types all of whose parts have a property -/

/-- Every part of the type satisfies `P`. -/
def All (P : Ty → Prop) (t : Ty) : Prop :=
  ∀ p ∈ t.parts, P p

variable {P : Ty → Prop}

theorem All.part (h : t.All P) (hp : p ∈ t.parts) : p.All P :=
  fun _ hq => h _ (parts_trans hq hp)

theorem all_error : (error).All P ↔ P .error :=
  forall_mem_singleton

theorem all_slot : (slot s).All P ↔ P (.slot s) :=
  forall_mem_singleton

theorem all_struct : (struct id).All P ↔ P (.struct id) :=
  forall_mem_singleton

theorem all_pointer {m : Bool} : (pointer m t).All P ↔ P (.pointer m t) ∧ t.All P :=
  forall_mem_cons

theorem all_functAny : (functAny r).All P ↔ P (.functAny r) ∧ r.All P :=
  forall_mem_cons

theorem all_partsOfList : (∀ p ∈ partsOfList ts, P p) ↔ ∀ t ∈ ts, t.All P := by
  rw [partsOfList_eq]
  exact forall_mem_flatMap

theorem all_tuple : (tuple ts).All P ↔ P (.tuple ts) ∧ ∀ t ∈ ts, t.All P :=
  forall_mem_cons.trans (and_congr_right fun _ => all_partsOfList)

theorem all_funct : (funct ps r).All P ↔ P (.funct ps r) ∧ r.All P ∧ ∀ t ∈ ps, t.All P :=
  forall_mem_cons.trans (and_congr_right fun _ =>
    forall_mem_append.trans (and_congr_right fun _ => all_partsOfList))

/-- A property of the outermost constructor holds in an instance if it holds in the type and in
    what the slots get. -/
theorem All.inst {Q : Ty → Prop} (hQ : ∀ q, q.slot? = none → P q → Q (q.inst θ))
    (hθ : ∀ s ∈ t.slots, (θ s).All Q) (ht : t.All P) : (t.inst θ).All Q := by
  intro p hp
  obtain ⟨q, hq, ⟨s, rfl, hp⟩ | ⟨hnone, rfl⟩⟩ := mem_parts_of_inst hp
  · exact hθ s (mem_slots.2 hq) p hp
  · exact hQ q hnone (ht q hq)

theorem All.subst (hP : ∀ θ q, q.slot? = none → P q → P (q.inst θ)) (hu : u.All P)
    (ht : t.All P) : (subst s u t).All P := by
  rw [subst_eq_inst]
  refine ht.inst (hP _) fun s' hs' => ?_
  split
  · exact hu
  · exact ht.part (mem_slots.1 hs')

/-- The slot is one of the first `n` and the struct one of the first `k`. -/
def InRange (n k : Nat) : Ty → Prop
  | .slot s => s.index < n
  | .struct id => id.index < k
  | _ => True

/-- Only the first `n` slots and the first `k` structs occur. -/
def Within (n k : Nat) (t : Ty) : Prop :=
  t.All (InRange n k)

theorem within_slot : (slot s).Within n k ↔ s.index < n :=
  all_slot

theorem within_struct : (struct id).Within n k ↔ id.index < k :=
  all_struct

theorem within_error : (error).Within n k :=
  all_error.2 trivial

theorem within_pointer {m : Bool} : (pointer m t).Within n k ↔ t.Within n k :=
  all_pointer.trans (and_iff_right trivial)

theorem within_functAny : (functAny r).Within n k ↔ r.Within n k :=
  all_functAny.trans (and_iff_right trivial)

theorem within_tuple : (tuple ts).Within n k ↔ ∀ t ∈ ts, t.Within n k :=
  all_tuple.trans (and_iff_right trivial)

theorem within_unit : unit.Within n k :=
  within_tuple.2 fun _ h => nomatch h

theorem within_funct : (funct ps r).Within n k ↔ r.Within n k ∧ ∀ t ∈ ps, t.Within n k :=
  all_funct.trans (and_iff_right trivial)

theorem Within.slot (h : t.Within n k) (hs : s ∈ t.slots) : s.index < n :=
  h _ (mem_slots.1 hs)

theorem Within.struct (h : t.Within n k) (hid : id ∈ t.structs) : id.index < k :=
  h _ (mem_structs.1 hid)

theorem Within.mono {n' k' : Nat} (h : t.Within n k) (hn : n ≤ n') (hk : k ≤ k') :
    t.Within n' k' := by
  intro p hp
  have := h p hp
  cases p <;> simp_all [InRange] <;> omega

theorem inRange_inst (n' : Nat) (q : Ty) (hq : q.slot? = none) (h : q.InRange n k) :
    (q.inst θ).InRange n' k := by
  cases q with
  | slot s => cases hq
  | _ => exact h

/-- Closing a type keeps the bound on its structs and leaves no slot. -/
theorem Within.closeSlots (h : t.Within n k) : t.closeSlots.Within 0 k := by
  rw [closeSlots_eq_inst]
  exact .inst (inRange_inst 0) (fun _ _ => within_error) h

/-- Not erroneous, and not a function with unknown parameters. -/
def IsPlain : Ty → Prop
  | .error | .functAny _ => False
  | _ => True

/-- No part is erroneous or a function with unknown parameters. -/
def Plain (t : Ty) : Prop :=
  t.All IsPlain

theorem isPlain_inst (q : Ty) (hq : q.slot? = none) (h : q.IsPlain) : (q.inst θ).IsPlain := by
  cases q with
  | slot s => cases hq
  | _ => exact h

theorem plain_unit : unit.Plain :=
  all_tuple.2 ⟨trivial, fun _ h => nomatch h⟩

theorem plain_slot (s : Slot) : (slot s).Plain :=
  all_slot.2 trivial

theorem not_plain_error : ¬ (error).Plain :=
  fun h => h .error (by simp)

theorem not_plain_functAny : ¬ (functAny r).Plain :=
  fun h => h _ (mem_parts_self _)

theorem Plain.containsError (h : t.Plain) : t.containsError = false := by
  rw [Bool.eq_false_iff]
  exact fun he => h _ (containsError_iff.1 he)

/-! ## Closed types -/

/-- No part is a slot. -/
def Closed (t : Ty) : Prop :=
  ∀ s, s ∉ t.slots

theorem Closed.part (h : t.Closed) (hp : p ∈ t.parts) : p.Closed :=
  fun s hs => h s (mem_slots.2 (parts_trans (mem_slots.1 hs) hp))

theorem Closed.not_slot : ¬ (slot s).Closed :=
  fun h => h s (by simp [mem_slots])

theorem closed_tuple : (tuple ts).Closed ↔ ∀ t ∈ ts, t.Closed := by
  simp only [Closed, mem_slots, mem_parts_tuple, reduceCtorEq, false_or, not_exists, not_and]
  exact ⟨fun h t ht s => h s t ht, fun h s t ht => h t ht s⟩

theorem Closed.of_within (h : t.Within 0 k) : t.Closed :=
  fun _ hs => absurd (h.slot hs) (Nat.not_lt_zero _)

theorem isResolved_iff : t.isResolved = true ↔ t.Closed ∧ .error ∉ t.parts := by
  rw [isResolved, all_eq_true]
  constructor
  · intro h
    refine ⟨fun s hs => ?_, fun he => ?_⟩
    · simpa [slot?] using h _ (mem_slots.1 hs)
    · simpa [isError] using h _ he
  · rintro ⟨hclosed, herror⟩ p hp
    cases p with
    | error => exact absurd hp herror
    | slot s => exact absurd (mem_slots.2 hp) (hclosed s)
    | _ => rfl

theorem Plain.isResolved (h : t.Plain) (hc : t.Closed) : t.isResolved = true :=
  isResolved_iff.2 ⟨hc, fun he => h _ he⟩

theorem Closed.closeSlots_eq (h : t.Closed) : t.closeSlots = t := by
  rw [closeSlots_eq_inst, inst_congr fun s hs => (h s hs).elim, inst_slots]

end Ty

end Semcheck
