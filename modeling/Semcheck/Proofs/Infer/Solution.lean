/-
  Substitutions as solutions of what an engine knows.

  A substitution solves bindings if every bound slot has the instance of its
  type (`Bindings.Solved`).  What the bindings themselves say is such a
  substitution (`Ordered.solved`), and no solution tells a type from what the
  bindings make of it (`Solved.inst_apply`).

  * `Engine.Solved θ`: `θ` solves the bindings and the queued rules;
  * `Engine.Admits X θ`: `θ` solves the bindings, and the rules up to erroneous
    types and unknown parameter lists, but for calls in `X`.

  In the strict mode nothing is forgotten: what admits a substitution later
  admitted it before (`Advances.admits`).
-/
import Semcheck.Proofs.Infer.Engine
import Semcheck.Proofs.Ty.Inst

namespace Semcheck

open List Ty

variable {θ : Slot → Ty}

/-! ## Bindings -/

namespace Bindings

variable {b c : Bindings}

/-- Every bound slot has the instance of its type. -/
def Solved (θ : Slot → Ty) (b : Bindings) : Prop :=
  ∀ entry ∈ b, θ entry.1 = entry.2.inst θ

theorem solved_append : Solved θ (b ++ c) ↔ b.Solved θ ∧ c.Solved θ :=
  forall_mem_append

theorem solved_bind {s : Slot} {t : Ty} : Solved θ (b.bind s t) ↔ b.Solved θ ∧ θ s = t.inst θ := by
  rw [bind, solved_append]
  simp [Solved]

theorem Solved.inst_apply (h : b.Solved θ) (t : Ty) : (b.apply t).inst θ = t.inst θ := by
  induction b generalizing t with
  | nil => rfl
  | cons x b ih =>
    obtain ⟨hx, hb⟩ := forall_mem_cons.1 h
    rw [apply_cons, ih hb, inst_subst hx]

theorem Solved.inst_head (h : b.Solved θ) (t : Ty) : (b.head t).inst θ = t.inst θ := by
  induction b generalizing t with
  | nil => rfl
  | cons x b ih =>
    obtain ⟨hx, hb⟩ := forall_mem_cons.1 h
    rw [head_cons, ih hb]
    split
    · rename_i ht
      rw [ht, inst_slot, hx]
    · rfl

theorem Solved.of_head (h : b.Solved θ) {s : Slot} {t : Ty} (ht : b.head (.slot s) = t) :
    θ s = t.inst θ := by
  rw [← ht, h.inst_head, inst_slot]

theorem Solved.inst_eq (h : b.Solved θ) {t t' : Ty} (ht : b.apply t = b.apply t') :
    t.inst θ = t'.inst θ := by
  rw [← h.inst_apply t, ht, h.inst_apply]

/-- What a slot stands for. -/
def meaning (b : Bindings) (s : Slot) : Ty :=
  b.apply (.slot s)

theorem apply_eq_inst (b : Bindings) (t : Ty) : b.apply t = t.inst b.meaning := by
  induction t using Ty.induct with
  | error | slot _ | struct _ => simp [meaning]
  | pointer m t ih | functAny t ih => simp [ih]
  | tuple ts ih => simpa using ih
  | funct ps r ihs ih => simpa [ih] using ihs

/-- What becomes known does not make types match. -/
theorem isMatch_of_apply {t t' : Ty} (h : (b.apply t).isMatch (b.apply t') = true) :
    t.isMatch t' = true := by
  rw [apply_eq_inst, apply_eq_inst] at h
  exact isMatch_of_inst h

theorem closed_apply_mono {t t' : Ty} (hslots : ∀ s ∈ t.slots, s ∈ t'.slots)
    (h : (b.apply t').Closed) : (b.apply t).Closed := by
  rw [apply_eq_inst] at h ⊢
  exact closed_inst fun s hs => h.part (mem_parts_inst (mem_slots.1 (hslots s hs)))

theorem apply_bound (h : b.Ordered) {s : Slot} {t : Ty} (hs : (s, t) ∈ b) :
    b.apply (.slot s) = b.apply t := by
  induction b with
  | nil => cases hs
  | cons x b ih =>
    obtain ⟨s', u⟩ := x
    rcases mem_cons.1 hs with heq | hs
    · cases heq
      rw [apply_cons, apply_cons, subst_eq_self h.1]
      simp [subst]
    · obtain ⟨hne, hnot⟩ := h.2.1 _ hs
      rw [apply_cons, apply_cons, subst_eq_self hnot, ← ih h.2.2 hs, subst, if_neg hne]

theorem Ordered.solved (h : b.Ordered) : b.Solved b.meaning := by
  intro entry hentry
  rw [← apply_eq_inst]
  exact apply_bound h hentry

end Bindings

/-! ## Rules -/

/-- A value of the type can be called with the arguments, and returns the type
    `returns`. -/
def Ty.Callable : Ty → List Ty → Ty → Prop
  | .error, _, _ => True
  | .funct params result, args, returns => List.Forall₂ Agree params args ∧ Agree returns result
  | .functAny result, _, returns => Agree returns result
  | _, _, _ => False

namespace Rule

/-- The rule holds up to erroneous types and unknown parameter lists, or is a call
    in `X`. -/
def Holds (X : Rule → Prop) (θ : Slot → Ty) : Rule → Prop
  | .same left right _ => Ty.Agree (θ left) (θ right)
  | .call callee args returns span =>
    (θ callee).Callable (args.map (Ty.inst θ)) (θ returns) ∨ X (.call callee args returns span)

/-- The rule holds exactly. -/
def Solved (θ : Slot → Ty) : Rule → Prop
  | .same left right _ => θ left = θ right
  | .call callee args returns _ => θ callee = (Ty.funct args (.slot returns)).inst θ

/-- The callee of a call stands for a slot without a type, and the same slot is in an
    argument or in the result. -/
def Circular (b : Bindings) : Rule → Prop
  | .same _ _ _ => False
  | .call callee args returns _ =>
    ∃ s, b.head (.slot callee) = .slot s ∧ s ∈ (b.apply (.funct args (.slot returns))).slots

theorem Circular.not_solved {b : Bindings} {rule : Rule} (h : rule.Circular b) (hθ : b.Solved θ) :
    ¬ rule.Solved θ := by
  cases rule with
  | same left right span => exact h.elim
  | call callee args returns span =>
    obtain ⟨s, hs, hmem⟩ := h
    rw [Solved, hθ.of_head hs, ← hθ.inst_apply (.funct args (.slot returns))]
    exact inst_ne hmem (by rw [Bindings.apply_funct]; rfl)

end Rule

/-! ## Engines -/

namespace Engine

variable {k : Nat} {e e' : Engine}

/-- The substitution solves the bindings, and the rules up to erroneous types and
    unknown parameter lists, but for calls in `X`. -/
structure Admits (X : Rule → Prop) (θ : Slot → Ty) (e : Engine) : Prop where
  bindings : e.bindings.Solved θ
  rules : ∀ rule ∈ e.rules, rule.Holds X θ

structure Solved (θ : Slot → Ty) (e : Engine) : Prop where
  bindings : e.bindings.Solved θ
  rules : ∀ rule ∈ e.rules, rule.Solved θ

theorem Keeps.solved (h : Keeps k e e') (hs : e.strict = true) (hθ : e'.bindings.Solved θ) :
    e.bindings.Solved θ := by
  obtain ⟨more, hmore⟩ := h.grows hs
  rw [← hmore, Bindings.solved_append] at hθ
  exact hθ.1

/-- What is admitted later was admitted before. -/
theorem Advances.admits {X : Rule → Prop} (h : Advances k e e') (hs : e.strict = true)
    (hθ : e'.Admits X θ) : e.Admits X θ := by
  refine ⟨h.keeps.solved hs hθ.bindings, fun rule hrule => hθ.rules rule ?_⟩
  obtain ⟨added, hadded, -⟩ := h.queued
  rw [hadded]
  exact mem_append_left _ hrule

theorem solved_addRule {rule : Rule} : (e.addRule rule).Solved θ ↔ e.Solved θ ∧ rule.Solved θ := by
  constructor
  · rintro ⟨hb, hr⟩
    rw [addRule, forall_mem_append, forall_mem_singleton] at hr
    exact ⟨⟨hb, hr.1⟩, hr.2⟩
  · rintro ⟨⟨hb, hrs⟩, hr⟩
    exact ⟨hb, forall_mem_append.2 ⟨hrs, by simpa using hr⟩⟩

end Engine

end Semcheck
