/-
  Two runs side by side.

  A `Coupling` says which states of two machines belong together, and what a step
  of the first one leaves as it is.  Two steps simulate each other (`Sim`) if from
  states that belong together both stop the compilation, or both come to related
  values, or none, in states that belong together again.

  Sequences keep that, so what is left to show of two programs of the same shape
  is that their primitive steps simulate each other.
-/
import Mathlib.Data.Option.Basic
import Semcheck.Lower.Body

namespace Semcheck

/-! ## Outcomes -/

section Outcomes

variable {ε α β γ δ : Type} {Q : α → β → Prop} {Q' : γ → δ → Prop}

/-- Both fail, or both succeed with related results. -/
inductive Alike (Q : α → β → Prop) : Except ε α → Except ε β → Prop
  | ok {a : α} {b : β} (h : Q a b) : Alike Q (.ok a) (.ok b)
  | error (e e' : ε) : Alike Q (.error e) (.error e')

namespace Alike

variable {x : Except ε α} {y : Except ε β}

theorem mono {Q1 : α → β → Prop} (h : Alike Q x y) (hQ : ∀ a b, Q a b → Q1 a b) : Alike Q1 x y := by
  cases h with
  | ok h => exact .ok (hQ _ _ h)
  | error e e' => exact .error e e'

theorem bind {k : α → Except ε γ} {k' : β → Except ε δ} (h : Alike Q x y)
    (hk : ∀ a b, Q a b → Alike Q' (k a) (k' b)) : Alike Q' (x >>= k) (y >>= k') := by
  cases h with
  | ok h => exact hk _ _ h
  | error e e' => exact .error e e'

theorem map (x : Except ε α) (g : α → β) : Alike (fun a b => b = g a) x (x.map g) := by
  cases x with
  | ok a => exact .ok rfl
  | error e => exact .error e e

theorem eq_ok {a : α} (h : Alike Q x y) (hx : x = .ok a) : ∃ b, y = .ok b ∧ Q a b := by
  subst hx
  cases h with
  | ok h => exact ⟨_, rfl, h⟩

theorem of_map {g : γ → α} {x : Except ε γ} (h : Alike Q (x.map g) y) :
    Alike (fun c b => Q (g c) b) x y := by
  cases x with
  | ok c => cases h with | ok h => exact .ok h
  | error e => cases h with | error _ e' => exact .error e e'

/-- Related results come with the equations they are results of. -/
theorem keep (h : Alike Q x y) : Alike (fun a b => Q a b ∧ x = .ok a) x y := by
  cases h with
  | ok h => exact .ok ⟨h, rfl⟩
  | error e e' => exact .error e e'

/-- Two computations that are like a third one are like each other. -/
theorem join {Q' : α → γ → Prop} {z : Except ε γ} (h : Alike Q x y) (h' : Alike Q' x z) :
    Alike (fun b c => ∃ a, Q a b ∧ Q' a c) y z := by
  cases h with
  | ok h => cases h' with | ok h' => exact .ok ⟨_, h, h'⟩
  | error _ e => cases h' with | error _ e' => exact .error e e'

end Alike

end Outcomes

/-! ## Steps -/

/-- Which states of two machines belong together, and what a step of the first
    leaves as it is. -/
structure Coupling (σ τ : Type) where
  rel : σ → τ → Prop
  keeps : σ → σ → Prop
  refl : ∀ s, keeps s s
  trans : ∀ {s s₁ s₂}, keeps s s₁ → keeps s₁ s₂ → keeps s s₂

section Steps

variable {σ τ α β γ δ : Type} {C : Coupling σ τ} {R : α → β → Prop} {R' : γ → δ → Prop}
  {s : σ} {t : τ}

/-- The steps simulate each other from these two states. -/
def SimAt (C : Coupling σ τ) (R : α → β → Prop) (s : σ) (t : τ)
    (x : OptionT (StateT σ (Except Abort)) α) (y : OptionT (StateT τ (Except Abort)) β) : Prop :=
  Alike (fun out out' => Option.Rel R out.1 out'.1 ∧ C.rel out.2 out'.2 ∧ C.keeps s out.2)
    (x.run s) (y.run t)

/-- The steps simulate each other from all states that belong together. -/
def Sim (C : Coupling σ τ) (R : α → β → Prop)
    (x : OptionT (StateT σ (Except Abort)) α) (y : OptionT (StateT τ (Except Abort)) β) : Prop :=
  ∀ s t, C.rel s t → SimAt C R s t x y

namespace SimAt

variable {x : OptionT (StateT σ (Except Abort)) α} {y : OptionT (StateT τ (Except Abort)) β}
  {k' : β → OptionT (StateT τ (Except Abort)) δ} {k : α → OptionT (StateT σ (Except Abort)) γ}

/-- What holds where the first steps have no value, and after any second steps, holds of
    the sequences. -/
theorem bindTo {Q : Option γ × σ → Option δ × τ → Prop} (h : SimAt C R s t x y)
    (hnone : ∀ s1 t1, C.rel s1 t1 → C.keeps s s1 → Q (none, s1) (none, t1))
    (hk : ∀ a b s1 t1, R a b → C.rel s1 t1 → C.keeps s s1 →
      Alike Q ((k a).run s1) ((k' b).run t1)) : Alike Q ((x >>= k).run s) ((y >>= k').run t) := by
  refine .bind h ?_
  rintro ⟨a, s1⟩ ⟨b, t1⟩ ⟨hab, hrel, hkeeps⟩
  cases hab with
  | none => exact .ok (hnone s1 t1 hrel hkeeps)
  | some hab => exact hk _ _ s1 t1 hab hrel hkeeps

theorem bind (h : SimAt C R s t x y)
    (hk : ∀ a b s1 t1, R a b → C.rel s1 t1 → C.keeps s s1 → SimAt C R' s1 t1 (k a) (k' b)) :
    SimAt C R' s t (x >>= k) (y >>= k') := by
  refine h.bindTo (fun s1 t1 hrel hkeeps => ⟨.none, hrel, hkeeps⟩) ?_
  intro a b s1 t1 hab hrel hkeeps
  exact (hk a b s1 t1 hab hrel hkeeps).mono fun _ _ ⟨hr, hrel, hkeeps1⟩ =>
    ⟨hr, hrel, C.trans hkeeps hkeeps1⟩

theorem pure {a : α} {b : β} (hab : R a b) (hrel : C.rel s t) : SimAt C R s t (pure a) (pure b) :=
  .ok ⟨.some hab, hrel, C.refl s⟩

theorem lookLeft {k : σ → OptionT (StateT σ (Except Abort)) α} (h : SimAt C R s t (k s) y) :
    SimAt C R s t (get >>= k) y :=
  h

end SimAt

namespace Sim

variable {x : OptionT (StateT σ (Except Abort)) α} {y : OptionT (StateT τ (Except Abort)) β}
  {k' : β → OptionT (StateT τ (Except Abort)) δ} {k : α → OptionT (StateT σ (Except Abort)) γ}

theorem bind (h : Sim C R x y) (hk : ∀ a b, R a b → Sim C R' (k a) (k' b)) :
    Sim C R' (x >>= k) (y >>= k') :=
  fun s t hst => (h s t hst).bind fun a b s1 t1 hab hrel _ => hk a b hab s1 t1 hrel

theorem andThen {g : α → β} (h : Sim C (fun a b => b = g a) x y)
    (hk : ∀ a, Sim C R' (k a) (k' (g a))) : Sim C R' (x >>= k) (y >>= k') :=
  h.bind fun a _ hab => hab ▸ hk a

theorem pure {a : α} {b : β} (hab : R a b) : Sim C R (pure a) (pure b) :=
  fun _ _ hst => .pure hab hst

theorem mono {R1 : α → β → Prop} (h : Sim C R x y) (hR : ∀ a b, R a b → R1 a b) : Sim C R1 x y := by
  refine fun s t hst => (h s t hst).mono ?_
  rintro ⟨a, s1⟩ ⟨b, t1⟩ ⟨hr, hrel, hkeeps⟩
  refine ⟨?_, hrel, hkeeps⟩
  cases hr with
  | none => exact .none
  | some hr => exact .some (hR _ _ hr)

theorem failure : Sim C R failure failure :=
  fun s _ hst => .ok ⟨.none, hst, C.refl s⟩

theorem look {k : σ → OptionT (StateT σ (Except Abort)) α}
    {k' : τ → OptionT (StateT τ (Except Abort)) β}
    (h : ∀ s t, C.rel s t → SimAt C R s t (k s) (k' t)) : Sim C R (get >>= k) (get >>= k') :=
  fun s t hst => h s t hst

theorem modify {u : σ → σ} {u' : τ → τ}
    (h : ∀ s t, C.rel s t → C.rel (u s) (u' t) ∧ C.keeps s (u s)) :
    Sim C (fun _ _ : Unit => True) (modify u) (modify u') :=
  fun s t hst => .ok ⟨.some trivial, (h s t hst).1, (h s t hst).2⟩

theorem ite {c c' : Prop} [Decidable c] [Decidable c'] (hc : c ↔ c')
    {x1 : OptionT (StateT σ (Except Abort)) α} {y1 : OptionT (StateT τ (Except Abort)) β}
    (h : Sim C R x y) (h1 : Sim C R x1 y1) :
    Sim C R (if c then x else x1) (if c' then y else y1) := by
  by_cases hcase : c
  · rw [if_pos hcase, if_pos (hc.1 hcase)]
    exact h
  · rw [if_neg hcase, if_neg (fun hc' => hcase (hc.2 hc'))]
    exact h1

end Sim

end Steps

end Semcheck
