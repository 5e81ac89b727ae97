/-
  Unification stays within its budget and is sound.

  Unification goes through a bound slot to the type the slot stands for.  As
  long as no slot is bound on the way, the types it meets get nearer to the end
  of the bindings (`Bindings.height`); with every slot that is bound the height
  may start again, and a slot is never freed.  In the lax mode a bound slot may
  take another type, but only where the two types do not match
  (`Engine.Calm`), which unification has already excluded below a bound slot.
  `Engine.Poses` is the resulting invariant.

  `unify_spec`: unification never meets a fault, and `Unified` says what it
  does.  In particular, in the strict mode

  * unification with a closed type makes the two types equal (`Unified.agree`);
  * the types agree under every substitution that what is known then admits
    (`Unified.sound`);
  * a solution that makes the types equal is never lost (`Unified.principal`).
-/
import Semcheck.Proofs.Infer.Solution

namespace Semcheck

open Bindings Ty Bool

/-- The types of the error mention only the first `n` slots and `k` structs. -/
def InferError.Within (n k : Nat) : InferError → Prop
  | .mismatch expected found => expected.Within n k ∧ found.Within n k
  | .notFunct found => found.Within n k
  | .argumentCount _ _ => True
  | .recursive _ type => type.Within n k

def InferError.Plain : InferError → Prop
  | .mismatch expected found => expected.Plain ∧ found.Plain
  | _ => True

def Rule.Plain : Rule → Prop
  | .same _ _ _ => True
  | .call _ args _ _ => ∀ arg ∈ args, arg.Plain

namespace Engine

variable {k budget : Nat} {e e' e1 e2 : Engine} {expected found : Ty} {s : Slot}

structure Plain (e : Engine) : Prop where
  bindings : ∀ entry ∈ e.bindings, entry.2.Plain
  rules : ∀ rule ∈ e.rules, rule.Plain

theorem plain_empty (strict : Bool) : (empty strict).Plain :=
  ⟨by simp [empty], by simp [empty]⟩

/-- No bound slot has to take another type for the two types to agree. -/
def Calm (e : Engine) (expected found : Ty) : Prop :=
  e.strict = true ∨ (e.bindings.apply expected).isMatch (e.bindings.apply found) = true

/-- The strict mode, and nothing erroneous in sight. -/
structure Clean (e : Engine) (expected found : Ty) : Prop where
  strict : e.strict = true
  plain : e.Plain
  expected : expected.Plain
  found : found.Plain

/-- The number of passages through bound slots is enough to unify the types. -/
def Affords (e : Engine) (budget : Nat) (expected found : Ty) : Prop :=
  e.free * (e.slots.length + 1) + e.slots.length < budget ∨
    e.Calm expected found ∧
      e.free * (e.slots.length + 1) + e.bindings.height expected < budget

/-- Two types can be unified without a fault. -/
structure Poses (k budget : Nat) (e : Engine) (expected found : Ty) : Prop where
  valid : e.Valid k
  within : expected.Within e.slots.length k
  within' : found.Within e.slots.length k
  affords : e.Affords budget expected found

variable {found' expected' : Ty}

theorem Calm.congr (hx : e.bindings.apply expected' = e.bindings.apply expected)
    (hf : e.bindings.apply found' = e.bindings.apply found) (h : e.Calm expected found) :
    e.Calm expected' found' := by
  rw [Calm, hx, hf]; exact h

theorem Plain.head (h : e.Plain) {t : Ty} (ht : t.Plain) : (e.bindings.head t).Plain := by
  cases t with
  | slot s =>
    rcases head_slot e.bindings s with he | ⟨entry, hentry, he⟩
    · rw [he]; exact ht
    · rw [he]; exact h.bindings _ hentry
  | _ => rw [head_of_not_slot _ rfl]; exact ht

theorem Plain.bind (h : e.Plain) {t : Ty} (ht : t.Plain) :
    Plain { e with bindings := e.bindings.bind s t } :=
  ⟨List.forall_mem_append.2 ⟨h.bindings, by simpa using ht⟩, h.rules⟩

theorem Plain.addRule (h : e.Plain) {rule : Rule} (hr : rule.Plain) : (e.addRule rule).Plain :=
  ⟨h.bindings, List.forall_mem_append.2 ⟨h.rules, by simpa using hr⟩⟩

/-! ## Outcome -/

/-- What unification does to the engine. -/
structure Unified (k : Nat) (e : Engine) (expected found : Ty) (r : Except InferError Unit)
    (e' : Engine) : Prop where
  advances : Advances k e e'
  /-- Where no slot is bound, nothing is changed. -/
  calm : e.Calm expected found → e'.bindings.length = e.bindings.length →
    e'.bindings = e.bindings
  error : ∀ err, r = .error err → err.Within e.slots.length k
  plain : e.Clean expected found → e'.Plain ∧ ∀ err, r = .error err → err.Plain
  agree : e.Clean expected found → r = .ok () → (e.bindings.apply found).Closed →
    e'.bindings.apply expected = e.bindings.apply found
  /-- What is known afterwards admits only substitutions under which the types agree. -/
  sound : e.strict = true → r = .ok () → ∀ X θ, e'.Admits X θ →
    Ty.Agree (expected.inst θ) (found.inst θ)
  /-- A solution that makes the types equal stays one. -/
  principal : e.strict = true → ∀ θ, e.Solved θ → expected.inst θ = found.inst θ →
    r = .ok () ∧ e'.Solved θ
  /-- Known types are compared, and nothing else happens. -/
  known : e.strict = true → (e.bindings.apply expected).Closed →
    (e.bindings.apply found).Closed → e' = e ∧
      ((e.bindings.apply expected).isMatch (e.bindings.apply found) = true → r = .ok ())
  /-- In the lax mode it is enough that a closed type matches the other one as written. -/
  accepts : e.strict = false → found.Closed → expected.isMatch found = true → r = .ok ()

variable {r : Except InferError Unit}

theorem Unified.keeps (h : Unified k e expected found r e') : Keeps k e e' :=
  h.advances.keeps

theorem Unified.unchanged (he : e.Valid k)
    (hagree : e.Clean expected found → (e.bindings.apply found).Closed →
      e.bindings.apply expected = e.bindings.apply found)
    (hsound : ∀ θ, e.bindings.Solved θ → Ty.Agree (expected.inst θ) (found.inst θ)) :
    Unified k e expected found (.ok ()) e where
  advances := .refl he
  calm _ _ := rfl
  error _ h := by cases h
  plain hc := ⟨hc.plain, by rintro err ⟨⟩⟩
  agree hc _ := hagree hc
  sound _ _ _ θ hθ := hsound θ hθ.bindings
  principal _ _ hθ _ := ⟨rfl, hθ⟩
  known _ _ _ := ⟨rfl, fun _ => rfl⟩
  accepts _ _ _ := rfl

/-- Nothing makes the types equal, and a closed type does not match the other one. -/
theorem Unified.failed {err : InferError} (he : e.Valid k) (hw : err.Within e.slots.length k)
    (hp : e.Clean expected found → err.Plain)
    (hne : ∀ θ, e.bindings.Solved θ → expected.inst θ ≠ found.inst θ)
    (hno : (e.bindings.apply found).Closed → expected.isMatch found ≠ true) :
    Unified k e expected found (.error err) e where
  advances := .refl he
  calm _ _ := rfl
  error _ h := by cases h; exact hw
  plain hc := ⟨hc.plain, by rintro _ ⟨⟩; exact hp hc⟩
  agree _ h := by cases h
  sound _ h := by cases h
  principal _ θ hθ heq := absurd heq (hne θ hθ.bindings)
  known _ _ hf := ⟨rfl, fun hm => absurd (isMatch_of_apply hm) (hno hf)⟩
  accepts _ hf hm := absurd hm (hno (by rwa [apply_closed hf]))

/-- Only the meaning of the two types matters. -/
theorem Unified.congr (h : Unified k e expected' found' r e')
    (hx : e.bindings.apply expected' = e.bindings.apply expected)
    (hf : e.bindings.apply found' = e.bindings.apply found)
    (hplain : e.Clean expected found → expected'.Plain ∧ found'.Plain)
    (haccepts : e.strict = false → found.Closed → expected.isMatch found = true →
      found'.Closed ∧ expected'.isMatch found' = true) : Unified k e expected found r e' := by
  have clean : e.Clean expected found → e.Clean expected' found' := fun hc =>
    ⟨hc.strict, hc.plain, (hplain hc).1, (hplain hc).2⟩
  refine ⟨h.advances, fun hc => h.calm (hc.congr hx hf), h.error, fun hc => h.plain (clean hc),
    fun hc hr hclosed => ?_, fun hs hr X θ hθ => ?_, fun hs θ hθ heq => ?_, hx ▸ hf ▸ h.known,
    fun hs hclosed hm => ?_⟩
  · obtain ⟨more, hmore⟩ := h.keeps.grows hc.strict
    have := h.agree (clean hc) hr (hf ▸ hclosed)
    rw [← hmore, apply_append] at this ⊢
    rw [← hx, this, hf]
  · have hb := h.keeps.solved hs hθ.bindings
    rw [← hb.inst_eq hx, ← hb.inst_eq hf]
    exact h.sound hs hr X θ hθ
  · refine h.principal hs θ hθ ?_
    rw [hθ.bindings.inst_eq hx, hθ.bindings.inst_eq hf, heq]
  · obtain ⟨hclosed, hm⟩ := haccepts hs hclosed hm
    exact h.accepts hs hclosed hm

/-- Another error may be reported in place of the one that was met. -/
theorem Unified.withError {err err' : InferError} (h : Unified k e expected found (.error err) e')
    (hw : err'.Within e.slots.length k) (hp : e.Clean expected found → e'.Plain → err'.Plain) :
    Unified k e expected found (.error err') e' where
  advances := h.advances
  calm := h.calm
  error err h := by cases h; exact hw
  plain hc := ⟨(h.plain hc).1, fun err herr => by cases herr; exact hp hc (h.plain hc).1⟩
  agree _ h := by cases h
  sound _ h := by cases h
  principal hs θ hθ heq := by cases (h.principal hs θ hθ heq).1
  known hs hx hf := (h.known hs hx hf).imp id fun h hm => by cases h hm
  accepts hs hf hm := by cases h.accepts hs hf hm

/-! ## Parts of types -/

/-- `A` and `A'` stand at corresponding places of `C` and `C'`. -/
structure Covers (C C' A A' : Ty) : Prop where
  slots : ∀ s ∈ A.slots, s ∈ C.slots
  slots' : ∀ s ∈ A'.slots, s ∈ C'.slots
  matches_ : ∀ b : Bindings, (b.apply C).isMatch (b.apply C') = true →
    (b.apply A).isMatch (b.apply A') = true
  plain : C.Plain → A.Plain
  plain' : C'.Plain → A'.Plain
  inst : ∀ θ, C.inst θ = C'.inst θ → A.inst θ = A'.inst θ

variable {C C' A A' B B' : Ty}

section

variable (h : Covers C C' A A')
include h

theorem Covers.calm (hc : e.Calm C C') : e.Calm A A' :=
  hc.imp id (h.matches_ e.bindings)

theorem Covers.clean (hc : e.Clean C C') : e.Clean A A' :=
  ⟨hc.strict, hc.plain, h.plain hc.expected, h.plain' hc.found⟩

theorem Covers.known (hs : e.strict = true) (hu : Unified k e A A' r e')
    (hx : (e.bindings.apply C).Closed) (hf : (e.bindings.apply C').Closed) : e' = e ∧
      ((e.bindings.apply C).isMatch (e.bindings.apply C') = true → r = .ok ()) :=
  (hu.known hs (closed_apply_mono h.slots hx) (closed_apply_mono h.slots' hf)).imp
    id fun hr hm => hr (h.matches_ _ hm)

theorem Covers.accepts (hs : e.strict = false) (hu : Unified k e A A' r e') (hf : C'.Closed)
    (hm : C.isMatch C' = true) : r = .ok () :=
  hu.accepts hs (fun s hs => hf s (h.slots' s hs)) (h.matches_ [] hm)

theorem Covers.affords (ha : e.Affords budget C C') : e.Affords budget A A' := by
  refine ha.imp id fun ⟨hc, hlt⟩ => ⟨h.calm hc, ?_⟩
  have := height_mono e.bindings h.slots
  omega

end

/-- Unifying parts of two types is unifying the types, as far as the parts go. -/
theorem Unified.whole (hA : Covers C C' A A') (h : Unified k e A A' r e')
    (hagree : e.Clean C C' → ∀ b : Bindings,
      b.apply A = e.bindings.apply A' → b.apply C = e.bindings.apply C')
    (hsound : ∀ θ, Ty.Agree (A.inst θ) (A'.inst θ) → Ty.Agree (C.inst θ) (C'.inst θ)) :
    Unified k e C C' r e' where
  advances := h.advances
  calm hc := h.calm (hA.calm hc)
  error := h.error
  plain hc := h.plain (hA.clean hc)
  agree hc hr hclosed :=
    hagree hc _ (h.agree (hA.clean hc) hr (closed_apply_mono hA.slots' hclosed))
  sound hs hr X θ hθ := hsound θ (h.sound hs hr X θ hθ)
  principal hs θ hθ heq := h.principal hs θ hθ (hA.inst θ heq)
  known hs := hA.known hs h
  accepts hs := hA.accepts hs h

/-- A failure at the first parts ends the unification. -/
theorem Unified.wholeError {err : InferError} (hA : Covers C C' A A')
    (h : Unified k e A A' (.error err) e') : Unified k e C C' (.error err) e' where
  advances := h.advances
  calm hc := h.calm (hA.calm hc)
  error := h.error
  plain hc := h.plain (hA.clean hc)
  agree _ hr := by cases hr
  sound _ hr := by cases hr
  principal hs θ hθ heq := h.principal hs θ hθ (hA.inst θ heq)
  known hs := hA.known hs h
  accepts hs := hA.accepts hs h

theorem Unified.clean (h : Unified k e expected found (.ok ()) e') (hc : e.Clean expected found)
    (hc' : e.Clean expected' found') : e'.Clean expected' found' :=
  ⟨h.keeps.strict.trans hc.strict, (h.plain hc).1, hc'.expected, hc'.found⟩

/-- First two parts and then two other parts of the types. -/
theorem Unified.seq (he : e.Valid k) (hA : Covers C C' A A') (hB : Covers C C' B B')
    (h1 : Unified k e A A' (.ok ()) e1) (h2 : Unified k e1 B B' r e2)
    (hagree : e.Clean C C' → ∀ b : Bindings, b.apply A = e.bindings.apply A' →
      b.apply B = e.bindings.apply B' → b.apply C = e.bindings.apply C')
    (hsound : ∀ θ, Ty.Agree (A.inst θ) (A'.inst θ) → Ty.Agree (B.inst θ) (B'.inst θ) →
      Ty.Agree (C.inst θ) (C'.inst θ)) : Unified k e C C' r e2 := by
  have hl1 := h1.keeps.length_le he
  have hl2 := h2.keeps.length_le h1.keeps.valid
  have hstrict := h1.keeps.strict
  refine ⟨h1.advances.trans he h2.advances, fun hc hl => ?_, fun err hr => ?_, fun hc => ?_,
    fun hc hr hclosed => ?_, fun hs hr X θ hθ => ?_, fun hs θ hθ heq => ?_, fun hs hx hf => ?_,
    fun hs => hB.accepts (hstrict.trans hs) h2⟩
  · -- where the whole binds nothing, neither half does
    have hb := h1.calm (hA.calm hc) (by omega)
    have hc1 : e1.Calm B B' := by
      rw [Calm, hb, h1.keeps.strict]; exact hB.calm hc
    rw [h2.calm hc1 (by omega), hb]
  · rw [← h1.keeps.slots]; exact h2.error err hr
  · exact h2.plain (h1.clean (hA.clean hc) (hB.clean hc))
  · have hAc := closed_apply_mono hA.slots' hclosed
    have hBc := closed_apply_mono hB.slots' hclosed
    have hA' := h1.agree (hA.clean hc) rfl hAc
    have hB1 := h1.keeps.apply_closed hc.strict hBc
    have hB' := h2.agree (h1.clean (hA.clean hc) (hB.clean hc)) hr (by rwa [hB1])
    refine hagree hc _ ?_ (hB'.trans hB1)
    rw [← hA']
    exact h2.keeps.apply_closed (hstrict.trans hc.strict) (by rwa [hA'])
  · have hs1 := hstrict.trans hs
    exact hsound θ (h1.sound hs rfl X θ (h2.advances.admits hs1 hθ)) (h2.sound hs1 hr X θ hθ)
  · obtain ⟨-, hθ1⟩ := h1.principal hs θ hθ (hA.inst θ heq)
    exact h2.principal (hstrict.trans hs) θ hθ1 (hB.inst θ heq)
  · obtain rfl := (hA.known hs h1 hx hf).1
    exact hB.known hs h2 hx hf

/-! ## The budget -/

theorem Poses.next (hp : Poses k budget e C C') (hA : Covers C C' A A') (hB : Covers C C' B B')
    (hBw : B.Within e.slots.length k) (hBw' : B'.Within e.slots.length k)
    (h : Unified k e A A' (.ok ()) e1) : Poses k budget e1 B B' where
  valid := h.keeps.valid
  within := h.keeps.within hBw
  within' := h.keeps.within hBw'
  affords := by
    have hle := h.keeps.length_le hp.valid
    have hlen := h.keeps.valid.length_le
    rw [Affords, h.keeps.slots] at *
    by_cases hl : e1.bindings.length = e.bindings.length
    · have hf : e1.free = e.free := by simp only [free, h.keeps.slots, hl]
      rw [hf]
      refine hp.affords.imp id fun hslow => ?_
      obtain ⟨hc, hlt⟩ := hslow
      have hb := h.calm (hA.calm hc) hl
      refine ⟨by rw [Calm, hb, h.keeps.strict]; exact hB.calm hc, ?_⟩
      have := height_mono e.bindings hB.slots
      rw [hb]; omega
    · -- a slot was bound, and the next part may start from any height
      refine .inl ?_
      have hf : e1.free + 1 ≤ e.free := by simp only [free, h.keeps.slots]; omega
      have hmul := Nat.mul_le_mul_right (e.slots.length + 1) hf
      rw [Nat.add_mul] at hmul
      rcases hp.affords with hlt | ⟨-, hlt⟩ <;> omega

theorem Poses.part (hp : Poses k budget e C C') (hA : Covers C C' A A')
    (hAw : A.Within e.slots.length k) (hAw' : A'.Within e.slots.length k) : Poses k budget e A A' :=
  ⟨hp.valid, hAw, hAw', hA.affords hp.affords⟩

/-- Going through a bound slot takes one from the budget. -/
theorem Poses.deeper (hp : Poses k (budget + 1) e (.slot s) found) (hs : s ∈ e.bindings.keys)
    (hc : e.Calm (.slot s) found) :
    Poses k budget e (e.bindings.head (.slot s)) (e.bindings.head found) where
  valid := hp.valid
  within := hp.valid.head hp.within
  within' := hp.valid.head hp.within'
  affords := by
    have hlt := height_head_lt hp.valid.ordered hs
    have hle := height_le e.bindings (.slot s)
    have hlen := hp.valid.length_le
    refine .inr ⟨hc.congr (apply_head hp.valid.ordered _) (apply_head hp.valid.ordered _), ?_⟩
    rcases hp.affords with h | ⟨-, h⟩ <;> omega

end Engine

/-! ## Steps -/

open InferM Engine

variable {k budget : Nat} {e e' e1 e2 : Engine} {expected found : Ty} {step : InferM Unit}
  {s : Slot}

theorem InferM.run_orMismatch (step : InferM Unit) (a b : Ty) (e : Engine) :
    (orMismatch step a b).run e = (step.run e >>= fun out =>
      match out.1 with
      | .ok () => .ok (.ok (), out.2)
      | .error _ => (mismatch a b : InferM Unit).run out.2) := by
  simp only [orMismatch, tryCatch, tryCatchThe, MonadExceptOf.tryCatch, ExceptT.tryCatch,
    ExceptT.run_mk]
  show (step.run e >>= _) = _
  congr 1
  funext ⟨r, e'⟩
  cases r <;> rfl

theorem InferM.run_orMismatch_ok {a b : Ty} (h : step.run e = .ok (.ok (), e')) :
    (step.orMismatch a b).run e = .ok (.ok (), e') := by
  rw [run_orMismatch, h]
  rfl

theorem InferM.run_orMismatch_error {a b : Ty} {err : InferError}
    (h : step.run e = .ok (.error err, e')) :
    (step.orMismatch a b).run e = (mismatch a b : InferM Unit).run e' := by
  rw [run_orMismatch, h]
  rfl

theorem InferM.run_mismatch (he : e.Valid k) {a b : Ty} (ha : a.Within e.slots.length k)
    (hb : b.Within e.slots.length k) :
    (mismatch a b : InferM Unit).run e =
      .ok (.error (.mismatch (e.bindings.apply a) (e.bindings.apply b)), e) := by
  rw [mismatch, run_bind_ok (run_resolve he ha), run_bind_ok (run_resolve he hb)]
  rfl

theorem orMismatch_error {err : InferError} (hx : expected.Within e.slots.length k)
    (hf : found.Within e.slots.length k) (hrun : step.run e1 = .ok (.error err, e2))
    (hu : Unified k e expected found (.error err) e2) :
    ∃ err', (step.orMismatch expected found).run e1 = .ok (.error err', e2) ∧
      Unified k e expected found (.error err') e2 := by
  have hv := hu.keeps.valid
  have hx' := hu.keeps.within hx
  have hf' := hu.keeps.within hf
  refine ⟨_, (run_orMismatch_error hrun).trans (run_mismatch hv hx' hf'), hu.withError ?_ ?_⟩
  · rw [← hu.keeps.slots]; exact ⟨hv.apply hx', hv.apply hf'⟩
  · intro hc hp
    exact ⟨plain_apply hp.bindings hc.expected, plain_apply hp.bindings hc.found⟩

theorem orMismatch_spec {r : Except InferError Unit} (hx : expected.Within e.slots.length k)
    (hf : found.Within e.slots.length k) (hrun : step.run e1 = .ok (r, e2))
    (hu : Unified k e expected found r e2) :
    Yields (step.orMismatch expected found) e1 (Unified k e expected found) := by
  cases r with
  | ok => exact ⟨_, _, run_orMismatch_ok hrun, hu⟩
  | error err =>
    obtain ⟨err', hrun', hu'⟩ := orMismatch_error hx hf hrun hu
    exact ⟨_, _, hrun', hu'⟩

theorem Bindings.apply_slot? (b : Bindings) {t : Ty} (h : t.slot? = none) :
    (b.apply t).slot? = none := by
  cases t <;> simp_all [Ty.slot?]

/-- Binding a slot that one of the types stands for to the other one. -/
theorem bindSlot_spec (he : e.Valid k) {t : Ty} (hi : s.index < e.slots.length)
    (hs : s ∉ e.bindings.keys) (ht : t.Within e.slots.length k) (hslot : t.slot? = none)
    (hplain : e.Clean expected found → t.Plain) (hagree : (e.bindings.apply found).Closed →
      e.bindings.apply expected = .slot s ∧ e.bindings.apply t = e.bindings.apply found)
    (heq : ∀ θ, e.bindings.Solved θ → (expected.inst θ = found.inst θ ↔ θ s = t.inst θ)) :
    Yields (bindSlot s t) e (Unified k e expected found) := by
  rw [bindSlot]
  refine .after (run_resolve he ht) ?_
  by_cases hc : s ∈ (e.bindings.apply t).slots
  · rw [if_pos (containsSlot_iff.2 hc)]
    refine ⟨_, _, rfl, .failed he (he.apply ht) (fun _ => trivial) (fun θ hθ h => ?_) fun hf => ?_⟩
    · rw [heq θ hθ, ← hθ.inst_apply t] at h
      exact inst_ne hc (apply_slot? _ hslot) h
    · exact absurd hc ((hagree hf).2 ▸ hf s)
  · rw [if_neg (mt containsSlot_iff.1 hc)]
    have hk := he.bind hs hi (he.apply ht) hc fun s' hs' =>
      not_mem_slots_apply he.ordered hs' t
    have hl := length_bind e s (e.bindings.apply t)
    have hbind : ∀ θ, (e.bindings.bind s (e.bindings.apply t)).Solved θ ↔
        e.bindings.Solved θ ∧ expected.inst θ = found.inst θ := by
      intro θ
      rw [solved_bind]
      refine and_congr_right fun hθ => ?_
      rw [heq θ hθ, hθ.inst_apply]
    refine ⟨_, _, run_lift (EngineM.bind_run hi _), {
      advances := hk.advances rfl
      calm := fun _ h => absurd (hl.symm.trans h) (Nat.succ_ne_self _)
      error := by rintro err ⟨⟩
      plain := fun hc => ⟨hc.plain.bind (plain_apply hc.plain.bindings (hplain hc)),
        by rintro err ⟨⟩⟩
      agree := fun _ _ hclosed => ?_
      sound := fun _ _ _ θ hθ => .of_eq ((hbind θ).1 hθ.bindings).2
      principal := fun _ θ hθ h => ⟨rfl, (hbind θ).2 ⟨hθ.bindings, h⟩, hθ.rules⟩
      known := fun _ hx hf => absurd ((hagree hf).1 ▸ hx) Ty.Closed.not_slot
      accepts := fun _ _ _ => rfl }⟩
    obtain ⟨hx, hf⟩ := hagree hclosed
    show apply (e.bindings ++ [(s, e.bindings.apply t)]) expected = _
    rw [apply_append, hx, hf]
    simp [subst]

theorem sameSlots_spec (he : e.Valid k) {left right : Slot} (hl : left.index < e.slots.length)
    (hr : right.index < e.slots.length) (hleft : left ∉ e.bindings.keys)
    (hright : right ∉ e.bindings.keys) (hexpected : e.bindings.apply expected = .slot left)
    (hfound : e.bindings.apply found = .slot right) :
    Yields (sameSlots left right) e (Unified k e expected found) := by
  have hopen : ¬ (e.bindings.apply found).Closed := by rw [hfound]; exact Ty.Closed.not_slot
  have hinst : ∀ θ, e.bindings.Solved θ → expected.inst θ = θ left ∧ found.inst θ = θ right := by
    intro θ hθ
    rw [← hθ.inst_apply expected, ← hθ.inst_apply found, hexpected, hfound]
    exact ⟨rfl, rfl⟩
  rw [sameSlots]
  by_cases hne : left = right
  · rw [if_neg (by simpa using hne)]
    refine .pure (.unchanged he (fun _ h => absurd h hopen) fun θ hθ => ?_)
    rw [(hinst θ hθ).1, (hinst θ hθ).2, hne]
    exact .refl _
  · rw [if_pos hne]
    have ho : e.origin left = .ok (e.slots.get ⟨left.index, hl⟩).origin := by
      simp [origin, info_eq hl, Bind.bind, Except.bind, pure, Except.pure]
    have hw : (Rule.same left right (e.slots.get ⟨left.index, hl⟩).origin).Waits e.bindings :=
      ⟨left, right, head_unbound hleft, head_unbound hright, hne⟩
    refine .after (run_ask ho) ⟨_, _, rfl, {
      advances := .addRule he ⟨hl, hr⟩ hw
      calm := fun _ _ => rfl
      error := by rintro err ⟨⟩
      plain := fun hc => ⟨hc.plain.addRule trivial, by rintro err ⟨⟩⟩
      agree := fun _ _ h => absurd h hopen
      sound := fun _ _ _ θ hθ => ?_
      principal := fun _ θ hθ heq => ⟨rfl, solved_addRule.2 ⟨hθ, ?_⟩⟩
      known := fun _ _ h => absurd h hopen
      accepts := fun _ _ _ => rfl }⟩
    · rw [(hinst θ hθ.bindings).1, (hinst θ hθ.bindings).2]
      exact hθ.rules _ (List.mem_append_right _ (List.mem_singleton_self _))
    · rw [(hinst θ hθ.bindings).1, (hinst θ hθ.bindings).2] at heq
      exact heq

/-- Where a bound slot takes another type, that settles the matter; otherwise
    nothing is changed, and a bound slot matches what was found. -/
theorem overwrite_cases (he : e.Valid k) (hi : s.index < e.slots.length)
    (hf : found.Within e.slots.length k) :
    ((overwrite s found).run e = .ok (.ok false, e) ∧
        (s ∈ e.bindings.keys → e.Calm (.slot s) found)) ∨
      ∃ e', e' = { e with bindings := e.bindings.rebind s (e.bindings.apply found) } ∧
        (overwrite s found).run e = .ok (.ok true, e') ∧
        Unified k e (.slot s) found (.ok ()) e' := by
  have hsw : (Ty.slot s).Within e.slots.length k := within_slot.2 hi
  rw [overwrite, run_bind_ok (InferM.get_run e)]
  by_cases hstrict : e.strict = true
  · rw [if_pos hstrict]
    exact .inl ⟨rfl, fun _ => .inl hstrict⟩
  have hlax : e.strict = false := by simpa using hstrict
  rw [if_neg hstrict, run_bind_ok (run_ask (isBound_eq hi))]
  by_cases hs : s ∉ e.bindings.keys
  · have hb : (e.bindings.find? s).isSome = false := by
      simpa using mt find?_isSome.1 hs
    rw [if_pos (by simp [hb])]
    exact .inl ⟨rfl, fun h => absurd h hs⟩
  rw [Decidable.not_not] at hs
  rw [if_neg (by simp [find?_isSome.2 hs]), run_bind_ok (run_resolve he hsw),
    run_bind_ok (run_resolve he hf)]
  have hnot : s ∉ (e.bindings.apply found).slots := not_mem_slots_apply he.ordered hs _
  by_cases hm : (e.bindings.apply (.slot s)).isMatch (e.bindings.apply found) = true
  · rw [if_pos (by simp [hm])]
    exact .inl ⟨rfl, fun _ => .inr hm⟩
  rw [if_neg (by simpa [hm] using mt containsSlot_iff.1 hnot)]
  have hhead : ∀ root, e.bindings.head (.slot s) ≠ .slot root := by
    -- an open slot matches everything
    rintro root hroot
    rw [← apply_head he.ordered, hroot, apply_unbound (he.root hsw hroot).2] at hm
    exact hm rfl
  have hk := he.rebind hlax hs (he.apply hf) hhead fun s' hs' =>
    not_mem_slots_apply he.ordered hs' _
  refine .inr ⟨_, rfl, (run_bind_ok (run_lift (EngineM.rebind_run hi _))).trans rfl, hk.advances rfl, ?_,
    by rintro err ⟨⟩, fun hc => absurd hc.strict hstrict, fun hc => absurd hc.strict hstrict,
    fun hs => absurd hs hstrict, fun hs => absurd hs hstrict, fun hs => absurd hs hstrict,
    fun _ _ _ => rfl⟩
  rintro (h | h)
  · exact absurd h hstrict
  · exact absurd h hm

theorem Engine.Poses.head (hp : Poses k budget e expected found) :
    Poses k budget e expected (e.bindings.head found) :=
  ⟨hp.valid, hp.within, hp.valid.head hp.within', hp.affords.imp id fun ⟨hc, h⟩ =>
    ⟨hc.congr rfl (apply_head hp.valid.ordered _), h⟩⟩

theorem unifySlot_spec {deeper : Ty → Ty → InferM Unit}
    (hd : ∀ e t t', Poses k budget e t t' → Yields (deeper t t') e (Unified k e t t'))
    (hp : Poses k (budget + 1) e (.slot s) found) :
    Yields (unifyWith deeper (.slot s) found) e (Unified k e (.slot s) found) := by
  have he := hp.valid
  have hxw := he.head hp.within
  have hfw := he.head hp.within'
  have hxa := apply_head he.ordered (.slot s)
  have hfa := apply_head he.ordered found
  rw [unifyWith]
  rcases overwrite_cases he (within_slot.1 hp.within) hp.within' with
    ⟨hrun, hcalm⟩ | ⟨e', -, hrun, hu⟩
  rotate_left
  · exact .after hrun (.pure hu)
  refine .after hrun ?_
  rw [if_neg (by simp)]
  refine .after (run_shallow he hp.within) (.after (run_shallow he hp.within') ?_)
  split
  · rename_i left right hx hf
    have hl := he.root hp.within hx
    have hr := he.root hp.within' hf
    refine sameSlots_spec he hl.1 hr.1 hl.2 hr.2 ?_ ?_
    · rw [← hxa, hx, apply_unbound hl.2]
    · rw [← hfa, hf, apply_unbound hr.2]
  · rename_i left hx hf
    have hl := he.root hp.within hx
    refine bindSlot_spec he hl.1 hl.2 hfw (slot?_eq_none hf) (fun hc => hc.plain.head hc.found)
      (fun _ => ⟨?_, hfa⟩) fun θ hθ => ?_
    · rw [← hxa, hx, apply_unbound hl.2]
    · rw [← hθ.inst_head (.slot s), ← hθ.inst_head found, hx, inst_slot]
  · rename_i right hf hx
    have hr := he.root hp.within' hf
    refine bindSlot_spec he hr.1 hr.2 hxw (slot?_eq_none hx)
      (fun hc => hc.plain.head hc.expected) (fun hclosed => ?_) fun θ hθ => ?_
    · rw [← hfa, hf, apply_unbound hr.2] at hclosed
      exact absurd hclosed Ty.Closed.not_slot
    · rw [← hθ.inst_head (.slot s), ← hθ.inst_head found, hf, inst_slot, eq_comm]
  · rename_i hx hf _
    have hs : s ∈ e.bindings.keys :=
      Decidable.byContradiction fun hn => hx s (head_unbound hn)
    refine (hd e _ _ (hp.deeper hs (hcalm hs))).mono fun r e' hu => hu.congr hxa hfa
      (fun hc => ⟨hc.plain.head hc.expected, hc.plain.head hc.found⟩) fun hlax hclosed _ => ?_
    have hm := (hcalm hs).resolve_left (by simp [hlax])
    rw [← hxa, ← hfa] at hm
    rw [head_closed hclosed] at hm ⊢
    exact ⟨hclosed, isMatch_of_apply hm⟩

/-! ## Corresponding parts -/

def Ty.result? : Ty → Option Ty
  | .funct _ r | .functAny r => some r
  | _ => none

theorem Ty.mem_parts_result {t r : Ty} (h : t.result? = some r) : r ∈ t.parts := by
  cases t <;> simp_all [result?, mem_parts_self]

namespace Engine

variable {C C' : Ty}

theorem covers_pointer (m m' : Bool) (t t' : Ty) : Covers (.pointer m t) (.pointer m' t') t t' where
  slots s hs := by simpa [mem_slots] using hs
  slots' s hs := by simpa [mem_slots] using hs
  matches_ b h := by
    simp only [apply_pointer, isMatch, and_eq_true] at h
    exact h.2
  plain h := (all_pointer.1 h).2
  plain' h := (all_pointer.1 h).2
  inst θ h := by simp_all

theorem covers_result {r r' : Ty} (h : C.result? = some r) (h' : C'.result? = some r') :
    Covers C C' r r' where
  slots s hs := mem_slots.2 (parts_trans (mem_slots.1 hs) (mem_parts_result h))
  slots' s hs := mem_slots.2 (parts_trans (mem_slots.1 hs) (mem_parts_result h'))
  matches_ b hm := by
    cases C <;> cases C' <;> simp_all [result?, isMatch]
  plain hp := hp.part (mem_parts_result h)
  plain' hp := hp.part (mem_parts_result h')
  inst θ heq := by cases C <;> cases C' <;> simp_all [result?]

theorem covers_params {ps ps' : List Ty} {r r' : Ty} :
    Covers (.funct ps r) (.funct ps' r') (.tuple ps) (.tuple ps') where
  slots s hs := by simp_all [mem_slots]
  slots' s hs := by simp_all [mem_slots]
  matches_ b h := by
    simp only [apply_funct, apply_tuple, isMatch, and_eq_true] at h ⊢
    exact h.2
  plain h := all_tuple.2 ⟨trivial, (all_funct.1 h).2.2⟩
  plain' h := all_tuple.2 ⟨trivial, (all_funct.1 h).2.2⟩
  inst θ h := by simp_all

variable {ts ts' : List Ty} {t t' : Ty}

theorem covers_head : Covers (.tuple (t :: ts)) (.tuple (t' :: ts')) t t' where
  slots s hs := by simp_all [mem_slots]
  slots' s hs := by simp_all [mem_slots]
  matches_ b h := by
    simp only [apply_tuple, List.map_cons, isMatch, allMatch, and_eq_true] at h
    exact h.1
  plain h := (all_tuple.1 h).2 t (by simp)
  plain' h := (all_tuple.1 h).2 t' (by simp)
  inst θ h := by simp_all

theorem covers_tail : Covers (.tuple (t :: ts)) (.tuple (t' :: ts')) (.tuple ts) (.tuple ts') where
  slots s hs := by simp_all [mem_slots]
  slots' s hs := by simp_all [mem_slots]
  matches_ b h := by
    simp only [apply_tuple, List.map_cons, isMatch, allMatch, and_eq_true] at h ⊢
    exact h.2
  plain h := all_tuple.2 ⟨trivial, fun u hu => (all_tuple.1 h).2 u (by simp [hu])⟩
  plain' h := all_tuple.2 ⟨trivial, fun u hu => (all_tuple.1 h).2 u (by simp [hu])⟩
  inst θ h := by simp_all

end Engine

/-! ## Recursion -/

variable {deeper : Ty → Ty → InferM Unit}

theorem unifyEachWith_spec {ts ts' : List Ty}
    (ih : ∀ t ∈ ts, ∀ e found, Poses k budget e t found →
      Yields (unifyWith deeper t found) e (Unified k e t found))
    (hl : ts.length = ts'.length) (hp : Poses k budget e (.tuple ts) (.tuple ts')) :
    Yields (unifyEachWith deeper ts ts') e (Unified k e (.tuple ts) (.tuple ts')) := by
  induction ts generalizing ts' e with
  | nil =>
    obtain rfl := List.length_eq_zero_iff.1 hl.symm
    rw [unifyEachWith]
    · exact .pure (.unchanged hp.valid (fun _ _ => rfl) fun θ _ => .refl _)
    · simp
  | cons t ts ihs =>
    cases ts' with
    | nil => cases hl
    | cons t' ts' =>
      have hw := within_tuple.1 hp.within
      have hw' := within_tuple.1 hp.within'
      rw [unifyEachWith]
      refine (ih t (by simp) e t' (hp.part covers_head (hw t (by simp)) (hw' t' (by simp)))).bind
        (fun _ e1 h1 => ?_) fun err e1 h1 => h1.wholeError covers_head
      have hp1 := hp.next covers_head covers_tail
        (within_tuple.2 fun u hu => hw u (List.mem_cons_of_mem _ hu))
        (within_tuple.2 fun u hu => hw' u (List.mem_cons_of_mem _ hu)) h1
      refine (ihs (fun u hu => ih u (List.mem_cons_of_mem _ hu)) (by simpa using hl) hp1).mono
        fun r e2 h2 => h1.seq hp.valid covers_head covers_tail h2 (fun _ b hb hbs => ?_)
          fun θ hA hB => ?_
      · simp only [apply_tuple, Ty.tuple.injEq, List.map_cons] at hbs ⊢
        rw [hb, hbs]
      · exact hA.cons hB

theorem unifyLists_spec {ts ts' : List Ty}
    (ih : ∀ t ∈ ts, ∀ e found, Poses k budget e t found →
      Yields (unifyWith deeper t found) e (Unified k e t found))
    (hp : Poses k budget e (.tuple ts) (.tuple ts')) :
    Yields (do sameLength ts ts'; unifyEachWith deeper ts ts') e
      (Unified k e (.tuple ts) (.tuple ts')) := by
  by_cases hl : ts.length = ts'.length
  · have hrun : (sameLength ts ts').run e = .ok (.ok (), e) := by
      rw [sameLength, if_neg (by simpa using hl)]; rfl
    exact .after hrun (unifyEachWith_spec ih hl hp)
  · have hrun : (sameLength ts ts').run e =
        .ok (.error (.mismatch (.tuple ts) (.tuple ts')), e) := by
      rw [sameLength, if_pos hl]; rfl
    have hno : (Ty.tuple ts).isMatch (.tuple ts') ≠ true := fun hm => hl (length_eq_of_allMatch hm)
    refine ⟨_, _, run_bind_error hrun, .failed hp.valid ⟨hp.within, hp.within'⟩
      (fun hc => ⟨hc.expected, hc.found⟩) (fun θ _ => inst_ne_of_not_match hno) fun _ => hno⟩

/-- Binding the slot that the found type stands for. -/
theorem bindFound_spec {root : Slot} (hp : Poses k budget e expected (.slot root))
    (hr : root ∉ e.bindings.keys) (hslot : expected.slot? = none) :
    Yields (bindSlot root expected) e (Unified k e expected (.slot root)) := by
  refine bindSlot_spec hp.valid (within_slot.1 hp.within') hr hp.within hslot
    (fun hc => hc.expected) (fun hclosed => ?_) fun θ _ => ?_
  · rw [apply_unbound hr] at hclosed
    exact absurd hclosed Ty.Closed.not_slot
  · rw [inst_slot, eq_comm]

theorem unlike_spec (hp : Poses k budget e expected found) (hno : expected.isMatch found ≠ true) :
    Yields (mismatch expected found) e (Unified k e expected found) := by
  have he := hp.valid
  refine ⟨_, _, run_mismatch he hp.within hp.within', .failed he
    ⟨he.apply hp.within, he.apply hp.within'⟩ (fun hc => ?_)
    (fun θ _ => inst_ne_of_not_match hno) fun _ => hno⟩
  exact ⟨plain_apply hc.plain.bindings hc.expected, plain_apply hc.plain.bindings hc.found⟩

theorem ignoreError_spec (hp : Poses k budget e expected .error) :
    Yields (pure ()) e (Unified k e expected .error) :=
  Yields.pure (.unchanged hp.valid (fun hc => absurd hc.found not_plain_error)
    fun _ _ => .errorRight _)

theorem lastPart_spec {C C' A A' : Ty} (hp : Poses k budget e C C') (hA : Covers C C' A A')
    (h : Yields step e (Unified k e A A')) (hagree : e.Clean C C' → ∀ b : Bindings,
      b.apply A = e.bindings.apply A' → b.apply C = e.bindings.apply C')
    (hsound : ∀ θ, Ty.Agree (A.inst θ) (A'.inst θ) → Ty.Agree (C.inst θ) (C'.inst θ)) :
    Yields (orMismatch step C C') e (Unified k e C C') := by
  obtain ⟨r, e', hrun, hu⟩ := h
  exact orMismatch_spec hp.within hp.within' hrun (hu.whole hA hagree hsound)

/-- It is the head of the found type that counts. -/
theorem atHead_spec {f : Ty → InferM Unit} (hp : Poses k budget e expected found)
    (h : ∀ found', Poses k budget e expected found' →
      (∀ root, found' = .slot root → root ∉ e.bindings.keys) →
      Yields (f found') e (Unified k e expected found')) :
    Yields (shallow found >>= f) e (Unified k e expected found) := by
  refine .after (run_shallow hp.valid hp.within') ((h _ hp.head fun root hroot => ?_).mono
    fun r e' hu => hu.congr rfl (apply_head hp.valid.ordered _)
      (fun hc => ⟨hc.expected, hc.plain.head hc.found⟩) fun _ hclosed hm => ?_)
  · exact head_ne_bound hp.valid.ordered hroot
  · rw [head_closed hclosed]
    exact ⟨hclosed, hm⟩

theorem unifyWith_spec
    (hd : ∀ e t t', Poses k budget e t t' → Yields (deeper t t') e (Unified k e t t'))
    (expected : Ty) : ∀ e found, Poses k (budget + 1) e expected found →
      Yields (unifyWith deeper expected found) e (Unified k e expected found) := by
  induction expected using Ty.induct with
  | slot s => exact fun e found hp => unifySlot_spec hd hp
  | error =>
    intro e found hp
    rw [unifyWith]
    refine atHead_spec hp fun found' hp' hroot => ?_
    cases found' with
    | slot root => exact bindFound_spec hp' (hroot root rfl) rfl
    | _ =>
      exact .pure (.unchanged hp'.valid (fun hc => absurd hc.expected not_plain_error)
        fun _ _ => .error _)
  | pointer m t ih =>
    intro e found hp
    rw [unifyWith]
    refine atHead_spec hp fun found' hp' hroot => ?_
    cases found' with
    | slot root => exact bindFound_spec hp' (hroot root rfl) rfl
    | error => exact ignoreError_spec hp'
    | pointer m' t' =>
      dsimp only
      by_cases hm : m = m'
      · subst hm
        rw [if_neg (by simp)]
        have hA := covers_pointer m m t t'
        refine lastPart_spec hp' hA (ih e t' (hp'.part hA (within_pointer.1 hp'.within)
          (within_pointer.1 hp'.within'))) (fun _ b hb => ?_) fun θ h => .pointer h
        rw [apply_pointer, apply_pointer, hb]
      · rw [if_pos hm]
        exact unlike_spec hp' (by simp [isMatch, hm])
    | _ => exact unlike_spec hp' false_ne_true
  | struct id =>
    intro e found hp
    rw [unifyWith]
    refine atHead_spec hp fun found' hp' hroot => ?_
    cases found' with
    | slot root => exact bindFound_spec hp' (hroot root rfl) rfl
    | error => exact ignoreError_spec hp'
    | struct id' =>
      dsimp only
      by_cases hid : id = id'
      · subst hid
        rw [if_neg (by simp)]
        exact .pure (.unchanged hp'.valid (fun _ _ => rfl) fun _ _ => .refl _)
      · rw [if_pos hid]
        exact unlike_spec hp' (by simp [isMatch, hid])
    | _ => exact unlike_spec hp' false_ne_true
  | funct ps r ihs ih =>
    intro e found hp
    rw [unifyWith]
    refine atHead_spec hp fun found' hp' hroot => ?_
    have hw := within_funct.1 hp'.within
    cases found' with
    | slot root => exact bindFound_spec hp' (hroot root rfl) rfl
    | error => exact ignoreError_spec hp'
    | funct ps' r' =>
      have hw' := within_funct.1 hp'.within'
      have hps := hp'.part covers_params (within_tuple.2 hw.2) (within_tuple.2 hw'.2)
      have hR : Covers (.funct ps r) (.funct ps' r') r r' := covers_result rfl rfl
      -- the parameters come first, and then the results
      obtain ⟨r1, e1, hrun1, h1⟩ := unifyLists_spec ihs hps
      cases r1 with
      | error err =>
        obtain ⟨err', hrun, hu⟩ :=
          orMismatch_error hp'.within hp'.within' hrun1 (h1.wholeError covers_params)
        exact ⟨_, _, run_bind_error hrun, hu⟩
      | ok =>
        obtain ⟨r2, e2, hrun2, h2⟩ := ih e1 r' (hp'.next covers_params hR hw.1 hw'.1 h1)
        refine .after (run_orMismatch_ok hrun1) (orMismatch_spec hp'.within hp'.within' hrun2
          (h1.seq hp'.valid covers_params hR h2 (fun _ b hbs hb => ?_) fun θ hps hr => ?_))
        · simp only [apply_tuple, apply_funct, Ty.tuple.injEq] at hbs ⊢
          rw [hbs, hb]
        · exact hps.signature hr
    | functAny r' =>
      have hR : Covers (.funct ps r) (.functAny r') r r' := covers_result rfl rfl
      exact lastPart_spec hp' hR (ih e r' (hp'.part hR hw.1 (within_functAny.1 hp'.within')))
        (fun hc => absurd hc.found not_plain_functAny) fun θ h => by
          simpa using Ty.Agree.unknownRight h
    | _ => exact unlike_spec hp' false_ne_true
  | functAny r ih =>
    intro e found hp
    rw [unifyWith]
    refine atHead_spec hp fun found' hp' hroot => ?_
    have hw := within_functAny.1 hp'.within
    cases found' with
    | slot root => exact bindFound_spec hp' (hroot root rfl) rfl
    | error => exact ignoreError_spec hp'
    | funct ps' r' =>
      have hR : Covers (.functAny r) (.funct ps' r') r r' := covers_result rfl rfl
      exact lastPart_spec hp' hR (ih e r' (hp'.part hR hw (within_funct.1 hp'.within').1))
        (fun hc => absurd hc.expected not_plain_functAny) fun θ h => by
          simpa using Ty.Agree.unknown h
    | functAny r' =>
      have hR : Covers (.functAny r) (.functAny r') r r' := covers_result rfl rfl
      exact lastPart_spec hp' hR (ih e r' (hp'.part hR hw (within_functAny.1 hp'.within')))
        (fun hc => absurd hc.expected not_plain_functAny) fun θ h => .functAny h
    | _ => exact unlike_spec hp' false_ne_true
  | tuple ts ihs =>
    intro e found hp
    rw [unifyWith]
    refine atHead_spec hp fun found' hp' hroot => ?_
    cases found' with
    | slot root => exact bindFound_spec hp' (hroot root rfl) rfl
    | error => exact ignoreError_spec hp'
    | tuple ts' =>
      obtain ⟨r, e', hrun, hu⟩ := unifyLists_spec ihs hp'
      exact orMismatch_spec hp'.within hp'.within' hrun hu
    | _ => exact unlike_spec hp' false_ne_true

theorem unifyWithin_spec : ∀ budget e t t', Poses k budget e t t' →
    Yields (unifyWithin budget t t') e (Unified k e t t')
  | 0, e, t, t', hp => by rcases hp.affords with h | ⟨-, h⟩ <;> exact absurd h (Nat.not_lt_zero _)
  | budget + 1, e, t, t', hp => unifyWith_spec (unifyWithin_spec budget) t e t' hp

theorem Engine.Poses.enough (he : e.Valid k) (hx : expected.Within e.slots.length k)
    (hf : found.Within e.slots.length k) :
    Poses k ((e.slots.length + 1) * (e.slots.length + 1)) e expected found := by
  refine ⟨he, hx, hf, .inl ?_⟩
  have hfree : e.free ≤ e.slots.length := Nat.sub_le _ _
  have := Nat.mul_le_mul_right (e.slots.length + 1) hfree
  rw [Nat.add_mul]
  omega

/-- **Unification never meets a fault**, and does what `Unified` says. -/
theorem unify_spec (he : e.Valid k) (hx : expected.Within e.slots.length k)
    (hf : found.Within e.slots.length k) :
    Yields (unify expected found) e (Unified k e expected found) := by
  exact Yields.after (InferM.get_run e) (unifyWithin_spec _ e _ _ (.enough he hx hf))

end Semcheck
