/-
  Solving stays within its budgets.

  A rule waits (`Rule.Waits`) while its slots stand for unbound ones.  A sweep
  that binds no slot leaves only waiting rules in the queue, and the next sweep
  makes no progress; hence there are at most two more sweeps than slots to
  bind.  Settling starts from waiting rules and, like the default for slots
  without a value, binds a slot whenever there is another round.

  `solve_spec`: solving never meets a fault and leaves no rule behind, and
  `Engine.Solving` says what it does.  In particular, in the strict mode

  * the first failure of plain rules is about plain types, and plain types stay
    plain until then (`Solving.plain`);
  * if nothing fails, the rules hold under every substitution that the bindings
    then admit (`Solving.sound`), but for the calls that were circular on the way
    (`Engine.Excuses`), which may have been given up;
  * a solution of the bindings and the rules is never lost, unless a slot gets
    the default (`Solving.principal`).
-/
import Semcheck.Proofs.Infer.Unify

namespace Semcheck

open Engine List Ty Bindings

variable {k : Nat} {e e' e1 e2 : Engine} {θ : Slot → Ty}

namespace EngineM

variable {α β : Type} {f : α → EngineM β} {x : EngineM α}

/-- The step meets no fault, and its result and the engine it leaves satisfy
    the postcondition. -/
def Yields (step : EngineM α) (e : Engine) (Q : α → Engine → Prop) : Prop :=
  ∃ a e', step.run e = .ok (a, e') ∧ Q a e'

variable {Q : β → Engine → Prop}

theorem Yields.mono {step : EngineM β} {Q' : β → Engine → Prop} (h : Yields step e Q)
    (hQ : ∀ b e', Q b e' → Q' b e') : Yields step e Q' := by
  obtain ⟨b, e', hrun, hb⟩ := h
  exact ⟨b, e', hrun, hQ b e' hb⟩

theorem Yields.pure {b : β} (h : Q b e) : Yields (pure b) e Q :=
  ⟨_, _, rfl, h⟩

theorem Yields.after {a : α} (h : x.run e = .ok (a, e')) (hf : Yields (f a) e' Q) :
    Yields (x >>= f) e Q := by
  obtain ⟨b, e2, hrun, hb⟩ := hf
  exact ⟨b, e2, (run_bind h).trans hrun, hb⟩

theorem Yields.bind {P : α → Engine → Prop} (hx : Yields x e P)
    (hf : ∀ a e', P a e' → Yields (f a) e' Q) : Yields (x >>= f) e Q := by
  obtain ⟨a, e1, hrun, ha⟩ := hx
  exact .after hrun (hf a e1 ha)

theorem Yields.lift {x : EngineM β} (h : Yields x e Q) :
    InferM.Yields (liftM x) e fun r e' => ∃ a, r = .ok a ∧ Q a e' := by
  obtain ⟨a, e', hrun, ha⟩ := h
  exact ⟨.ok a, e', InferM.run_lift hrun, a, rfl, ha⟩

theorem poison_spec (he : e.Valid k) {s : Slot} (hs : s.index < e.slots.length) :
    Yields (poison s) e fun _ e' => Advances k e e' := by
  have hw : (Ty.slot s).Within e.slots.length k := within_slot.2 hs
  rw [poison]
  refine .after (run_ask (he.shallow hw)) ?_
  split
  · rename_i root hroot
    have hr := he.root hw hroot
    have hk := he.bind hr.2 hr.1 within_error (by simp [mem_slots]) fun s' _ => by simp [mem_slots]
    exact ⟨_, _, bind_run hr.1 _, hk.advances rfl⟩
  · exact .pure (.refl he)

end EngineM

open EngineM

/-! ## Outcome -/

namespace Engine

def queue (e : Engine) (rules : List Rule) : Engine :=
  { e with rules := e.rules ++ rules }

/-- The writer of every slot completes. -/
def Completes (e : Engine) : Prop :=
  ∀ info ∈ e.slots, info.diverging = false

/-- The calls that are circular after some of the bindings that come between `e` and `e'`
    are in `X`. -/
def Excuses (X : Rule → Prop) (e e' : Engine) : Prop :=
  ∀ b, e.bindings <+: b → b <+: e'.bindings → ∀ rule : Rule, rule.Circular b → X rule

theorem Excuses.left {X : Rule → Prop} (h : Excuses X e e2) (hb : e1.bindings <+: e2.bindings) :
    Excuses X e e1 :=
  fun b hb1 hb2 => h b hb1 (hb2.trans hb)

theorem Excuses.right {X : Rule → Prop} (h : Excuses X e e2) (hb : e.bindings <+: e1.bindings) :
    Excuses X e1 e2 :=
  fun b hb1 => h b (hb.trans hb1)

/-- What working on the rules does to an engine. -/
structure Solving (k : Nat) (e : Engine) (failures : List Failure) (e' : Engine) : Prop where
  keeps : Keeps k e e'
  within : ∀ failure ∈ failures, failure.error.Within e.slots.length k
  /-- The first failure is about plain types, if the engine was plain. -/
  plain : e.strict = true → e.Plain → (failures = [] → e'.Plain) ∧
    ∀ failure, failures.head? = some failure → failure.error.Plain
  /-- If nothing failed, nothing but circular calls was forgotten. -/
  sound : e.strict = true → failures = [] → ∀ X θ, Excuses X e e' → e'.Admits X θ → e.Admits X θ
  /-- A solution stays one. -/
  principal : e.strict = true → e.Completes → ∀ θ, e.Solved θ → failures = [] ∧ e'.Solved θ

namespace Solving

variable {f f1 f2 : List Failure}

theorem refl (he : e.Valid k) : Solving k e [] e where
  keeps := .refl he
  within := by simp
  plain _ hp := ⟨fun _ => hp, by simp⟩
  sound _ _ _ _ _ hθ := hθ
  principal _ _ _ hθ := ⟨rfl, hθ⟩

theorem trans (h1 : Solving k e f1 e1) (h2 : Solving k e1 f2 e2) : Solving k e (f1 ++ f2) e2 := by
  have hstrict := h1.keeps.strict
  refine ⟨h1.keeps.trans h2.keeps, fun failure hf => ?_, fun hs hp => ?_, fun hs hf X θ hX hθ => ?_,
    fun hs hc θ hθ => ?_⟩
  · rcases mem_append.1 hf with hf | hf
    · exact h1.within _ hf
    · exact h1.keeps.slots ▸ h2.within _ hf
  · obtain ⟨hplain, hhead⟩ := h1.plain hs hp
    cases f1 with
    | nil => exact h2.plain (hstrict.trans hs) (hplain rfl)
    | cons failure rest => exact ⟨by simp, hhead⟩
  · obtain ⟨hf1, hf2⟩ := append_eq_nil_iff.1 hf
    have hs1 := hstrict.trans hs
    refine h1.sound hs hf1 X θ (hX.left (h2.keeps.grows hs1)) ?_
    exact h2.sound hs1 hf2 X θ (hX.right (h1.keeps.grows hs)) hθ
  · obtain ⟨rfl, hθ1⟩ := h1.principal hs hc θ hθ
    refine h2.principal (hstrict.trans hs) ?_ θ hθ1
    rw [Completes, h1.keeps.slots]
    exact hc

/-- More rules in the queue do not matter. -/
theorem frame (h : Solving k e f e') {more : List Rule}
    (hw : ∀ rule ∈ more, rule.Within e.slots.length k) :
    Solving k (e.queue more) f (e'.queue more) := by
  have hk := h.keeps
  have hv : (e'.queue more).Valid k := by
    refine ⟨hk.valid.ordered, hk.valid.bound, hk.valid.types, ?_⟩
    refine forall_mem_append.2 ⟨hk.valid.rules, ?_⟩
    show ∀ rule ∈ more, rule.Within e'.slots.length k
    rwa [hk.slots]
  refine ⟨⟨hv, hk.slots, hk.strict, hk.keys, hk.grows, hk.heads⟩, h.within, fun hs hp => ?_,
    fun hs hf X θ hX hθ => ?_, fun hs hc θ hθ => ?_⟩
  · obtain ⟨hold, hmore⟩ := forall_mem_append.1 hp.rules
    refine (h.plain hs ⟨hp.bindings, hold⟩).imp (fun hplain hf => ?_) id
    exact ⟨(hplain hf).bindings, forall_mem_append.2 ⟨(hplain hf).rules, hmore⟩⟩
  · obtain ⟨hnew, hmore⟩ := forall_mem_append.1 hθ.rules
    have hold := h.sound hs hf X θ hX ⟨hθ.bindings, hnew⟩
    exact ⟨hold.bindings, forall_mem_append.2 ⟨hold.rules, hmore⟩⟩
  · obtain ⟨hold, hmore⟩ := forall_mem_append.1 hθ.rules
    refine (h.principal hs hc θ ⟨hθ.bindings, hold⟩).imp id fun hnew => ?_
    exact ⟨hnew.bindings, forall_mem_append.2 ⟨hnew.rules, hmore⟩⟩

/-- If nothing failed and no rule is left, what the bindings say holds. -/
theorem meaning {X : Rule → Prop} (h : Solving k e [] e') (hs : e.strict = true)
    (hX : Excuses X e e') (hrules : e'.rules = []) : e.Admits X e'.bindings.meaning :=
  h.sound hs rfl X _ hX ⟨h.keeps.valid.ordered.solved, by simp [hrules]⟩

end Solving

end Engine

/-! ## Rules -/

namespace Rule

variable {rule : Rule} {rules : List Rule}

/-- The arguments of a call, against as many parameters. -/
theorem unifyArgs_spec {params args : List Ty} (he : e.Valid k)
    (hp : ∀ p ∈ params, p.Within e.slots.length k) (ha : ∀ a ∈ args, a.Within e.slots.length k)
    (hl : params.length = args.length) :
    InferM.Yields (unifyArgs params args) e (Unified k e (.tuple params) (.tuple args)) := by
  induction params generalizing args e with
  | nil =>
    obtain rfl := length_eq_zero_iff.1 hl.symm
    exact .pure (.unchanged he (fun _ _ => rfl) fun _ _ => .refl _)
  | cons p params ih =>
    cases args with
    | nil => cases hl
    | cons a args =>
      rw [unifyArgs]
      refine (unify_spec he (hp p (by simp)) (ha a (by simp))).bind (fun _ e1 h1 => ?_)
        fun err e1 h1 => h1.wholeError covers_head
      refine (ih h1.keeps.valid (fun q hq => h1.keeps.within (hp q (mem_cons_of_mem _ hq)))
        (fun q hq => h1.keeps.within (ha q (mem_cons_of_mem _ hq))) (by simpa using hl)).mono
          fun r e2 h2 => h1.seq he covers_head covers_tail h2 (fun _ b hb hbs => ?_) fun θ hA hB =>
            hA.cons hB
      simp only [apply_tuple, Ty.tuple.injEq, map_cons] at hbs ⊢
      rw [hb, hbs]

/-- What applying a rule does.  A rule is put off exactly if it waits. -/
structure Applied (k : Nat) (e : Engine) (rule : Rule) (r : Except InferError Bool)
    (e' : Engine) : Prop where
  advances : Advances k e e'
  error : ∀ err, r = .error err → err.Within e.slots.length k
  putOff : r = .ok false → e' = e ∧ rule.Waits e.bindings
  waiting : rule.Waits e.bindings → r = .ok false
  plain : e.strict = true → e.Plain → rule.Plain → e'.Plain ∧ ∀ err, r = .error err → err.Plain
  sound : e.strict = true → r = .ok true → ∀ X θ, e'.Admits X θ → rule.Holds X θ
  principal : e.strict = true → ∀ θ, e.Solved θ → rule.Solved θ →
    (∀ err, r ≠ .error err) ∧ e'.Solved θ

namespace Applied

variable {rule : Rule}

theorem wait (he : e.Valid k) (hw : rule.Waits e.bindings) : Applied k e rule (.ok false) e where
  advances := .refl he
  error := by rintro err ⟨⟩
  putOff _ := ⟨rfl, hw⟩
  waiting _ := rfl
  plain _ hp _ := ⟨hp, by rintro err ⟨⟩⟩
  sound _ h := by cases h
  principal _ _ hθ _ := ⟨by simp, hθ⟩

theorem fail {err : InferError} (he : e.Valid k) (hw : ¬ rule.Waits e.bindings)
    (herr : err.Within e.slots.length k) (hp : err.Plain)
    (hne : ∀ θ, e.bindings.Solved θ → ¬ rule.Solved θ) : Applied k e rule (.error err) e where
  advances := .refl he
  error := by rintro err ⟨⟩; exact herr
  putOff h := by cases h
  waiting h := absurd h hw
  plain _ hplain _ := ⟨hplain, by rintro err ⟨⟩; exact hp⟩
  sound _ h := by cases h
  principal _ θ hθ hr := absurd hr (hne θ hθ.bindings)

/-- Two types are unified on behalf of the rule. -/
theorem of_unified {expected found : Ty} {r : Except InferError Unit} {r' : Except InferError Bool}
    (hu : Unified k e expected found r e') (hw : ¬ rule.Waits e.bindings)
    (hr : r' = r.map fun _ => true)
    (hplain : e.Plain → rule.Plain → expected.Plain ∧ found.Plain)
    (hsound : ∀ X θ, e.bindings.Solved θ → Ty.Agree (expected.inst θ) (found.inst θ) →
      rule.Holds X θ)
    (hprincipal : ∀ θ, e.bindings.Solved θ → rule.Solved θ → expected.inst θ = found.inst θ) :
    Applied k e rule r' e' := by
  subst hr
  refine ⟨hu.advances, fun err h => hu.error err ?_, fun h => ?_, fun h => absurd h hw,
    fun hs hp hrp => ?_, fun hs h X θ hθ => ?_, fun hs θ hθ h => ?_⟩
  · cases r <;> cases h
    rfl
  · cases r <;> cases h
  · obtain ⟨hx, hf⟩ := hplain hp hrp
    refine (hu.plain ⟨hs, hp, hx, hf⟩).imp id fun hall err h => hall err ?_
    cases r <;> cases h
    rfl
  · cases r with
    | error err => cases h
    | ok => exact hsound X θ (hu.keeps.solved hs hθ.bindings) (hu.sound hs rfl X θ hθ)
  · obtain ⟨rfl, hθ'⟩ := hu.principal hs θ hθ (hprincipal θ hθ.bindings h)
    exact ⟨by rintro err ⟨⟩, hθ'⟩

end Applied

theorem settles_spec {step : InferM Unit} {P : Except InferError Unit → Engine → Prop}
    (h : InferM.Yields step e1 P) (hP : ∀ r e', P r e' → Applied k e rule (r.map fun _ => true) e') :
    InferM.Yields (do step; return true) e1 (Applied k e rule) :=
  h.bind (fun _ e' h1 => .pure (hP _ e' h1)) fun _ e' h1 => hP _ e' h1

theorem apply_same_spec {left right : Slot} {span : Location} (he : e.Valid k)
    (hl : left.index < e.slots.length) (hr : right.index < e.slots.length) :
    InferM.Yields (Rule.same left right span).apply e (Applied k e (.same left right span)) := by
  have hlw : (Ty.slot left).Within e.slots.length k := within_slot.2 hl
  have hrw : (Ty.slot right).Within e.slots.length k := within_slot.2 hr
  rw [Rule.apply]
  refine .after (InferM.run_shallow he hlw) (.after (InferM.run_shallow he hrw) ?_)
  split
  · rename_i p q hp hq
    by_cases hpq : p = q
    · subst hpq
      rw [decide_eq_true rfl]
      refine .pure ⟨.refl he, by rintro err ⟨⟩, by rintro ⟨⟩, ?_, fun _ hplain _ =>
        ⟨hplain, by rintro err ⟨⟩⟩, fun _ _ _ θ hθ => ?_, fun _ _ hθ _ => ⟨by simp, hθ⟩⟩
      · rintro ⟨p', q', hp', hq', hne⟩
        rw [hp] at hp'
        rw [hq] at hq'
        cases hp'
        cases hq'
        exact absurd rfl hne
      · have heq : θ left = θ right := by
          rw [← inst_slot (θ := θ) left, ← inst_slot (θ := θ) right,
            ← hθ.bindings.inst_head (.slot left), ← hθ.bindings.inst_head (.slot right), hp, hq]
        exact .of_eq heq
    · rw [decide_eq_false hpq]
      exact .pure (.wait he ⟨p, q, hp, hq, hpq⟩)
  · rename_i hne
    refine settles_spec (unify_spec he hlw hrw) fun r e' hu => .of_unified hu ?_ rfl
      (fun _ _ => ⟨plain_slot left, plain_slot right⟩) (fun _ _ _ h => h) fun _ _ h => h
    rintro ⟨p, q, hp, hq, -⟩
    exact hne p q hp hq

section Call

variable {callee returns : Slot} {args params : List Ty} {span : Location} {result : Ty}

/-- A call of a function with known parameters. -/
theorem applied_call {r : Except InferError Unit} (he : e.Valid k)
    (hw : ¬ (Rule.call callee args returns span).Waits e.bindings)
    (hx : e.bindings.head (.slot callee) = .funct params result)
    (h1 : Unified k e (.tuple params) (.tuple args) (.ok ()) e1)
    (h2 : Unified k e1 (.slot returns) result r e2) :
    Applied k e (.call callee args returns span) (r.map fun _ => true) e2 := by
  have hplain : e.Plain → (Ty.funct params result).Plain := fun hp =>
    hx ▸ hp.head (plain_slot callee)
  have hclean : e.strict = true → e.Plain → (Rule.call callee args returns span).Plain →
      e.Clean (.tuple params) (.tuple args) := fun hs hp hr =>
    ⟨hs, hp, all_tuple.2 ⟨trivial, (all_funct.1 (hplain hp)).2.2⟩, all_tuple.2 ⟨trivial, hr⟩⟩
  have hstrict := h1.keeps.strict
  have ha := h1.advances.trans he h2.advances
  refine ⟨ha, fun err h => ?_, fun h => ?_, fun h => absurd h hw, fun hs hp hr => ?_,
    fun hs h X θ hθ => ?_, fun hs θ hθ h => ?_⟩
  · rw [← h1.keeps.slots]
    cases r <;> cases h
    exact h2.error _ rfl
  · cases r <;> cases h
  · have hc := hclean hs hp hr
    have hc2 : e1.Clean (.slot returns) result :=
      ⟨hstrict.trans hs, (h1.plain hc).1, plain_slot _, (all_funct.1 (hplain hp)).2.1⟩
    refine (h2.plain hc2).imp id fun hall err h => hall err ?_
    cases r <;> cases h
    rfl
  · cases r with
    | error err => cases h
    | ok =>
      have hargs := h1.sound hs rfl X θ (h2.advances.admits (hstrict.trans hs) hθ)
      have hreturns := h2.sound (hstrict.trans hs) rfl X θ hθ
      rw [inst_tuple, inst_tuple] at hargs
      refine .inl ?_
      rw [(ha.keeps.solved hs hθ.bindings).of_head hx, inst_funct]
      cases hargs with
      | tuple hargs => exact ⟨hargs, hreturns⟩
  · rw [Rule.Solved, hθ.bindings.of_head hx, inst_funct, inst_funct, Ty.funct.injEq] at h
    obtain ⟨-, hθ1⟩ := h1.principal hs θ hθ (by simpa using h.1)
    obtain ⟨rfl, hθ2⟩ := h2.principal (hstrict.trans hs) θ hθ1 h.2.symm
    exact ⟨by rintro err ⟨⟩, hθ2⟩

/-- The arguments of a call do not fit. -/
theorem applied_args {err : InferError}
    (hw : ¬ (Rule.call callee args returns span).Waits e.bindings)
    (hx : e.bindings.head (.slot callee) = .funct params result)
    (h1 : Unified k e (.tuple params) (.tuple args) (.error err) e1) :
    Applied k e (.call callee args returns span) (.error err) e1 := by
  refine ⟨h1.advances, fun err h => h1.error err (by cases h; rfl), by rintro ⟨⟩,
    fun h => absurd h hw, fun hs hp hr => ?_, fun _ h => (by cases h), fun hs θ hθ h => ?_⟩
  · have hplain : (Ty.funct params result).Plain := hx ▸ hp.head (plain_slot callee)
    refine (h1.plain ⟨hs, hp, all_tuple.2 ⟨trivial, (all_funct.1 hplain).2.2⟩,
      all_tuple.2 ⟨trivial, hr⟩⟩).imp id fun hall err h => hall err ?_
    cases h
    rfl
  · rw [Rule.Solved, hθ.bindings.of_head hx, inst_funct, inst_funct, Ty.funct.injEq] at h
    cases (h1.principal hs θ hθ (by simpa using h.1)).1

/-- The callee is erroneous, and so is the result. -/
theorem applied_poison (hw : ¬ (Rule.call callee args returns span).Waits e.bindings)
    (hx : e.bindings.head (.slot callee) = .error) (ha : Advances k e e1) :
    Applied k e (.call callee args returns span) (.ok true) e1 := by
  refine ⟨ha, by rintro err ⟨⟩, by rintro ⟨⟩, fun h => absurd h hw, fun _ hp _ => ?_,
    fun hs _ _ θ hθ => .inl ?_, fun _ θ hθ h => ?_⟩
  · exact absurd (hx ▸ hp.head (plain_slot callee)) not_plain_error
  · rw [(ha.keeps.solved hs hθ.bindings).of_head hx]
    trivial
  · rw [Rule.Solved, hθ.bindings.of_head hx] at h
    simp at h

theorem apply_call_spec (he : e.Valid k)
    (hw : (Rule.call callee args returns span).Within e.slots.length k) :
    InferM.Yields (Rule.call callee args returns span).apply e
      (Applied k e (.call callee args returns span)) := by
  obtain ⟨hc, ha, hr⟩ := hw
  have hcw : (Ty.slot callee).Within e.slots.length k := within_slot.2 hc
  have hrw : (Ty.slot returns).Within e.slots.length k := within_slot.2 hr
  have hhead := he.head hcw
  have hwait : (∀ p, e.bindings.head (.slot callee) ≠ .slot p) →
      ¬ (Rule.call callee args returns span).Waits e.bindings := fun h ⟨p, hp⟩ => h p hp
  rw [Rule.apply]
  refine .after (InferM.run_shallow he hcw) ?_
  cases hx : e.bindings.head (.slot callee) with
  | slot p => exact .pure (.wait he ⟨p, hx⟩)
  | error =>
    refine settles_spec (poison_spec he hr).lift ?_
    rintro _ e1 ⟨_, rfl, h1⟩
    exact applied_poison (hwait (by simp [hx])) hx h1
  | funct params result =>
    have hw := hwait (by simp [hx])
    have hfw := within_funct.1 (hx ▸ hhead)
    dsimp only
    by_cases hl : params.length = args.length
    · rw [if_neg (by simpa using hl)]
      refine (unifyArgs_spec he hfw.2 ha hl).bind (fun _ e1 h1 => ?_)
        fun err e1 h1 => applied_args hw hx h1
      have hk := h1.advances.keeps
      exact settles_spec (unify_spec hk.valid (hk.within hrw) (hk.within hfw.1))
        fun _ _ h2 => applied_call he hw hx h1 h2
    · rw [if_pos hl]
      refine .throw (.fail he hw trivial trivial fun θ hθ h => hl ?_)
      rw [Rule.Solved, hθ.of_head hx, inst_funct, inst_funct, Ty.funct.injEq] at h
      simpa using congrArg length h.1
  | functAny result =>
    refine settles_spec (unify_spec he hrw (within_functAny.1 (hx ▸ hhead)))
      fun r e1 hu => .of_unified hu (hwait (by simp [hx])) rfl (fun hp _ => ?_)
        (fun _ θ hθ h => .inl ?_) fun θ hθ h => ?_
    · exact absurd (hx ▸ hp.head (plain_slot callee)) not_plain_functAny
    · rw [hθ.of_head hx]
      exact h
    · rw [Rule.Solved, hθ.of_head hx] at h
      simp at h
  | _ =>
    refine .after (InferM.run_resolve he (hx ▸ hhead)) (.throw (.fail he (hwait (by simp [hx]))
      (he.apply (hx ▸ hhead)) trivial fun θ hθ h => ?_))
    rw [Rule.Solved, hθ.of_head hx] at h
    simp at h

end Call

theorem apply_spec (he : e.Valid k) (hw : rule.Within e.slots.length k) :
    InferM.Yields rule.apply e (Applied k e rule) := by
  cases rule with
  | same left right span => exact apply_same_spec he hw.1 hw.2
  | call callee args returns span => exact apply_call_spec he hw

/-! ## Sweeps -/

/-- What attempting rules does, which are taken from the queue.  Without progress
    they go back as they are, and they wait. -/
structure Swept (k : Nat) (e : Engine) (rules : List Rule) (out : Bool × List Failure)
    (e' : Engine) : Prop where
  advances : Advances k e e'
  solving : Solving k (e.queue rules) out.2 e'
  idle : out.1 = false → e' = e.queue rules ∧ ∀ rule ∈ rules, rule.Waits e.bindings
  waiting : (∀ rule ∈ rules, rule.Waits e.bindings) → out.1 = false

theorem Applied.swept (h : Applied k e rule (.ok true) e') : Swept k e [rule] (true, []) e' := by
  have hk := h.advances.keeps
  refine ⟨h.advances, ⟨⟨hk.valid, hk.slots, hk.strict, hk.keys, hk.grows, hk.heads⟩, by simp,
    fun hs hp => ?_, fun hs _ X θ _ hθ => ?_, fun hs _ θ hθ => ?_⟩, by simp, fun hwait => ?_⟩
  · obtain ⟨hold, hrule⟩ := forall_mem_append.1 hp.rules
    exact ⟨fun _ => (h.plain hs ⟨hp.bindings, hold⟩ (hrule rule (by simp))).1, by simp⟩
  · have hold := h.advances.admits hs hθ
    refine ⟨hold.bindings, forall_mem_append.2 ⟨hold.rules, ?_⟩⟩
    simpa using h.sound hs rfl X θ hθ
  · obtain ⟨hold, hrule⟩ := forall_mem_append.1 hθ.rules
    exact ⟨rfl, (h.principal hs θ ⟨hθ.bindings, hold⟩ (hrule rule (by simp))).2⟩
  · cases h.waiting (hwait rule (by simp))

/-- A rule that failed is done with, whatever happens to its result. -/
theorem Applied.swept_error {err : InferError} (he : e.Valid k)
    (h : Applied k e rule (.error err) e1) (h2 : Advances k e1 e2) :
    Swept k e [rule] (true, [⟨err, rule.span⟩]) e2 := by
  have ha := h.advances.trans he h2
  have hk := ha.keeps
  refine ⟨ha, ⟨⟨hk.valid, hk.slots, hk.strict, hk.keys, hk.grows, hk.heads⟩, ?_,
    fun hs hp => ?_, by simp, fun hs _ θ hθ => ?_⟩, by simp, fun hwait => ?_⟩
  · rw [forall_mem_singleton]
    exact h.error err rfl
  · obtain ⟨hold, hrule⟩ := forall_mem_append.1 hp.rules
    refine ⟨by simp, ?_⟩
    simpa using (h.plain hs ⟨hp.bindings, hold⟩ (hrule rule (by simp))).2 err rfl
  · obtain ⟨hold, hrule⟩ := forall_mem_append.1 hθ.rules
    exact absurd rfl ((h.principal hs θ ⟨hθ.bindings, hold⟩ (hrule rule (by simp))).1 err)
  · cases h.waiting (hwait rule (by simp))

theorem attempt_spec (he : e.Valid k) (hw : rule.Within e.slots.length k) :
    Yields rule.attempt e (Swept k e [rule]) := by
  obtain ⟨r, e1, hrun, h⟩ := apply_spec he hw
  rw [attempt]
  refine .after hrun ?_
  match r with
  | .ok true => exact .pure h.swept
  | .ok false =>
    obtain ⟨rfl, hwait⟩ := h.putOff rfl
    have ha := Advances.addRule he hw hwait
    exact ⟨_, _, rfl, ha, .refl ha.keeps.valid, fun _ => ⟨rfl, by simpa using hwait⟩, fun _ => rfl⟩
  | .error err =>
    have hk := h.advances.keeps
    cases rule with
    | same left right span => exact .pure (h.swept_error he (.refl hk.valid))
    | call callee args returns span =>
      refine (poison_spec hk.valid ?_).bind fun _ e2 h2 => .pure (h.swept_error he h2)
      rw [hk.slots]
      exact hw.2.2

theorem Within.of_keeps (h : Keeps k e e') (hw : rule.Within e.slots.length k) :
    rule.Within e'.slots.length k := by
  rw [h.slots]; exact hw

theorem sweep_spec (he : e.Valid k) (hw : ∀ rule ∈ rules, rule.Within e.slots.length k) :
    Yields (sweep rules) e (Swept k e rules) := by
  induction rules generalizing e with
  | nil =>
    have heq : e.queue [] = e := by simp [queue]
    refine .pure ⟨.refl he, ?_, fun _ => ⟨heq.symm, by simp⟩, fun _ => rfl⟩
    rw [heq]
    exact .refl he
  | cons rule rules ih =>
    rw [sweep]
    refine (attempt_spec he (hw rule (by simp))).bind fun out1 e1 h1 => ?_
    have hk := h1.advances.keeps
    have hrest : ∀ r ∈ rules, r.Within e.slots.length k :=
      fun r hr => hw r (mem_cons_of_mem _ hr)
    have hqueue : (e.queue [rule]).queue rules = e.queue (rule :: rules) := by simp [queue]
    refine (ih hk.valid fun r hr => (hrest r hr).of_keeps hk).bind
      fun out2 e2 h2 =>
        .pure ⟨h1.advances.trans he h2.advances, ?_, fun hout => ?_, fun hwait => ?_⟩
    · rw [← hqueue]
      exact (h1.solving.frame hrest).trans h2.solving
    · obtain ⟨ho1, ho2⟩ := Bool.or_eq_false_iff.1 hout
      obtain ⟨rfl, hw1⟩ := h1.idle ho1
      obtain ⟨rfl, hw2⟩ := h2.idle ho2
      refine ⟨hqueue, fun r hr => ?_⟩
      rcases mem_cons.1 hr with rfl | hr
      · exact hw1 _ (by simp)
      · exact hw2 r hr
    · have ho1 := h1.waiting (by simpa using hwait rule (by simp))
      obtain ⟨rfl, -⟩ := h1.idle ho1
      have ho2 := h2.waiting fun r hr => hwait r (mem_cons_of_mem _ hr)
      simp [ho1, ho2]

/-- Sweeping ends within its budget and leaves only rules that wait. -/
theorem sweepsWithin_spec {budget : Nat} (he : e.Valid k)
    (hb : e.free + 2 ≤ budget ∨ 1 ≤ budget ∧ ∀ rule ∈ e.rules, rule.Waits e.bindings) :
    Yields (sweepsWithin budget) e fun failures e' => Solving k e failures e' ∧
      ∀ rule ∈ e'.rules, rule.Waits e'.bindings := by
  induction budget generalizing e with
  | zero => omega
  | succ budget ih =>
    have hk0 : Keeps k e { e with rules := [] } := .setRules he (by simp)
    rw [sweepsWithin]
    refine .after (EngineM.get_run e) (.after rfl ?_)
    refine (sweep_spec hk0.valid he.rules).bind fun out e1 h => ?_
    have hs : Solving k e out.2 e1 := h.solving
    have hk := hs.keeps
    match hout : out.1 with
    | false =>
      obtain ⟨rfl, hw⟩ := h.idle hout
      simp only [hout]
      exact .pure ⟨hs, hw⟩
    | true =>
      simp only [hout, if_true]
      -- a sweep that binds nothing leaves only rules that wait
      have hb1 : e1.free + 2 ≤ budget ∨ 1 ≤ budget ∧ ∀ rule ∈ e1.rules, rule.Waits e1.bindings := by
        rcases hb with hb | ⟨-, hw⟩
        · by_cases hl : e1.bindings.length = e.bindings.length
          · refine .inr ⟨by omega, ?_⟩
            obtain ⟨added, hr, hw⟩ := h.advances.queued
            rw [hr]
            exact hw hl
          · have hle := hk.length_le he
            have hlen := hk.valid.length_le
            simp only [free, hk.slots] at hb hlen ⊢
            exact .inl (by omega)
        · have := h.waiting hw
          rw [hout] at this; cases this
      exact (ih hk.valid hb1).bind fun failures e2 h2 => .pure ⟨hs.trans h2.1, h2.2⟩

/-! ## Settling -/

/-- A circular call is given up: no substitution solves it. -/
theorem solving_drop {callee returns : Slot} {args : List Ty} {span : Location}
    (h : Solving k { e with rules := rules } [] e')
    (hc : (Rule.call callee args returns span).Circular e.bindings) :
    Solving k { e with rules := .call callee args returns span :: rules } [] e' where
  keeps := ⟨h.keeps.valid, h.keeps.slots, h.keeps.strict, h.keeps.keys, h.keeps.grows,
    h.keeps.heads⟩
  within := by simp
  plain hs hp := h.plain hs ⟨hp.bindings, (forall_mem_cons.1 hp.rules).2⟩
  sound hs hf X θ hX hθ := by
    obtain ⟨hb, hr⟩ := h.sound hs hf X θ hX hθ
    exact ⟨hb, forall_mem_cons.2 ⟨.inr (hX _ prefix_rfl (h.keeps.grows hs) _ hc), hr⟩⟩
  principal _ _ θ hθ := absurd (hθ.rules _ (by simp)) (hc.not_solved hθ.bindings)

/-- A slot is bound as a stuck rule asks for; `left` are the rules that remain. -/
theorem solving_bind {left : List Rule} {s : Slot} {t : Ty}
    (hk : Keeps k e { e with bindings := e.bindings.bind s t })
    (hw : ∀ rule ∈ left, rule.Within e.slots.length k) (hleft : left = rules ∨ left = rule :: rules)
    (hplain : (∀ entry ∈ e.bindings, entry.2.Plain) → rule.Plain → t.Plain)
    (hholds : ∀ X θ, e.bindings.Solved θ → θ s = t.inst θ → left = rules → rule.Holds X θ)
    (hsolved : ∀ θ, e.bindings.Solved θ → rule.Solved θ → θ s = t.inst θ) :
    Solving k { e with rules := rule :: rules } []
      { e with bindings := e.bindings.bind s t, rules := left } := by
  have hkeeps := hk.trans (.setRules hk.valid hw)
  have hsub : ∀ {P : Rule → Prop}, (∀ r ∈ rule :: rules, P r) → ∀ r ∈ left, P r := by
    intro P h
    rcases hleft with rfl | rfl
    · exact (forall_mem_cons.1 h).2
    · exact h
  refine ⟨⟨hkeeps.valid, hkeeps.slots, hkeeps.strict, hkeeps.keys, hkeeps.grows, hkeeps.heads⟩,
    by simp, fun _ hp => ⟨fun _ => ?_, by simp⟩, fun _ _ X θ _ hθ => ?_,
    fun _ _ θ hθ => ⟨rfl, ?_⟩⟩
  · have hrules : Engine.Plain { e with rules := left } := ⟨hp.bindings, hsub hp.rules⟩
    exact hrules.bind (hplain hp.bindings (hp.rules rule (by simp)))
  · obtain ⟨hb, hs⟩ := solved_bind.1 hθ.bindings
    refine ⟨hb, forall_mem_cons.2 ?_⟩
    rcases hleft with rfl | rfl
    · exact ⟨hholds X θ hb hs rfl, hθ.rules⟩
    · exact forall_mem_cons.1 hθ.rules
  · have hrule := hθ.rules rule (by simp)
    exact ⟨solved_bind.2 ⟨hθ.bindings, hsolved θ hθ.bindings hrule⟩, hsub hθ.rules⟩

/-- Settling starts from rules that wait.  If it settles one, a slot is bound, and
    otherwise no rule is left. -/
theorem settle_spec (he : e.Valid k) (hw : ∀ rule ∈ rules, rule.Within e.slots.length k)
    (hwait : ∀ rule ∈ rules, rule.Waits e.bindings) :
    Yields (settle rules) e fun bound e' => Solving k { e with rules := rules } [] e' ∧
      (bound = true → e'.bindings.length = e.bindings.length + 1) ∧
      (bound = false → e'.rules = []) := by
  induction rules with
  | nil =>
    refine ⟨_, _, rfl, .refl ?_, by simp, fun _ => rfl⟩
    exact (Keeps.setRules he (by simp)).valid
  | cons rule rules ih =>
    have hrest : ∀ r ∈ rules, r.Within e.slots.length k :=
      fun r hr => hw r (mem_cons_of_mem _ hr)
    have ih := ih hrest fun r hr => hwait r (mem_cons_of_mem _ hr)
    have hr := hw rule (by simp)
    have hwr := hwait rule (by simp)
    cases rule with
    | same left right span =>
      have hlw : (Ty.slot left).Within e.slots.length k := within_slot.2 hr.1
      have hrw : (Ty.slot right).Within e.slots.length k := within_slot.2 hr.2
      obtain ⟨p, q, hp, hq, hne⟩ := hwr
      have hp' := he.root hlw hp
      have hq' := he.root hrw hq
      rw [settle]
      refine .after (run_ask (he.shallow hrw)) (.after (run_ask (he.shallow hlw)) ?_)
      simp only [hp, hq, Ty.slot.injEq, hne.symm, if_false]
      have hk := he.bind hp'.2 hp'.1 (within_slot.2 hq'.1) (by simpa [mem_slots] using hne)
        fun s' hs' hm => hq'.2 (Ty.slot.inj (mem_parts_slot.1 (mem_slots.1 hm)) ▸ hs')
      refine ⟨_, _, (run_bind (bind_run hp'.1 _)).trans rfl,
        solving_bind hk hrest (.inl rfl) (fun _ _ => plain_slot q) (fun _ θ hθ h _ => ?_)
          (fun θ hθ h => ?_), fun _ => length_bind e p _, by simp⟩
      · exact .of_eq ((hθ.of_head hp).trans (h.trans (hθ.of_head hq).symm))
      · exact (hθ.of_head hp).symm.trans (h.trans (hθ.of_head hq))
    | call callee args returns span =>
      have hcw : (Ty.slot callee).Within e.slots.length k := within_slot.2 hr.1
      have hfw : (Ty.funct args (.slot returns)).Within e.slots.length k :=
        within_funct.2 ⟨within_slot.2 hr.2.2, hr.2.1⟩
      obtain ⟨p, hp⟩ := hwr
      have hp' := he.root hcw hp
      rw [settle]
      refine .after (run_ask (he.shallow hcw)) ?_
      simp only [hp]
      refine .after (run_ask (he.resolve hfw)) ?_
      by_cases hc : p ∈ (e.bindings.apply (.funct args (.slot returns))).slots
      · rw [if_pos (containsSlot_iff.2 hc)]
        exact ih.mono fun bound e' h => ⟨solving_drop h.1 ⟨p, hp, hc⟩, h.2⟩
      · rw [if_neg (mt containsSlot_iff.1 hc)]
        have hk := he.bind hp'.2 hp'.1 (he.apply hfw) hc fun s' hs' =>
          not_mem_slots_apply he.ordered hs' _
        refine ⟨_, _, (run_bind (bind_run hp'.1 _)).trans rfl, solving_bind hk hw (.inr rfl)
          (fun hplain hrule => ?_) (fun _ _ _ _ h => absurd h (by simp)) (fun θ hθ h => ?_),
          fun _ => length_bind e p _, by simp⟩
        · exact plain_apply hplain (all_funct.2 ⟨trivial, plain_slot returns, hrule⟩)
        · rw [hθ.inst_apply]
          exact (hθ.of_head hp).symm.trans h

end Rule

/-! ## Rounds -/

theorem Engine.mem_divergingSlots {s : Slot} (h : s ∈ e.divergingSlots) :
    s.index < e.slots.length ∧ s ∉ e.bindings.keys := by
  simp only [divergingSlots, unbound, mem_map, mem_filter] at h
  obtain ⟨_, ⟨⟨⟨⟨info, i⟩, hi, rfl⟩, hn⟩, -⟩, rfl⟩ := h
  refine ⟨?_, fun hk => ?_⟩
  · have := mem_zipIdx hi
    simpa using this.2.1
  · rw [Option.isNone_iff_eq_none] at hn
    have := find?_isSome.2 hk
    simp [hn] at this

theorem Engine.nodup_divergingSlots (e : Engine) : e.divergingSlots.Nodup := by
  have hall : ((e.slots.zipIdx.map fun entry => ((⟨entry.2⟩ : Slot), entry.1)).map
      Prod.fst).Nodup := by
    have hslots : (e.slots.zipIdx.map fun entry => ((⟨entry.2⟩ : Slot), entry.1)).map Prod.fst =
        (range' 0 e.slots.length).map Slot.mk := by
      rw [← zipIdx_map_snd, map_map, map_map]; rfl
    rw [hslots]
    have hrange : (range' 0 e.slots.length).Nodup := nodup_range'
    exact Pairwise.map _ (fun a b h => by simpa using h) hrange
  exact hall.sublist (((filter_sublist).trans filter_sublist).map _)

theorem bindEach_spec {ss : List Slot} (he : e.Valid k) (hnd : ss.Nodup)
    (hs : ∀ s ∈ ss, s.index < e.slots.length ∧ s ∉ e.bindings.keys) :
    Yields (ss.forM fun s => .bind s Ty.unit) e fun _ e' => Keeps k e e' ∧
      e'.bindings.length = e.bindings.length + ss.length ∧ e'.rules = e.rules ∧
      (e.Plain → e'.Plain) ∧ (ss = [] → e' = e) := by
  induction ss generalizing e with
  | nil => exact .pure ⟨.refl he, rfl, rfl, id, fun _ => rfl⟩
  | cons s ss ih =>
    have hsl := hs s (by simp)
    have hk := he.bind hsl.2 hsl.1 within_unit (by simp [Ty.unit, mem_slots])
      fun s' _ => by simp [Ty.unit, mem_slots]
    refine .after (bind_run hsl.1 _) ((ih hk.valid (nodup_cons.1 hnd).2 fun s' hs' => ?_).mono
      fun _ e' h => ⟨hk.trans h.1, ?_, h.2.2.1, fun hp => h.2.2.2.1 (hp.bind plain_unit), by simp⟩)
    · refine ⟨(hs s' (mem_cons_of_mem _ hs')).1, fun hm => ?_⟩
      rcases mem_keys_bind.1 hm with hm | rfl
      · exact (hs s' (mem_cons_of_mem _ hs')).2 hm
      · exact (nodup_cons.1 hnd).1 hs'
    · rw [h.2.1, length_bind, length_cons]
      omega

theorem Engine.Completes.divergingSlots (h : e.Completes) : e.divergingSlots = [] := by
  simp only [Engine.divergingSlots, map_eq_nil_iff, filter_eq_nil_iff]
  rintro ⟨s, info⟩ hmem
  obtain ⟨⟨info', i⟩, hi, heq⟩ := mem_map.1 (mem_filter.1 hmem).1
  cases heq
  simp [h info' (fst_mem_of_mem_zipIdx hi)]

theorem defaultDiverging_spec (he : e.Valid k) :
    Yields defaultDiverging e fun bound e' => Solving k e [] e' ∧ e'.rules = e.rules ∧
      (bound = true → e.bindings.length < e'.bindings.length) ∧
      (bound = false → e'.divergingSlots = []) := by
  rw [defaultDiverging]
  refine .after (EngineM.get_run e)
    ((bindEach_spec he e.nodup_divergingSlots fun s => mem_divergingSlots).bind
    fun _ e' ⟨hk, hlength, hrules, hplain, hidle⟩ => .pure ⟨⟨hk, by simp, fun _ hp => ?_,
      fun hs _ _ θ _ hθ => ?_, fun _ hc θ hθ => ?_⟩, hrules, fun hb => ?_, fun hb => ?_⟩)
  · exact ⟨fun _ => hplain hp, by simp⟩
  · exact ⟨hk.solved hs hθ.bindings, hrules ▸ hθ.rules⟩
  · rw [hidle hc.divergingSlots]
    exact ⟨rfl, hθ⟩
  · have : 0 < e.divergingSlots.length := by
      cases hd : e.divergingSlots <;> simp_all
    omega
  · have hnone : e.divergingSlots = [] := by simpa using hb
    rw [hidle hnone]
    exact hnone

theorem solveWithin_spec {budget : Nat} (he : e.Valid k) (hb : e.free + 1 ≤ budget) :
    Yields (solveWithin budget) e fun failures e' =>
      (Solving k e failures e' ∧ e'.rules = []) ∧ e'.divergingSlots = [] := by
  induction budget generalizing e with
  | zero => omega
  | succ budget ih =>
    have hget : ∀ e, (get : EngineM Engine).run e = .ok (e, e) := fun _ => rfl
    rw [solveWithin]
    refine .after (hget e) ((Rule.sweepsWithin_spec he (.inl ?_)).bind
      fun failures e1 h1 => .after (hget e1) ?_)
    · simp only [free]; omega
    obtain ⟨hs1, hw1⟩ := h1
    -- another round after a slot was bound
    have again : ∀ {e2}, Solving k e failures e2 → e.bindings.length < e2.bindings.length →
        Yields (do return failures ++ (← solveWithin budget)) e2 fun failures e' =>
          (Solving k e failures e' ∧ e'.rules = []) ∧ e'.divergingSlots = [] := by
      intro e2 hs hl
      have hlen := hs.keeps.valid.length_le
      refine (ih hs.keeps.valid ?_).bind fun more e3 h3 => ?_
      · simp only [free, hs.keeps.slots] at hb hlen ⊢; omega
      obtain ⟨⟨hs3, hr3⟩, hd3⟩ := h3
      exact .pure ⟨⟨hs.trans hs3, hr3⟩, hd3⟩
    have hk1 := hs1.keeps
    have hl1 := hk1.length_le he
    refine (Rule.settle_spec hk1.valid hk1.valid.rules hw1).bind fun settled e2 h2 => ?_
    obtain ⟨hs2, hl2, hr2⟩ := h2
    have hs2 : Solving k e1 [] e2 := hs2
    have hs : Solving k e failures e2 := append_nil failures ▸ hs1.trans hs2
    cases settled with
    | true => exact again hs (by have := hl2 rfl; omega)
    | false =>
      have hle2 := hs2.keeps.length_le hk1.valid
      refine (defaultDiverging_spec hs.keeps.valid).bind fun bound e3 h3 => ?_
      obtain ⟨hs3, hr3, hl3, hd3⟩ := h3
      have hs' : Solving k e failures e3 := append_nil failures ▸ hs.trans hs3
      cases bound with
      | true => exact again hs' (by have := hl3 rfl; omega)
      | false => exact .pure ⟨⟨hs', hr3.trans (hr2 rfl)⟩, hd3 rfl⟩

/-- Solving leaves neither a rule nor a slot behind that could get the default. -/
theorem solve_complete (he : e.Valid k) :
    Yields solve e fun failures e' =>
      (Solving k e failures e' ∧ e'.rules = []) ∧ e'.divergingSlots = [] := by
  refine .after (EngineM.get_run e) (solveWithin_spec he ?_)
  simp only [free]; omega

/-- **Solving never meets a fault**, leaves no rule behind, and does what `Solving`
    says. -/
theorem solve_spec (he : e.Valid k) :
    Yields solve e fun failures e' => Solving k e failures e' ∧ e'.rules = [] :=
  (solve_complete he).mono fun _ _ h => h.1

end Semcheck
