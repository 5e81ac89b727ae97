/-
  Sessions: what can be done with an inference engine.

  An engine starts empty and is changed by operations (`Operation`).  A session is
  a list of them; each one mentions only slots that were allocated before
  (`Allocated`), and may report errors, after which the session goes on.
  `performAll_spec` is the run lemma: no session meets a fault, and `Performed`
  says what it leaves behind.

  * `session_acyclic`: the bindings never form a cycle, and following them comes
    to an end;
  * `unify_most_general`: a session that only unifies finds a most general
    solution of its equations, or there is none;
  * `calls_checked`: if all goes well, what is called is a function that takes the
    arguments.  The exception, a value without a type that is passed to itself, is
    needed: `self_application` is a session where the callee becomes `()`.
-/
import Mathlib.Data.Finset.Range
import Semcheck.Proofs.Infer.Follow
import Semcheck.Proofs.Infer.Solve

namespace Semcheck

open EngineM List Engine Ty

/-! ## Operations -/

/-- What a client asks of an engine. -/
inductive Operation where
  | addSlot (origin : Location)
  | markDiverging (s : Slot)
  | unify (expected found : Ty)
  | inferType (s : Slot) (t : Ty)
  | addRule (rule : Rule)
  | solve

def Rule.types : Rule → List Ty
  | .same left right _ => [.slot left, .slot right]
  | .call callee args returns _ => .slot callee :: .slot returns :: args

def errorsOf : Except InferError Unit → List InferError
  | .ok () => []
  | .error err => [err]

theorem errorsOf_eq_nil {r : Except InferError Unit} : errorsOf r = [] ↔ r = .ok () := by
  cases r <;> simp [errorsOf]

namespace Operation

def types : Operation → List Ty
  | .addSlot _ | .solve => []
  | .markDiverging s => [.slot s]
  | .unify expected found => [expected, found]
  | .inferType s t => [.slot s, t]
  | .addRule rule => rule.types

def allocates : Operation → Bool
  | .addSlot _ => true
  | _ => false

/-- Carry out an operation; gives the errors it meets. -/
def perform : Operation → EngineM (List InferError)
  | .addSlot origin => do
    modify fun e => (e.addSlot origin).2
    return []
  | .markDiverging s => do
    set (← ask fun e => e.markDiverging s)
    return []
  | .unify expected found => return errorsOf (← (Semcheck.unify expected found).run)
  | .inferType s t => return errorsOf (← (Semcheck.inferType s t).run)
  | .addRule rule => do
    modify fun e => e.addRule rule
    return []
  | .solve => return (← Semcheck.solve).map Failure.error

/-- What an operation asks for holds up to erroneous types and unknown parameter
    lists, or is a call in `X`. -/
def Holds (X : Rule → Prop) (θ : Slot → Ty) : Operation → Prop
  | .unify expected found => Ty.Agree (expected.inst θ) (found.inst θ)
  | .inferType s t => Ty.Agree (θ s) (t.inst θ)
  | .addRule rule => rule.Holds X θ
  | _ => True

/-- What an operation asks for holds exactly.  A slot whose writer never completes
    may get a type that nobody asked for. -/
def Solved (θ : Slot → Ty) : Operation → Prop
  | .unify expected found => expected.inst θ = found.inst θ
  | .inferType s t => θ s = t.inst θ
  | .addRule rule => rule.Solved θ
  | .markDiverging _ => False
  | _ => True

end Operation

/-- Carry out operations, whether they meet errors or not; gives all errors. -/
def performAll : List Operation → EngineM (List InferError)
  | [] => return []
  | op :: ops => do
    let errors ← op.perform
    return errors ++ (← performAll ops)

/-- Only slots that are allocated are mentioned, `n` of them at first. -/
def Allocated : Nat → List Operation → Prop
  | _, [] => True
  | n, op :: ops =>
    (∀ t ∈ op.types, ∀ s ∈ t.slots, s.index < n) ∧ Allocated (n + op.allocates.toNat) ops

instance decidableAllocated : (n : Nat) → (ops : List Operation) → Decidable (Allocated n ops)
  | _, [] => .isTrue trivial
  | n, op :: ops =>
    have := decidableAllocated (n + op.allocates.toNat) ops
    inferInstanceAs (Decidable ((∀ t ∈ op.types, ∀ s ∈ t.slots, s.index < n) ∧
      Allocated (n + op.allocates.toNat) ops))

/-! ## Ranges -/

namespace Ty

theorem within_iff {n k : Nat} {t : Ty} :
    t.Within n k ↔ (∀ s ∈ t.slots, s.index < n) ∧ ∀ id ∈ t.structs, id.index < k := by
  constructor
  · exact fun h => ⟨fun s hs => h.slot hs, fun id hid => h.struct hid⟩
  · rintro ⟨hslots, hstructs⟩ p hp
    cases p with
    | slot s => exact hslots s (mem_slots.2 hp)
    | struct id => exact hstructs id (mem_structs.2 hp)
    | _ => trivial

/-- Finitely many types mention finitely many structs. -/
theorem exists_struct_lt (ts : List Ty) : ∃ k, ∀ t ∈ ts, ∀ id ∈ t.structs, id.index < k := by
  obtain ⟨k, hk⟩ := ((ts.flatMap structs).map StructId.index).toFinset.exists_nat_subset_range
  refine ⟨k, fun t ht id hid => Finset.mem_range.1 (hk ?_)⟩
  rw [mem_toFinset]
  exact mem_map_of_mem (mem_flatMap.2 ⟨t, ht, hid⟩)

end Ty

/-- The structs that a type mentions do not matter to an engine. -/
theorem Engine.Valid.exists_within {k : Nat} {e : Engine} (he : e.Valid k) {t : Ty}
    (ht : ∀ s ∈ t.slots, s.index < e.slots.length) :
    ∃ k', e.Valid k' ∧ t.Within e.slots.length k' := by
  obtain ⟨k', hk'⟩ := exists_struct_lt [t]
  refine ⟨max k k', he.mono (Nat.le_max_left k k'), within_iff.2 ⟨ht, fun id hid => ?_⟩⟩
  exact Nat.lt_of_lt_of_le (hk' t (by simp) id hid) (Nat.le_max_right k k')

theorem Rule.within_of_types {n k : Nat} {rule : Rule} (h : ∀ t ∈ rule.types, t.Within n k) :
    rule.Within n k := by
  cases rule with
  | same left right span =>
    simpa [types, Within, within_slot] using h
  | call callee args returns span =>
    simp only [types, forall_mem_cons, within_slot] at h
    exact ⟨h.1, h.2.2, h.2.1⟩

theorem Rule.plain_of_types {rule : Rule} (h : ∀ t ∈ rule.types, t.Plain) : rule.Plain := by
  cases rule with
  | same left right span => trivial
  | call callee args returns span =>
    simp only [types, forall_mem_cons] at h
    exact h.2.2

/-! ## Runs -/

variable {k : Nat} {e e₁ e₂ e' : Engine} {ops ops1 ops2 : List Operation}
  {errors errors1 errors2 : List InferError} {θ : Slot → Ty}

/-- What operations do to an engine. -/
structure Performed (k : Nat) (e : Engine) (ops : List Operation) (errors : List InferError)
    (e' : Engine) : Prop where
  valid : e'.Valid k
  strict : e'.strict = e.strict
  slots : e'.slots.length = e.slots.length + ops.countP Operation.allocates
  grows : e.strict = true → e.bindings <+: e'.bindings
  plain : e.strict = true → e.Plain → (∀ op ∈ ops, ∀ t ∈ op.types, t.Plain) → errors = [] →
    e'.Plain
  /-- If there was no error, what was asked for holds in every solution. -/
  sound : e.strict = true → errors = [] → ∀ X θ, Excuses X e e' → e'.Admits X θ →
    e.Admits X θ ∧ ∀ op ∈ ops, op.Holds X θ
  /-- A solution of what is asked for stays one. -/
  principal : e.strict = true → e.Completes → ∀ θ, e.Solved θ → (∀ op ∈ ops, op.Solved θ) →
    errors = [] ∧ e'.Completes ∧ e'.Solved θ

namespace Performed

theorem refl (he : e.Valid k) : Performed k e [] [] e where
  valid := he
  strict := rfl
  slots := rfl
  grows _ := prefix_rfl
  plain _ hp _ _ := hp
  sound _ _ _ _ _ hθ := ⟨hθ, by simp⟩
  principal _ hc _ hθ _ := ⟨rfl, hc, hθ⟩

theorem trans (h1 : Performed k e ops1 errors1 e₁) (h2 : Performed k e₁ ops2 errors2 e₂) :
    Performed k e (ops1 ++ ops2) (errors1 ++ errors2) e₂ := by
  refine ⟨h2.valid, h2.strict.trans h1.strict, ?_,
    fun hs => (h1.grows hs).trans (h2.grows (h1.strict.trans hs)), fun hs hp hops herr => ?_,
    fun hs herr X θ hX hθ => ?_, fun hs hc θ hθ hops => ?_⟩
  · rw [h2.slots, h1.slots, countP_append, Nat.add_assoc]
  · obtain ⟨herr1, herr2⟩ := append_eq_nil_iff.1 herr
    rw [forall_mem_append] at hops
    exact h2.plain (h1.strict.trans hs) (h1.plain hs hp hops.1 herr1) hops.2 herr2
  · obtain ⟨herr1, herr2⟩ := append_eq_nil_iff.1 herr
    have hs1 := h1.strict.trans hs
    obtain ⟨hθ1, hops2⟩ := h2.sound hs1 herr2 X θ (hX.right (h1.grows hs)) hθ
    obtain ⟨hθ0, hops1⟩ := h1.sound hs herr1 X θ (hX.left (h2.grows hs1)) hθ1
    exact ⟨hθ0, forall_mem_append.2 ⟨hops1, hops2⟩⟩
  · rw [forall_mem_append] at hops
    obtain ⟨rfl, hc1, hθ1⟩ := h1.principal hs hc θ hθ hops.1
    exact h2.principal (h1.strict.trans hs) hc1 θ hθ1 hops.2

theorem of_unified {op : Operation} {expected found : Ty} {r : Except InferError Unit}
    (h : Engine.Unified k e expected found r e') (hslots : op.allocates = false)
    (hplain : (∀ t ∈ op.types, t.Plain) → expected.Plain ∧ found.Plain)
    (hholds : ∀ X θ, Ty.Agree (expected.inst θ) (found.inst θ) → op.Holds X θ)
    (hsolved : ∀ θ, op.Solved θ → expected.inst θ = found.inst θ) :
    Performed k e [op] (errorsOf r) e' := by
  refine ⟨h.keeps.valid, h.keeps.strict, ?_, h.keeps.grows, fun hs hp hop _ => ?_,
    fun hs herr X θ _ hθ => ?_, fun hs hc θ hθ hop => ?_⟩
  · simp [h.keeps.slots, hslots]
  · obtain ⟨hx, hf⟩ := hplain (hop op (by simp))
    exact (h.plain ⟨hs, hp, hx, hf⟩).1
  · refine ⟨h.advances.admits hs hθ, forall_mem_singleton.2 (hholds X θ ?_)⟩
    exact h.sound hs (errorsOf_eq_nil.1 herr) X θ hθ
  · obtain ⟨rfl, hθ'⟩ := h.principal hs θ hθ (hsolved θ (hop op (by simp)))
    refine ⟨rfl, ?_, hθ'⟩
    rw [Engine.Completes, h.keeps.slots]
    exact hc

end Performed

theorem perform_spec (op : Operation) (he : e.Valid k)
    (hop : ∀ t ∈ op.types, t.Within e.slots.length k) :
    Yields op.perform e (Performed k e [op]) := by
  cases op with
  | addSlot origin =>
    refine ⟨[], _, rfl, he.setSlots (by simp), rfl, by simp [Operation.allocates, addSlot],
      fun _ => prefix_rfl, fun _ hp _ _ => ⟨hp.bindings, hp.rules⟩,
      fun _ _ _ θ _ hθ => ⟨⟨hθ.bindings, hθ.rules⟩, ?_⟩,
      fun _ hc θ hθ _ => ⟨rfl, ?_, hθ.bindings, hθ.rules⟩⟩
    · simp [Operation.Holds]
    · exact forall_mem_append.2 ⟨hc, by simp⟩
  | markDiverging s =>
    have hs : s.index < e.slots.length := by simpa [Operation.types, within_slot] using hop
    refine .after (run_ask (markDiverging_eq hs)) (.after rfl (.pure
      ⟨he.setSlots (by simp), rfl, by simp [Operation.allocates], fun _ => prefix_rfl,
      fun _ hp _ _ => ⟨hp.bindings, hp.rules⟩,
      fun _ _ _ θ _ hθ => ⟨⟨hθ.bindings, hθ.rules⟩, ?_⟩, fun _ _ θ _ hop => ?_⟩))
    · simp [Operation.Holds]
    · exact (hop (.markDiverging s) (by simp)).elim
  | unify expected found | inferType s t =>
    simp only [Operation.types, forall_mem_cons] at hop
    obtain ⟨r, e', hrun, hu⟩ := unify_spec he hop.1 hop.2.1
    exact .after hrun (.pure (.of_unified hu rfl (by simp [Operation.types]) (fun _ _ h => h)
      fun _ h => h))
  | addRule rule =>
    have hrule : rule.Within e.slots.length k := Rule.within_of_types hop
    refine ⟨[], _, rfl, ?_, rfl, by simp [Operation.allocates, addRule],
      fun _ => prefix_rfl,
      fun _ hp hop _ => hp.addRule (Rule.plain_of_types (hop (.addRule rule) (by simp))),
      fun _ _ _ θ _ hθ => ?_, fun _ hc θ hθ hop => ⟨rfl, hc, ?_⟩⟩
    · exact (Engine.Keeps.addRule he hrule).valid
    · obtain ⟨hrules, hnew⟩ := forall_mem_append.1 hθ.rules
      exact ⟨⟨hθ.bindings, hrules⟩, by simpa [Operation.Holds] using hnew⟩
    · exact solved_addRule.2 ⟨hθ, hop (.addRule rule) (by simp)⟩
  | solve =>
    obtain ⟨failures, e', hrun, hs, -⟩ := solve_spec he
    refine .after hrun (.pure ⟨hs.keeps.valid, hs.keeps.strict, ?_, hs.keeps.grows,
      fun hstrict hp _ herr => ?_, fun hstrict herr X θ hX hθ => ⟨?_, ?_⟩,
      fun hstrict hc θ hθ _ => ?_⟩)
    · simp [hs.keeps.slots, Operation.allocates]
    · exact (hs.plain hstrict hp).1 (map_eq_nil_iff.1 herr)
    · exact hs.sound hstrict (map_eq_nil_iff.1 herr) X θ hX hθ
    · simp [Operation.Holds]
    · obtain ⟨rfl, hθ'⟩ := hs.principal hstrict hc θ hθ
      refine ⟨rfl, ?_, hθ'⟩
      rw [Engine.Completes, hs.keeps.slots]
      exact hc

/-- **No session meets a fault**, and it does what `Performed` says. -/
theorem performAll_spec (he : e.Valid k) (ha : Allocated e.slots.length ops)
    (hk : ∀ op ∈ ops, ∀ t ∈ op.types, ∀ id ∈ t.structs, id.index < k) :
    Yields (performAll ops) e (Performed k e ops) := by
  induction ops generalizing e with
  | nil => exact .pure (.refl he)
  | cons op ops ih =>
    rw [forall_mem_cons] at hk
    refine (perform_spec op he fun t ht => within_iff.2 ⟨ha.1 t ht, hk.1 t ht⟩).bind
      fun errors1 e₁ h1 => ?_
    have ha1 : Allocated e₁.slots.length ops := by
      have hone : [op].countP Operation.allocates = op.allocates.toNat := by cases op <;> rfl
      rw [h1.slots, hone]
      exact ha.2
    exact (ih h1.valid ha1 hk.2).bind fun errors2 e₂ h2 => .pure (h1.trans h2)

theorem session_spec (strict : Bool) (ha : Allocated 0 ops) :
    ∃ k, Yields (performAll ops) (.empty strict) (Performed k (.empty strict) ops) := by
  obtain ⟨k, hk⟩ := exists_struct_lt (ops.flatMap Operation.types)
  refine ⟨k, performAll_spec (valid_empty strict) ha fun op hop t ht => ?_⟩
  exact hk t (mem_flatMap.2 ⟨op, hop, ht⟩)

/-! ## Acyclic bindings -/

/-- **The bindings never form a cycle.**  Whatever a session does, in the strict or in
    the lax mode and with or without errors: the graph of the bindings has no cycle and
    mentions only allocated slots; following bindings at the top of a type, following
    them everywhere and closing the result come to an end; the resolved type has no
    bound slot, resolving it again changes nothing, and the concrete type is the
    resolved one with erroneous types in place of its slots. -/
theorem session_acyclic (strict : Bool) {ops : List Operation} (ha : Allocated 0 ops) :
    ∃ errors e, (performAll ops).run (.empty strict) = .ok (errors, e) ∧
      (∀ s, ¬ Relation.TransGen e.bindings.Refers s s) ∧
      (∀ s t, e.bindings.find? s = some t →
        s.index < e.slots.length ∧ ∀ s' ∈ t.slots, s'.index < e.slots.length) ∧
      ∀ t, (∀ s ∈ t.slots, s.index < e.slots.length) → ∃ top whole closed,
        e.shallow t = .ok top ∧ e.bindings.Leads t top ∧
        e.resolve t = .ok whole ∧ e.bindings.Resolves t whole ∧
        e.concretize t = .ok closed ∧ e.bindings.Concretizes t closed ∧
        (∀ s ∈ whole.slots, e.isBound s = .ok false) ∧ e.resolve whole = .ok whole ∧
        closed.slots = [] ∧ closed = whole.inst fun _ => .error := by
  obtain ⟨k, errors, e, hrun, h⟩ := session_spec strict ha
  have hv := h.valid
  refine ⟨errors, e, hrun, hv.ordered.acyclic, fun s t hs => ?_, fun t ht => ?_⟩
  · have hmem := Bindings.mem_of_find? hs
    exact ⟨hv.bound _ hmem, fun s' hs' => (hv.types _ hmem).slot hs'⟩
  obtain ⟨k', hv, ht⟩ := hv.exists_within ht
  have hfree : ∀ s ∈ e.bindings.keys, s ∉ (e.bindings.apply t).slots :=
    fun s hs => Bindings.not_mem_slots_apply hv.ordered hs t
  refine ⟨_, _, _, hv.shallow ht, hv.ordered.leads t, hv.resolve ht, hv.ordered.resolves t,
    hv.concretize ht, (hv.ordered.resolves t).concretizes hv.ordered hfree, fun s hs => ?_, ?_, ?_,
    Ty.closeSlots_eq_inst _⟩
  · rw [Engine.isBound_eq ((hv.apply ht).slot hs), Bindings.find?_eq_none.2 fun hk => hfree s hk hs]
    rfl
  · rw [hv.resolve (hv.apply ht), Bindings.apply_apply hv.ordered]
  · exact List.eq_nil_iff_forall_not_mem.2 (Ty.Closed.of_within (hv.final ht))

/-- A session in the lax mode: the type of `?1` is replaced, and `?2` cannot contain
    itself. -/
def Sample.replaced : List Operation := [
  .addSlot .nowhere, .addSlot .nowhere, .addSlot .nowhere,
  .inferType ⟨0⟩ (.pointer true (.slot ⟨1⟩)),
  .unify (.slot ⟨1⟩) (.functAny (.slot ⟨2⟩)),
  .inferType ⟨1⟩ (.pointer true (.slot ⟨2⟩)),
  .unify (.slot ⟨2⟩) (.tuple [.slot ⟨0⟩])]

theorem replaced_acyclic : Allocated 0 Sample.replaced ∧ ∃ errors e,
    (performAll Sample.replaced).run (.empty false) = .ok (errors, e) ∧ errors.length = 1 ∧
      (∀ s, ¬ Relation.TransGen e.bindings.Refers s s) ∧
      e.resolve (.slot ⟨0⟩) = .ok (.pointer true (.pointer true (.slot ⟨2⟩))) ∧
      e.bindings.Resolves (.slot ⟨0⟩) (.pointer true (.pointer true (.slot ⟨2⟩))) := by
  have ha : Allocated 0 Sample.replaced := by decide
  obtain ⟨errors, e, hrun, hacyclic, -, hall⟩ := session_acyclic false ha
  have hrun' : ∃ errors e, (performAll Sample.replaced).run (.empty false) = .ok (errors, e) ∧
      errors.length = 1 ∧ e.slots.length = 3 ∧
      e.resolve (.slot ⟨0⟩) = .ok (.pointer true (.pointer true (.slot ⟨2⟩))) :=
    ⟨_, _, rfl, rfl, rfl, rfl⟩
  obtain ⟨errors', e', hrun', hcount, hlength, hzero⟩ := hrun'
  cases hrun.symm.trans hrun'
  obtain ⟨_, whole, _, -, -, hwhole, hresolves, -⟩ :=
    hall (.slot ⟨0⟩) (by simp [hlength, Ty.mem_slots])
  cases hzero.symm.trans hwhole
  exact ⟨ha, _, _, hrun, hcount, hacyclic, hzero, hresolves⟩

/-! ## Most general solutions -/

/-- Allocate slots and unify the types of every pair. -/
def equations (origins : List Location) (pairs : List (Ty × Ty)) : List Operation :=
  origins.map .addSlot ++ pairs.map fun pair => .unify pair.1 pair.2

theorem allocated_equations {origins : List Location} {pairs : List (Ty × Ty)} {n : Nat}
    (h : ∀ pair ∈ pairs, ∀ t ∈ [pair.1, pair.2], ∀ s ∈ t.slots, s.index < n + origins.length) :
    Allocated n (equations origins pairs) := by
  induction origins generalizing n with
  | nil =>
    induction pairs with
    | nil => trivial
    | cons pair pairs ih =>
      rw [forall_mem_cons] at h
      exact ⟨h.1, ih h.2⟩
  | cons origin origins ih =>
    refine ⟨by simp [Operation.types], ih fun pair hp t ht s hs => ?_⟩
    have hlt := h pair hp t ht s hs
    rw [length_cons] at hlt
    rw [Operation.allocates, Bool.toNat_true]
    omega

theorem countP_equations (origins : List Location) (pairs : List (Ty × Ty)) :
    (equations origins pairs).countP Operation.allocates = origins.length := by
  rw [equations, countP_append, countP_map, countP_map]
  simp [Function.comp_def, Operation.allocates]

theorem forall_mem_equations {origins : List Location} {pairs : List (Ty × Ty)}
    {P : Operation → Prop} :
    (∀ op ∈ equations origins pairs, P op) ↔
      (∀ origin ∈ origins, P (.addSlot origin)) ∧ ∀ pair ∈ pairs, P (.unify pair.1 pair.2) := by
  rw [equations, forall_mem_append, forall_mem_map, forall_mem_map]

/-- **Unification finds a most general solution.**  Strict unification of plain types
    over allocated slots, followed by solving, meets no fault.  If there is no error then
    the two types of each pair have become equal, and every solution of the pairs is an
    instance of what was found.  If there is an error then the pairs have no solution. -/
theorem unify_most_general (origins : List Location) (pairs : List (Ty × Ty))
    (h : ∀ pair ∈ pairs, ∀ t ∈ [pair.1, pair.2],
      t.Plain ∧ ∀ s ∈ t.slots, s.index < origins.length) :
    ∃ errors e failures e',
      (performAll (equations origins pairs)).run (.empty true) = .ok (errors, e) ∧
      solve.run e = .ok (failures, e') ∧
      (errors = [] → failures = [] →
        (∀ pair ∈ pairs, ∃ u, e'.resolve pair.1 = .ok u ∧ e'.resolve pair.2 = .ok u) ∧
        ∀ θ : Slot → Ty, (∀ pair ∈ pairs, pair.1.inst θ = pair.2.inst θ) →
          ∀ t, (∀ s ∈ t.slots, s.index < origins.length) →
            ∃ u, e'.resolve t = .ok u ∧ u.inst θ = t.inst θ) ∧
      (errors ≠ [] ∨ failures ≠ [] →
        ∀ θ : Slot → Ty, ¬ ∀ pair ∈ pairs, pair.1.inst θ = pair.2.inst θ) := by
  have hslots := fun pair hp t ht => (h pair hp t ht).2
  have ha : Allocated 0 (equations origins pairs) := allocated_equations (by simpa using hslots)
  obtain ⟨k, errors, e, hrun, hp⟩ := session_spec true ha
  obtain ⟨failures, e', hsolve, hs, hrules⟩ := solve_spec hp.valid
  have hstrict : e.strict = true := hp.strict
  have hlength : e'.slots.length = origins.length := by
    rw [hs.keeps.slots, hp.slots, countP_equations]
    exact Nat.zero_add _
  have hresolve {t : Ty} (ht : ∀ s ∈ t.slots, s.index < origins.length) :
      e'.resolve t = .ok (e'.bindings.apply t) := by
    obtain ⟨k', hv, hw⟩ := hs.keeps.valid.exists_within (hlength ▸ ht)
    exact hv.resolve hw
  -- a solution of the pairs is never lost
  have hmost : ∀ θ : Slot → Ty, (∀ pair ∈ pairs, pair.1.inst θ = pair.2.inst θ) →
      errors = [] ∧ failures = [] ∧ e'.Solved θ := by
    intro θ hθ
    obtain ⟨herrors, hc, hθ₁⟩ := hp.principal rfl (by rintro info ⟨⟩) θ
      ⟨by rintro entry ⟨⟩, by rintro rule ⟨⟩⟩ (forall_mem_equations.2 ⟨fun _ _ => trivial, hθ⟩)
    exact ⟨herrors, hs.principal hstrict hc θ hθ₁⟩
  refine ⟨errors, e, failures, e', hrun, hsolve, ?_, fun hfail θ hθ => ?_⟩
  · rintro rfl rfl
    refine ⟨fun pair hpair => ?_, fun θ hθ t ht =>
      ⟨_, hresolve ht, (hmost θ hθ).2.2.bindings.inst_apply t⟩⟩
    have hX {e₁ e₂ : Engine} : Excuses (fun _ => True) e₁ e₂ := fun _ _ _ _ _ => trivial
    have hholds := (hp.sound rfl rfl _ _ hX (hs.meaning hstrict hX hrules)).2
    have hagree := (forall_mem_equations.1 hholds).2 pair hpair
    rw [Operation.Holds, ← Bindings.apply_eq_inst, ← Bindings.apply_eq_inst] at hagree
    have hplain : e.Plain := hp.plain rfl (Engine.plain_empty true)
      (forall_mem_equations.2 ⟨by simp [Operation.types], fun pair hp t ht => (h pair hp t ht).1⟩)
      rfl
    have hplain' := ((hs.plain hstrict hplain).1 rfl).bindings
    have heq := hagree.eq_of_plain (Bindings.plain_apply hplain' (h pair hpair _ (by simp)).1)
      (Bindings.plain_apply hplain' (h pair hpair _ (by simp)).1)
    refine ⟨_, hresolve (hslots pair hpair _ (by simp)), ?_⟩
    rw [hresolve (hslots pair hpair _ (by simp)), heq]
  · obtain ⟨herrors, hfailures, -⟩ := hmost θ hθ
    exact hfail.elim (fun hne => hne herrors) fun hne => hne hfailures

/-- `?0 = ?1`, `?1 = *mut ?2`, `*mut struct#0 = ?0` -/
def Sample.linked : List (Ty × Ty) := [
  (.slot ⟨0⟩, .slot ⟨1⟩),
  (.slot ⟨1⟩, .pointer true (.slot ⟨2⟩)),
  (.pointer true (.struct ⟨0⟩), .slot ⟨0⟩)]

theorem linked_most_general : ∃ e e',
    (performAll (equations [.nowhere, .nowhere, .nowhere] Sample.linked)).run (.empty true) =
      .ok ([], e) ∧ solve.run e = .ok ([], e') ∧
    (∀ pair ∈ Sample.linked, ∃ u, e'.resolve pair.1 = .ok u ∧ e'.resolve pair.2 = .ok u) ∧
    ∀ θ : Slot → Ty, (∀ pair ∈ Sample.linked, pair.1.inst θ = pair.2.inst θ) →
      ∃ u, e'.resolve (.slot ⟨2⟩) = .ok u ∧ u.inst θ = θ ⟨2⟩ := by
  obtain ⟨errors, e, failures, e', hrun, hsolve, hok, -⟩ :=
    unify_most_general [.nowhere, .nowhere, .nowhere] Sample.linked (by
      simp [Sample.linked, Ty.Plain, Ty.All, Ty.IsPlain, Ty.mem_slots])
  have hrun' : ∃ e e', (performAll (equations [.nowhere, .nowhere, .nowhere] Sample.linked)).run
      (.empty true) = .ok ([], e) ∧ solve.run e = .ok ([], e') := ⟨_, _, rfl, rfl⟩
  obtain ⟨e₁, e₂, hrun', hsolve'⟩ := hrun'
  cases hrun.symm.trans hrun'
  cases hsolve.symm.trans hsolve'
  obtain ⟨hpairs, hmost⟩ := hok rfl rfl
  exact ⟨_, _, hrun, hsolve, hpairs, fun θ hθ => hmost θ hθ (.slot ⟨2⟩) (by simp [Ty.mem_slots])⟩

/-! ## Calls -/

/-- A value of the type is a function that takes the arguments and returns the type
    `returns`, up to open and erroneous parts. -/
def Ty.Takes : Ty → List Ty → Ty → Prop
  | .funct params result, args, returns =>
    result.isMatch returns = true ∧
      List.Forall₂ (fun param arg => param.isMatch arg = true) params args
  | .functAny result, _, returns => result.isMatch returns = true
  | _, _, _ => False

theorem Ty.Callable.takes {f returns : Ty} {args : List Ty} (h : f.Callable args returns)
    (hf : f ≠ .error) : f.Takes args returns := by
  cases f with
  | error => exact absurd rfl hf
  | funct params result => exact ⟨h.2.symm.isMatch, h.1.imp fun _ _ ha => ha.isMatch⟩
  | functAny result => exact h.symm.isMatch
  | _ => exact h.elim

/-- **Calls are checked.**  If a strict session and solving its rules meet no error, then
    every value for which a rule about a call was queued is a function that takes the
    arguments of the call, unless its type is erroneous, or the call was circular at some
    point of solving.  Bindings are only added, so those of that point lie between those
    of `e` and of `e'`. -/
theorem calls_checked {ops : List Operation} (ha : Allocated 0 ops) {e e' : Engine}
    (hrun : (performAll ops).run (.empty true) = .ok ([], e)) (hsolve : solve.run e = .ok ([], e'))
    {callee returns : Slot} {args : List Ty} {span : Location}
    (hrule : .call callee args returns span ∈ e.rules)
    (hfine : e'.resolve (.slot callee) ≠ .ok .error) :
    ∃ f as r, e'.resolve (.slot callee) = .ok f ∧
      List.Forall₂ (fun arg a => e'.resolve arg = .ok a) args as ∧
      e'.resolve (.slot returns) = .ok r ∧ (f.Takes as r ∨ ∃ b, e.bindings <+: b ∧
        b <+: e'.bindings ∧ (Rule.call callee args returns span).Circular b) := by
  obtain ⟨k, errors, e₁, hrun', hp⟩ := session_spec true ha
  cases hrun.symm.trans hrun'
  obtain ⟨failures, e₂, hsolve', hs, hrules⟩ := solve_spec hp.valid
  cases hsolve.symm.trans hsolve'
  have hv := hs.keeps.valid
  obtain ⟨hcallee, hargs, hreturns⟩ := hp.valid.rules _ hrule
  rw [← hs.keeps.slots] at hcallee hargs hreturns
  have hslot {s : Slot} (h : s.index < e'.slots.length) :=
    hv.resolve (t := .slot s) (Ty.within_slot.2 h)
  refine ⟨_, args.map e'.bindings.apply, _, hslot hcallee,
    List.forall₂_map_right_iff.2 (List.forall₂_same.2 fun arg harg => hv.resolve (hargs arg harg)),
    hslot hreturns, ?_⟩
  have hne : e'.bindings.meaning callee ≠ .error := fun herror =>
    hfine ((hslot hcallee).trans (congrArg Except.ok herror))
  have hargs' : args.map e'.bindings.apply = args.map (Ty.inst e'.bindings.meaning) :=
    List.map_congr_left fun arg _ => Bindings.apply_eq_inst _ arg
  rw [hargs']
  have hadmits : e.Admits (fun rule => ∃ b, e.bindings <+: b ∧ b <+: e'.bindings ∧
      rule.Circular b) e'.bindings.meaning :=
    hs.meaning hp.strict (fun b hb hb' rule hc => ⟨b, hb, hb', hc⟩) hrules
  exact (hadmits.rules _ hrule).imp (fun h => h.takes hne) id

/-- `?1` is what a call of `?0` returns, and is called itself; that returns `struct#1`. -/
def Sample.curried : List Operation := [
  .addSlot .nowhere, .addSlot .nowhere, .addSlot .nowhere,
  .addRule (.call ⟨0⟩ [.struct ⟨0⟩] ⟨1⟩ .nowhere),
  .addRule (.call ⟨1⟩ [] ⟨2⟩ .nowhere),
  .inferType ⟨2⟩ (.struct ⟨1⟩)]

theorem curried_checked : ∃ e e', (performAll Sample.curried).run (.empty true) = .ok ([], e) ∧
    .call ⟨0⟩ [.struct ⟨0⟩] ⟨1⟩ .nowhere ∈ e.rules ∧ solve.run e = .ok ([], e') ∧
    ∃ f as r, e'.resolve (.slot ⟨0⟩) = .ok f ∧
      List.Forall₂ (fun arg a => e'.resolve arg = .ok a) [.struct ⟨0⟩] as ∧
      e'.resolve (.slot ⟨1⟩) = .ok r ∧ (f.Takes as r ∨ ∃ b, e.bindings <+: b ∧
        b <+: e'.bindings ∧ (Rule.call ⟨0⟩ [.struct ⟨0⟩] ⟨1⟩ .nowhere).Circular b) := by
  have hrun : ∃ e e', (performAll Sample.curried).run (.empty true) = .ok ([], e) ∧
      .call ⟨0⟩ [.struct ⟨0⟩] ⟨1⟩ .nowhere ∈ e.rules ∧ solve.run e = .ok ([], e') ∧
      e'.resolve (.slot ⟨0⟩) = .ok (.funct [.struct ⟨0⟩] (.funct [] (.struct ⟨1⟩))) :=
    ⟨_, _, rfl, by decide, rfl, rfl⟩
  obtain ⟨e, e', hrun, hrule, hsolve, hcallee⟩ := hrun
  refine ⟨e, e', hrun, hrule, hsolve, calls_checked (by decide) hrun hsolve hrule ?_⟩
  rw [hcallee]
  simp

/-- `?0` is called with itself, and both its value and that of the call never come to
    be. -/
def Sample.passedToItself : List Operation := [
  .addSlot .nowhere, .addSlot .nowhere, .markDiverging ⟨0⟩, .markDiverging ⟨1⟩,
  .addRule (.call ⟨0⟩ [.slot ⟨0⟩] ⟨1⟩ .nowhere)]

/-- The rule about a value that is passed to itself is dropped without an error, and the
    callee need not be a function, although every slot gets a type without errors. -/
theorem self_application : Allocated 0 Sample.passedToItself ∧ ∃ e e',
    (performAll Sample.passedToItself).run (.empty true) = .ok ([], e) ∧
    .call ⟨0⟩ [.slot ⟨0⟩] ⟨1⟩ .nowhere ∈ e.rules ∧ solve.run e = .ok ([], e') ∧
    e'.unresolved = [] ∧
    (∀ s : Slot, s.index < e'.slots.length →
      ∃ t, e'.resolve (.slot s) = .ok t ∧ t.containsError = false) ∧
    ∃ f, e'.resolve (.slot ⟨0⟩) = .ok f ∧ ∀ args returns, ¬ f.Takes args returns := by
  refine ⟨by decide, _, _, rfl, by decide, rfl, rfl, ?_, _, rfl, fun _ _ h => h⟩
  rintro ⟨_ | _ | i⟩ hs
  · exact ⟨_, rfl, rfl⟩
  · exact ⟨_, rfl, rfl⟩
  · have hs : i + 2 < 2 := hs
    omega

end Semcheck
