/-
  What may be written into a slot.

  Bindings without a cycle can be listed in order (`Bindings.exists_ordered`), so that what
  holds of an engine whose bindings are in order holds of every engine whose bindings have
  no cycle (`Engine.Acyclic`, `Engine.Arranges`).

  * `strict_write_once`: in the strict mode no operation changes the type of a bound slot;
  * `unify_matches`: in the strict mode types can only be unified if they match, and known
    types are unified exactly if they do;
  * `lax_accepts`: in the lax mode every slot accepts every known type, and a bound slot
    takes a type that it does not match.
-/
import Mathlib.Data.Fintype.Card
import Mathlib.Data.Fintype.EquivFin
import Mathlib.Data.Fintype.Sets
import Mathlib.Order.WellFounded
import Semcheck.Proofs.Infer.Lax
import Semcheck.Proofs.Infer.Session

namespace Semcheck

open Bindings List Ty

/-! ## Bindings without a cycle -/

namespace Bindings

variable {b : Bindings} {s : Slot} {t : Ty}

theorem Ordered.find?_of_mem (h : b.Ordered) (hs : (s, t) ∈ b) : b.find? s = some t := by
  induction b with
  | nil => cases hs
  | cons x b ih =>
    rcases mem_cons.1 hs with rfl | hs
    · simp [find?]
    · have hne := (h.2.1 _ hs).1
      simpa [find?, Ne.symm hne] using ih h.2.2 hs

/-- Among finitely many slots there is one that the types of the others do not mention. -/
theorem exists_source (h : ∀ s, ¬ Relation.TransGen b.Refers s s) {slots : Finset Slot}
    (hne : slots.Nonempty) : ∃ s ∈ slots, ∀ s' ∈ slots, ¬ b.Refers s' s := by
  have hwf : WellFounded fun s s' : slots => Relation.TransGen b.Refers s s' :=
    @Finite.wellFounded_of_trans_of_irrefl _ _ _ ⟨fun _ _ _ => .trans⟩ ⟨fun s => h s⟩
  obtain ⟨s, hs⟩ := hne
  obtain ⟨first, -, hfirst⟩ := hwf.has_min Set.univ ⟨⟨s, hs⟩, trivial⟩
  exact ⟨first, first.2, fun s' hs' hr => hfirst ⟨s', hs'⟩ trivial (.single hr)⟩

/-- **Bindings without a cycle can be listed in order.** -/
theorem exists_ordered (h : ∀ s, ¬ Relation.TransGen b.Refers s s) :
    ∃ b' : Bindings, b'.Ordered ∧ ∀ s, b'.find? s = b.find? s := by
  -- one slot after the other, starting with those that no type mentions
  have hpart : ∀ slots : Finset Slot, (∀ s ∈ slots, s ∈ b.keys) → ∃ b' : Bindings,
      b'.Ordered ∧ (∀ s ∈ slots, s ∈ b'.keys) ∧
        ∀ s t, (s, t) ∈ b' → s ∈ slots ∧ b.find? s = some t := by
    intro slots
    induction slots using Finset.strongInduction with
    | H slots ih =>
      intro hslots
      rcases slots.eq_empty_or_nonempty with rfl | hne
      · exact ⟨[], trivial, by simp, by simp⟩
      obtain ⟨s, hs, hsource⟩ := exists_source h hne
      obtain ⟨t, ht⟩ := Option.isSome_iff_exists.1 (find?_isSome.2 (hslots s hs))
      obtain ⟨b', hb', hkeys, hmem⟩ := ih _ (Finset.erase_ssubset hs) fun s' hs' =>
        hslots s' (Finset.mem_of_mem_erase hs')
      refine ⟨(s, t) :: b', ⟨fun hst => hsource s hs ⟨t, ht, hst⟩, ?_, hb'⟩, ?_, ?_⟩
      · rintro ⟨s', t'⟩ hentry
        obtain ⟨hs', ht'⟩ := hmem s' t' hentry
        obtain ⟨hne, hs'⟩ := Finset.mem_erase.1 hs'
        exact ⟨hne, fun hmention => hsource s' hs' ⟨t', ht', hmention⟩⟩
      · intro s' hs'
        by_cases he : s' = s
        · simp [keys, he]
        · exact mem_cons_of_mem _ (hkeys s' (Finset.mem_erase.2 ⟨he, hs'⟩))
      · intro s' t' hentry
        rcases mem_cons.1 hentry with heq | hentry
        · cases heq
          exact ⟨hs, ht⟩
        · exact (hmem s' t' hentry).imp Finset.mem_of_mem_erase id
  obtain ⟨b', hb', hkeys, hmem⟩ := hpart b.keys.toFinset fun s hs => mem_toFinset.1 hs
  refine ⟨b', hb', fun s => ?_⟩
  cases hs : b'.find? s with
  | some t => exact (hmem s t (mem_of_find? hs)).2.symm
  | none =>
    refine (find?_eq_none.2 fun hk => find?_eq_none.1 hs ?_).symm
    exact hkeys s (mem_toFinset.2 hk)

theorem apply_rebind (b : Bindings) (s : Slot) (t : Ty) : (b.rebind s t).apply (.slot s) = t := by
  rw [rebind, apply_append, apply_unbound (by simp [keys])]
  simp [subst]

/-- What a slot takes does not concern the others. -/
theorem find?_rebind {s' : Slot} (h : s' ≠ s) : (b.rebind s t).find? s' = b.find? s' := by
  simp only [find?, rebind, find?_append, find?_filter]
  rw [find?_singleton, if_neg (by simpa using h.symm), Option.or_none]
  congr 2
  funext entry
  grind

end Bindings

/-- Only the first `n` slots occur. -/
def Ty.Over (n : Nat) (t : Ty) : Prop :=
  ∀ s ∈ t.slots, s.index < n

namespace Engine

variable {k : Nat} {e e₀ : Engine}

/-- The bindings have no cycle, and all slots that are mentioned are allocated. -/
structure Acyclic (e : Engine) : Prop where
  acyclic : ∀ s, ¬ Relation.TransGen e.bindings.Refers s s
  bindings : ∀ s t, e.bindings.find? s = some t →
    s.index < e.slots.length ∧ t.Over e.slots.length
  rules : ∀ rule ∈ e.rules, ∀ t ∈ rule.types, t.Over e.slots.length

/-- `e₀` is the engine `e` with its bindings listed in order. -/
structure Arranges (e e₀ : Engine) : Prop where
  slots : e₀.slots = e.slots
  rules : e₀.rules = e.rules
  strict : e₀.strict = e.strict
  stored : ∀ s, e₀.bindings.find? s = e.bindings.find? s
  ordered : e₀.bindings.Ordered

theorem Acyclic.exists_arranges (h : e.Acyclic) : ∃ e₀, e.Arranges e₀ := by
  obtain ⟨b, hb, hstored⟩ := exists_ordered h.acyclic
  exact ⟨{ e with bindings := b }, rfl, rfl, rfl, hstored, hb⟩

theorem Acyclic.valid (h : e.Acyclic) (ha : e.Arranges e₀) (ts : List Ty) : ∃ k, e₀.Valid k ∧
    ∀ t ∈ ts, t.Over e.slots.length → t.Within e₀.slots.length k := by
  obtain ⟨k, hk⟩ := exists_struct_lt
    (ts ++ (e₀.bindings.map Prod.snd ++ e₀.rules.flatMap Rule.types))
  simp only [forall_mem_append, forall_mem_map, forall_mem_flatMap] at hk
  obtain ⟨hts, hbindings, hrules⟩ := hk
  have hstored (entry) (hentry : entry ∈ e₀.bindings) := h.bindings entry.1 entry.2
    (ha.stored _ ▸ ha.ordered.find?_of_mem hentry)
  rw [ha.rules] at hrules
  simp only [ha.slots]
  refine ⟨k, ⟨ha.ordered, fun entry hentry => ?_, fun entry hentry => ?_, fun rule hrule => ?_⟩,
    fun t ht hover => within_iff.2 ⟨hover, hts t ht⟩⟩
  · exact ha.slots ▸ (hstored entry hentry).1
  · exact ha.slots ▸ within_iff.2 ⟨(hstored entry hentry).2, hbindings entry hentry⟩
  · rw [ha.rules] at hrule
    exact ha.slots ▸ Rule.within_of_types fun t ht =>
      within_iff.2 ⟨h.rules rule hrule t ht, hrules rule hrule t ht⟩

end Engine

/-! ## The strict mode -/

section Strict

variable {k : Nat} {e e' : Engine} {ops : List Operation} {errors : List InferError}

theorem Performed.find? (h : Performed k e ops errors e') (hs : e.strict = true) {s : Slot}
    {t : Ty} (ht : e.bindings.find? s = some t) : e'.bindings.find? s = some t :=
  h.valid.ordered.find?_of_mem ((h.grows hs).subset (mem_of_find? ht))

/-- What becomes known is about slots that were not bound. -/
theorem Performed.apply_eq (h : Performed k e ops errors e') (hs : e.strict = true) :
    ∃ σ : Slot → Ty, (∀ t, e'.bindings.apply t = (e.bindings.apply t).inst σ) ∧
      ∀ s, σ s ≠ .slot s → e.bindings.find? s = none := by
  obtain ⟨more, hmore⟩ := h.grows hs
  have ho := h.valid.ordered
  rw [← hmore, ordered_append] at ho
  refine ⟨Bindings.meaning more, fun t => ?_, fun s hne => find?_eq_none.2 fun hk => hne ?_⟩
  · rw [← hmore, apply_append, apply_eq_inst more]
  · -- a slot that was bound is not bound again
    refine apply_unbound fun hk' => ?_
    obtain ⟨t, ht⟩ := mem_keys.1 hk
    obtain ⟨t', ht'⟩ := mem_keys.1 hk'
    exact (ho.2.2 _ ht _ ht').1 rfl

/-- **Strict inference writes once.**  In the strict mode an operation on allocated slots,
    whether it succeeds or fails, leaves the type of every bound slot as it is; so a type
    resolves to an instance of what it resolved to before, in which only slots that were
    not bound are replaced. -/
theorem strict_write_once {e : Engine} (he : e.Acyclic) (hs : e.strict = true) :
    (∃ e₀, e.Arranges e₀) ∧ ∀ e₀, e.Arranges e₀ → ∀ op : Operation,
      (∀ t ∈ op.types, t.Over e.slots.length) →
      ∃ errors e', op.perform.run e₀ = .ok (errors, e') ∧
        (∀ s t, e.bindings.find? s = some t → e'.bindings.find? s = some t) ∧
        ∀ t : Ty, t.Over e.slots.length → ∃ u u' σ, e₀.resolve t = .ok u ∧
          e'.resolve t = .ok u' ∧ u' = u.inst σ ∧
          ∀ s, σ s ≠ .slot s → e.bindings.find? s = none := by
  refine ⟨he.exists_arranges, fun e₀ ha op hop => ?_⟩
  have hstrict := ha.strict.trans hs
  obtain ⟨k, hv, hw⟩ := he.valid ha op.types
  obtain ⟨errors, e', hrun, hp⟩ := perform_spec op hv fun t ht => hw t ht (hop t ht)
  simp only [← ha.stored]
  refine ⟨errors, e', hrun, fun s t => hp.find? hstrict, fun t ht => ?_⟩
  rw [← ha.slots] at ht
  obtain ⟨k₁, hv₁, hw₁⟩ := hv.exists_within ht
  obtain ⟨k₂, hv₂, hw₂⟩ := hp.valid.exists_within (t := t) fun s hmem =>
    Nat.lt_of_lt_of_le (ht s hmem) (hp.slots ▸ Nat.le_add_right _ _)
  obtain ⟨σ, happly, hσ⟩ := hp.apply_eq hstrict
  exact ⟨_, _, σ, hv₁.resolve hw₁, hv₂.resolve hw₂, happly t, hσ⟩

/-- `?0` is `*mut ?1`, and nothing is known of `?1`. -/
def Sample.pointing : Engine where
  slots := [⟨.nowhere, false⟩, ⟨.nowhere, false⟩]
  bindings := [(⟨0⟩, .pointer true (.slot ⟨1⟩))]
  rules := []
  strict := true

theorem pointing_arranges : Sample.pointing.Arranges Sample.pointing :=
  ⟨rfl, rfl, rfl, fun _ => rfl, by simp [Sample.pointing, Bindings.Ordered, mem_slots]⟩

theorem pointing_acyclic : Sample.pointing.Acyclic where
  acyclic := pointing_arranges.ordered.acyclic
  bindings s t h := by
    obtain ⟨rfl, rfl⟩ : s = ⟨0⟩ ∧ t = .pointer true (.slot ⟨1⟩) := by
      simpa [Sample.pointing] using mem_of_find? h
    simp [Sample.pointing, Ty.Over, mem_slots]
  rules := by simp [Sample.pointing]

/-- First `?1` is bound, and then the pointer turns out not to be a struct. -/
theorem pointing_write_once : ∃ errors e', (Operation.unify (.tuple [.slot ⟨1⟩, .slot ⟨0⟩])
    (.tuple [.struct ⟨0⟩, .struct ⟨0⟩])).perform.run Sample.pointing = .ok (errors, e') ∧
    errors.length = 1 ∧ e'.bindings.find? ⟨0⟩ = some (.pointer true (.slot ⟨1⟩)) ∧
    e'.resolve (.slot ⟨0⟩) = .ok (.pointer true (.struct ⟨0⟩)) := by
  obtain ⟨errors, e', hrun, hstored, -⟩ := (strict_write_once pointing_acyclic rfl).2 _
    pointing_arranges (.unify (.tuple [.slot ⟨1⟩, .slot ⟨0⟩]) (.tuple [.struct ⟨0⟩, .struct ⟨0⟩]))
    (by simp [Operation.types, Ty.Over, Ty.mem_slots, Sample.pointing])
  have hbound := hstored ⟨0⟩ _ rfl
  cases hrun
  exact ⟨_, _, rfl, rfl, hbound, rfl⟩

/-- **Unification agrees with compatibility.**  In the strict mode types that can be unified
    matched before; known types are unified exactly if they match, and nothing is bound or
    queued for it. -/
theorem unify_matches {e : Engine} (he : e.Acyclic) (hs : e.strict = true) :
    (∃ e₀, e.Arranges e₀) ∧ ∀ e₀, e.Arranges e₀ → ∀ expected found : Ty,
      expected.Over e.slots.length → found.Over e.slots.length →
      ∃ u v r e', e₀.resolve expected = .ok u ∧ e₀.resolve found = .ok v ∧
        (unify expected found).run e₀ = .ok (r, e') ∧ (r = .ok () → u.isMatch v = true) ∧
        (u.slots = [] → v.slots = [] → e' = e₀ ∧ (r = .ok () ↔ u.isMatch v = true)) := by
  refine ⟨he.exists_arranges, fun e₀ ha expected found hx hf => ?_⟩
  have hstrict := ha.strict.trans hs
  obtain ⟨k, hv, hw⟩ := he.valid ha [expected, found]
  have hxw := hw expected (by simp) hx
  have hfw := hw found (by simp) hf
  obtain ⟨r, e', hrun, hu⟩ := unify_spec hv hxw hfw
  have hmatch : r = .ok () → e₀.Matches expected found := fun hr =>
    ((unify_lenient ⟨hstrict, ha.ordered⟩ expected found r e' hrun).2 () hr).1
  refine ⟨_, _, r, e', hv.resolve hxw, hv.resolve hfw, hrun, hmatch, fun hx hf => ?_⟩
  obtain ⟨rfl, hok⟩ := hu.known hstrict (List.eq_nil_iff_forall_not_mem.1 hx)
    (List.eq_nil_iff_forall_not_mem.1 hf)
  exact ⟨rfl, hmatch, hok⟩

theorem pointing_unify_matches : ∃ r e',
    (unify (.funct [.struct ⟨0⟩] .error) (.functAny .unit)).run Sample.pointing = .ok (r, e') ∧
      e' = Sample.pointing ∧ (r = .ok () ↔
        (Ty.funct [.struct ⟨0⟩] .error).isMatch (.functAny .unit) = true) := by
  obtain ⟨u, v, r, e', hu, hv, hrun, -, hknown⟩ := (unify_matches pointing_acyclic rfl).2 _
    pointing_arranges (.funct [.struct ⟨0⟩] .error) (.functAny .unit)
    (by simp [Ty.Over, Ty.mem_slots]) (by simp [Ty.Over, Ty.mem_slots, Ty.unit])
  cases hu
  cases hv
  exact ⟨r, e', hrun, hknown rfl rfl⟩

end Strict

/-! ## The lax mode -/

/-- A bound slot takes a type that it does not match. -/
theorem unify_overwrites {k : Nat} {e : Engine} (he : e.Valid k) (hlax : e.strict = false)
    {s : Slot} {t : Ty} (hi : s.index < e.slots.length) (ht : t.Within e.slots.length k)
    (hs : s ∈ e.bindings.keys) (hm : ¬ e.Matches (.slot s) t) :
    (unify (.slot s) t).run e =
      .ok (.ok (), { e with bindings := e.bindings.rebind s (e.bindings.apply t) }) := by
  rcases overwrite_cases he hi ht with ⟨-, hcalm⟩ | ⟨e', rfl, hrun, -⟩
  · exact absurd ((hcalm hs).resolve_left (by simp [hlax])) hm
  · rw [unify, InferM.run_bind_ok (InferM.get_run e)]
    show (unifyWith (unifyWithin _) (.slot s) t).run e = _
    rw [unifyWith, InferM.run_bind_ok hrun]
    rfl

/-- **Lax inference accepts every known type.**  After every session in the lax mode a slot
    accepts a type without slots; a bound slot that does not match it stands for it from then
    on, and no other slot is affected. -/
theorem lax_accepts {ops : List Operation} (ha : Allocated 0 ops) : ∃ errors e,
    (performAll ops).run (.empty false) = .ok (errors, e) ∧
      ∀ (s : Slot) (t : Ty), s.index < e.slots.length → t.slots = [] →
        ∃ e', (inferType s t).run e = .ok (.ok (), e') ∧
          ∀ u, e.isBound s = .ok true → e.resolve (.slot s) = .ok u → u.isMatch t = false →
            e'.resolve (.slot s) = .ok t ∧
              ∀ s', s' ≠ s → e'.bindings.find? s' = e.bindings.find? s' := by
  obtain ⟨k, errors, e, hrun, hp⟩ := session_spec false ha
  refine ⟨errors, e, hrun, fun s t hs ht => ?_⟩
  have hclosed : t.Closed := List.eq_nil_iff_forall_not_mem.1 ht
  obtain ⟨k, hv, hw⟩ := hp.valid.exists_within (t := t) fun s hs => absurd hs (hclosed s)
  have hsw : (Ty.slot s).Within e.slots.length k := Ty.within_slot.2 hs
  obtain ⟨r, e', hrun, hu⟩ := unify_spec hv hsw hw
  obtain rfl := hu.accepts hp.strict hclosed rfl
  refine ⟨e', hrun, fun u hbound hresolve hno => ?_⟩
  have hmem : s ∈ e.bindings.keys := by
    rw [Engine.isBound_eq hs] at hbound
    exact Bindings.find?_isSome.1 (Except.ok.inj hbound)
  have hm : ¬ e.Matches (.slot s) t := by
    rw [Engine.Matches, Engine.resolve_eq hresolve, Bindings.apply_closed hclosed, hno]
    exact Bool.false_ne_true
  cases hrun.symm.trans (unify_overwrites hv hp.strict hs hw hmem hm)
  rw [hu.keeps.valid.resolve hsw, Bindings.apply_rebind, Bindings.apply_closed hclosed]
  exact ⟨rfl, fun s' => Bindings.find?_rebind⟩

/-- `?0` is `(?1, ?1)`. -/
def Sample.twice : List Operation :=
  [.addSlot .nowhere, .addSlot .nowhere, .inferType ⟨0⟩ (.tuple [.slot ⟨1⟩, .slot ⟨1⟩])]

/-- The two entries get different types, one after the other; a struct replaces the tuple. -/
theorem twice_accepts : ∃ errors e e₁ e₂,
    (performAll Sample.twice).run (.empty false) = .ok (errors, e) ∧
    (inferType ⟨0⟩ (.tuple [.struct ⟨0⟩, .struct ⟨1⟩])).run e = .ok (.ok (), e₁) ∧
    (inferType ⟨0⟩ (.struct ⟨0⟩)).run e = .ok (.ok (), e₂) ∧
    e₂.resolve (.slot ⟨0⟩) = .ok (.struct ⟨0⟩) := by
  have ha : Allocated 0 Sample.twice := by decide
  obtain ⟨errors, e, hrun, haccepts⟩ := lax_accepts ha
  cases hrun
  obtain ⟨e₁, hrun₁, -⟩ := haccepts ⟨0⟩ (.tuple [.struct ⟨0⟩, .struct ⟨1⟩]) (by decide) rfl
  obtain ⟨e₂, hrun₂, htakes⟩ := haccepts ⟨0⟩ (.struct ⟨0⟩) (by decide) rfl
  exact ⟨_, _, e₁, e₂, rfl, hrun₁, hrun₂, (htakes _ rfl rfl rfl).1⟩

end Semcheck
