/-
  What every step of inference keeps.

  * `Engine.Valid k`: bindings are ordered, and bindings and rules mention only
    allocated slots and the first `k` structs;
  * `Engine.Keeps k e e'`: what unification and solving do to an engine.  Slots
    are bound and never freed, in the strict mode bindings are only added, and
    a slot that stands for an unbound slot goes on doing so until that slot is
    bound;
  * `Engine.Advances k e e'`: the same, and the rules that were queued have to
    wait for a slot to be bound;
  * `InferM.Yields`: a step meets no fault, and its outcome satisfies a
    postcondition.
-/
import Semcheck.Infer.Solve
import Semcheck.Proofs.Infer.Bindings

namespace Semcheck

open List Bindings Option Engine Ty

theorem bind_eq_ok {α β ε : Type} {x : Except ε α} {f : α → Except ε β} {b : β} :
    x >>= f = .ok b ↔ ∃ a, x = .ok a ∧ f a = .ok b := by
  constructor
  · intro h
    cases x with
    | error e => cases h
    | ok a => exact ⟨a, rfl, h⟩
  · rintro ⟨a, rfl, h⟩
    exact h

theorem run_bind {σ ε α β : Type} {x : StateT σ (Except ε) α} {f : α → StateT σ (Except ε) β}
    {s s' : σ} {a : α} (h : x.run s = .ok (a, s')) : (x >>= f).run s = (f a).run s' := by
  show (x s >>= _) = _
  rw [show x s = .ok (a, s') from h]
  rfl

theorem forM_eq_ok {α ε : Type} {f : α → Except ε Unit} {xs : List α}
    (h : ∀ x ∈ xs, f x = .ok ()) : xs.forM f = .ok () := by
  induction xs with
  | nil => rfl
  | cons x xs ih =>
    show (f x >>= fun _ => xs.forM f) = _
    rw [h x (by simp)]
    exact ih fun y hy => h y (mem_cons_of_mem _ hy)

/-- The rule mentions only the first `n` slots and the first `k` structs. -/
def Rule.Within (n k : Nat) : Rule → Prop
  | .same left right _ => left.index < n ∧ right.index < n
  | .call callee args returns _ =>
    callee.index < n ∧ (∀ arg ∈ args, arg.Within n k) ∧ returns.index < n

theorem Rule.Within.mono {n n' k k' : Nat} {rule : Rule} (h : rule.Within n k) (hn : n ≤ n')
    (hk : k ≤ k') : rule.Within n' k' := by
  cases rule with
  | same left right span => exact ⟨Nat.lt_of_lt_of_le h.1 hn, Nat.lt_of_lt_of_le h.2 hn⟩
  | call callee args returns span =>
    exact ⟨Nat.lt_of_lt_of_le h.1 hn, fun arg ha => (h.2.1 arg ha).mono hn hk,
      Nat.lt_of_lt_of_le h.2.2 hn⟩

/-- The rule cannot be settled yet: its slots stand for unbound ones. -/
def Rule.Waits (b : Bindings) : Rule → Prop
  | .same left right _ =>
    ∃ p q, b.head (.slot left) = .slot p ∧ b.head (.slot right) = .slot q ∧ p ≠ q
  | .call callee _ _ _ => ∃ p, b.head (.slot callee) = .slot p

namespace Bindings

variable {b : Bindings} {s s' : Slot} {t : Ty}

/-- Filtering out a slot that stands for a known type does not affect the slots
    that stand for an unbound one. -/
theorem head_filter (h : b.Ordered) {root : Slot} {u : Ty} (hs : b.head (.slot s) ≠ .slot root)
    (hu : b.head u = .slot root) : head (filter (fun entry => entry.1 ≠ s) b) u = .slot root := by
  induction b generalizing u with
  | nil => exact hu
  | cons x b ih =>
    obtain ⟨s', t⟩ := x
    rw [head_cons] at hs hu
    by_cases he : s' = s
    · subst he
      have hus : u ≠ .slot s' := by
        rintro rfl; exact hs hu
      have hb : filter (fun entry => entry.1 ≠ s') b = b :=
        filter_eq_self.2 fun entry hentry => by simpa using (h.2.1 entry hentry).1
      rw [filter_cons_of_neg (by simp), hb]
      simpa [hus] using hu
    · have hne : Ty.slot s ≠ .slot s' := by simpa [eq_comm] using he
      rw [if_neg hne] at hs
      simpa [he, head_cons] using ih h.2.2 hs hu

theorem mem_keys_bind : s' ∈ keys (b.bind s t) ↔ s' ∈ b.keys ∨ s' = s := by
  simp [keys, bind]

theorem mem_keys_rebind (hs : s ∈ b.keys) : s' ∈ keys (b.rebind s t) ↔ s' ∈ b.keys := by
  simp only [keys, rebind, map_append, mem_append, map_cons, map_nil,
    mem_singleton, List.mem_map, mem_filter] at hs ⊢
  constructor
  · rintro (⟨x, ⟨hx, -⟩, rfl⟩ | rfl)
    · exact ⟨x, hx, rfl⟩
    · exact hs
  · rintro ⟨x, hx, rfl⟩
    by_cases he : x.1 = s
    · exact .inr he
    · exact .inl ⟨x, ⟨hx, by simpa using he⟩, rfl⟩

end Bindings

namespace Engine

/-- The bindings are ordered, and everything mentioned exists. -/
structure Valid (k : Nat) (e : Engine) : Prop where
  ordered : e.bindings.Ordered
  bound : ∀ entry ∈ e.bindings, entry.1.index < e.slots.length
  types : ∀ entry ∈ e.bindings, entry.2.Within e.slots.length k
  rules : ∀ rule ∈ e.rules, rule.Within e.slots.length k

/-- The slots that can still be bound. -/
def free (e : Engine) : Nat :=
  e.slots.length - e.bindings.length

variable {k : Nat} {e e' e1 e2 : Engine} {s : Slot} {t : Ty} {rule : Rule}

theorem valid_empty (strict : Bool) : (empty strict).Valid k :=
  ⟨trivial, by simp [empty], by simp [empty], by simp [empty]⟩

section

variable (h : e.Valid k)
include h

theorem Valid.mono {k' : Nat} (hk : k ≤ k') : e.Valid k' :=
  ⟨h.ordered, h.bound, fun entry he => (h.types entry he).mono (Nat.le_refl _) hk,
    fun rule hr => (h.rules rule hr).mono (Nat.le_refl _) hk⟩

theorem Valid.setSlots {slots : List SlotInfo} (hle : e.slots.length ≤ slots.length) :
    Valid k { e with slots := slots } where
  ordered := h.ordered
  bound entry he := Nat.lt_of_lt_of_le (h.bound entry he) hle
  types entry he := (h.types entry he).mono hle (Nat.le_refl _)
  rules rule hr := (h.rules rule hr).mono hle (Nat.le_refl _)

theorem Valid.length_le : e.bindings.length ≤ e.slots.length :=
  h.ordered.length_le h.bound

theorem Valid.index_lt (hs : s ∈ e.bindings.keys) : s.index < e.slots.length := by
  obtain ⟨t, ht⟩ := mem_keys.1 hs
  exact h.bound _ ht

theorem Valid.apply (ht : t.Within e.slots.length k) :
    (e.bindings.apply t).Within e.slots.length k :=
  within_apply h.types ht

theorem Valid.head (ht : t.Within e.slots.length k) :
    (e.bindings.head t).Within e.slots.length k := by
  cases t with
  | slot s =>
    rcases head_slot e.bindings s with he | ⟨entry, hentry, he⟩
    · rw [he]; exact ht
    · rw [he]; exact h.types _ hentry
  | _ => rw [head_of_not_slot _ rfl]; exact ht

/-- Where the head of a type stops at a slot, that slot is allocated and not bound. -/
theorem Valid.root (ht : t.Within e.slots.length k) {root : Slot}
    (hr : e.bindings.head t = .slot root) : root.index < e.slots.length ∧ root ∉ e.bindings.keys :=
  ⟨within_slot.1 (hr ▸ h.head ht), head_ne_bound h.ordered hr⟩

end

/-! ## Questions -/

theorem info_eq (h : s.index < e.slots.length) : e.info s = .ok (e.slots.get ⟨s.index, h⟩) := by
  simp [info, getElem?_eq_getElem h]

theorem isBound_eq (h : s.index < e.slots.length) :
    e.isBound s = .ok (e.bindings.find? s).isSome := by
  simp [isBound, info_eq h, Bind.bind, Except.bind, pure, Except.pure]

theorem markDiverging_eq (h : s.index < e.slots.length) :
    e.markDiverging s = .ok { e with
      slots := e.slots.modify s.index fun info => { info with diverging := true } } := by
  rw [markDiverging, info_eq h]
  rfl

theorem checkSlots_eq {slots : List Slot} (h : ∀ s ∈ slots, s.index < e.slots.length) :
    e.checkSlots slots = .ok () :=
  forM_eq_ok fun s hs => by rw [info_eq (h s hs)]; rfl

theorem checkSlots_root (h : t.Within e.slots.length k) : e.checkSlots t.slot?.toList = .ok () := by
  refine checkSlots_eq fun s hs => ?_
  cases t with
  | slot s' =>
    obtain rfl : s = s' := by simpa [Ty.slot?] using hs
    exact within_slot.1 h
  | _ => simp [Ty.slot?] at hs

theorem Valid.shallow (he : e.Valid k) (h : t.Within e.slots.length k) :
    e.shallow t = .ok (e.bindings.head t) := by
  simp only [Engine.shallow, checkSlots_root h, checkSlots_root (he.head h)]
  rfl

theorem Valid.resolve (he : e.Valid k) (h : t.Within e.slots.length k) :
    e.resolve t = .ok (e.bindings.apply t) := by
  have hresolved := checkSlots_eq fun s hs => (he.apply h).slot hs
  simp only [Engine.resolve, checkSlots_eq fun s hs => h.slot hs, hresolved]
  rfl

theorem unresolved_eq_nil :
    e.unresolved = [] ↔ ∀ s : Slot, s.index < e.slots.length → s ∈ e.bindings.keys := by
  simp only [unresolved, map_eq_nil_iff, unbound, filter_eq_nil_iff, List.forall_mem_map,
    isNone_iff_eq_none, ← isSome_iff_ne_none, Bindings.find?_isSome]
  constructor
  · intro h s hs
    exact h (_, s.index) (mem_zipIdx_iff_getElem?.2 (getElem?_eq_getElem hs))
  · rintro h ⟨info, i⟩ hi
    exact h ⟨i⟩ (List.getElem?_eq_some_iff.1 (mem_zipIdx_iff_getElem?.1 hi)).1

/-- Where every slot is bound, every type is known. -/
theorem Valid.closed_apply (he : e.Valid k) (hu : e.unresolved = [])
    (ht : t.Within e.slots.length k) : (e.bindings.apply t).Closed := by
  intro s hs
  have hbound := unresolved_eq_nil.1 hu s ((he.apply ht).slot hs)
  exact not_mem_slots_apply he.ordered hbound t hs

/-- What is left of a type when inference is over. -/
def final (e : Engine) (t : Ty) : Ty :=
  (e.bindings.apply t).closeSlots

theorem Valid.concretize (he : e.Valid k) (h : t.Within e.slots.length k) :
    e.concretize t = .ok (e.final t) := by
  simp only [Engine.concretize, he.resolve h]
  rfl

theorem Valid.final (h : e.Valid k) (ht : t.Within e.slots.length k) : (e.final t).Within 0 k :=
  (h.apply ht).closeSlots

theorem final_closed (h : t.Closed) : e.final t = t := by
  rw [final, apply_closed h, h.closeSlots_eq]

theorem final_head (h : e.bindings.Ordered) (t : Ty) : e.final (e.bindings.head t) = e.final t := by
  rw [final, apply_head h, final]

@[simp] theorem final_struct (id : StructId) : e.final (.struct id) = .struct id := by
  simp [final, closeSlots]

@[simp] theorem final_pointer (mutable : Bool) (t : Ty) :
    e.final (.pointer mutable t) = .pointer mutable (e.final t) := by
  simp [final, closeSlots]

@[simp] theorem final_tuple (ts : List Ty) : e.final (.tuple ts) = .tuple (ts.map e.final) := by
  simp [final, closeSlots, closeSlotsList_eq]

/-! ## What steps keep -/

/-- What a step of inference keeps of an engine. -/
structure Keeps (k : Nat) (e e' : Engine) : Prop where
  valid : e'.Valid k
  slots : e'.slots = e.slots
  strict : e'.strict = e.strict
  keys : ∀ s ∈ e.bindings.keys, s ∈ e'.bindings.keys
  grows : e.strict = true → e.bindings <+: e'.bindings
  heads : ∀ s root, e.bindings.head (.slot s) = .slot root → root ∉ e'.bindings.keys →
    e'.bindings.head (.slot s) = .slot root

theorem Keeps.refl (h : e.Valid k) : Keeps k e e :=
  ⟨h, rfl, rfl, fun _ hs => hs, fun _ => prefix_rfl, fun _ _ hs _ => hs⟩

theorem Keeps.trans (h1 : Keeps k e e1) (h2 : Keeps k e1 e2) : Keeps k e e2 where
  valid := h2.valid
  slots := h2.slots.trans h1.slots
  strict := h2.strict.trans h1.strict
  keys s hs := h2.keys s (h1.keys s hs)
  grows hs := (h1.grows hs).trans (h2.grows (h1.strict.trans hs))
  heads s root hs hr := h2.heads s root (h1.heads s root hs fun hk => hr (h2.keys _ hk)) hr

section

variable (h : Keeps k e e')
include h

theorem Keeps.length_le (he : e.Valid k) : e.bindings.length ≤ e'.bindings.length := by
  simpa [Bindings.keys] using he.ordered.nodup.length_le_of_subset h.keys

/-- A step that does not add to the bindings binds no slot. -/
theorem Keeps.bound_of_length (he : e.Valid k) (hl : e'.bindings.length = e.bindings.length)
    (hs : s ∈ e'.bindings.keys) : s ∈ e.bindings.keys := by
  refine Decidable.byContradiction fun hn => ?_
  have hnd : (s :: e.bindings.keys).Nodup := nodup_cons.2 ⟨hn, he.ordered.nodup⟩
  have hsub : s :: e.bindings.keys ⊆ e'.bindings.keys := cons_subset.2 ⟨hs, h.keys⟩
  have := hnd.length_le_of_subset hsub
  simp only [Bindings.keys, length_cons, length_map, hl] at this
  omega

theorem Keeps.within (ht : t.Within e.slots.length k) : t.Within e'.slots.length k := by
  rw [h.slots]; exact ht

theorem Keeps.waits (he : e.Valid k) (hl : e'.bindings.length = e.bindings.length)
    (hr : rule.Waits e.bindings) : rule.Waits e'.bindings := by
  -- the roots are not bound, for no slot is
  have stays : ∀ {s root : Slot}, e.bindings.head (.slot s) = .slot root →
      e'.bindings.head (.slot s) = .slot root := fun {s root} hs =>
    h.heads s root hs fun hk =>
      head_ne_bound he.ordered hs (h.bound_of_length he hl hk)
  cases rule with
  | same left right span =>
    obtain ⟨p, q, hp, hq, hne⟩ := hr
    exact ⟨p, q, stays hp, stays hq, hne⟩
  | call callee args returns span =>
    obtain ⟨p, hp⟩ := hr
    exact ⟨p, stays hp⟩

/-- In the strict mode a closed type is there to stay. -/
theorem Keeps.apply_closed (hs : e.strict = true) (ht : (e.bindings.apply t).Closed) :
    e'.bindings.apply t = e.bindings.apply t := by
  obtain ⟨more, hmore⟩ := h.grows hs
  rw [← hmore, apply_append, Bindings.apply_closed ht]

end

/-- What is added to the queue by a step that binds no slot has to wait. -/
structure Advances (k : Nat) (e e' : Engine) : Prop where
  keeps : Keeps k e e'
  queued : ∃ added, e'.rules = e.rules ++ added ∧
    (e'.bindings.length = e.bindings.length → ∀ rule ∈ added, rule.Waits e'.bindings)

theorem Advances.refl (he : e.Valid k) : Advances k e e :=
  ⟨.refl he, [], by simp, by simp⟩

theorem Advances.trans (he : e.Valid k) (h1 : Advances k e e1) (h2 : Advances k e1 e2) :
    Advances k e e2 := by
  have hl1 := h1.keeps.length_le he
  have hl2 := h2.keeps.length_le h1.keeps.valid
  obtain ⟨added1, hr1, hw1⟩ := h1.queued
  obtain ⟨added2, hr2, hw2⟩ := h2.queued
  refine ⟨h1.keeps.trans h2.keeps, added1 ++ added2, by rw [hr2, hr1, append_assoc],
    fun hl rule hrule => ?_⟩
  rcases mem_append.1 hrule with hm | hm
  · exact h2.keeps.waits h1.keeps.valid (by omega) (hw1 (by omega) rule hm)
  · exact hw2 (by omega) rule hm

theorem Keeps.setRules (he : e.Valid k) {rules : List Rule}
    (hw : ∀ rule ∈ rules, rule.Within e.slots.length k) : Keeps k e { e with rules := rules } :=
  ⟨⟨he.ordered, he.bound, he.types, hw⟩, rfl, rfl, fun _ hs => hs, fun _ => prefix_rfl,
    fun _ _ hs _ => hs⟩

theorem Keeps.addRule (he : e.Valid k) (hr : rule.Within e.slots.length k) :
    Keeps k e (e.addRule rule) :=
  .setRules he (forall_mem_append.2 ⟨he.rules, forall_mem_singleton.2 hr⟩)

theorem Advances.addRule (he : e.Valid k) (hr : rule.Within e.slots.length k)
    (hw : rule.Waits e.bindings) : Advances k e (e.addRule rule) where
  keeps := .addRule he hr
  queued := ⟨[rule], rfl, fun _ rule' hrule => by
    obtain rfl := mem_singleton.1 hrule; exact hw⟩

theorem Valid.bind (h : e.Valid k) (hs : s ∉ e.bindings.keys) (hi : s.index < e.slots.length)
    (ht : t.Within e.slots.length k) (hst : s ∉ t.slots) (hb : ∀ s' ∈ e.bindings.keys, s' ∉ t.slots) :
    Keeps k e { e with bindings := e.bindings.bind s t } where
  valid :=
    { ordered := h.ordered.snoc hs hb hst
      bound := by
        intro entry hentry
        rcases mem_append.1 hentry with hm | hm
        · exact h.bound _ hm
        · obtain rfl := mem_singleton.1 hm; exact hi
      types := by
        intro entry hentry
        rcases mem_append.1 hentry with hm | hm
        · exact h.types _ hm
        · obtain rfl := mem_singleton.1 hm; exact ht
      rules := h.rules }
  slots := rfl
  strict := rfl
  keys s' hs' := mem_keys_bind.2 (.inl hs')
  grows _ := prefix_append _ _
  heads s' root hr hroot := by
    have hne : root ≠ s := fun he => hroot (mem_keys_bind.2 (.inr he))
    show Bindings.head (e.bindings ++ [(s, t)]) _ = _
    rw [Bindings.head_append, hr, Bindings.head_cons, if_neg (by simpa using hne)]
    rfl

/-- Rules that are queued already stay as they are. -/
theorem Keeps.advances (h : Keeps k e e') (hr : e'.rules = e.rules) : Advances k e e' :=
  ⟨h, [], by simp [hr], by simp⟩

theorem length_bind (e : Engine) (s : Slot) (t : Ty) :
    ({ e with bindings := e.bindings.bind s t } : Engine).bindings.length =
      e.bindings.length + 1 := by
  simp [Bindings.bind]

theorem Valid.rebind (h : e.Valid k) (hlax : e.strict = false) (hs : s ∈ e.bindings.keys)
    (ht : t.Within e.slots.length k) (hhead : ∀ root, e.bindings.head (.slot s) ≠ .slot root)
    (hb : ∀ s' ∈ e.bindings.keys, s' ∉ t.slots) :
    Keeps k e { e with bindings := e.bindings.rebind s t } where
  valid :=
    { ordered := by
        refine (h.ordered.filter _).snoc (fun hm => ?_) (fun s' hs' => ?_) (hb s hs)
        · obtain ⟨u, hu⟩ := mem_keys.1 hm
          simp at hu
        · obtain ⟨u, hu⟩ := mem_keys.1 hs'
          exact hb s' (mem_keys.2 ⟨u, (mem_filter.1 hu).1⟩)
      bound := by
        intro entry hentry
        rcases mem_append.1 hentry with hm | hm
        · exact h.bound _ (mem_filter.1 hm).1
        · obtain rfl := mem_singleton.1 hm; exact h.index_lt hs
      types := by
        intro entry hentry
        rcases mem_append.1 hentry with hm | hm
        · exact h.types _ (mem_filter.1 hm).1
        · obtain rfl := mem_singleton.1 hm; exact ht
      rules := h.rules }
  slots := rfl
  strict := rfl
  keys s' hs' := (mem_keys_rebind hs).2 hs'
  grows hstrict := by rw [hlax] at hstrict; cases hstrict
  heads s' root hr hroot := by
    have hne : root ≠ s := fun he => hroot ((mem_keys_rebind hs).2 (he ▸ hs))
    show Bindings.head (filter (fun entry => entry.1 ≠ s) e.bindings ++ [(s, t)]) _ = _
    rw [Bindings.head_append, head_filter h.ordered (hhead root) hr, Bindings.head_cons,
      if_neg (by simpa using hne)]
    rfl

end Engine

/-! ## Steps -/

namespace EngineM

variable {α : Type} {e : Engine} {s : Slot}

theorem get_run (e : Engine) : (get : EngineM Engine).run e = .ok (e, e) := rfl

theorem modify_run (f : Engine → Engine) (e : Engine) :
    (modify f : EngineM Unit).run e = .ok ((), f e) := rfl

theorem run_ask {q : Engine → Except Fault α} {a : α} (h : q e = .ok a) :
    (ask q).run e = .ok (a, e) := by
  rw [ask, run_bind (get_run e), h]
  rfl

theorem bind_run (h : s.index < e.slots.length) (t : Ty) :
    (EngineM.bind s t).run e = .ok ((), { e with bindings := e.bindings.bind s t }) :=
  (run_bind (run_ask (info_eq h))).trans rfl

theorem rebind_run (h : s.index < e.slots.length) (t : Ty) :
    (EngineM.rebind s t).run e = .ok ((), { e with bindings := e.bindings.rebind s t }) :=
  (run_bind (run_ask (info_eq h))).trans rfl

theorem markDiverging_run (h : s.index < e.slots.length) :
    (do set (← ask fun e => e.markDiverging s) : EngineM Unit).run e = .ok ((), { e with
      slots := e.slots.modify s.index fun info => { info with diverging := true } }) :=
  (run_bind (run_ask (markDiverging_eq h))).trans rfl

end EngineM

namespace InferM

variable {α β : Type} {e' : Engine} {err : InferError} {k : Nat} {t : Ty}

/-- The step meets no fault, and its outcome and the engine it leaves satisfy
    the postcondition. -/
def Yields (step : InferM α) (e : Engine) (Q : Except InferError α → Engine → Prop) : Prop :=
  ∃ r e', step.run e = .ok (r, e') ∧ Q r e'

theorem run_bind (x : InferM α) (f : α → InferM β) (e : Engine) :
    (x >>= f).run e = (x.run e >>= fun out =>
      match out.1 with
      | .ok a => (f a).run out.2
      | .error err => .ok (.error err, out.2)) := by
  show (x.run e >>= _) = _
  congr 1
  funext ⟨r, e'⟩
  cases r <;> rfl

theorem get_run (e : Engine) : (get : InferM Engine).run e = .ok (.ok e, e) := rfl

theorem run_bind_ok {x : InferM α} {f : α → InferM β} {a : α} (h : x.run e = .ok (.ok a, e')) :
    (x >>= f).run e = (f a).run e' := by
  rw [run_bind, h]
  rfl

theorem run_bind_error {x : InferM α} {f : α → InferM β} (h : x.run e = .ok (.error err, e')) :
    (x >>= f).run e = .ok (.error err, e') := by
  rw [run_bind, h]
  rfl

theorem run_lift {x : EngineM α} {a : α} (h : x.run e = .ok (a, e')) :
    (liftM x : InferM α).run e = .ok (.ok a, e') := by
  show (Functor.map Except.ok x : EngineM _) e = _
  simp only [Functor.map, StateT.map, show x e = .ok (a, e') from h]
  rfl

theorem run_ask {q : Engine → Except Fault α} {a : α} (h : q e = .ok a) :
    (liftM (EngineM.ask q) : InferM α).run e = .ok (.ok a, e) :=
  run_lift (EngineM.run_ask h)

theorem run_shallow (he : e.Valid k) (h : t.Within e.slots.length k) :
    (shallow t).run e = .ok (.ok (e.bindings.head t), e) :=
  run_ask (he.shallow h)

theorem run_resolve (he : e.Valid k) (h : t.Within e.slots.length k) :
    (resolve t).run e = .ok (.ok (e.bindings.apply t), e) :=
  run_ask (he.resolve h)

variable {e : Engine} {Q : Except InferError β → Engine → Prop}

theorem Yields.mono {step : InferM β} {Q' : Except InferError β → Engine → Prop}
    (h : Yields step e Q) (hQ : ∀ r e', Q r e' → Q' r e') : Yields step e Q' := by
  obtain ⟨r, e', hrun, hr⟩ := h
  exact ⟨r, e', hrun, hQ r e' hr⟩

theorem Yields.pure {b : β} (h : Q (.ok b) e) : Yields (pure b) e Q :=
  ⟨_, _, rfl, h⟩

theorem Yields.throw (h : Q (.error err) e) : Yields (MonadExcept.throw err) e Q :=
  ⟨_, _, rfl, h⟩

theorem Yields.after {x : InferM α} {f : α → InferM β} {a : α} (h : x.run e = .ok (.ok a, e'))
    (hf : Yields (f a) e' Q) : Yields (x >>= f) e Q := by
  obtain ⟨r, e2, hrun, hr⟩ := hf
  exact ⟨r, e2, (run_bind_ok h).trans hrun, hr⟩

theorem Yields.bind {x : InferM α} {f : α → InferM β} {P : Except InferError α → Engine → Prop}
    (hx : Yields x e P) (hok : ∀ a e', P (.ok a) e' → Yields (f a) e' Q)
    (herr : ∀ err e', P (.error err) e' → Q (.error err) e') : Yields (x >>= f) e Q := by
  obtain ⟨r, e1, hrun, hr⟩ := hx
  cases r with
  | ok a => exact .after hrun (hok a e1 hr)
  | error err => exact ⟨_, _, run_bind_error hrun, herr err e1 hr⟩

end InferM

end Semcheck
