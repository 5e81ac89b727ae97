/-
  The lax mode does what the strict mode does, as long as nothing fails.

  The two modes differ in one place: a bound slot whose type does not match what
  is found takes the found type in the lax mode.  But if the strict mode unifies
  two types then they matched before (`Engine.Matches`), and so the lax mode
  leaves the slot alone.

  A step is lenient if the lax mode comes to the same result and the same engine
  whenever the strict mode succeeds: `InferM.Lenient` for unification, where
  success is the absence of an error, and `EngineM.Lenient` for solving, where it
  is the absence of failures.  Nothing is assumed about the slots that types
  mention; whether the lax mode meets a fault is another question.
-/
import Semcheck.Proofs.Infer.Solve

namespace Semcheck

open Bindings Ty Rule List

/-! ## Modes -/

namespace Engine

variable {e e1 e2 : Engine} {t t' : Ty} {s : Slot}

/-- The engine in the lax mode. -/
def relaxed (e : Engine) : Engine :=
  { e with strict := false }

structure Firm (e : Engine) : Prop where
  strict : e.strict = true
  ordered : e.bindings.Ordered

/-- A later engine in the strict mode: nothing that is bound has changed. -/
structure Adds (e e' : Engine) : Prop where
  firm : e'.Firm
  bindings : e.bindings <+: e'.bindings

theorem Firm.adds (h : e.Firm) : e.Adds e :=
  ⟨h, prefix_rfl⟩

theorem Adds.trans (h1 : e.Adds e1) (h2 : e1.Adds e2) : e.Adds e2 :=
  ⟨h2.firm, h1.bindings.trans h2.bindings⟩

/-- The types match as far as they are known. -/
def Matches (e : Engine) (t t' : Ty) : Prop :=
  (e.bindings.apply t).isMatch (e.bindings.apply t') = true

theorem Adds.matches (h : e.Adds e1) (hm : e1.Matches t t') : e.Matches t t' := by
  obtain ⟨more, hmore⟩ := h.bindings
  rw [Matches, ← hmore, apply_append, apply_append, apply_eq_inst more, apply_eq_inst more] at hm
  exact isMatch_of_inst hm

theorem Firm.matches_head (h : e.Firm) (hm : e.Matches (e.bindings.head t) (e.bindings.head t')) :
    e.Matches t t' := by
  rwa [Matches, apply_head h.ordered, apply_head h.ordered] at hm

theorem matches_slot (hs : s ∉ e.bindings.keys) (t : Ty) : e.Matches (.slot s) t := by
  rw [Matches, apply_unbound hs]
  rfl

theorem matches_slot_right (hs : s ∉ e.bindings.keys) (t : Ty) : e.Matches t (.slot s) := by
  rw [Matches, apply_unbound hs]
  cases e.bindings.apply t <;> rfl

theorem matches_error (t : Ty) : e.Matches .error t := by
  rw [Matches, apply_error]
  rfl

theorem matches_error_right (t : Ty) : e.Matches t .error := by
  rw [Matches, apply_error]
  cases e.bindings.apply t <;> rfl

theorem shallow_eq {root : Ty} (h : e.shallow t = .ok root) : e.bindings.head t = root := by
  obtain ⟨-, -, h⟩ := bind_eq_ok.1 h
  obtain ⟨-, -, h⟩ := bind_eq_ok.1 h
  exact Except.ok.inj h

theorem resolve_eq {resolved : Ty} (h : e.resolve t = .ok resolved) :
    e.bindings.apply t = resolved := by
  obtain ⟨-, -, h⟩ := bind_eq_ok.1 h
  obtain ⟨-, -, h⟩ := bind_eq_ok.1 h
  exact Except.ok.inj h

end Engine

open Engine

/-! ## Lenient steps -/

namespace EngineM

variable {α β : Type} {e e' : Engine} {good : α → Prop} {good' : β → Prop}

theorem ask_eq_ok {question : Engine → Except Fault α} {a : α} :
    (ask question).run e = .ok (a, e') ↔ e' = e ∧ question e = .ok a := by
  constructor
  · intro hrun
    obtain ⟨a, ha, hrun⟩ := bind_eq_ok.1 (show (question e >>= fun a => .ok (a, e)) = _ from hrun)
    cases hrun
    exact ⟨rfl, ha⟩
  · rintro ⟨rfl, ha⟩
    exact run_ask ha

theorem eq_of_run_bind {s : Slot} {t : Ty} {u : Unit} (h : (EngineM.bind s t).run e = .ok (u, e')) :
    e' = { e with bindings := e.bindings.bind s t } := by
  obtain ⟨⟨info, e1⟩, hask, hmodify⟩ := bind_eq_ok.1 h
  obtain ⟨rfl, -⟩ := ask_eq_ok.1 hask
  cases hmodify
  rfl

/-- In the strict mode the step changes no binding; if it ends with a good result
    then the lax mode has the same result. -/
def Lenient (e : Engine) (step : EngineM α) (good : α → Prop) : Prop :=
  ∀ a e', step.run e = .ok (a, e') → e.Adds e' ∧
    (good a → ∀ out, step.run e.relaxed = .ok out → out = (a, e'.relaxed))

namespace Lenient

theorem pure (he : e.Firm) (a : α) : Lenient e (Pure.pure a) good := by
  intro a e' hrun
  cases hrun
  refine ⟨he.adds, ?_⟩
  rintro - out ⟨⟩
  rfl

theorem change {f : Engine → Engine} {good : Unit → Prop} (hadds : e.Adds (f e))
    (hmode : f e.relaxed = (f e).relaxed) : Lenient e (modify f) good := by
  intro a e' hrun
  cases hrun
  refine ⟨hadds, ?_⟩
  rintro - out ⟨⟩
  exact congrArg (Prod.mk ()) hmode

variable {question : Engine → Except Fault α} {f : α → EngineM β} {x : EngineM α}

/-- If the whole has a good result then so has the first step. -/
theorem bind (hx : Lenient e x good)
    (hf : ∀ a e1, x.run e = .ok (a, e1) → e.Adds e1 → Lenient e1 (f a) good')
    (hgood : ∀ a e1 b e2, (f a).run e1 = .ok (b, e2) → good' b → good a) :
    Lenient e (x >>= f) good' := by
  intro b e' hrun
  obtain ⟨⟨a, e1⟩, hrun1, hrun2⟩ := bind_eq_ok.1 hrun
  obtain ⟨hadds, hlax⟩ := hx a e1 hrun1
  obtain ⟨hadds', hlax'⟩ := hf a e1 hrun1 hadds b e' hrun2
  refine ⟨hadds.trans hadds', fun hb out hout => ?_⟩
  obtain ⟨out1, hout1, hout2⟩ := bind_eq_ok.1 hout
  rw [hlax (hgood a e1 b e' hrun2 hb) out1 hout1] at hout2
  exact hlax' hb out hout2

theorem seq (hx : Lenient e x fun _ => True)
    (hf : ∀ a e1, x.run e = .ok (a, e1) → e.Adds e1 → Lenient e1 (f a) good') :
    Lenient e (x >>= f) good' :=
  hx.bind hf fun _ _ _ _ _ _ => trivial

theorem look {f : Engine → EngineM β} (hmode : f e.relaxed = f e) (h : Lenient e (f e) good') :
    Lenient e (get >>= f) good' := by
  intro b e' hrun
  obtain ⟨hadds, hlax⟩ := h b e' hrun
  refine ⟨hadds, fun hb out hout => hlax hb out ?_⟩
  rw [← hmode]
  exact hout

theorem asking (he : e.Firm) (hmode : question e.relaxed = question e) :
    Lenient e (.ask question) good := by
  intro a e' hrun
  obtain ⟨rfl, ha⟩ := ask_eq_ok.1 hrun
  refine ⟨he.adds, fun _ out hout => ?_⟩
  rw [run_ask (hmode.trans ha)] at hout
  cases hout
  rfl

theorem ask (he : e.Firm) (hmode : question e.relaxed = question e)
    (hf : ∀ a, question e = .ok a → Lenient e (f a) good') :
    Lenient e (.ask question >>= f) good' := by
  refine (asking he hmode).seq fun a e' hrun _ => ?_
  obtain ⟨rfl, ha⟩ := ask_eq_ok.1 hrun
  exact hf a ha

theorem shallow (he : e.Firm) (t : Ty) {f : Ty → EngineM β}
    (hf : Lenient e (f (e.bindings.head t)) good') :
    Lenient e (.ask (fun e => e.shallow t) >>= f) good' :=
  ask he rfl fun _ hroot => shallow_eq hroot ▸ hf

theorem resolve (he : e.Firm) (t : Ty) {f : Ty → EngineM β}
    (hf : Lenient e (f (e.bindings.apply t)) good') :
    Lenient e (.ask (fun e => e.resolve t) >>= f) good' :=
  ask he rfl fun _ hresolved => resolve_eq hresolved ▸ hf

theorem bindSlot (he : e.Firm) {s : Slot} (hs : s ∉ e.bindings.keys) {t : Ty}
    (hbound : ∀ s' ∈ e.bindings.keys, s' ∉ t.slots) (ht : s ∉ t.slots) {good : Unit → Prop} :
    Lenient e (.bind s t) good := by
  refine ask he rfl fun info _ => change ⟨⟨he.strict, ?_⟩, prefix_append _ _⟩ ?_
  · exact he.ordered.snoc hs hbound ht
  · rfl

end Lenient

end EngineM

namespace InferM

variable {α β : Type} {e : Engine} {Q : α → Engine → Prop} {R : β → Engine → Prop}

theorem run_ask_bind {question : Engine → Except Fault α} {f : α → InferM β}
    {out : Except InferError β × Engine}
    (h : (liftM (EngineM.ask question) >>= f).run e = .ok out) :
    ∃ a, question e = .ok a ∧ (f a).run e = .ok out := by
  cases hq : question e with
  | error fault =>
    change ((question e >>= fun a => .ok (a, e)) >>= _) >>= _ = _ at h
    rw [hq] at h
    cases h
  | ok a =>
    rw [run_bind_ok (run_ask hq)] at h
    exact ⟨a, rfl, h⟩

/-- In the strict mode the step changes no binding, and a result satisfies the
    postcondition; the lax mode then has the same result. -/
def Lenient (e : Engine) (step : InferM α) (Q : α → Engine → Prop) : Prop :=
  ∀ r e', step.run e = .ok (r, e') → e.Adds e' ∧ ∀ a, r = .ok a →
    Q a e' ∧ ∀ out, step.run e.relaxed = .ok out → out = (.ok a, e'.relaxed)

namespace Lenient

theorem mono {step : InferM α} {Q' : α → Engine → Prop} (h : Lenient e step Q')
    (hQ : ∀ a e', Q' a e' → Q a e') : Lenient e step Q := by
  intro r e' hrun
  obtain ⟨hadds, hres⟩ := h r e' hrun
  refine ⟨hadds, fun a ha => ?_⟩
  exact ⟨hQ a e' (hres a ha).1, (hres a ha).2⟩

theorem pure (he : e.Firm) {a : α} (h : Q a e) : Lenient e (Pure.pure a) Q := by
  intro r e' hrun
  cases hrun
  refine ⟨he.adds, ?_⟩
  rintro a ⟨⟩
  refine ⟨h, ?_⟩
  rintro out ⟨⟩
  rfl

theorem throw (he : e.Firm) (err : InferError) :
    Lenient e (MonadExcept.throw err : InferM α) Q := by
  intro r e' hrun
  cases hrun
  refine ⟨he.adds, ?_⟩
  rintro a ⟨⟩

theorem change {f : Engine → Engine} (hadds : e.Adds (f e))
    (hmode : f e.relaxed = (f e).relaxed) {Q : Unit → Engine → Prop} (hQ : Q () (f e)) :
    Lenient e (modify f) Q := by
  intro r e' hrun
  cases hrun
  refine ⟨hadds, ?_⟩
  rintro a ⟨⟩
  refine ⟨hQ, ?_⟩
  rintro out ⟨⟩
  rw [hmode]

theorem bind {x : InferM α} {f : α → InferM β} (hx : Lenient e x Q)
    (hf : ∀ a e1, e.Adds e1 → Q a e1 → Lenient e1 (f a) R) : Lenient e (x >>= f) R := by
  intro r e' hrun
  rw [run_bind] at hrun
  obtain ⟨⟨r1, e1⟩, hrun1, hrun⟩ := bind_eq_ok.1 hrun
  obtain ⟨hadds, hres⟩ := hx r1 e1 hrun1
  cases r1 with
  | error err =>
    cases hrun
    refine ⟨hadds, ?_⟩
    rintro b ⟨⟩
  | ok a =>
    obtain ⟨ha, hlax⟩ := hres a rfl
    obtain ⟨hadds', hres'⟩ := hf a e1 hadds ha r e' hrun
    refine ⟨hadds.trans hadds', fun b hb => ⟨(hres' b hb).1, fun out hout => ?_⟩⟩
    rw [run_bind] at hout
    obtain ⟨out1, hout1, hout⟩ := bind_eq_ok.1 hout
    rw [hlax out1 hout1] at hout
    exact (hres' b hb).2 out hout

theorem look {f : Engine → InferM β} (hmode : f e.relaxed = f e) (h : Lenient e (f e) R) :
    Lenient e (get >>= f) R := by
  have hget : ∀ e, (get : InferM Engine).run e = .ok (.ok e, e) := fun _ => rfl
  intro r e' hrun
  rw [run_bind_ok (hget e)] at hrun
  obtain ⟨hadds, hres⟩ := h r e' hrun
  refine ⟨hadds, fun b hb => ⟨(hres b hb).1, fun out hout => (hres b hb).2 out ?_⟩⟩
  rwa [run_bind_ok (hget _), hmode] at hout

theorem lift {x : EngineM α} (hx : EngineM.Lenient e x fun _ => True)
    (hQ : ∀ a e', x.run e = .ok (a, e') → Q a e') : Lenient e (liftM x) Q := by
  intro r e' hrun
  have hlift : ∀ e, (liftM x : InferM α).run e =
      x.run e >>= fun out => .ok (.ok out.1, out.2) := fun _ => rfl
  rw [hlift] at hrun
  obtain ⟨⟨a, e1⟩, hrun1, hrun⟩ := bind_eq_ok.1 hrun
  cases hrun
  obtain ⟨hadds, hlax⟩ := hx a e1 hrun1
  refine ⟨hadds, ?_⟩
  rintro a ⟨⟩
  refine ⟨hQ a e1 hrun1, fun out hout => ?_⟩
  rw [hlift] at hout
  obtain ⟨out1, hout1, hout⟩ := bind_eq_ok.1 hout
  cases hout
  rw [hlax trivial out1 hout1]

theorem ask (he : e.Firm) {question : Engine → Except Fault α} {f : α → InferM β}
    (hmode : question e.relaxed = question e)
    (hf : ∀ a, question e = .ok a → Lenient e (f a) R) :
    Lenient e (liftM (EngineM.ask question) >>= f) R := by
  refine (lift (EngineM.Lenient.asking he hmode) fun _ _ hrun => EngineM.ask_eq_ok.1 hrun).bind ?_
  rintro a e1 hadds ⟨rfl, ha⟩
  exact hf a ha

theorem shallow (he : e.Firm) (t : Ty) {f : Ty → InferM β}
    (hf : Lenient e (f (e.bindings.head t)) R) : Lenient e (shallow t >>= f) R :=
  ask he rfl fun _ hroot => shallow_eq hroot ▸ hf

theorem resolve (he : e.Firm) (t : Ty) {f : Ty → InferM β}
    (hf : Lenient e (f (e.bindings.apply t)) R) : Lenient e (resolve t >>= f) R :=
  ask he rfl fun _ hresolved => resolve_eq hresolved ▸ hf

theorem mismatch (he : e.Firm) (t t' : Ty) : Lenient e (mismatch t t' : InferM α) Q :=
  resolve he t (resolve he t' (throw he _))

theorem orMismatch {step : InferM Unit} {Q : Unit → Engine → Prop} (h : Lenient e step Q)
    (t t' : Ty) : Lenient e (orMismatch step t t') Q := by
  intro r e' hrun
  rw [run_orMismatch] at hrun
  obtain ⟨⟨r1, e1⟩, hrun1, hrun⟩ := bind_eq_ok.1 hrun
  obtain ⟨hadds, hres⟩ := h r1 e1 hrun1
  cases r1 with
  | error err =>
    have hfail : Lenient e1 (.mismatch t t' : InferM Unit) fun _ _ => False :=
      mismatch hadds.firm t t'
    obtain ⟨hadds', hres'⟩ := hfail r e' hrun
    exact ⟨hadds.trans hadds', fun a ha => (hres' a ha).1.elim⟩
  | ok u =>
    cases hrun
    obtain ⟨hQ, hlax⟩ := hres () rfl
    refine ⟨hadds, ?_⟩
    rintro a ⟨⟩
    refine ⟨hQ, fun out hout => ?_⟩
    rw [run_orMismatch] at hout
    obtain ⟨out1, hout1, hout⟩ := bind_eq_ok.1 hout
    rw [hlax out1 hout1] at hout
    cases hout
    rfl

end Lenient

end InferM

/-! ## Unification -/

section Unify

open InferM

variable {e : Engine} {expected found : Ty} {Q : Unit → Engine → Prop} {s : Slot} {ts ts' : List Ty}

theorem bindSlot_lenient (he : e.Firm) (hs : s ∉ e.bindings.keys) (t : Ty) (hQ : ∀ e', Q () e') :
    Lenient e (bindSlot s t) Q := by
  refine .resolve he t ?_
  by_cases hc : s ∈ (e.bindings.apply t).slots
  · rw [if_pos (containsSlot_iff.2 hc)]
    exact .throw he _
  · rw [if_neg (mt containsSlot_iff.1 hc)]
    refine .lift (.bindSlot he hs (fun s' hs' => ?_) hc) fun _ e' _ => hQ e'
    exact not_mem_slots_apply he.ordered hs' t

theorem sameSlots_lenient (he : e.Firm) (left right : Slot) (hQ : ∀ e', Q () e') :
    Lenient e (sameSlots left right) Q := by
  rw [sameSlots]
  split
  · refine .ask he rfl fun span _ => .change ⟨⟨he.strict, he.ordered⟩, prefix_rfl⟩ ?_ (hQ _)
    rfl
  · exact .pure he (hQ _)

theorem sameLength_lenient (he : e.Firm) (ts ts' : List Ty) :
    Lenient e (sameLength ts ts') fun _ e' => e' = e ∧ ts.length = ts'.length := by
  rw [sameLength]
  split
  · exact .throw he _
  · rename_i h
    exact .pure he ⟨rfl, not_not.1 h⟩

theorem overwrite_strict (he : e.strict = true) (s : Slot) (found : Ty) :
    (overwrite s found).run e = .ok (.ok false, e) := by
  rw [overwrite, run_bind_ok (InferM.get_run e), if_pos he]
  rfl

/-- In the lax mode no slot takes another type if the types match. -/
theorem overwrite_matched (hm : e.Matches (.slot s) found) {out : Except InferError Bool × Engine}
    (h : (overwrite s found).run e.relaxed = .ok out) : out = (.ok false, e.relaxed) := by
  have hlax : ¬ e.relaxed.strict = true := by simp [relaxed]
  rw [overwrite, run_bind_ok (InferM.get_run e.relaxed), if_neg hlax] at h
  obtain ⟨bound, -, h⟩ := run_ask_bind h
  split at h
  · cases h
    rfl
  obtain ⟨current, hcurrent, h⟩ := run_ask_bind h
  obtain ⟨incoming, hincoming, h⟩ := run_ask_bind h
  have hmatch : current.isMatch incoming = true := by
    rw [← resolve_eq hcurrent, ← resolve_eq hincoming]
    exact hm
  rw [hmatch, Bool.true_or, if_pos rfl] at h
  cases h
  rfl

/-- Types that the strict mode unifies matched before, so that the lax mode leaves
    the slot alone. -/
theorem overwrite_lenient {α : Type} (he : e.Firm) {f : Bool → InferM α}
    (h : Lenient e (f false) fun _ _ => e.Matches (.slot s) found) :
    Lenient e (overwrite s found >>= f) fun _ _ => e.Matches (.slot s) found := by
  intro r e' hrun
  rw [run_bind_ok (overwrite_strict he.strict s found)] at hrun
  obtain ⟨hadds, hres⟩ := h r e' hrun
  refine ⟨hadds, fun a ha => ?_⟩
  obtain ⟨hm, hlax⟩ := hres a ha
  refine ⟨hm, fun out hout => ?_⟩
  rw [InferM.run_bind] at hout
  obtain ⟨out1, hout1, hout⟩ := bind_eq_ok.1 hout
  rw [overwrite_matched hm hout1] at hout
  exact hlax out hout

variable {deeper : Ty → Ty → InferM Unit}

theorem unifySlot_lenient (he : e.Firm) (s : Slot) (found : Ty)
    (hd : ∀ e t t', e.Firm → Lenient e (deeper t t') fun _ _ => e.Matches t t') :
    Lenient e (unifyWith deeper (.slot s) found) fun _ _ => e.Matches (.slot s) found := by
  rw [unifyWith]
  refine overwrite_lenient he ?_
  rw [if_neg (by simp)]
  refine .shallow he _ (.shallow he _ ?_)
  split
  · rename_i left right hx hf
    refine sameSlots_lenient he left right fun _ => he.matches_head ?_
    rw [hx]
    exact matches_slot (head_ne_bound he.ordered hx) _
  · rename_i left hx hf
    have hleft := head_ne_bound he.ordered hx
    refine bindSlot_lenient he hleft _ fun _ => he.matches_head ?_
    rw [hx]
    exact matches_slot hleft _
  · rename_i right hf hx
    have hright := head_ne_bound he.ordered hf
    refine bindSlot_lenient he hright _ fun _ => he.matches_head ?_
    rw [hf]
    exact matches_slot_right hright _
  · exact (hd e _ _ he).mono fun _ _ hm => he.matches_head hm

theorem unifyEachWith_lenient (ih : ∀ t ∈ ts, ∀ e found, e.Firm →
      Lenient e (unifyWith deeper t found) fun _ _ => e.Matches t found)
    (hl : ts.length = ts'.length) (he : e.Firm) :
    Lenient e (unifyEachWith deeper ts ts') fun _ _ => e.Matches (.tuple ts) (.tuple ts') := by
  induction ts generalizing ts' e with
  | nil =>
    obtain rfl := length_eq_zero_iff.1 hl.symm
    rw [unifyEachWith]
    · refine .pure he ?_
      simp [Matches, isMatch, allMatch]
    · simp
  | cons t ts ihs =>
    cases ts' with
    | nil => cases hl
    | cons t' ts' =>
      rw [forall_mem_cons] at ih
      rw [unifyEachWith]
      refine (ih.1 e t' he).bind fun _ e1 hadds hm => ?_
      refine (ihs ih.2 (by simpa using hl) hadds.firm).mono fun _ _ hms => ?_
      have hms := hadds.matches hms
      simp only [Matches, apply_tuple, map_cons, isMatch, allMatch, Bool.and_eq_true] at hm hms ⊢
      exact ⟨hm, hms⟩

theorem unifyLists_lenient (ih : ∀ t ∈ ts, ∀ e found, e.Firm →
      Lenient e (unifyWith deeper t found) fun _ _ => e.Matches t found) (he : e.Firm) :
    Lenient e (do sameLength ts ts'; unifyEachWith deeper ts ts')
      fun _ _ => e.Matches (.tuple ts) (.tuple ts') := by
  refine (sameLength_lenient he ts ts').bind ?_
  rintro - e1 - ⟨rfl, hl⟩
  exact unifyEachWith_lenient ih hl he

/-- It is the head of the found type that counts. -/
theorem atHead_lenient (he : e.Firm) {f : Ty → InferM Unit}
    (h : ∀ found', (∀ root, found' = .slot root → root ∉ e.bindings.keys) →
      Lenient e (f found') fun _ _ => e.Matches expected found') :
    Lenient e (shallow found >>= f) fun _ _ => e.Matches expected found := by
  refine .shallow he _ ((h _ fun root hroot => ?_).mono fun _ _ hm => ?_)
  · exact head_ne_bound he.ordered hroot
  · rwa [Matches, apply_head he.ordered] at hm

theorem bindFound_lenient (he : e.Firm) {root : Slot} (hroot : root ∉ e.bindings.keys) :
    Lenient e (bindSlot root expected) fun _ _ => e.Matches expected (.slot root) :=
  bindSlot_lenient he hroot _ fun _ => matches_slot_right hroot _

theorem ignoreError_lenient (he : e.Firm) :
    Lenient e (pure ()) fun _ _ => e.Matches expected .error :=
  .pure he (matches_error_right _)

/-- What the strict mode unifies matched before, and the lax mode does the same. -/
theorem unifyWith_lenient
    (hd : ∀ e t t', e.Firm → Lenient e (deeper t t') fun _ _ => e.Matches t t') (expected : Ty) :
    ∀ e found, e.Firm →
      Lenient e (unifyWith deeper expected found) fun _ _ => e.Matches expected found := by
  induction expected using Ty.induct with
  | slot s => exact fun e found he => unifySlot_lenient he s found hd
  | error =>
    intro e found he
    rw [unifyWith]
    refine atHead_lenient he fun found' hroot => ?_
    cases found' with
    | slot root => exact bindFound_lenient he (hroot root rfl)
    | _ => exact .pure he (matches_error _)
  | pointer m t ih =>
    intro e found he
    rw [unifyWith]
    refine atHead_lenient he fun found' hroot => ?_
    cases found' with
    | slot root => exact bindFound_lenient he (hroot root rfl)
    | error => exact ignoreError_lenient he
    | pointer m' t' =>
      dsimp only
      by_cases hm : m = m'
      · subst hm
        rw [if_neg (by simp)]
        refine .orMismatch ((ih e t' he).mono fun _ _ hm => ?_) _ _
        simpa [Matches, isMatch] using hm
      · rw [if_pos hm]
        exact .mismatch he _ _
    | _ => exact .mismatch he _ _
  | struct id =>
    intro e found he
    rw [unifyWith]
    refine atHead_lenient he fun found' hroot => ?_
    cases found' with
    | slot root => exact bindFound_lenient he (hroot root rfl)
    | error => exact ignoreError_lenient he
    | struct id' =>
      dsimp only
      by_cases hid : id = id'
      · subst hid
        rw [if_neg (by simp)]
        exact .pure he (by simp [Matches, isMatch])
      · rw [if_pos hid]
        exact .mismatch he _ _
    | _ => exact .mismatch he _ _
  | funct ps r ihs ih =>
    intro e found he
    rw [unifyWith]
    refine atHead_lenient he fun found' hroot => ?_
    cases found' with
    | slot root => exact bindFound_lenient he (hroot root rfl)
    | error => exact ignoreError_lenient he
    | funct ps' r' =>
      refine (Lenient.orMismatch (unifyLists_lenient ihs he) _ _).bind fun _ e1 hadds hms => ?_
      refine .orMismatch ((ih e1 r' hadds.firm).mono fun _ _ hm => ?_) _ _
      have hm := hadds.matches hm
      simp only [Matches, apply_tuple, apply_funct, isMatch, Bool.and_eq_true] at hm hms ⊢
      exact ⟨hm, hms⟩
    | functAny r' =>
      refine .orMismatch ((ih e r' he).mono fun _ _ hm => ?_) _ _
      simpa [Matches, isMatch] using hm
    | _ => exact .mismatch he _ _
  | functAny r ih =>
    intro e found he
    rw [unifyWith]
    refine atHead_lenient he fun found' hroot => ?_
    cases found' with
    | slot root => exact bindFound_lenient he (hroot root rfl)
    | error => exact ignoreError_lenient he
    | funct ps' r' | functAny r' =>
      refine .orMismatch ((ih e r' he).mono fun _ _ hm => ?_) _ _
      simpa [Matches, isMatch] using hm
    | _ => exact .mismatch he _ _
  | tuple ts ihs =>
    intro e found he
    rw [unifyWith]
    refine atHead_lenient he fun found' hroot => ?_
    cases found' with
    | slot root => exact bindFound_lenient he (hroot root rfl)
    | error => exact ignoreError_lenient he
    | tuple ts' => exact .orMismatch (unifyLists_lenient ihs he) _ _
    | _ => exact .mismatch he _ _

theorem unifyWithin_lenient (budget : Nat) : ∀ e t t', e.Firm →
    Lenient e (unifyWithin budget t t') fun _ _ => e.Matches t t' := by
  induction budget with
  | zero =>
    intro e t t' he r e' hrun
    cases hrun
  | succ budget ih =>
    intro e t t' he
    exact unifyWith_lenient ih t e t' he

/-- **What the strict mode unifies, the lax mode unifies in the same way.** -/
theorem unify_lenient (he : e.Firm) (expected found : Ty) :
    Lenient e (unify expected found) fun _ _ => e.Matches expected found :=
  .look rfl (unifyWithin_lenient _ e expected found he)

end Unify

/-! ## Solving -/

section Solve

variable {α : Type} {e : Engine} {good : α → Prop} {Q : α → Engine → Prop} {k : Nat}

theorem InferM.Lenient.run {step : InferM α} (h : InferM.Lenient e step Q) :
    EngineM.Lenient e step.run fun r => ∃ a, r = .ok a := by
  intro r e' hrun
  obtain ⟨hadds, hres⟩ := h r e' hrun
  refine ⟨hadds, ?_⟩
  rintro ⟨a, rfl⟩
  exact (hres a rfl).2

open EngineM

theorem poison_lenient (he : e.Firm) (s : Slot) {good : Unit → Prop} :
    Lenient e (poison s) good := by
  rw [poison]
  refine .shallow he _ ?_
  split
  · rename_i root hroot
    refine .bindSlot he (head_ne_bound he.ordered hroot) ?_ ?_
    · simp [mem_slots]
    · simp [mem_slots]
  · exact .pure he _

namespace Rule

theorem unifyArgs_lenient (he : e.Firm) (params args : List Ty) :
    InferM.Lenient e (unifyArgs params args) fun _ _ => True := by
  induction params generalizing e args with
  | nil => exact .pure he trivial
  | cons param params ih =>
    cases args with
    | nil => exact .pure he trivial
    | cons arg args =>
      rw [unifyArgs]
      refine (unify_lenient he param arg).bind fun _ e1 hadds _ => ?_
      exact ih hadds.firm args

theorem settles_lenient {step : InferM Unit} {Q : Unit → Engine → Prop}
    (h : InferM.Lenient e step Q) : InferM.Lenient e (do step; return true) fun _ _ => True :=
  h.bind fun _ _ hadds _ => .pure hadds.firm trivial

theorem apply_lenient (he : e.Firm) (rule : Rule) :
    InferM.Lenient e rule.apply fun _ _ => True := by
  cases rule with
  | same left right span =>
    rw [apply]
    refine .shallow he _ (.shallow he _ ?_)
    split
    · exact .pure he trivial
    · exact settles_lenient (unify_lenient he _ _)
  | call callee args returns span =>
    rw [apply]
    refine .shallow he _ ?_
    split
    · exact .pure he trivial
    · exact settles_lenient (.lift (poison_lenient he returns) fun _ _ _ => trivial)
    · rename_i params result hroot
      split
      · exact .bind (Q := fun _ _ => False) (.throw he _) fun _ _ _ h => h.elim
      · refine (unifyArgs_lenient he params args).bind fun _ e1 hadds _ => ?_
        exact settles_lenient (unify_lenient hadds.firm _ result)
    · exact settles_lenient (unify_lenient he _ _)
    · exact .resolve he _ (.throw he _)

/-- A failure shows. -/
theorem attempt_lenient (he : e.Firm) (rule : Rule) :
    Lenient e rule.attempt fun out => out.2 = [] := by
  rw [attempt]
  refine (apply_lenient he rule).run.bind (fun r e1 _ hadds => ?_) fun r e1 out e2 hrun hout => ?_
  · cases r with
    | ok done =>
      cases done with
      | true => exact .pure hadds.firm _
      | false =>
        have hrule : Lenient e1 (modify fun e => e.addRule rule) fun _ => True := by
          refine .change ⟨⟨hadds.firm.strict, hadds.firm.ordered⟩, prefix_rfl⟩ ?_
          rfl
        exact hrule.seq fun _ e2 _ hadds2 => .pure hadds2.firm _
    | error err =>
      cases rule with
      | same left right span => exact .pure hadds.firm _
      | call callee args returns span =>
        refine (poison_lenient hadds.firm returns).seq fun _ e2 _ hadds2 => ?_
        exact .pure hadds2.firm _
  · cases r with
    | ok done => exact ⟨done, rfl⟩
    | error err =>
      exfalso
      cases rule with
      | same left right span =>
        cases hrun
        cases hout
      | call callee args returns span =>
        obtain ⟨_, _, hrun⟩ := bind_eq_ok.1 hrun
        cases hrun
        cases hout

theorem sweep_lenient (he : e.Firm) (rules : List Rule) :
    Lenient e (sweep rules) fun out => out.2 = [] := by
  induction rules generalizing e with
  | nil => exact .pure he _
  | cons rule rules ih =>
    rw [sweep]
    refine (attempt_lenient he rule).bind (fun out1 e1 _ hadds1 => ?_)
      fun out1 e1 out e' hrun hout => ?_
    · refine (ih hadds1.firm).bind (fun out2 e2 _ hadds2 => .pure hadds2.firm _)
        fun out2 e2 out e' hrun hout => ?_
      cases hrun
      exact (append_eq_nil_iff.1 hout).2
    · obtain ⟨_, _, hrun⟩ := bind_eq_ok.1 hrun
      cases hrun
      exact (append_eq_nil_iff.1 hout).1

section Append

variable {failures : List Failure} {step : EngineM (List Failure)}

theorem append_lenient (h : Lenient e step fun more => more = []) :
    Lenient e (do return failures ++ (← step)) fun all => all = [] := by
  refine h.bind (fun more e1 _ hadds => .pure hadds.firm _) fun more e1 all e' hrun hall => ?_
  cases hrun
  exact (append_eq_nil_iff.1 hall).2

theorem eq_nil_of_append {all : List Failure} {e' : Engine}
    (hrun : (do return failures ++ (← step) : EngineM (List Failure)).run e = .ok (all, e'))
    (hall : all = []) : failures = [] := by
  obtain ⟨_, _, hrun⟩ := bind_eq_ok.1 hrun
  cases hrun
  exact (append_eq_nil_iff.1 hall).1

end Append

theorem setRules_lenient (he : e.Firm) (rules : List Rule) :
    Lenient e (modify fun e => { e with rules := rules }) fun _ => True := by
  refine .change ⟨⟨he.strict, he.ordered⟩, prefix_rfl⟩ ?_
  rfl

theorem sweepsWithin_lenient (he : e.Firm) (budget : Nat) :
    Lenient e (sweepsWithin budget) fun failures => failures = [] := by
  induction budget generalizing e with
  | zero =>
    intro a e' hrun
    cases hrun
  | succ budget ih =>
    refine .look rfl ?_
    refine (setRules_lenient he []).seq fun _ e1 _ hadds1 => ?_
    refine (sweep_lenient hadds1.firm e.rules).bind (fun out e2 _ hadds2 => ?_)
      fun out e2 failures e' hrun hnone => ?_
    · obtain ⟨progressed, failures⟩ := out
      cases progressed with
      | false => exact .pure hadds2.firm _
      | true => exact append_lenient (ih hadds2.firm)
    · obtain ⟨progressed, failures⟩ := out
      cases progressed with
      | false =>
        cases hrun
        exact hnone
      | true => exact eq_nil_of_append hrun hnone

theorem settle_lenient (he : e.Firm) {rules : List Rule}
    (hwait : ∀ rule ∈ rules, rule.Waits e.bindings) : Lenient e (settle rules) fun _ => True := by
  -- whatever was bound, the rules that remain are set
  have hset : ∀ {e1 : Engine} (left : List Rule), e1.Firm → Lenient e1 (do
      modify fun e => { e with rules := left }
      return true) fun _ => True := by
    intro e1 left he1
    exact (setRules_lenient he1 left).seq fun _ e2 _ hadds => .pure hadds.firm _
  induction rules with
  | nil => exact (setRules_lenient he []).seq fun _ e1 _ hadds => .pure hadds.firm _
  | cons rule rules ih =>
    rw [forall_mem_cons] at hwait
    have ih := ih hwait.2
    cases rule with
    | same left right span =>
      obtain ⟨p, q, hp, hq, hne⟩ := hwait.1
      have hq' := head_ne_bound he.ordered hq
      rw [settle]
      refine .shallow he _ (.shallow he _ ?_)
      simp only [hp, hq, Ty.slot.injEq, hne.symm, if_false]
      have hbind : Lenient e (.bind p (.slot q)) fun _ => True := by
        refine .bindSlot he (head_ne_bound he.ordered hp) (fun s hs hmem => ?_) ?_
        · cases mem_parts_slot.1 (mem_slots.1 hmem)
          exact hq' hs
        · simpa [mem_slots] using hne
      exact hbind.seq fun _ e1 _ hadds => hset rules hadds.firm
    | call callee args returns span =>
      obtain ⟨p, hp⟩ := hwait.1
      rw [settle]
      refine .shallow he _ ?_
      simp only [hp]
      refine .resolve he _ ?_
      split
      · exact ih
      · rename_i hc
        have hbind : Lenient e (.bind p (e.bindings.apply (.funct args (.slot returns))))
            fun _ => True := by
          refine .bindSlot he (head_ne_bound he.ordered hp) (fun s hs => ?_) ?_
          · exact not_mem_slots_apply he.ordered hs _
          · exact mt containsSlot_iff.2 hc
        exact hbind.seq fun _ e1 _ hadds => hset _ hadds.firm

end Rule

theorem bindEach_lenient (he : e.Firm) {ss : List Slot} (hnd : ss.Nodup)
    (hs : ∀ s ∈ ss, s ∉ e.bindings.keys) :
    Lenient e (ss.forM fun s => .bind s Ty.unit) fun _ => True := by
  induction ss generalizing e with
  | nil => exact .pure he _
  | cons s ss ih =>
    rw [nodup_cons] at hnd
    rw [forall_mem_cons] at hs
    have hbind : Lenient e (.bind s Ty.unit) fun _ => True := by
      refine .bindSlot he hs.1 ?_ ?_
      · simp [Ty.unit, mem_slots]
      · simp [Ty.unit, mem_slots]
    refine hbind.seq fun _ e1 hrun hadds => ih hadds.firm hnd.2 fun s' hs' hmem => ?_
    rw [eq_of_run_bind hrun] at hmem
    rcases mem_keys_bind.1 hmem with hmem | rfl
    · exact hs.2 s' hs' hmem
    · exact hnd.1 hs'

theorem defaultDiverging_lenient (he : e.Firm) : Lenient e defaultDiverging fun _ => True := by
  have heach := bindEach_lenient he e.nodup_divergingSlots fun s hs => (mem_divergingSlots hs).2
  exact .look rfl (heach.seq fun _ e1 _ hadds => .pure hadds.firm _)

theorem EngineM.Yields.of_run {step : EngineM α} {a : α} {e' : Engine} (h : Yields step e Q)
    (hrun : step.run e = .ok (a, e')) : Q a e' := by
  obtain ⟨a', e1, hrun', hQ⟩ := h
  rw [hrun] at hrun'
  cases hrun'
  exact hQ

theorem solveWithin_lenient (he : e.Valid k) (hs : e.strict = true) (budget : Nat) :
    Lenient e (solveWithin budget) fun failures => failures = [] := by
  induction budget generalizing e with
  | zero =>
    intro a e' hrun
    cases hrun
  | succ budget ih =>
    have hfirm : e.Firm := ⟨hs, he.ordered⟩
    -- what follows a step that binds slots
    have again : ∀ {failures e2}, Solving k e failures e2 →
        Lenient e2 (do return failures ++ (← solveWithin budget)) fun all => all = [] := by
      intro failures e2 hsolving
      exact append_lenient (ih hsolving.keeps.valid (hsolving.keeps.strict.trans hs))
    have hshow : ∀ failures e1 all e', (do
        if ← Rule.settle (← get).rules then return failures ++ (← solveWithin budget)
        if ← defaultDiverging then return failures ++ (← solveWithin budget)
        return failures : EngineM (List Failure)).run e1 = .ok (all, e') → all = [] →
        failures = [] := by
      intro failures e1 all e' hrun hall
      obtain ⟨⟨settled, e2⟩, -, hrun⟩ := bind_eq_ok.1
        (show (Rule.settle e1.rules).run e1 >>= _ = _ from hrun)
      cases settled with
      | true => exact eq_nil_of_append hrun hall
      | false =>
        obtain ⟨⟨bound, e3⟩, -, hrun⟩ := bind_eq_ok.1
          (show defaultDiverging.run e2 >>= _ = _ from hrun)
        cases bound with
        | true => exact eq_nil_of_append hrun hall
        | false =>
          cases hrun
          exact hall
    rw [solveWithin]
    refine .look rfl ((sweepsWithin_lenient hfirm _).bind (fun failures e1 hrun hadds => ?_) hshow)
    obtain ⟨hs1, hw1⟩ := (sweepsWithin_spec he (.inl (by simp only [free]; omega))).of_run hrun
    have hk1 := hs1.keeps
    refine .look rfl ((settle_lenient hadds.firm hw1).seq fun settled e2 hrun2 hadds2 => ?_)
    obtain ⟨hs2, -⟩ := (settle_spec hk1.valid hk1.valid.rules hw1).of_run hrun2
    have hs2 : Solving k e failures e2 := append_nil failures ▸ hs1.trans hs2
    cases settled with
    | true => exact again hs2
    | false =>
      refine (defaultDiverging_lenient hadds2.firm).seq fun bound e3 hrun3 hadds3 => ?_
      obtain ⟨hs3, -⟩ := (defaultDiverging_spec hs2.keeps.valid).of_run hrun3
      have hs3 : Solving k e failures e3 := append_nil failures ▸ hs2.trans hs3
      cases bound with
      | true => exact again hs3
      | false => exact .pure hadds3.firm _

/-- **Where the strict mode solves all rules, the lax mode solves them in the same way.** -/
theorem solve_lenient (he : e.Valid k) (hs : e.strict = true) :
    Lenient e solve fun failures => failures = [] := by
  refine .look rfl ?_
  exact solveWithin_lenient he hs _

end Solve

end Semcheck
