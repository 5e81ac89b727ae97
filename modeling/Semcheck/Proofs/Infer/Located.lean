/-
  Where slots and rules come from.

  A step keeps a property of the state (`Preserves`) if it never leaves a state without it;
  it ensures a property of its result (`Ensures`) if besides the result has it.

  Unification binds slots and queues rules that two slots are the same.  A property of the
  engine that both keep is kept by unification (`Engine.Stable`, `unify_maintains`).

  The engine remembers a location with every slot and every rule.  They stay in a set of
  locations (`Engine.Located`): a rule is queued where one of its slots came from, and a
  failure of solving is where a rule was (`solve_located`).
-/
import Semcheck.Proofs.Infer.Engine
import Semcheck.Proofs.Infer.Paired

namespace Semcheck

open List EngineM Engine

/-! ## Steps that keep a property of the state -/

section Steps

variable {σ ε α β : Type} {I : σ → Prop} {Q : α → Prop} {R : β → Prop}

/-- A step that ends leaves behind a state with the property, if it found one. -/
def Preserves (I : σ → Prop) (step : StateT σ (Except ε) α) : Prop :=
  ∀ s a s', step.run s = .ok (a, s') → I s → I s'

/-- The same, and the result has a property too. -/
def Ensures (I : σ → Prop) (Q : α → Prop) (step : StateT σ (Except ε) α) : Prop :=
  ∀ s a s', step.run s = .ok (a, s') → I s → I s' ∧ Q a

namespace Preserves

theorem pure (a : α) : Preserves I (Pure.pure a : StateT σ (Except ε) α) := by
  intro s a s' hrun hs
  cases hrun
  exact hs

theorem throw (e : ε) : Preserves I (throw e : StateT σ (Except ε) α) := by
  intro s a s' hrun
  cases hrun

theorem bind {x : StateT σ (Except ε) α} {f : α → StateT σ (Except ε) β} (hx : Preserves I x)
    (hf : ∀ a, Preserves I (f a)) : Preserves I (x >>= f) := by
  intro s b s' hrun hs
  obtain ⟨⟨a, s1⟩, hrun1, hrun2⟩ := bind_eq_ok.1 (show x.run s >>= _ = _ from hrun)
  exact hf a s1 b s' hrun2 (hx s a s1 hrun1 hs)

theorem modify {f : σ → σ} (h : ∀ s, I s → I (f s)) :
    Preserves I (modify f : StateT σ (Except ε) Unit) := by
  intro s a s' hrun hs
  cases hrun
  exact h s hs

theorem look {f : σ → StateT σ (Except ε) α} (h : ∀ s, I s → Preserves I (f s)) :
    Preserves I (get >>= f) :=
  fun s _ _ hrun hs => h s hs _ _ _ hrun hs

theorem forM {f : α → StateT σ (Except ε) Unit} {xs : List α}
    (h : ∀ x ∈ xs, Preserves I (f x)) : Preserves I (xs.forM f) := by
  induction xs with
  | nil => exact pure ()
  | cons x xs ih =>
    rw [forall_mem_cons] at h
    exact bind h.1 fun _ => ih h.2

end Preserves

namespace Ensures

theorem pure {a : α} (h : Q a) : Ensures I Q (Pure.pure a : StateT σ (Except ε) α) := by
  intro s a s' hrun hs
  cases hrun
  exact ⟨hs, h⟩

theorem throw (e : ε) : Ensures I Q (throw e : StateT σ (Except ε) α) := by
  intro s a s' hrun
  cases hrun

variable {x : StateT σ (Except ε) α} {f : α → StateT σ (Except ε) β}

theorem bind (hx : Ensures I Q x) (hf : ∀ a, Q a → Ensures I R (f a)) : Ensures I R (x >>= f) := by
  intro s b s' hrun hs
  obtain ⟨⟨a, s1⟩, hrun1, hrun2⟩ := bind_eq_ok.1 (show x.run s >>= _ = _ from hrun)
  obtain ⟨hs1, ha⟩ := hx s a s1 hrun1 hs
  exact hf a ha s1 b s' hrun2 hs1

theorem of_preserves (hx : Preserves I x) : Ensures I (fun _ => True) x :=
  fun s a s' hrun hs => ⟨hx s a s' hrun hs, trivial⟩

/-- Nothing is known about the result of the first step. -/
theorem after (hx : Preserves I x) (hf : ∀ a, Ensures I R (f a)) : Ensures I R (x >>= f) :=
  bind (.of_preserves hx) fun a _ => hf a

theorem look {f : σ → StateT σ (Except ε) α} (h : ∀ s, I s → Ensures I Q (f s)) :
    Ensures I Q (get >>= f) :=
  fun s _ _ hrun hs => h s hs _ _ _ hrun hs

theorem ite {c : Prop} [Decidable c] {y : StateT σ (Except ε) α} (hx : Ensures I Q x)
    (hy : Ensures I Q y) : Ensures I Q (if c then x else y) := by
  split
  · exact hx
  · exact hy

end Ensures

/-- What follows has to keep the property for results with the first step's property. -/
theorem Preserves.chain {x : StateT σ (Except ε) α} {f : α → StateT σ (Except ε) β}
    (hx : Ensures I Q x) (hf : ∀ a, Q a → Preserves I (f a)) : Preserves I (x >>= f) :=
  fun s b s' hrun hs => (hx.bind (fun a ha => .of_preserves (hf a ha)) s b s' hrun hs).1

end Steps

/-! ## Engines -/

variable {S : Location → Prop} {α β : Type}

namespace Engine

structure Located (S : Location → Prop) (e : Engine) : Prop where
  slots : ∀ info ∈ e.slots, S info.origin
  rules : ∀ rule ∈ e.rules, S rule.span

theorem located_empty (strict : Bool) : (empty strict).Located S :=
  ⟨nofun, nofun⟩

namespace Located

variable {e : Engine}

variable (h : e.Located S)
include h

theorem setBindings (b : Bindings) : { e with bindings := b }.Located S :=
  ⟨h.slots, h.rules⟩

theorem setRules {rules : List Rule} (hrules : ∀ rule ∈ rules, S rule.span) :
    { e with rules := rules }.Located S :=
  ⟨h.slots, hrules⟩

theorem addRule {rule : Rule} (hrule : S rule.span) : (e.addRule rule).Located S :=
  h.setRules (forall_mem_append.2 ⟨h.rules, forall_mem_singleton.2 hrule⟩)

theorem addSlot {origin : Location} (horigin : S origin) : (e.addSlot origin).2.Located S :=
  ⟨forall_mem_append.2 ⟨h.slots, forall_mem_singleton.2 horigin⟩, h.rules⟩

theorem markDiverging (s : Slot) :
    { e with
      slots := e.slots.modify s.index fun info => { info with diverging := true } }.Located S := by
  refine ⟨fun info hinfo => ?_, h.rules⟩
  obtain ⟨i, hi, rfl⟩ := getElem_of_mem hinfo
  have hlt : i < e.slots.length := by simpa using hi
  rw [getElem_modify]
  split <;> exact h.slots e.slots[i] (getElem_mem hlt)

theorem origin {s : Slot} {l : Location} (hl : e.origin s = .ok l) : S l := by
  obtain ⟨info, hinfo, hl⟩ := bind_eq_ok.1 hl
  cases hl
  rw [Engine.info] at hinfo
  split at hinfo
  · cases hinfo
    exact h.slots _ (mem_of_getElem? ‹_›)
  · cases hinfo

theorem unresolved {entry : Slot × Location} (hentry : entry ∈ e.unresolved) : S entry.2 := by
  obtain ⟨found, hfound, rfl⟩ := mem_map.1 hentry
  obtain ⟨slot, hslot, rfl⟩ := mem_map.1 (mem_filter.1 hfound).1
  exact h.slots _ (fst_mem_of_mem_zipIdx hslot)

end Located

end Engine

/-! ## Steps of inference -/

open Engine (Located)

namespace EngineM

theorem ask_preserves {I : Engine → Prop} (question : Engine → Except Fault α) :
    Preserves I (ask question) := by
  intro e a e' hrun he
  obtain ⟨a', -, hrun⟩ := bind_eq_ok.1 (show question e >>= _ = _ from hrun)
  cases hrun
  exact he

end EngineM

/-- Unification keeps the property: binding a slot does, and queueing a rule that two slots are
    the same.  In the lax mode the type of a slot may be replaced. -/
structure Engine.Stable (I : Engine → Prop) : Prop where
  bind : ∀ {e} s t, I e → I { e with bindings := e.bindings.bind s t }
  rebind : ∀ {e} s t, e.strict = false → I e → I { e with bindings := e.bindings.rebind s t }
  same : ∀ {e} left right {span}, e.origin left = .ok span → I e →
    I (e.addRule (.same left right span))

namespace Engine.Stable

variable {I : Engine → Prop}

theorem bind_preserves (h : Stable I) (s : Slot) (t : Ty) : Preserves I (EngineM.bind s t) :=
  (ask_preserves _).bind fun _ => .modify fun _ he => h.bind s t he

theorem poison_preserves (h : Stable I) (s : Slot) : Preserves I (EngineM.poison s) := by
  refine (ask_preserves _).bind fun root => ?_
  cases root with
  | slot root => exact h.bind_preserves root .error
  | _ => exact .pure ()

end Engine.Stable

theorem Engine.located_stable : Stable (Located S) where
  bind _ _ he := he.setBindings _
  rebind _ _ _ he := he.setBindings _
  same _ _ _ hspan he := he.addRule (he.origin hspan)

namespace InferM

variable {I : Engine → Prop}

/-- The step keeps the property, whether it fails or not. -/
def Maintains (I : Engine → Prop) (step : InferM α) : Prop :=
  Preserves I step.run

namespace Maintains

theorem pure (a : α) : Maintains I (pure a : InferM α) :=
  Preserves.pure (Except.ok a)

theorem throw (e : InferError) : Maintains I (throw e : InferM α) :=
  Preserves.pure (Except.error e)

theorem bind {x : InferM α} {f : α → InferM β} (hx : Maintains I x) (hf : ∀ a, Maintains I (f a)) :
    Maintains I (x >>= f) := by
  refine Preserves.bind hx fun r => ?_
  cases r with
  | ok a => exact hf a
  | error e => exact Preserves.pure (Except.error e)

theorem lift {x : EngineM α} (h : Preserves I x) : Maintains I (liftM x : InferM α) := by
  intro e r e' hrun he
  obtain ⟨out, hrun1, hrun2⟩ := bind_eq_ok.1 (show x.run e >>= _ = _ from hrun)
  cases hrun2
  exact h e _ _ hrun1 he

theorem look {f : Engine → InferM α} (h : ∀ e, Maintains I (f e)) : Maintains I (get >>= f) :=
  fun e _ _ hrun he => h e _ _ _ hrun he

theorem ite {c : Prop} [Decidable c] {x y : InferM α} (hx : Maintains I x) (hy : Maintains I y) :
    Maintains I (if c then x else y) := by
  split
  · exact hx
  · exact hy

end Maintains

theorem shallow_maintains (t : Ty) : Maintains I (shallow t) :=
  .lift (ask_preserves _)

theorem resolve_maintains (t : Ty) : Maintains I (resolve t) :=
  .lift (ask_preserves _)

theorem mismatch_maintains (expected found : Ty) : Maintains I (mismatch expected found : InferM α) :=
  (resolve_maintains _).bind fun _ => (resolve_maintains _).bind fun _ => .throw _

theorem orMismatch_maintains {step : InferM Unit} (h : Maintains I step) (expected found : Ty) :
    Maintains I (orMismatch step expected found) := by
  intro e r e' hrun he
  obtain ⟨⟨r1, e1⟩, hrun1, hrun2⟩ := bind_eq_ok.1 (show step.run e >>= _ = _ from hrun)
  have he1 := h e r1 e1 hrun1 he
  cases r1 with
  | ok u =>
    cases hrun2
    exact he1
  | error err => exact mismatch_maintains expected found e1 r e' hrun2 he1

theorem bindSlot_maintains (h : Engine.Stable I) (s : Slot) (t : Ty) :
    Maintains I (bindSlot s t) := by
  refine (resolve_maintains t).bind fun t => ?_
  exact .ite (.bind (.throw _) fun _ => .lift (h.bind_preserves s t)) (.lift (h.bind_preserves s t))

theorem sameSlots_maintains (h : Engine.Stable I) (left right : Slot) :
    Maintains I (sameSlots left right) := by
  refine .ite ?_ (.pure ())
  intro e r e' hrun he
  obtain ⟨out, hlift, hrun⟩ := bind_eq_ok.1
    (show (liftM (EngineM.ask fun e => e.origin left) : InferM Location).run e >>= _ = _ from hrun)
  obtain ⟨found, hask, hlift⟩ := bind_eq_ok.1
    (show (EngineM.ask fun e => e.origin left).run e >>= _ = _ from hlift)
  obtain ⟨span, hspan, hask⟩ := bind_eq_ok.1 (show e.origin left >>= _ = _ from hask)
  cases hask
  cases hlift
  cases hrun
  exact h.same left right hspan he

theorem sameLength_maintains (expected found : List Ty) : Maintains I (sameLength expected found) :=
  .ite (.throw _) (.pure ())

theorem overwrite_maintains (h : Engine.Stable I) (s : Slot) (found : Ty) :
    Maintains I (overwrite s found) := by
  intro e r e' hrun he
  by_cases hs : e.strict = true
  · have hrun' : (if e.strict then pure false else _ : InferM Bool).run e = .ok (r, e') := hrun
    rw [if_pos hs] at hrun'
    cases hrun'
    exact he
  · have hrun' : (if e.strict then pure false else _ : InferM Bool).run e = .ok (r, e') := hrun
    rw [if_neg hs] at hrun'
    have hrebind : ∀ t, Preserves (fun e => I e ∧ e.strict = false) (EngineM.rebind s t) :=
      fun t => (ask_preserves _).bind fun _ => .modify fun _ he =>
        ⟨h.rebind s t he.2 he.1, he.2⟩
    refine (Maintains.bind (I := fun e => I e ∧ e.strict = false)
      (.lift (ask_preserves _)) (fun bound => .ite (.pure false) ?_) e r e' hrun'
        ⟨he, by simpa using hs⟩).1
    refine (resolve_maintains _).bind fun current => (resolve_maintains found).bind fun incoming => ?_
    exact .ite (.pure false) ((Maintains.lift (hrebind incoming)).bind fun _ => .pure true)

theorem paired_maintains (h : Engine.Stable I) : Paired id fun _ x _ => Maintains I x where
  pure := .pure ()
  bind := .bind
  shallow := shallow_maintains
  mismatch := mismatch_maintains
  orMismatch t u h := orMismatch_maintains h t u
  bindSlot := bindSlot_maintains h
  sameSlots := sameSlots_maintains h
  sameLength := sameLength_maintains
  overwrite := overwrite_maintains h

theorem unifyWithin_maintains (h : Engine.Stable I) (budget : Nat) (t u : Ty) :
    Maintains I (unifyWithin budget t u) := by
  induction budget generalizing t u with
  | zero =>
    intro e r e' hrun
    cases hrun
  | succ budget ih =>
    exact @Paired.unifyWith _ _ _ (unifyWithin budget) (paired_maintains h)
      Function.injective_id ih t u

/-- **Unification keeps every stable property.** -/
theorem unify_maintains (h : Engine.Stable I) (t u : Ty) : Maintains I (unify t u) :=
  .look fun _ => unifyWithin_maintains h _ t u

end InferM

/-! ## Solving -/

namespace Rule

open EngineM
open InferM (Maintains shallow_maintains unify_maintains resolve_maintains)

theorem unifyArgs_located (params args : List Ty) :
    Maintains (Located S) (unifyArgs params args) := by
  induction params generalizing args with
  | nil => exact .pure ()
  | cons param params ih =>
    cases args with
    | nil => exact .pure ()
    | cons arg args => exact (unify_maintains located_stable param arg).bind fun _ => ih args

theorem apply_located (rule : Rule) : Maintains (Located S) rule.apply := by
  cases rule with
  | same left right span =>
    refine (shallow_maintains _).bind fun leftNow => (shallow_maintains _).bind fun rightNow => ?_
    have hboth : Maintains (Located S) (do unify (.slot left) (.slot right); return true) :=
      (unify_maintains located_stable _ _).bind fun _ => .pure true
    cases leftNow with
    | slot l =>
      cases rightNow with
      | slot r => exact .pure _
      | _ => exact hboth
    | _ => exact hboth
  | call callee args returns span =>
    refine (shallow_maintains _).bind fun root => ?_
    cases root with
    | slot s => exact .pure false
    | error =>
      exact (Maintains.lift (located_stable.poison_preserves returns)).bind fun _ => .pure true
    | funct params result =>
      have hrest : Maintains (Located S)
          (do unifyArgs params args; unify (.slot returns) result; return true) :=
        (unifyArgs_located params args).bind fun _ =>
          (unify_maintains located_stable _ _).bind fun _ => .pure true
      exact .ite (.bind (.throw _) fun _ => hrest) hrest
    | functAny result => exact (unify_maintains located_stable _ _).bind fun _ => .pure true
    | _ => exact (resolve_maintains _).bind fun _ => .throw _

/-- What attempting rules comes to: it fails where the rules are. -/
def FailsIn (S : Location → Prop) (out : Bool × List Failure) : Prop :=
  ∀ failure ∈ out.2, S failure.span

theorem attempt_located {rule : Rule} (hrule : S rule.span) :
    Ensures (Located S) (FailsIn S) rule.attempt := by
  refine .after (apply_located rule) fun r => ?_
  cases r with
  | ok done =>
    cases done with
    | true => exact .pure nofun
    | false => exact .after (.modify fun e he => he.addRule hrule) fun _ => .pure nofun
  | error err =>
    have hfails : FailsIn S (true, [⟨err, rule.span⟩]) := forall_mem_singleton.2 hrule
    cases rule with
    | same left right span => exact .after (.pure ()) fun _ => .pure hfails
    | call callee args returns span =>
      exact .after (located_stable.poison_preserves returns) fun _ => .pure hfails

theorem sweep_located {rules : List Rule} (hrules : ∀ rule ∈ rules, S rule.span) :
    Ensures (Located S) (FailsIn S) (sweep rules) := by
  induction rules with
  | nil => exact .pure nofun
  | cons rule rules ih =>
    rw [forall_mem_cons] at hrules
    refine (attempt_located hrules.1).bind fun out hout => ?_
    exact (ih hrules.2).bind fun out' hout' => .pure (forall_mem_append.2 ⟨hout, hout'⟩)

theorem sweepsWithin_located (budget : Nat) :
    Ensures (Located S) (∀ failure ∈ ·, S failure.span) (sweepsWithin budget) := by
  induction budget with
  | zero => exact .throw _
  | succ budget ih =>
    refine .look fun e he => .after (.modify fun e he => he.setRules nofun) fun _ => ?_
    refine (sweep_located he.rules).bind fun out hout => .ite ?_ (.pure hout)
    exact ih.bind fun more hmore => .pure (forall_mem_append.2 ⟨hout, hmore⟩)

theorem settle_located {rules : List Rule} (hrules : ∀ rule ∈ rules, S rule.span) :
    Preserves (Located S) (settle rules) := by
  induction rules with
  | nil => exact .bind (.modify fun e he => he.setRules nofun) fun _ => .pure false
  | cons rule rest ih =>
    have hrest := (forall_mem_cons.1 hrules).2
    cases rule with
    | same left right span =>
      refine (ask_preserves _).bind fun root => (ask_preserves _).bind fun found => ?_
      cases found with
      | slot leftRoot =>
        dsimp only
        split
        · exact ih hrest
        · exact (located_stable.bind_preserves leftRoot root).bind fun _ =>
            .bind (.modify fun e he => he.setRules hrest) fun _ => .pure true
      | _ => exact ih hrest
    | call callee args returns span =>
      refine (ask_preserves _).bind fun found => ?_
      cases found with
      | slot root =>
        refine (ask_preserves _).bind fun wanted => ?_
        split
        · exact ih hrest
        · exact (located_stable.bind_preserves root wanted).bind fun _ =>
            .bind (.modify fun e he => he.setRules hrules) fun _ => .pure true
      | _ => exact ih hrest

end Rule

theorem defaultDiverging_located : Preserves (Located S) defaultDiverging :=
  .look fun _ _ =>
    .bind (.forM fun s _ => located_stable.bind_preserves s .unit) fun _ => .pure _

theorem solveWithin_located (budget : Nat) :
    Ensures (Located S) (∀ failure ∈ ·, S failure.span) (solveWithin budget) := by
  induction budget with
  | zero => exact .throw _
  | succ budget ih =>
    refine .look fun e _ => (Rule.sweepsWithin_located _).bind fun failures hfailures => ?_
    have hmore : Ensures (Located S) (∀ failure ∈ ·, S failure.span)
        (do return failures ++ (← solveWithin budget)) :=
      ih.bind fun more hmore => .pure (forall_mem_append.2 ⟨hfailures, hmore⟩)
    refine .look fun e he => .after (Rule.settle_located he.rules) fun settled => .ite hmore ?_
    exact .after defaultDiverging_located fun _ => .ite hmore (.pure hfailures)

/-- **A failure of solving is where a rule was.** -/
theorem solve_located : Ensures (Located S) (∀ failure ∈ ·, S failure.span) solve :=
  .look fun _ _ => solveWithin_located _

end Semcheck
