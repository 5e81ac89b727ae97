/-
  Inference does not look at the numbers of structs.

  `Engine.rename` exchanges the numbers of structs in the state of inference.  A
  step commutes with it if, in the renamed state, it comes to the renamed result:
  `EngineM.Commutes` and, for steps that may fail, `InferM.Commutes`.

  Only one step compares numbers, where two structs meet in unification.  So every
  step commutes with a renaming under which different structs stay different, up
  to unification (`unify_commutes`) and solving (`solve_commutes`).
-/
import Semcheck.Proofs.Infer.Paired
import Semcheck.Proofs.Infer.Unify

namespace Semcheck

open List Engine

/-! ## Renaming the state -/

def Rule.rename (f : StructId → StructId) : Rule → Rule
  | .same left right span => .same left right span
  | .call callee args returns span => .call callee (args.map (Ty.rename f)) returns span

def InferError.rename (f : StructId → StructId) : InferError → InferError
  | .mismatch expected found => .mismatch (expected.rename f) (found.rename f)
  | .notFunct found => .notFunct (found.rename f)
  | .argumentCount expected found => .argumentCount expected found
  | .recursive slot type => .recursive slot (type.rename f)

def Failure.rename (f : StructId → StructId) (failure : Failure) : Failure :=
  ⟨failure.error.rename f, failure.span⟩

def Bindings.rename (f : StructId → StructId) (b : Bindings) : Bindings :=
  b.map fun entry => (entry.1, entry.2.rename f)

/-- The state of inference with other numbers for structs. -/
def Engine.rename (f : StructId → StructId) (e : Engine) : Engine :=
  { e with bindings := e.bindings.rename f, rules := e.rules.map (Rule.rename f) }

variable {f : StructId → StructId}

@[simp] theorem Rule.span_rename (rule : Rule) : (rule.rename f).span = rule.span := by
  cases rule <;> rfl

namespace Bindings

theorem find?_rename (b : Bindings) (s : Slot) :
    (b.rename f).find? s = (b.find? s).map (.rename f) := by
  simp [find?, rename, find?_map, Function.comp_def, Option.map_map]

theorem head_rename (b : Bindings) (t : Ty) :
    (b.rename f).head (t.rename f) = (b.head t).rename f := by
  simp only [head, rename, foldl_map]
  induction b generalizing t with
  | nil => rfl
  | cons entry b ih =>
    rw [foldl_cons, foldl_cons, ← ih]
    by_cases h : t = .slot entry.1 <;> simp [h]

theorem apply_rename (b : Bindings) (t : Ty) :
    (b.rename f).apply (t.rename f) = (b.apply t).rename f := by
  simp only [apply, rename, foldl_map]
  induction b generalizing t with
  | nil => rfl
  | cons entry b ih => rw [foldl_cons, foldl_cons, ← ih, Ty.rename_subst]

theorem bind_rename (b : Bindings) (s : Slot) (t : Ty) :
    (b.rename f).bind s (t.rename f) = (b.bind s t).rename f := by
  simp [bind, rename]

theorem rebind_rename (b : Bindings) (s : Slot) (t : Ty) :
    (b.rename f).rebind s (t.rename f) = (b.rebind s t).rename f := by
  simp [rebind, rename, filter_map, Function.comp_def]

end Bindings

namespace Engine

variable (e : Engine)

@[simp] theorem slots_rename : (e.rename f).slots = e.slots := rfl

@[simp] theorem strict_rename : (e.rename f).strict = e.strict := rfl

@[simp] theorem info_rename (s : Slot) : (e.rename f).info s = e.info s := rfl

@[simp] theorem checkSlots_rename (slots : List Slot) :
    (e.rename f).checkSlots slots = e.checkSlots slots := rfl

theorem isBound_rename (s : Slot) : (e.rename f).isBound s = e.isBound s := by
  simp [isBound, rename, Bindings.find?_rename, info]

theorem shallow_rename (t : Ty) :
    (e.rename f).shallow (t.rename f) = (e.shallow t).map (.rename f) := by
  have hhead : (e.rename f).bindings.head (t.rename f) = (e.bindings.head t).rename f :=
    Bindings.head_rename _ _
  simp only [shallow, hhead, Ty.slot?_rename, checkSlots_rename]
  cases e.checkSlots t.slot?.toList with
  | error fault => rfl
  | ok u => cases e.checkSlots (e.bindings.head t).slot?.toList <;> rfl

theorem resolve_rename (t : Ty) :
    (e.rename f).resolve (t.rename f) = (e.resolve t).map (.rename f) := by
  have happly : (e.rename f).bindings.apply (t.rename f) = (e.bindings.apply t).rename f :=
    Bindings.apply_rename _ _
  simp only [resolve, happly, Ty.slots_rename, checkSlots_rename]
  cases e.checkSlots t.slots with
  | error fault => rfl
  | ok u => cases e.checkSlots (e.bindings.apply t).slots <;> rfl

theorem concretize_rename (t : Ty) :
    (e.rename f).concretize (t.rename f) = (e.concretize t).map (.rename f) := by
  rw [concretize, concretize, resolve_rename]
  cases e.resolve t with
  | error fault => rfl
  | ok u => simp [Except.map, bind, Except.bind, pure, Except.pure]

theorem unbound_rename : (e.rename f).unbound = e.unbound := by
  simp [unbound, rename, Bindings.find?_rename]

theorem unresolved_rename : (e.rename f).unresolved = e.unresolved := by
  rw [unresolved, unresolved, unbound_rename]

theorem divergingSlots_rename : (e.rename f).divergingSlots = e.divergingSlots := by
  rw [divergingSlots, divergingSlots, unbound_rename]

theorem addRule_rename (rule : Rule) :
    (e.rename f).addRule (rule.rename f) = (e.addRule rule).rename f := by
  simp [addRule, rename]

theorem markDiverging_rename (s : Slot) :
    (e.rename f).markDiverging s = (e.markDiverging s).map (rename f) := by
  rw [markDiverging, markDiverging, info_rename]
  cases e.info s <;> rfl

end Engine

/-! ## Steps -/

namespace EngineM

variable {α β γ δ : Type} {g : α → β} {h : γ → δ}

/-- In the renamed state the step comes to the result `g` says, and to the renamed state. -/
def Commutes (f : StructId → StructId) (g : α → β) (x : EngineM α) (y : EngineM β) : Prop :=
  ∀ e, y.run (e.rename f) = (x.run e).map fun out => (g out.1, out.2.rename f)

namespace Commutes

theorem pure (a : α) : Commutes f g (pure a) (pure (g a)) := fun _ => rfl

theorem throw (fault : Fault) :
    Commutes f g (throw fault : EngineM α) (throw fault : EngineM β) := fun _ => rfl

theorem bind {x : EngineM α} {y : EngineM β} {k : α → EngineM γ} {k' : β → EngineM δ}
    (hx : Commutes f g x y) (hk : ∀ a, Commutes f h (k a) (k' (g a))) :
    Commutes f h (x >>= k) (y >>= k') := by
  intro e
  show (y.run (e.rename f) >>= _) = ((x.run e >>= _) : Except Fault _).map _
  rw [hx e]
  cases x.run e with
  | error fault => rfl
  | ok out => exact hk out.1 out.2

theorem get : Commutes f (rename f) (get : EngineM Engine) (get : EngineM Engine) :=
  fun _ => rfl

theorem modify {u u' : Engine → Engine} (hu : ∀ e, u' (e.rename f) = (u e).rename f) :
    Commutes f id (modify u : EngineM Unit) (modify u' : EngineM Unit) := by
  intro e
  show Except.ok ((), u' (e.rename f)) = _
  rw [hu]
  rfl

theorem ask {q : Engine → Except Fault α} {q' : Engine → Except Fault β}
    (hq : ∀ e, q' (e.rename f) = (q e).map g) : Commutes f g (ask q) (ask q') := by
  intro e
  show (q' (e.rename f) >>= fun b => .ok (b, e.rename f)) =
    ((q e >>= fun a => .ok (a, e)) : Except Fault _).map _
  rw [hq]
  cases q e <;> rfl

theorem forM {k k' : γ → EngineM Unit} (hk : ∀ x, Commutes f id (k x) (k' x)) (xs : List γ) :
    Commutes f id (xs.forM k) (xs.forM k') := by
  induction xs with
  | nil => exact pure ()
  | cons x xs ih => exact (hk x).bind fun _ => ih

end Commutes

theorem shallow_commutes (t : Ty) : Commutes f (Ty.rename f) (ask fun e => e.shallow t)
    (ask fun e => e.shallow (t.rename f)) :=
  .ask fun e => e.shallow_rename t

theorem resolve_commutes (t : Ty) : Commutes f (Ty.rename f) (ask fun e => e.resolve t)
    (ask fun e => e.resolve (t.rename f)) :=
  .ask fun e => e.resolve_rename t

theorem bind_commutes (s : Slot) (t : Ty) : Commutes f id (.bind s t) (.bind s (t.rename f)) := by
  refine .bind (g := id) (.ask fun e => ?_) fun _ => .modify fun e => ?_
  · rw [info_rename]
    cases e.info s <;> rfl
  · simp [rename, Bindings.bind_rename]

theorem rebind_commutes (s : Slot) (t : Ty) :
    Commutes f id (.rebind s t) (.rebind s (t.rename f)) := by
  refine .bind (g := id) (.ask fun e => ?_) fun _ => .modify fun e => ?_
  · rw [info_rename]
    cases e.info s <;> rfl
  · simp [rename, Bindings.rebind_rename]

end EngineM

/-- The outcome of a step that may fail, with other numbers for structs. -/
def InferError.outcome {α β : Type} (f : StructId → StructId) (g : α → β) :
    Except InferError α → Except InferError β
  | .ok a => .ok (g a)
  | .error e => .error (e.rename f)

namespace InferM

variable {α β γ δ : Type} {g : α → β} {h : γ → δ}

/-- In the renamed state the step comes to the renamed outcome. -/
def Commutes (f : StructId → StructId) (g : α → β) (x : InferM α) (y : InferM β) : Prop :=
  EngineM.Commutes f (InferError.outcome f g) x.run y.run

namespace Commutes

theorem pure (a : α) : Commutes f g (pure a) (pure (g a)) := fun _ => rfl

theorem throw (e : InferError) :
    Commutes f g (throw e : InferM α) (throw (e.rename f) : InferM β) := fun _ => rfl

theorem bind {x : InferM α} {y : InferM β} {k : α → InferM γ} {k' : β → InferM δ}
    (hx : Commutes f g x y) (hk : ∀ a, Commutes f h (k a) (k' (g a))) :
    Commutes f h (x >>= k) (y >>= k') := by
  refine EngineM.Commutes.bind hx fun out => ?_
  cases out with
  | ok a => exact hk a
  | error e => exact EngineM.Commutes.pure (g := InferError.outcome f h) (.error e)

theorem lift {x : EngineM α} {y : EngineM β} (hx : EngineM.Commutes f g x y) :
    Commutes f g (liftM x) (liftM y) := by
  intro e
  show (y.run (e.rename f) >>= fun out => .ok (Except.ok out.1, out.2)) =
    ((x.run e >>= fun out => .ok (Except.ok out.1, out.2)) : Except Fault _).map _
  rw [hx e]
  cases x.run e <;> rfl

theorem get : Commutes f (rename f) (get : InferM Engine) (get : InferM Engine) :=
  fun _ => rfl

theorem modify {u u' : Engine → Engine} (hu : ∀ e, u' (e.rename f) = (u e).rename f) :
    Commutes f id (modify u : InferM Unit) (modify u' : InferM Unit) := by
  intro e
  show Except.ok (Except.ok (), u' (e.rename f)) = _
  rw [hu]
  rfl

theorem ite {c : Prop} [Decidable c] {x x' : InferM α} {y y' : InferM β}
    (hx : Commutes f g x y) (hx' : Commutes f g x' y') :
    Commutes f g (if c then x else x') (if c then y else y') := by
  split
  · exact hx
  · exact hx'

end Commutes

theorem shallow_commutes (t : Ty) : Commutes f (Ty.rename f) (shallow t) (shallow (t.rename f)) :=
  .lift (EngineM.shallow_commutes t)

theorem resolve_commutes (t : Ty) : Commutes f (Ty.rename f) (resolve t) (resolve (t.rename f)) :=
  .lift (EngineM.resolve_commutes t)

theorem mismatch_commutes (expected found : Ty) :
    Commutes f g (mismatch expected found) (mismatch (expected.rename f) (found.rename f)) :=
  (resolve_commutes expected).bind fun expected => (resolve_commutes found).bind fun found =>
    .throw (.mismatch expected found)

theorem orMismatch_commutes {x y : InferM Unit} (hx : Commutes f id x y) (expected found : Ty) :
    Commutes f id (orMismatch x expected found)
      (orMismatch y (expected.rename f) (found.rename f)) := by
  intro e
  have hrun : y.run (e.rename f) = (x.run e).map _ := hx e
  show (orMismatch y _ _).run (e.rename f) = ((orMismatch x _ _).run e).map _
  rw [run_orMismatch, run_orMismatch, hrun]
  cases x.run e with
  | error fault => rfl
  | ok out =>
    obtain ⟨r, e'⟩ := out
    cases r with
    | ok u => rfl
    | error err => exact mismatch_commutes (g := id) expected found e'

theorem bindSlot_commutes (s : Slot) (t : Ty) :
    Commutes f id (bindSlot s t) (bindSlot s (t.rename f)) := by
  refine (resolve_commutes t).bind fun t => ?_
  rw [Ty.containsSlot_rename]
  refine .ite (.bind (g := id) (.throw (.recursive s t)) fun _ => ?_) ?_
  · exact .lift (EngineM.bind_commutes s t)
  · exact .lift (EngineM.bind_commutes s t)

theorem sameSlots_commutes (left right : Slot) :
    Commutes f id (sameSlots left right) (sameSlots left right) := by
  refine .ite (.bind (g := id) (.lift (.ask fun e => ?_)) fun span => ?_) (.pure ())
  · simp only [origin, info_rename]
    cases e.info left <;> rfl
  · exact .modify fun e => addRule_rename e (.same left right span)

theorem sameLength_commutes (expected found : List Ty) :
    Commutes f id (sameLength expected found)
      (sameLength (expected.map (.rename f)) (found.map (.rename f))) := by
  rw [sameLength, sameLength, length_map, length_map, ← Ty.rename_tuple, ← Ty.rename_tuple]
  exact .ite (.throw (.mismatch (.tuple expected) (.tuple found))) (.pure ())

section Injective

variable (hf : Function.Injective f)
include hf

theorem overwrite_commutes (s : Slot) (found : Ty) :
    Commutes f id (overwrite s found) (overwrite s (found.rename f)) := by
  refine Commutes.get.bind fun e => ?_
  rw [strict_rename]
  refine .ite (.pure false) (.bind (g := id) (.lift (.ask fun e => ?_)) fun bound => ?_)
  · rw [isBound_rename]
    cases e.isBound s <;> rfl
  refine .ite (.pure false) ?_
  have hslot := resolve_commutes (f := f) (.slot s)
  rw [Ty.rename_slot] at hslot
  refine hslot.bind fun current => (resolve_commutes found).bind fun incoming => ?_
  rw [Ty.isMatch_rename hf, Ty.containsSlot_rename]
  exact .ite (.pure false) (.bind (.lift (EngineM.rebind_commutes s incoming)) fun _ => .pure true)

theorem paired_commutes : Paired f fun g x y => Commutes f g x y where
  pure := .pure ()
  bind := .bind
  shallow := shallow_commutes
  mismatch := mismatch_commutes
  orMismatch t u h := orMismatch_commutes h t u
  bindSlot := bindSlot_commutes
  sameSlots := sameSlots_commutes
  sameLength := sameLength_commutes
  overwrite := overwrite_commutes hf

theorem unifyWithin_commutes (budget : Nat) (t u : Ty) :
    Commutes f id (unifyWithin budget t u) (unifyWithin budget (t.rename f) (u.rename f)) := by
  induction budget generalizing t u with
  | zero => exact fun _ => rfl
  | succ budget ih => exact (paired_commutes hf).unifyWith hf ih t u

theorem unify_commutes (t u : Ty) : Commutes f id (unify t u) (unify (t.rename f) (u.rename f)) :=
  Commutes.get.bind fun _ => unifyWithin_commutes hf _ t u

theorem inferType_commutes (s : Slot) (t : Ty) :
    Commutes f id (inferType s t) (inferType s (t.rename f)) := by
  simpa [inferType] using unify_commutes hf (.slot s) t

end Injective

end InferM

/-! ## Solving -/

namespace EngineM

theorem poison_commutes (s : Slot) : Commutes f id (poison s) (poison s) := by
  have hslot := shallow_commutes (f := f) (.slot s)
  rw [Ty.rename_slot] at hslot
  refine hslot.bind fun root => ?_
  cases root with
  | slot root => simpa using bind_commutes (f := f) root .error
  | _ => exact .pure ()

end EngineM

namespace Rule

open EngineM

section Injective

variable (hf : Function.Injective f)
include hf

theorem unifyArgs_commutes (params args : List Ty) :
    InferM.Commutes f id (unifyArgs params args)
      (unifyArgs (params.map (.rename f)) (args.map (.rename f))) := by
  induction params generalizing args with
  | nil => exact .pure ()
  | cons param params ih =>
    cases args with
    | nil => exact .pure ()
    | cons arg args => exact (InferM.unify_commutes hf param arg).bind fun _ => ih args

theorem apply_commutes (rule : Rule) : InferM.Commutes f id rule.apply (rule.rename f).apply := by
  have hslot : ∀ s, InferM.Commutes f (.rename f) (.shallow (.slot s))
      (.shallow (.slot s)) := fun s => by
    simpa using InferM.shallow_commutes (f := f) (.slot s)
  have hunify : ∀ s t, InferM.Commutes f id (unify (.slot s) t) (unify (.slot s) (t.rename f)) :=
    fun s t => by simpa using InferM.unify_commutes hf (.slot s) t
  cases rule with
  | same left right span =>
    refine (hslot left).bind fun leftNow => (hslot right).bind fun rightNow => ?_
    have hboth : InferM.Commutes f id (do unify (.slot left) (.slot right); return true)
        (do unify (.slot left) (.slot right); return true) :=
      (by simpa using hunify left (.slot right) :
        InferM.Commutes f id (unify (.slot left) (.slot right)) _).bind fun _ => .pure true
    cases leftNow with
    | slot l =>
      cases rightNow with
      | slot r => exact .pure _
      | _ => exact hboth
    | _ => exact hboth
  | call callee args returns span =>
    refine (hslot callee).bind fun root => ?_
    cases root with
    | slot s => exact .pure false
    | error => exact (InferM.Commutes.lift (poison_commutes returns)).bind fun _ => .pure true
    | funct params result =>
      simp only [Ty.rename_funct, length_map]
      have hrest : InferM.Commutes f id
          (do unifyArgs params args; unify (.slot returns) result; return true)
          (do unifyArgs (params.map (.rename f)) (args.map (.rename f))
              unify (.slot returns) (result.rename f)
              return true) :=
        (unifyArgs_commutes hf params args).bind fun _ =>
          (hunify returns result).bind fun _ => .pure true
      exact .ite (.bind (g := id) (.throw (.argumentCount _ _)) fun _ => hrest) hrest
    | functAny result => exact (hunify returns result).bind fun _ => .pure true
    | pointer m t =>
      exact (InferM.resolve_commutes (.pointer m t)).bind fun t => .throw (.notFunct t)
    | struct id =>
      exact (InferM.resolve_commutes (.struct id)).bind fun t => .throw (.notFunct t)
    | tuple ts =>
      exact (InferM.resolve_commutes (.tuple ts)).bind fun t => .throw (.notFunct t)

def renameOutcome (f : StructId → StructId) (out : Bool × List Failure) : Bool × List Failure :=
  (out.1, out.2.map (Failure.rename f))

theorem attempt_commutes (rule : Rule) :
    Commutes f (renameOutcome f) rule.attempt (rule.rename f).attempt := by
  refine .bind (apply_commutes hf rule) fun out => ?_
  cases out with
  | ok done =>
    cases done with
    | true => exact .pure (true, [])
    | false =>
      exact (Commutes.modify fun e => addRule_rename e rule).bind fun _ =>
        .pure (false, [])
  | error err =>
    have hend : Commutes f (renameOutcome f) (.pure (true, [Failure.mk err rule.span]))
        (.pure (true, [Failure.mk (err.rename f) (rule.rename f).span])) := by
      rw [span_rename]
      exact .pure (true, [Failure.mk err rule.span])
    cases rule with
    | call callee args returns span => exact (poison_commutes returns).bind fun _ => hend
    | same left right span => exact hend

theorem sweep_commutes (rules : List Rule) :
    Commutes f (renameOutcome f) (sweep rules) (sweep (rules.map (rename f))) := by
  induction rules with
  | nil => exact .pure (false, [])
  | cons rule rest ih =>
    refine (attempt_commutes hf rule).bind fun first => ih.bind fun others => ?_
    have h := Commutes.pure (f := f) (g := renameOutcome f)
      (first.1 || others.1, first.2 ++ others.2)
    rw [renameOutcome, map_append] at h
    exact h

theorem sweepsWithin_commutes (budget : Nat) :
    Commutes f (map (.rename f)) (sweepsWithin budget) (sweepsWithin budget) := by
  induction budget with
  | zero => exact .throw _
  | succ budget ih =>
    refine Commutes.get.bind fun e => (Commutes.modify (u := fun e => { e with rules := [] })
      fun _ => rfl).bind fun _ => (sweep_commutes hf e.rules).bind fun out => ?_
    obtain ⟨progressed, failures⟩ := out
    cases progressed with
    | true =>
      refine ih.bind fun more => ?_
      have h := Commutes.pure (f := f) (g := map (Failure.rename f)) (failures ++ more)
      rw [map_append] at h
      exact h
    | false => exact .pure failures

omit hf in
theorem settle_commutes (rules : List Rule) :
    Commutes f id (settle rules) (settle (rules.map (rename f))) := by
  have hslot : ∀ s, Commutes f (.rename f) (ask fun e => e.shallow (.slot s))
      (ask fun e => e.shallow (.slot s)) := fun s => by
    simpa using shallow_commutes (f := f) (.slot s)
  induction rules with
  | nil =>
    exact (Commutes.modify (u := fun e => { e with rules := [] }) fun _ => rfl).bind
      fun _ => .pure false
  | cons rule rest ih =>
    have hrules : ∀ rules : List Rule, Commutes f id
        (modify fun e => { e with rules := rules } : EngineM Unit)
        (modify fun e => { e with rules := rules.map (rename f) } : EngineM Unit) :=
      fun rules => .modify fun _ => rfl
    cases rule with
    | same left right span =>
      refine (hslot right).bind fun root => (hslot left).bind fun leftNow => ?_
      cases leftNow with
      | slot leftRoot =>
        by_cases hroot : root = .slot leftRoot
        · simpa [hroot] using ih
        · simp only [Ty.rename_slot, Ty.rename_eq_slot, hroot, if_false]
          exact (bind_commutes leftRoot root).bind fun _ => (hrules rest).bind fun _ => .pure true
      | _ => exact ih
    | call callee args returns span =>
      refine (hslot callee).bind fun root => ?_
      cases root with
      | slot root =>
        have hwanted := resolve_commutes (f := f) (.funct args (.slot returns))
        rw [Ty.rename_funct, Ty.rename_slot] at hwanted
        refine hwanted.bind fun wanted => ?_
        simp only [Ty.containsSlot_rename]
        split
        · exact ih
        · exact (bind_commutes root wanted).bind fun _ =>
            (hrules (.call callee args returns span :: rest)).bind fun _ => .pure true
      | _ => exact ih

end Injective

end Rule

open EngineM in
theorem defaultDiverging_commutes : Commutes f id defaultDiverging defaultDiverging := by
  refine Commutes.get.bind fun e => ?_
  rw [divergingSlots_rename]
  refine (Commutes.forM (fun s => ?_) _).bind fun _ => .pure _
  simpa using bind_commutes (f := f) s .unit

section Injective

open EngineM

variable (hf : Function.Injective f)
include hf

theorem solveWithin_commutes (budget : Nat) :
    Commutes f (map (.rename f)) (solveWithin budget) (solveWithin budget) := by
  induction budget with
  | zero => exact .throw _
  | succ budget ih =>
    refine Commutes.get.bind fun e => (Rule.sweepsWithin_commutes hf _).bind fun failures => ?_
    have hagain : Commutes f (map (Failure.rename f))
        (do return failures ++ (← solveWithin budget))
        (do return failures.map (.rename f) ++ (← solveWithin budget)) := by
      refine ih.bind fun more => ?_
      have h := Commutes.pure (f := f) (g := map (Failure.rename f)) (failures ++ more)
      rw [map_append] at h
      exact h
    refine Commutes.get.bind fun e => (Rule.settle_commutes e.rules).bind fun settled => ?_
    cases settled with
    | true => exact hagain
    | false =>
      refine defaultDiverging_commutes.bind fun defaulted => ?_
      cases defaulted with
      | true => exact hagain
      | false => exact .pure failures

/-- **Solving commutes with renaming.** -/
theorem solve_commutes : Commutes f (map (Failure.rename f)) solve solve :=
  Commutes.get.bind fun _ => solveWithin_commutes hf _

end Injective

end Semcheck
