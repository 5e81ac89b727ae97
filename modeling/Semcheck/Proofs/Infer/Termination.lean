/-
  Inference comes to an end.

  Unification and the two loops of solving have budgets, and it is a fault to run
  out of one.  This never happens, and more than that: the budgets do not show.

  * `InferM.Refines`: a step runs out of its budget, or does what another one does;
  * `Unifies`: unification without a budget, which goes on with itself where it
    meets a bound slot.  `unify` does that, and nothing else does
    (`unify_unifies`, `Unifies.eq_unify`);
  * `Sweeps` and `Solves`: the same for the loops of solving (`solve_solves`,
    `Solves.eq_solve`);
  * `session_terminates`: after every session unification and solving terminate, and
    solving leaves nothing to do.
-/
import Semcheck.Proofs.Infer.Paired
import Semcheck.Proofs.Infer.Session

namespace Semcheck

open Engine EngineM Ty EngineM Rule List

/-! ## Running out of a budget -/

namespace InferM

variable {α β : Type}

/-- The step runs out of its budget, or does what the other one does. -/
def Refines (step step' : InferM α) : Prop :=
  ∀ e, step.run e = .error .budget ∨ step.run e = step'.run e

namespace Refines

theorem refl (step : InferM α) : Refines step step := fun _ => .inr rfl

theorem bind {x x' : InferM α} {f f' : α → InferM β} (hx : Refines x x')
    (hf : ∀ a, Refines (f a) (f' a)) : Refines (x >>= f) (x' >>= f') := by
  intro e
  rw [run_bind, run_bind]
  rcases hx e with hx | hx <;> rw [hx]
  · exact .inl rfl
  · match x'.run e with
    | .error fault => exact .inr rfl
    | .ok (.ok a, e') => exact hf a e'
    | .ok (.error err, e') => exact .inr rfl

theorem orMismatch {step step' : InferM Unit} (h : Refines step step') (a b : Ty) :
    Refines (orMismatch step a b) (.orMismatch step' a b) := by
  intro e
  rw [run_orMismatch, run_orMismatch]
  rcases h e with h | h <;> rw [h]
  · exact .inl rfl
  · exact .inr rfl

/-- A step that comes to an end does what the steps do that it refines. -/
theorem eq_of_yields {step step' : InferM α} (h : Refines step step') {e : Engine}
    {Q : Except InferError α → Engine → Prop} (hy : Yields step e Q) :
    step.run e = step'.run e := by
  obtain ⟨r, e', hrun, -⟩ := hy
  refine (h e).resolve_left fun hbudget => ?_
  rw [hrun] at hbudget
  cases hbudget

end Refines

end InferM

/-! ## Unification -/

section Unify

open InferM

variable {deeper deeper' g : Ty → Ty → InferM Unit} {k budget : Nat} {e : Engine}
  {expected found : Ty}

theorem paired_refines : Paired id fun g x y => g = id ∧ Refines x y where
  pure := ⟨rfl, .refl _⟩
  bind hx hk := ⟨rfl, hx.2.bind fun a => by simpa [hx.1] using (hk a).2⟩
  shallow t := ⟨funext rename_id, by rw [rename_id]; exact .refl _⟩
  mismatch t u := ⟨rfl, by rw [rename_id, rename_id]; exact .refl _⟩
  orMismatch t u h := ⟨rfl, by rw [rename_id, rename_id]; exact h.2.orMismatch t u⟩
  bindSlot s t := ⟨rfl, by rw [rename_id]; exact .refl _⟩
  sameSlots _ _ := ⟨rfl, .refl _⟩
  sameLength ts us := ⟨rfl, by
    rw [funext rename_id, map_id', map_id']; exact .refl _⟩
  overwrite s t := ⟨rfl, by rw [rename_id]; exact .refl _⟩

/-- What is below a bound slot may have a larger budget. -/
theorem unifyWith_refines (h : ∀ t t', Refines (deeper t t') (deeper' t t')) (expected found : Ty) :
    Refines (unifyWith deeper expected found) (unifyWith deeper' expected found) := by
  have hboth := paired_refines.unifyWith Function.injective_id
    (fun t t' => ⟨rfl, by rw [rename_id, rename_id]; exact h t t'⟩) expected found
  rw [rename_id, rename_id] at hboth
  exact hboth.2

theorem unifyWithin_refines {budget budget' : Nat} (h : budget ≤ budget') (expected found : Ty) :
    Refines (unifyWithin budget expected found) (unifyWithin budget' expected found) := by
  induction budget generalizing budget' expected found with
  | zero => exact fun _ => .inl rfl
  | succ budget ih =>
    obtain ⟨more, rfl⟩ := Nat.exists_eq_add_of_le' h
    exact unifyWith_refines (fun t t' => ih (Nat.le_add_left budget more) t t') expected found

/-- Budgets that suffice do not show. -/
theorem unifyWithin_eq (hp : Poses k budget e expected found) :
    (unifyWithin budget expected found).run e = (unify expected found).run e := by
  have henough := unifyWithin_spec budget e expected found hp
  have henough' := unifyWithin_spec _ e expected found (.enough hp.valid hp.within hp.within')
  rw [unify, run_bind_ok (InferM.get_run e)]
  rcases Nat.le_total budget ((e.slots.length + 1) * (e.slots.length + 1)) with hle | hle
  · exact (unifyWithin_refines hle expected found).eq_of_yields henough
  · exact ((unifyWithin_refines hle expected found).eq_of_yields henough').symm

open Classical in
/-- Only the outcome of what is below a bound slot matters. -/
theorem unifyWith_congr
    (hd : ∀ e t t', Poses k budget e t t' → InferM.Yields (deeper t t') e (Unified k e t t'))
    (hsame : ∀ e t t', Poses k budget e t t' → (deeper t t').run e = (deeper' t t').run e)
    (hp : Poses k (budget + 1) e expected found) :
    (unifyWith deeper expected found).run e = (unifyWith deeper' expected found).run e := by
  -- `asked` runs out of its budget wherever `deeper` and `deeper'` may differ
  let asked : Ty → Ty → InferM Unit := fun t t' => .mk fun e =>
    if Poses k budget e t t' then (deeper t t').run e else .error .budget
  have hasked : ∀ e t t', Poses k budget e t t' → (asked t t').run e = (deeper t t').run e :=
    fun e t t' hp => if_pos hp
  have hyields : InferM.Yields (unifyWith asked expected found) e (Unified k e expected found) := by
    refine unifyWith_spec (fun e t t' hp => ?_) expected e found hp
    obtain ⟨r, e', hrun, hu⟩ := hd e t t' hp
    exact ⟨r, e', (hasked e t t' hp).trans hrun, hu⟩
  have hrefines : ∀ g : Ty → Ty → InferM Unit,
      (∀ e t t', Poses k budget e t t' → (deeper t t').run e = (g t t').run e) →
      (unifyWith asked expected found).run e = (unifyWith g expected found).run e := by
    intro g hg
    refine Refines.eq_of_yields (unifyWith_refines (fun t t' e => ?_) expected found) hyields
    by_cases hp : Poses k budget e t t'
    · exact .inr ((hasked e t t' hp).trans (hg e t t' hp))
    · exact .inl (if_neg hp)
  rw [← hrefines deeper fun _ _ _ _ => rfl, hrefines deeper' hsame]

/-- `g` unifies without a budget: where it meets a bound slot it goes on with itself. -/
def Unifies (g : Ty → Ty → InferM Unit) : Prop :=
  ∀ k (e : Engine) (expected found : Ty), e.Valid k → expected.Within e.slots.length k →
    found.Within e.slots.length k → (g expected found).run e = (unifyWith g expected found).run e

/-- A budget that suffices agrees with every way to unify without a budget. -/
theorem Unifies.eq_within (hg : Unifies g) : ∀ budget e expected found,
    Poses k budget e expected found →
      (unifyWithin budget expected found).run e = (g expected found).run e := by
  intro budget
  induction budget with
  | zero =>
    intro e expected found hp
    rcases hp.affords with h | ⟨-, h⟩ <;> exact absurd h (Nat.not_lt_zero _)
  | succ budget ih =>
    intro e expected found hp
    rw [hg k e expected found hp.valid hp.within hp.within', unifyWithin]
    exact unifyWith_congr (unifyWithin_spec budget) ih hp

theorem unify_unifies : Unifies unify := by
  intro k e expected found he hx hf
  have hp := Poses.enough he hx hf
  rw [← unifyWithin_eq hp]
  -- one passage through a bound slot is always allowed for
  obtain ⟨budget, hbudget⟩ : ∃ budget,
      (e.slots.length + 1) * (e.slots.length + 1) = budget + 1 :=
    Nat.exists_eq_succ_of_ne_zero (Nat.mul_ne_zero (Nat.succ_ne_zero _) (Nat.succ_ne_zero _))
  rw [hbudget] at hp ⊢
  exact unifyWith_congr (unifyWithin_spec budget) (fun _ _ _ hp => unifyWithin_eq hp) hp

/-- There is one way to unify without a budget. -/
theorem Unifies.eq_unify (hg : Unifies g) (he : e.Valid k)
    (hx : expected.Within e.slots.length k) (hf : found.Within e.slots.length k) :
    (g expected found).run e = (unify expected found).run e := by
  have hp := Poses.enough he hx hf
  rw [← unifyWithin_eq hp, hg.eq_within _ _ _ _ hp]

end Unify

/-! ## Solving -/

namespace Rule

/-- One sweep over the queued rules, and `again` if it made progress. -/
def sweepWith (again : EngineM (List Failure)) : EngineM (List Failure) := do
  let rules := (← get).rules
  modify fun e => { e with rules := [] }
  let (progressed, failures) ← sweep rules
  if progressed then
    return failures ++ (← again)
  else
    return failures

theorem sweepsWithin_succ (budget : Nat) :
    sweepsWithin (budget + 1) = sweepWith (sweepsWithin budget) := rfl

/-- Sweeping with the budget that solving gives it. -/
def sweeps : EngineM (List Failure) := do
  sweepsWithin ((← get).slots.length + 2)

theorem sweeps_run (e : Engine) : sweeps.run e = (sweepsWithin (e.slots.length + 2)).run e := rfl

theorem sweeps_spec {k : Nat} {e : Engine} (he : e.Valid k) :
    Yields sweeps e fun failures e' => Solving k e failures e' ∧
      ∀ rule ∈ e'.rules, rule.Waits e'.bindings := by
  refine .after (get_run e) (sweepsWithin_spec he (.inl ?_))
  simp only [free]
  omega

end Rule

/-- One round of `sweeps` and settling, and `again` if a slot was bound by settling. -/
def solveWith (sweeps again : EngineM (List Failure)) : EngineM (List Failure) := do
  let failures ← sweeps
  if ← Rule.settle (← get).rules then
    return failures ++ (← again)
  if ← defaultDiverging then
    return failures ++ (← again)
  return failures

theorem solveWithin_succ (budget : Nat) :
    solveWithin (budget + 1) = solveWith Rule.sweeps (solveWithin budget) := rfl

theorem solve_run (e : Engine) : solve.run e = (solveWithin (e.slots.length + 1)).run e := by
  exact run_bind (get_run e)

/-- `g` sweeps without a budget: until a sweep makes no progress. -/
def Sweeps (g : EngineM (List Failure)) : Prop :=
  ∀ k (e : Engine), e.Valid k → g.run e = (Rule.sweepWith g).run e

/-- `g` solves without a budget: until settling binds no slot. -/
def Solves (g : EngineM (List Failure)) : Prop :=
  ∃ sweeps, Sweeps sweeps ∧
    ∀ k (e : Engine), e.Valid k → g.run e = (solveWith sweeps g).run e

section Solve

variable {k n : Nat} {e : Engine} {x y g : EngineM (List Failure)}

/-- On valid engines with `n` slots, the step runs out of its budget or does what the
    other one does. -/
def EngineM.Follows (k n : Nat) (x y : EngineM (List Failure)) : Prop :=
  ∀ e : Engine, e.Valid k → e.slots.length = n →
    x.run e = .error .budget ∨ x.run e = y.run e

namespace EngineM.Follows

theorem eq_of_ok (h : Follows k e.slots.length x y) (he : e.Valid k)
    {out : List Failure × Engine} (hrun : x.run e = .ok out) : x.run e = y.run e := by
  refine (h e he rfl).resolve_left fun hbudget => ?_
  rw [hrun] at hbudget
  cases hbudget

theorem again (h : Follows k n x y) (he : e.Valid k) (hn : e.slots.length = n)
    (failures : List Failure) :
    (do return failures ++ (← x) : EngineM _).run e = .error .budget ∨
      (do return failures ++ (← x) : EngineM _).run e =
        (do return failures ++ (← y) : EngineM _).run e := by
  show (x.run e >>= _) = _ ∨ (x.run e >>= _) = (y.run e >>= _)
  rcases h e he hn with h | h <;> rw [h]
  · exact .inl rfl
  · exact .inr rfl

theorem sweepWith (h : Follows k n x y) : Follows k n (Rule.sweepWith x) (Rule.sweepWith y) := by
  intro e he hn
  have hk0 : Keeps k e { e with rules := [] } := .setRules he (by simp)
  obtain ⟨⟨progressed, failures⟩, e1, hrun, hs⟩ := sweep_spec hk0.valid he.rules
  have hk := hk0.trans hs.advances.keeps
  simp only [Rule.sweepWith, run_bind (get_run e), run_bind (modify_run _ e), run_bind hrun]
  cases progressed with
  | false => exact .inr rfl
  | true => exact h.again hk.valid (hk.slots ▸ hn) failures

theorem solveWith (h : Follows k n x y) :
    Follows k n (solveWith Rule.sweeps x) (Semcheck.solveWith Rule.sweeps y) := by
  intro e he hn
  obtain ⟨failures, e1, hrun1, hs1, hw1⟩ := sweeps_spec he
  have hk1 := hs1.keeps
  obtain ⟨settled, e2, hrun2, hs2, -⟩ := settle_spec hk1.valid hk1.valid.rules hw1
  have hk2 : Keeps k e e2 := hk1.trans hs2.keeps
  obtain ⟨bound, e3, hrun3, hs3, -⟩ := defaultDiverging_spec hk2.valid
  have hk3 := hk2.trans hs3.keeps
  simp only [Semcheck.solveWith, run_bind hrun1, run_bind (get_run e1), run_bind hrun2]
  cases settled with
  | true => exact h.again hk2.valid (hk2.slots ▸ hn) failures
  | false =>
    simp only [Bool.false_eq_true, if_false, run_bind hrun3]
    cases bound with
    | true => exact h.again hk3.valid (hk3.slots ▸ hn) failures
    | false => exact .inr rfl

end EngineM.Follows

theorem sweepsWithin_follows {budget budget' : Nat} (h : budget ≤ budget') :
    Follows k n (Rule.sweepsWithin budget) (Rule.sweepsWithin budget') := by
  induction budget generalizing budget' with
  | zero => exact fun _ _ _ => .inl rfl
  | succ budget ih =>
    obtain ⟨more, rfl⟩ := Nat.exists_eq_add_of_le' h
    rw [← Nat.add_assoc, sweepsWithin_succ, sweepsWithin_succ]
    exact (ih (Nat.le_add_left budget more)).sweepWith

theorem Sweeps.within_follows (hg : Sweeps g) (budget : Nat) :
    Follows k n (Rule.sweepsWithin budget) g := by
  induction budget with
  | zero => exact fun _ _ _ => .inl rfl
  | succ budget ih =>
    intro e he hn
    rw [hg k e he, sweepsWithin_succ]
    exact ih.sweepWith e he hn

theorem sweeps_sweeps : Sweeps Rule.sweeps := by
  intro k e he
  have hless : Follows k e.slots.length (Rule.sweepsWithin (e.slots.length + 1)) Rule.sweeps := by
    intro e1 he1 hn
    rw [sweeps_run, hn]
    exact sweepsWithin_follows (Nat.le_succ _) e1 he1 hn
  obtain ⟨failures, e', hrun, -⟩ := sweeps_spec he
  rw [sweeps_run, sweepsWithin_succ] at hrun ⊢
  exact hless.sweepWith.eq_of_ok he hrun

theorem Sweeps.eq_sweeps (hg : Sweeps g) (he : e.Valid k) : g.run e = Rule.sweeps.run e := by
  obtain ⟨failures, e', hrun, -⟩ := sweeps_spec he
  rw [sweeps_run] at hrun ⊢
  exact ((hg.within_follows _).eq_of_ok he hrun).symm

theorem solveWithin_follows {budget budget' : Nat} (h : budget ≤ budget') :
    Follows k n (solveWithin budget) (solveWithin budget') := by
  induction budget generalizing budget' with
  | zero => exact fun _ _ _ => .inl rfl
  | succ budget ih =>
    obtain ⟨more, rfl⟩ := Nat.exists_eq_add_of_le' h
    rw [← Nat.add_assoc, solveWithin_succ, solveWithin_succ]
    exact (ih (Nat.le_add_left budget more)).solveWith

theorem solve_solves : Solves solve := by
  refine ⟨Rule.sweeps, sweeps_sweeps, fun k e he => ?_⟩
  have hless : Follows k e.slots.length (solveWithin e.slots.length) solve := by
    intro e1 he1 hn
    rw [solve_run, hn]
    exact solveWithin_follows (Nat.le_succ _) e1 he1 hn
  obtain ⟨failures, e', hrun, -⟩ := solve_spec he
  rw [solve_run, solveWithin_succ] at hrun ⊢
  exact hless.solveWith.eq_of_ok he hrun

theorem Solves.eq_solve (hg : Solves g) (he : e.Valid k) : g.run e = solve.run e := by
  obtain ⟨sweeps, hsweeps, hg⟩ := hg
  have hround : ∀ e : Engine, e.Valid k → g.run e = (solveWith Rule.sweeps g).run e := by
    intro e he
    have hsame : (solveWith sweeps g).run e = (solveWith Rule.sweeps g).run e := by
      show (sweeps.run e >>= _) = (Rule.sweeps.run e >>= _)
      rw [hsweeps.eq_sweeps he]
    rw [hg k e he, hsame]
  have hwithin : ∀ budget, Follows k e.slots.length (solveWithin budget) g := by
    intro budget
    induction budget with
    | zero => exact fun _ _ _ => .inl rfl
    | succ budget ih =>
      intro e1 he1 hn
      rw [hround e1 he1, solveWithin_succ]
      exact ih.solveWith e1 he1 hn
  obtain ⟨failures, e', hrun, -⟩ := solve_spec he
  rw [solve_run] at hrun ⊢
  exact ((hwithin _).eq_of_ok he hrun).symm

/-! ## Nothing left to do -/

theorem Engine.isBound_of_divergingSlots (h : e.divergingSlots = []) {s : Slot} {info : SlotInfo}
    (hs : e.slots[s.index]? = some info) (hd : info.diverging = true) : e.isBound s = .ok true := by
  have hlt := (List.getElem?_eq_some_iff.1 hs).1
  rw [isBound_eq hlt]
  refine congrArg Except.ok (Decidable.byContradiction fun hn => ?_)
  have hmem : s ∈ e.divergingSlots := by
    refine mem_map.2 ⟨(s, info), mem_filter.2 ⟨mem_filter.2 ⟨?_, ?_⟩, hd⟩, rfl⟩
    · exact mem_map.2 ⟨(info, s.index), mem_zipIdx_iff_getElem?.2 hs, rfl⟩
    · simpa using hn
  rw [h] at hmem
  cases hmem

/-- Without rules and slots that could get the default, solving does nothing. -/
theorem solve_idle (hrules : e.rules = []) (hslots : e.divergingSlots = []) :
    solve.run e = .ok ([], e) := by
  have hclear : { e with rules := [] } = e := by rw [← hrules]
  have hmod : (modify fun e => { e with rules := [] } : EngineM Unit).run e = .ok ((), e) := by
    show Except.ok ((), { e with rules := [] }) = _
    rw [hclear]
  have hsweeps : Rule.sweeps.run e = .ok ([], e) := by
    rw [sweeps_run, sweepsWithin_succ, Rule.sweepWith, run_bind (get_run e), run_bind hmod, hrules]
    rfl
  have hsettle : (Rule.settle []).run e = .ok (false, e) := (run_bind hmod).trans rfl
  have hdefault : defaultDiverging.run e = .ok (false, e) := by
    refine (run_bind (get_run e)).trans ?_
    rw [hslots]
    rfl
  rw [solve_run, solveWithin_succ, solveWith, run_bind hsweeps, run_bind (get_run e), hrules]
  exact (run_bind hsettle).trans ((run_bind hdefault).trans rfl)

end Solve

/-- **Inference terminates.**  Whatever a session did, in the strict or in the lax mode
    and with or without errors: `unify` comes to an end on all types over allocated
    slots, and so does `solve`.  Their budgets do not show: they do what the same
    recursion does without a budget, and that comes to the same end however it is
    carried out.  Solving leaves no rule behind and binds every slot whose writer never
    completes, and solving again meets no error and changes nothing. -/
theorem session_terminates (strict : Bool) {ops : List Operation} (ha : Allocated 0 ops) :
    Unifies unify ∧ Solves solve ∧
    ∃ errors e, (performAll ops).run (.empty strict) = .ok (errors, e) ∧
      (∀ expected found, (∀ t ∈ [expected, found], ∀ s ∈ t.slots, s.index < e.slots.length) →
        ∃ r e', (unify expected found).run e = .ok (r, e') ∧
          ∀ g, Unifies g → (g expected found).run e = .ok (r, e')) ∧
      ∃ failures e', solve.run e = .ok (failures, e') ∧
        (∀ g, Solves g → g.run e = .ok (failures, e')) ∧
        e'.rules = [] ∧ e'.slots = e.slots ∧
        (∀ (s : Slot) info, e'.slots[s.index]? = some info → info.diverging = true →
          e'.isBound s = .ok true) ∧
        solve.run e' = .ok ([], e') := by
  obtain ⟨k, errors, e, hrun, hp⟩ := session_spec strict ha
  refine ⟨unify_unifies, solve_solves, errors, e, hrun, fun expected found ht => ?_, ?_⟩
  · obtain ⟨k', hk'⟩ := Ty.exists_struct_lt [expected, found]
    have hv := hp.valid.mono (Nat.le_max_left k k')
    have hw : ∀ t ∈ [expected, found], t.Within e.slots.length (max k k') := fun t hmem =>
      Ty.within_iff.2 ⟨ht t hmem, fun id hid =>
        Nat.lt_of_lt_of_le (hk' t hmem id hid) (Nat.le_max_right k k')⟩
    have hx := hw expected (by simp)
    have hf := hw found (by simp)
    obtain ⟨r, e', hunify, -⟩ := unify_spec hv hx hf
    exact ⟨r, e', hunify, fun g hg => (hg.eq_unify hv hx hf).trans hunify⟩
  · obtain ⟨failures, e', hsolve, ⟨hs, hrules⟩, hslots⟩ := solve_complete hp.valid
    exact ⟨failures, e', hsolve, fun g hg => (hg.eq_solve hp.valid).trans hsolve, hrules,
      hs.keeps.slots, fun _ _ => isBound_of_divergingSlots hslots, solve_idle hrules hslots⟩

/-- A session in the lax mode that leaves two rules behind, and a slot without a
    value. -/
def Sample.pending : List Operation := [
  .addSlot .nowhere, .addSlot .nowhere, .addSlot .nowhere, .addSlot .nowhere, .markDiverging ⟨3⟩,
  .unify (.slot ⟨0⟩) (.slot ⟨1⟩),
  .addRule (.call ⟨1⟩ [.slot ⟨2⟩] ⟨3⟩ .nowhere),
  .inferType ⟨2⟩ (.struct ⟨0⟩),
  .inferType ⟨2⟩ (.struct ⟨1⟩)]

theorem pending_terminates : Allocated 0 Sample.pending ∧ ∃ errors e failures e',
    (performAll Sample.pending).run (.empty false) = .ok (errors, e) ∧ e.rules.length = 2 ∧
      e.isBound ⟨3⟩ = .ok false ∧ solve.run e = .ok (failures, e') ∧ e'.rules = [] ∧
      e'.isBound ⟨3⟩ = .ok true ∧
      e'.resolve (.slot ⟨0⟩) = .ok (.funct [.struct ⟨1⟩] .unit) ∧
      solve.run e' = .ok ([], e') := by
  have ha : Allocated 0 Sample.pending := by decide
  obtain ⟨-, -, errors, e, hrun, -, failures, e', hsolve, -, hrules, -, hbound, hagain⟩ :=
    session_terminates false ha
  have hrun' : ∃ errors e failures e',
      (performAll Sample.pending).run (.empty false) = .ok (errors, e) ∧ e.rules.length = 2 ∧
      e.isBound ⟨3⟩ = .ok false ∧ solve.run e = .ok (failures, e') ∧
      e'.slots[3]? = some ⟨.nowhere, true⟩ ∧
      e'.resolve (.slot ⟨0⟩) = .ok (.funct [.struct ⟨1⟩] .unit) :=
    ⟨_, _, _, _, rfl, rfl, rfl, rfl, rfl, rfl⟩
  obtain ⟨errors', e₁, failures', e₁', hrun', hcount, hopen, hsolve', hslot, hzero⟩ := hrun'
  cases hrun.symm.trans hrun'
  cases hsolve.symm.trans hsolve'
  exact ⟨ha, _, _, _, _, hrun, hcount, hopen, hsolve, hrules, hbound ⟨3⟩ _ hslot rfl, hzero, hagain⟩

end Semcheck
