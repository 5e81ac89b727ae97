/-
  What is known at a moment is known at the end.

  Lowering only adds to a body: to the report, to the registers and, in the strict
  mode, to what inference knows; nor does it forget that a step gave up
  (`Body.Later`).  A task that is called comes to an end if the task that calls it
  does, and what it leaves behind is only added to (`Task.Calls.through`).  So what a
  task has found out holds when the lowering of the function is over
  (`Task.Reaches.through`).
-/
import Semcheck.Proofs.Lower.Footprint

namespace Semcheck

open Lower Node
open List (prefix_rfl prefix_append)

/-! ## Later bodies -/

/-- In the strict mode inference forgets nothing. -/
structure Engine.Later (e e' : Engine) : Prop where
  strict : e'.strict = e.strict
  bindings : e.strict = true → e.bindings <+: e'.bindings
  rules : e.rules <+: e'.rules
  slots : e.slots.length ≤ e'.slots.length

namespace Engine.Later

variable {e e1 e' : Engine}

theorem refl (e : Engine) : Later e e :=
  ⟨rfl, fun _ => prefix_rfl, prefix_rfl, Nat.le_refl _⟩

theorem trans (h1 : Later e e1) (h2 : Later e1 e') : Later e e' :=
  ⟨h2.strict.trans h1.strict, fun hs => (h1.bindings hs).trans (h2.bindings (h1.strict.trans hs)),
    h1.rules.trans h2.rules, Nat.le_trans h1.slots h2.slots⟩

theorem admits {X : Rule → Prop} {θ : Slot → Ty} (h : Later e e') (hs : e.strict = true)
    (hθ : e'.Admits X θ) : e.Admits X θ :=
  ⟨fun entry hentry => hθ.bindings entry ((h.bindings hs).subset hentry),
    fun rule hrule => hθ.rules rule (h.rules.subset hrule)⟩

theorem stable (e : Engine) : Stable (Later e) where
  bind s t h := h.trans ⟨rfl, fun _ => prefix_append _ _, prefix_rfl, Nat.le_refl _⟩
  rebind s t hlax h := by
    refine ⟨h.strict, fun hs => ?_, h.rules, h.slots⟩
    rw [h.strict, hs] at hlax
    cases hlax
  same left right _ _ h :=
    h.trans ⟨rfl, fun _ => prefix_rfl, prefix_append _ _, Nat.le_refl _⟩

end Engine.Later

/-- A body and its code are only added to, in the strict mode. -/
structure Body.Later (b b' : Body) : Prop where
  report : b.report.entries <+: b'.report.entries
  engine : b.engine.Later b'.engine
  draft : b.draft.Adds b'.draft
  gaveUp : b.gaveUp = true → b'.gaveUp = true

namespace Body.Later

variable {b b1 b' : Body}

theorem refl (b : Body) : b.Later b :=
  ⟨prefix_rfl, .refl _, .refl _, id⟩

theorem trans (h1 : b.Later b1) (h2 : b1.Later b') : b.Later b' :=
  ⟨h1.report.trans h2.report, h1.engine.trans h2.engine, h1.draft.trans h2.draft,
    h2.gaveUp ∘ h1.gaveUp⟩

theorem whole (h : b.Later b') (hw : b'.gaveUp = false) : b.gaveUp = false :=
  Bool.eq_false_iff.2 fun hgave => Bool.eq_false_iff.1 hw (h.gaveUp hgave)

theorem withEngine {e : Engine} (h : b.engine.Later e) : b.Later { b with engine := e } :=
  ⟨prefix_rfl, h, .refl _, id⟩

theorem withReport {report : Report} (h : b.report.entries <+: report.entries) :
    b.Later { b with report := report } :=
  ⟨h, .refl _, .refl _, id⟩

end Body.Later

/-! ## Steps that only add -/

theorem Draft.setCurrent_adds {d : Draft} {s : OpenSegment} {f : OpenSegment → OpenSegment}
    (h : d.currentSegment = .ok s) (hf : ∀ s, s.instructions <+: (f s).instructions) :
    d.Adds (d.setCurrent (f s)) := by
  rw [currentSegment] at h
  split at h
  · rename_i hs
    cases h
    rw [setCurrent_eq hs]
    exact ⟨⟨prefix_rfl, rfl, prefix_rfl⟩, .update d.graph hf⟩
  · cases h

namespace Lower

variable {α β γ : Type}

/-- The step only adds to a body. -/
def Adding (x : Lower α) : Prop :=
  ∀ b r b', x.run b = .ok (r, b') → b.Later b'

theorem onEngine_adding {step : EngineM α}
    (h : ∀ {e a e'}, step.run e = .ok (a, e') → e.Later e') : Adding (onEngine step) := by
  intro b r b' hrun
  obtain ⟨a, e, hstep, -, rfl⟩ := onEngine_eq_ok.1 hrun
  exact .withEngine (h hstep)

theorem unify_adding (expected found : Ty) : Adding (onEngine (unify expected found).run) :=
  onEngine_adding fun {e _ _} hrun =>
    InferM.unify_maintains (Engine.Later.stable e) expected found e _ _ hrun (.refl e)

theorem agreeing_adding : Agreeing (fun _ => True) fun α (x : Lower α) => Adding x := by
  have haside : Aside (fun _ => True) fun α (x : Lower α) => ∀ b r b', x.run b = .ok (r, b') →
      True → b.Later b' := by
    refine aside_of_related (fun _ => .refl _) .trans (fun _ _ => trivial)
      (fun _ => ⟨prefix_rfl, .refl _, .refl _, fun _ => rfl⟩)
      (fun _ _ => .withReport (prefix_append _ _)) fun hblind hrun _ => .withEngine ?_
    exact ⟨(hblind.bindings hrun).2, fun _ => (hblind.bindings hrun).1 ▸ prefix_rfl,
      hblind.rules hrun, hblind.slots hrun⟩
  simp only [true_implies] at haside
  exact haside.agreeing unify_adding

theorem change_adding {f : Body → Body} (hf : ∀ b, f b = (f b.bare).around b)
    (hadds : ∀ b : Body, b.draft.Adds (f b).draft) : Adding (modify f) := by
  rintro b r b' ⟨⟩
  have hengine : (f b).engine = b.engine := by rw [hf b]; rfl
  have hreport : (f b).report = b.report := by rw [hf b]; rfl
  have hgaveUp : (f b).gaveUp = b.gaveUp := by rw [hf b]; rfl
  exact ⟨hreport ▸ prefix_rfl, hengine ▸ .refl _, hadds b, hgaveUp.trans⟩

theorem push_adding (i : Instruction) : Adding (push i) := by
  intro b r b' hrun
  have hrun' : (orFault (b.draft.push i) >>= fun d => set { b with draft := d }).run b =
      .ok (r, b') := hrun
  cases hd : b.draft.push i with
  | error fault =>
    rw [hd] at hrun'
    cases hrun'
  | ok d =>
    rw [hd] at hrun'
    cases hrun'
    obtain ⟨segment, hs, hd⟩ := Semcheck.bind_eq_ok.1 hd
    cases hd
    have hadds := Draft.setCurrent_adds hs (f := fun s => { s with
      instructions := s.instructions ++ [i] }) fun _ => prefix_append _ _
    exact ⟨prefix_rfl, .refl _, hadds, id⟩

theorem terminate_adding (t : Terminator) : Adding (terminate t) := by
  intro b r b' hrun
  have hrun' : (orAbort (b.draft.terminate t) >>= fun d => set { b with draft := d }).run b =
      .ok (r, b') := hrun
  cases hd : b.draft.terminate t with
  | error reason =>
    rw [hd] at hrun'
    cases hrun'
  | ok d =>
    rw [hd] at hrun'
    cases hrun'
    rw [Draft.terminate] at hd
    split at hd
    · cases hd
    · rename_i segment hs
      split at hd
      · cases hd
      · cases hd
        have hadds := Draft.setCurrent_adds hs (f := fun s => { s with terminator := some t })
          fun _ => prefix_rfl
        exact ⟨prefix_rfl, .refl _, hadds, id⟩

/-- **Lowering only adds.** -/
theorem invariant_adding : Invariant (fun _ => True) fun α (x : Lower α) => Adding x where
  toAgreeing := agreeing_adding
  newRegister type span := by
    rintro b r b' ⟨⟩
    exact ⟨prefix_rfl, .refl _, ⟨⟨prefix_append _ _, rfl, prefix_rfl⟩, .refl _⟩, id⟩
  push _ := push_adding _
  spill source type span := by
    refine agreeing_adding.bind ?_ fun temp =>
      agreeing_adding.bind (push_adding _) fun _ => agreeing_adding.pure _
    rintro b r b' ⟨⟩
    exact ⟨prefix_rfl, .refl _, ⟨⟨prefix_append _ _, rfl, prefix_rfl⟩, .refl _⟩, id⟩
  terminate := terminate_adding
  change := change_adding

theorem structured_adding : Structured (fun _ => True) True fun α (x : Lower α) => Adding x :=
  invariant_adding.structured

/-! ## Steps within steps -/

/-- If the first step, begun with `b`, comes to an end, then so does the second one, begun with `c`,
    and what it leaves behind is only added to. -/
def Through (x : Lower α) (b : Body) (y : Lower β) (c : Body) : Prop :=
  ∀ r b', x.run b = .ok (r, b') → ∃ r' c', y.run c = .ok (r', c') ∧ c'.Later b'

namespace Through

variable {x : Lower α} {y : Lower β} {f : α → Lower γ} {b c : Body} {a : α} {step : Lower Unit}

theorem here : Through x b x b :=
  fun _ _ hrun => ⟨_, _, hrun, .refl _⟩

theorem trans {z : Lower γ} {d : Body} (h1 : Through x b y c) (h2 : Through y c z d) :
    Through x b z d := by
  intro r b' hrun
  obtain ⟨r1, c', hrun1, hl1⟩ := h1 _ _ hrun
  obtain ⟨r2, d', hrun2, hl2⟩ := h2 _ _ hrun1
  exact ⟨r2, d', hrun2, hl2.trans hl1⟩

theorem first (h : Through x b y c) (hf : ∀ a, Adding (f a)) : Through (x >>= f) b y c := by
  intro r b' hrun
  rcases bind_eq_ok.1 hrun with ⟨a, b1, hrun1, hrun2⟩ | ⟨hrun1, -⟩
  · obtain ⟨r', c', hrun', hl⟩ := h _ _ hrun1
    exact ⟨r', c', hrun', hl.trans (hf a _ _ _ hrun2)⟩
  · exact h _ _ hrun1

theorem next {d : Body} (hx : x.run b = .ok (some a, d)) (h : Through (f a) d y c) :
    Through (x >>= f) b y c := by
  intro r b' hrun
  rw [run_bind_some hx] at hrun
  exact h _ _ hrun

theorem recover (h : Through step b y c) : Through (recover step) b y c := by
  intro r b' hrun
  rcases recover_eq_ok.1 hrun with ⟨hrun1, -⟩ | ⟨b1, hrun1, -, rfl⟩
  · exact h _ _ hrun1
  · obtain ⟨r', c', hrun', hl⟩ := h _ _ hrun1
    exact ⟨r', c', hrun', hl.trans ⟨prefix_rfl, .refl _, .refl _, fun _ => rfl⟩⟩

theorem attempt (h : Through step b y c) : Through (attempt step) b y c :=
  h.recover.first fun _ => invariant_adding.pure ()

theorem settling {cx : Context} {dest : Access} {value : Access → Lower Unit}
    (h : Through (value dest) b y c) : Through (settling cx dest value) b y c :=
  h.recover.first fun _ =>
    Aside.ite _ (invariant_adding.pure ()) (invariant_adding.unsettle dest)

theorem inLoop (h : Through step (b.atDepth (b.loopDepth + 1)) y c) : Through (inLoop step) b y c :=
  .next (d := b.atDepth (b.loopDepth + 1)) rfl
    (h.attempt.first fun _ => invariant_adding.change (fun _ => rfl) fun _ => .refl _)

end Through

/-! ## What comes before a call, step by step -/

variable {cx : Context} {b c : Body} {test : Access}

theorem lowerCondition_ok {condition : Expr}
    (hrun : (lowerCondition cx condition).run b = .ok (some test, c)) :
    ∃ b1, (conditionRegister condition.span).run b = .ok (some test, b1) ∧
      (settling cx test (lowerExpr cx condition)).run b1 = .ok (some (), c) := by
  obtain ⟨test', b1, hregister, hrun⟩ := bind_ok hrun
  obtain ⟨_, b2, hvalue, hrun⟩ := bind_ok hrun
  cases hrun
  exact ⟨b1, hregister, hvalue⟩

theorem branchOn_ok {second : SegmentId} (hrun : (branchOn test).run b = .ok (some second, c)) :
    ∃ first b1 b2 b3, newSegment.run b = .ok (some first, b1) ∧ b1.locals = b.locals ∧
      newSegment.run b1 = .ok (some second, b2) ∧
      (terminate (.branch test first second)).run b2 = .ok (some (), b3) ∧
      (switchTo first).run b3 = .ok (some (), c) := by
  obtain ⟨first, b1, hfirst, hrun⟩ := bind_ok hrun
  obtain ⟨_, b2, hsecond, hrun⟩ := bind_ok hrun
  obtain ⟨_, b3, hclose, hrun⟩ := bind_ok hrun
  obtain ⟨_, b4, hswitch, hrun⟩ := bind_ok hrun
  cases hrun
  refine ⟨first, b1, b2, b3, hfirst, ?_, hsecond, hclose, hswitch⟩
  cases hfirst
  rfl

theorem startLoop_ok {span : Location} (hrun : (startLoop span).run b = .ok (some test, c)) :
    ∃ head b1 b2 b3, newSegment.run b = .ok (some head, b1) ∧
      (terminate (.goto head)).run b1 = .ok (some (), b2) ∧
      (switchTo head).run b2 = .ok (some (), b3) ∧
      (conditionRegister span).run b3 = .ok (some test, c) := by
  obtain ⟨head, b1, hhead, hrun⟩ := bind_ok hrun
  obtain ⟨_, b2, hclose, hrun⟩ := bind_ok hrun
  obtain ⟨_, b3, hswitch, hrun⟩ := bind_ok hrun
  exact ⟨head, b1, b2, b3, hhead, hclose, hswitch, hrun⟩

theorem assignments_run (b : Body) :
    assignments.run b = .ok (some (b.locals.map Local.assigned), b) :=
  rfl

/-! ## Every part only adds -/

theorem lowerExpr_adding (e : Expr) (dest : Access) : Adding (lowerExpr cx e dest) :=
  structured_adding.lowerExpr e (within_true _).fits dest

theorem lowerPlace_adding (e : Expr) (purpose : Purpose) : Adding (lowerPlace cx e purpose) :=
  structured_adding.lowerPlace e (within_true _).fits purpose

theorem lowerOperands_adding (es : List Expr) : Adding (lowerOperands cx es) :=
  structured_adding.lowerOperands es fun _ _ => (within_true _).fits

theorem lowerInits_adding (inits : List FieldInit) (f : Fields) : Adding (lowerInits cx inits f) :=
  structured_adding.lowerInits inits (fun _ _ => (within_true _).fits) f

theorem markPlace_adding (place : Place) {dest : Access} (span : Location) : Adding (do
    match place.localIndex with
    | some index => markAssigned index
    | none => pure ()
    moveUnit cx dest span) := by
  have hi := structured_adding
  cases place.localIndex with
  | some index => exact hi.bind (hi.markAssigned index) fun _ => hi.moveUnit trivial trivial
  | none => exact hi.moveUnit trivial trivial

theorem lowerHolder_adding (e : Expr) : Adding (lowerHolder cx e) :=
  invariant_adding.placeOrTemp trivial (lowerPlace_adding e .read) (lowerExpr_adding e)

theorem resolveFields_adding (path : Path) : Adding (resolveFields cx path) := by
  have hi := invariant_adding
  refine hi.look (fun _ => rfl) fun b => hi.bind
    (hi.orReport fun e he => Table.resolveType_arises he trivial) fun id => ?_
  exact hi.bind (hi.orFault _) fun fields => hi.bind (hi.orFault _) fun name => hi.pure _

theorem lowerCondition_adding (condition : Expr) : Adding (lowerCondition cx condition) := by
  have hi := invariant_adding
  exact hi.bind (hi.conditionRegister _) fun test =>
    hi.bind (hi.settling test (lowerExpr_adding condition)) fun _ => hi.pure test

theorem branchOn_adding (test : Access) : Adding (branchOn test) := by
  have hi := invariant_adding
  refine hi.bind hi.newSegment fun first => hi.bind hi.newSegment fun second => ?_
  exact hi.bind (hi.terminate _) fun _ => hi.bind (hi.switchTo first) fun _ => hi.pure second

theorem goElse_adding (before : List Assigned) (start : SegmentId) : Adding (goElse before start) :=
  have hi := invariant_adding
  hi.bind (hi.restoreAssignments before) fun _ => hi.switchTo start

theorem startLoop_adding (span : Location) : Adding (startLoop span) := by
  have hi := invariant_adding
  refine hi.bind hi.newSegment fun head => hi.bind (hi.terminate _) fun _ => ?_
  exact hi.bind (hi.switchTo head) fun _ => hi.conditionRegister span

theorem declareRegister_adding (name : Ident) (type : Option TypeExpr) :
    Adding (declareRegister cx name type) :=
  have hi := invariant_adding
  hi.bind (hi.letType trivial fun _ _ => within_true _) fun _ => hi.newRegister _ _

theorem lowerStmt_adding (s : Stmt) (dest : Option Access) : Adding (lowerStmt cx s dest) :=
  structured_adding.lowerStmt s (within_true _).fits dest

theorem lowerStmts_adding (span : Location) (stmts : List Stmt) (dest : Access) :
    Adding (lowerStmts cx span stmts dest) :=
  structured_adding.lowerStmts trivial stmts (fun _ _ => (within_true _).fits) dest

end Lower

/-! ## Calls -/

namespace Task

variable {cx : Context} {t t' : Task} {b c : Body}

theorem Calls.through (h : Calls cx t b t' c) : Through (t.lower cx) b (t'.lower cx) c := by
  have hi := invariant_adding
  cases h with
  | block =>
    exact .next (d := b) rfl (.first .here fun _ => hi.change (fun _ => rfl) fun _ => .refl _)
  | elements => exact .first .here fun _ => hi.moveLiteral _ _ trivial trivial
  | fields hfields =>
    rw [Task.lower, lowerExpr_structLit]
    exact .next hfields (.first .here fun _ => hi.makeStruct _ _ trivial trivial)
  | name =>
    refine .first .here fun found => ?_
    cases found with
    | some place => exact hi.copyPlace place trivial trivial
    | none => exact hi.lowerDeclValue trivial trivial trivial
  | placeName hlocal => exact .next hlocal (.first .here fun _ => hi.pure _)
  | field =>
    rw [Task.lower, lowerExpr_field]
    exact .first .here fun place => hi.copyPlace place trivial trivial
  | placeRecord =>
    exact .first .here fun p => hi.bind (hi.fieldPlace p trivial trivial) fun _ => hi.pure _
  | addressed => exact .first .here fun p => hi.takeAddress _ p trivial trivial trivial
  | deref =>
    rw [Task.lower, lowerExpr_deref]
    exact .first .here fun place => hi.copyPlace place trivial trivial
  | placePointer =>
    exact .first .here fun p => hi.bind (hi.targetPlace p trivial) fun _ => hi.pure _
  | callee =>
    exact .first .here fun p => hi.bind (lowerOperands_adding _) fun _ =>
      hi.makeCall p (fun _ _ => trivial) trivial trivial trivial
  | args hcallee =>
    exact .next hcallee (.first .here fun _ =>
      hi.makeCall _ (fun _ _ => trivial) trivial trivial trivial)
  | @condition _ thenBranch elseBranch _ _ _ _ _ htest =>
    cases elseBranch with
    | none =>
      exact .next htest (.first (.settling .here) fun _ =>
        hi.makeWhen cx _ trivial (lowerExpr_adding thenBranch) _ trivial)
    | some elseBranch =>
      exact .next htest (.first (.settling .here) fun _ =>
        hi.makeIfElse cx _ (lowerExpr_adding thenBranch) (lowerExpr_adding elseBranch) _)
  | whenBranch htest hbranch htemp =>
    obtain ⟨b1, hregister, hvalue⟩ := lowerCondition_ok htest
    obtain ⟨first, b2, b3, b4, hfirst, -, hsecond, hclose, hswitch⟩ := branchOn_ok hbranch
    refine .next hregister (.next hvalue (.next hfirst (.next (assignments_run _)
      (.next hsecond (.next hclose (.next hswitch (.next htemp (.first (.attempt (.settling .here))
        fun _ => ?_))))))))
    exact hi.bind (hi.terminate _) fun _ => hi.bind (hi.switchTo _) fun _ =>
      hi.bind (hi.joinAssignments _) fun _ => hi.moveUnit trivial trivial
  | thenBranch htest hbranch =>
    obtain ⟨b1, hregister, hvalue⟩ := lowerCondition_ok htest
    obtain ⟨first, b2, b3, b4, hfirst, -, hsecond, hclose, hswitch⟩ := branchOn_ok hbranch
    refine .next hregister (.next hvalue (.next hfirst (.next (assignments_run _)
      (.next hsecond (.next hclose (.next hswitch (.first (.attempt (.settling .here))
        fun _ => ?_)))))))
    refine hi.bind hi.currentSegment fun _ => hi.bind hi.assignments fun _ => ?_
    refine hi.bind (hi.restoreAssignments _) fun _ => hi.bind (hi.switchTo _) fun _ => ?_
    exact hi.bind (hi.attempt (hi.settling _ (lowerExpr_adding _))) fun _ => hi.joinBoth _ _
  | elseBranch htest hbranch hthen helse =>
    obtain ⟨b1, hregister, hvalue⟩ := lowerCondition_ok htest
    obtain ⟨first, b2, b3, b4, hfirst, hlocals, hsecond, hclose, hswitch⟩ := branchOn_ok hbranch
    obtain ⟨_, b5, hrestore, hgo⟩ := bind_ok helse
    rw [← hlocals] at hrestore
    exact .next hregister (.next hvalue (.next hfirst (.next (assignments_run _)
      (.next hsecond (.next hclose (.next hswitch (.next hthen (.next rfl (.next rfl
        (.next hrestore (.next hgo (.first (.attempt (.settling .here))
          fun _ => hi.joinBoth _ _))))))))))))
  | loopCondition hstart =>
    obtain ⟨head, b1, b2, b3, hhead, hclose, hswitch, hregister⟩ := startLoop_ok hstart
    refine .next hhead (.next hclose (.next hswitch (.next hregister
      (.first (.inLoop (.settling .here)) fun _ => ?_))))
    refine hi.bind hi.assignments fun _ => hi.bind hi.newSegment fun _ => ?_
    refine hi.bind hi.newSegment fun _ => hi.bind (hi.terminate _) fun _ => ?_
    refine hi.bind (hi.switchTo _) fun _ => hi.bind (hi.newTemp trivial) fun _ => ?_
    exact hi.bind (hi.inLoop (hi.settling _ (lowerExpr_adding _))) fun _ =>
      hi.endLoop _ _ _ trivial
  | loopBody hstart htest hbranch htemp =>
    obtain ⟨head, b1, b2, b3, hhead, hclose, hswitch, hregister⟩ := startLoop_ok hstart
    obtain ⟨first, b4, b5, b6, hfirst, -, hsecond, hclose', hswitch'⟩ := branchOn_ok hbranch
    exact .next hhead (.next hclose (.next hswitch (.next hregister (.next htest
      (.next (assignments_run _) (.next hfirst (.next hsecond (.next hclose' (.next hswitch'
        (.next htemp (.first (.inLoop (.settling .here)) fun _ =>
          hi.endLoop _ _ _ trivial)))))))))))
  | target =>
    rw [Task.lower, lowerExpr_assign]
    exact .first (.first .here fun _ => hi.assignedPlace _ trivial) fun _ =>
      hi.bind (hi.settling _ (lowerExpr_adding _)) fun _ => markPlace_adding _ _
  | value htarget =>
    rw [Task.lower, lowerExpr_assign]
    exact .next htarget (.first (.settling .here) fun _ => markPlace_adding _ _)
  | returned htarget => exact .next htarget (.first (.settling .here) fun _ => hi.leave cx _)
  | held =>
    refine .first .here fun found => ?_
    cases found with
    | some p => exact hi.pure p
    | none =>
      exact hi.bind (hi.newTemp trivial) fun _ => hi.bind
        (hi.settling _ (lowerExpr_adding _)) fun _ => hi.bind (hi.registerType _) fun _ => hi.pure _
  | spilled hplace htemp =>
    exact .next hplace (.next htemp (.first (.settling .here) fun _ =>
      hi.bind (hi.registerType _) fun _ => hi.pure _))
  | operand htemp =>
    exact .first (.next htemp (.first (.settling .here) fun _ =>
      hi.bind (hi.registerType _) fun _ => hi.pure _)) fun _ =>
        hi.bind (lowerOperands_adding _) fun _ => hi.pure _
  | otherOperands hfirst => exact .next hfirst (.first .here fun _ => hi.pure _)
  | init hfield hunwritten hregister =>
    refine .first ?_ fun _ => lowerInits_adding _ _
    rw [lowerInit, hfield]
    dsimp only
    rw [hunwritten, if_neg Bool.false_ne_true]
    exact .next hregister (.first (.recover (.settling .here)) fun _ => hi.pure _)
  | otherInits hfirst => exact .next hfirst .here
  | result => exact .settling .here
  | ignored htemp => exact .next htemp (.settling .here)
  | @initializer name mutable type init span dest _ _ _ hregister =>
    change Through (makeLetStmt cx (makeLet cx name mutable type (some (lowerExpr cx init))) dest
      span) b _ c
    rw [makeLet_some]
    refine .first (.recover (.next hregister (.first (.recover (.settling .here)) fun _ => ?_)))
      fun _ => ?_
    · exact hi.bind (hi.change (fun _ => rfl) fun _ => ⟨⟨prefix_rfl, rfl,
        prefix_append _ _⟩, .refl _⟩) fun _ => Aside.ite _ hi.giveUp (hi.pure ())
    · exact hi.bind (hi.statementUnit (fun _ _ => trivial) trivial) fun _ =>
        Aside.ite _ hi.giveUp (hi.pure ())
  | lastStmt => exact .attempt .here
  | firstStmt => exact .first (.attempt .here) fun _ => lowerStmts_adding _ _ _
  | otherStmts hfirst => exact .next hfirst .here

/-- What comes before a call only adds. -/
theorem Calls.later (h : Calls cx t b t' c) : b.Later c := by
  have hi := invariant_adding
  cases h with
  | block | elements | name | field | addressed | deref | callee | target | placeRecord
  | placePointer | held | result | lastStmt | firstStmt => exact .refl b
  | fields hfields => exact resolveFields_adding _ _ _ _ hfields
  | placeName hlocal => exact hi.lookupLocal _ _ _ _ hlocal
  | args hcallee => exact lowerHolder_adding _ _ _ _ hcallee
  | condition htest => exact hi.conditionRegister _ _ _ _ htest
  | whenBranch htest hbranch htemp =>
    exact (lowerCondition_adding _ _ _ _ htest).trans
      ((branchOn_adding _ _ _ _ hbranch).trans (hi.newTemp trivial _ _ _ htemp))
  | thenBranch htest hbranch =>
    exact (lowerCondition_adding _ _ _ _ htest).trans (branchOn_adding _ _ _ _ hbranch)
  | elseBranch htest hbranch hthen helse =>
    exact (lowerCondition_adding _ _ _ _ htest).trans ((branchOn_adding _ _ _ _ hbranch).trans
      ((hi.attempt (hi.settling _ (lowerExpr_adding _)) _ _ _ hthen).trans
        (goElse_adding _ _ _ _ _ helse)))
  | loopCondition hstart =>
    exact (startLoop_adding _ _ _ _ hstart).trans ⟨prefix_rfl, .refl _, .refl _, id⟩
  | loopBody hstart htest hbranch htemp =>
    exact (startLoop_adding _ _ _ _ hstart).trans
      ((hi.inLoop (hi.settling _ (lowerExpr_adding _)) _ _ _ htest).trans
        ((branchOn_adding _ _ _ _ hbranch).trans ((hi.newTemp trivial _ _ _ htemp).trans
          ⟨prefix_rfl, .refl _, .refl _, id⟩)))
  | value htarget =>
    exact hi.bind (lowerPlace_adding _ _) (fun _ => hi.assignedPlace _ trivial) _ _ _ htarget
  | returned htarget => exact hi.returnTarget _ _ _ _ htarget
  | spilled hplace htemp =>
    exact (lowerPlace_adding _ _ _ _ _ hplace).trans (hi.newTemp trivial _ _ _ htemp)
  | operand htemp | ignored htemp => exact hi.newTemp trivial _ _ _ htemp
  | otherOperands hfirst => exact hi.lowerOperand trivial (lowerExpr_adding _) _ _ _ hfirst
  | init _ _ hregister => exact hi.newRegister _ _ _ _ _ hregister
  | otherInits hfirst =>
    exact hi.lowerInit _ trivial trivial _ (lowerExpr_adding _) _ _ _ hfirst
  | initializer hregister => exact declareRegister_adding _ _ _ _ _ hregister
  | otherStmts hfirst => exact hi.attempt (lowerStmt_adding _ _) _ _ _ hfirst

theorem Reaches.later (h : Reaches cx t b t' c) : b.Later c := by
  induction h with
  | here => exact .refl _
  | there hcall _ ih => exact hcall.later.trans ih

/-- **A task that is reached comes to an end**, and what it leaves behind is only added to. -/
theorem Reaches.through (h : Reaches cx t b t' c) : Through (t.lower cx) b (t'.lower cx) c := by
  induction h with
  | here => exact .here
  | there hcall _ ih => exact hcall.through.trans ih

end Task

end Semcheck
