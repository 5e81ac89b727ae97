/-
  Places have their types at all later stages.

  The stages of the lowering of a body are the moments at which tasks begin or end (`Task.Passes`),
  and those at which the code and the types are closed (`Stage`).  They come one after the other:
  of two tasks that a task calls the one is over before the other begins (`Task.Calls.ordered`), and
  of two stages one has all that the other one has (`Stage.ordered`).

  A place is found together with its type.  Told from its access, the type is the same at that
  moment and at all later stages (`Task.Yields.agrees`), also if something was reported.
-/
import Semcheck.Proofs.Lower.Address

namespace Semcheck

open Lower Body List

/-! ## Tasks in turn -/

namespace Task

/-- The task, begun with `b`, comes to an end, and to what it leaves behind only is added until
    there is `c`. -/
def Over (cx : Context) (t : Task) (b c : Body) : Prop :=
  ∃ r d, (t.lower cx).run b = .ok (r, d) ∧ d.Later c

/-- The task, begun with `b`, comes by `c`: one of the tasks that it reaches begins or ends there. -/
inductive Passes (cx : Context) : Task → Body → Body → Prop
  | start {t b} : Passes cx t b b
  | done {t b r c} (hrun : (t.lower cx).run b = .ok (r, c)) : Passes cx t b c
  | within {t b t' b' c} (hcall : Calls cx t b t' b') (h : Passes cx t' b' c) : Passes cx t b c

variable {cx : Context} {t t1 t2 t' : Task} {b b1 b2 c c' d : Body}

theorem Over.later (h : Over cx t b c) (hl : c.Later c') : Over cx t b c' := by
  obtain ⟨r, d, hrun, hd⟩ := h
  exact ⟨r, d, hrun, hd.trans hl⟩

section Pairs

variable {condition e : Expr} {test test' dest : Access} {second : SegmentId} {temp : RegisterId}

theorem condition_over (htest : (conditionRegister condition.span).run b = .ok (some test, c))
    (hcondition : (lowerCondition cx condition).run b = .ok (some test', b1))
    (hbranch : (branchOn test').run b1 = .ok (some second, d)) :
    Over cx (.expr condition test) c d := by
  obtain ⟨_, htest', hvalue⟩ := lowerCondition_ok hcondition
  cases htest.symm.trans htest'
  exact Over.later (Through.settling .here _ _ hvalue) (branchOn_adding _ _ _ _ hbranch)

theorem branch_over {before : List Assigned} {start : SegmentId}
    (hthen : (attempt (settling cx dest (lowerExpr cx e))).run b = .ok (some (), c))
    (helse : (goElse before start).run c = .ok (some (), d)) : Over cx (.expr e dest) b d :=
  Over.later (Through.attempt (.settling .here) _ _ hthen) (goElse_adding _ _ _ _ _ helse)

theorem loopCondition_over {span : Location}
    (htest : (inLoop (settling cx test (lowerExpr cx e))).run b = .ok (some (), b1))
    (hbranch : (branchOn test').run b1 = .ok (some second, b2))
    (htemp : (newTemp span).run b2 = .ok (some temp, c)) :
    Over cx (.expr e test) (b.atDepth (b.loopDepth + 1)) (c.atDepth (c.loopDepth + 1)) := by
  have hi := invariant_adding
  exact Over.later (Through.inLoop (.settling .here) _ _ htest)
    ((branchOn_adding _ _ _ _ hbranch).trans ((hi.newTemp trivial _ _ _ htemp).trans
      ⟨prefix_rfl, .refl _, .refl _, id⟩))

theorem operand_over {o : Operand} (htemp : (newTemp e.span).run b = .ok (some temp, c))
    (hfirst : (lowerOperand cx e.span (lowerExpr cx e)).run b = .ok (some o, d)) :
    Over cx (.expr e (.register temp)) c d := by
  have hi := invariant_adding
  have hthrough : Through (lowerOperand cx e.span (lowerExpr cx e)) b
      (lowerExpr cx e (.register temp)) c :=
    .next htemp (.first (.settling .here) fun _ => hi.bind (hi.registerType _) fun _ => hi.pure _)
  exact hthrough _ _ hfirst

theorem init_over {name : Ident} {span : Location} {f f' : Fields} {index : Nat} {field : Field}
    (hfield : findField name.text f.fields = some (index, field))
    (hunwritten : (f.values[index]?.bind id).isSome = false)
    (hregister : (newRegister field.type e.span).run b = .ok (some temp, c))
    (hfirst : (lowerInit cx f name span e.span (lowerExpr cx e)).run b = .ok (some f', d)) :
    Over cx (.expr e (.register temp)) c d := by
  rw [lowerInit, hfield] at hfirst
  dsimp only at hfirst
  rw [hunwritten, if_neg Bool.false_ne_true] at hfirst
  exact Through.next hregister (.first (.recover (.settling .here)) fun _ =>
    invariant_adding.pure _) _ _ hfirst

end Pairs

/-- **Calls come in turn.**  Of two tasks that a task calls the one is over before the other
    begins. -/
theorem Calls.ordered (h1 : Calls cx t b t1 b1) (h2 : Calls cx t b t2 b2) :
    (t1 = t2 ∧ b1 = b2) ∨ Over cx t1 b1 b2 ∨ Over cx t2 b2 b1 := by
  have hi := invariant_adding
  cases h1 with
  | block | elements | name | field | addressed | deref | result | lastStmt | placeRecord
  | placePointer =>
    cases h2
    exact .inl ⟨rfl, rfl⟩
  | fields | returned | placeName | ignored | initializer =>
    cases h2
    grind
  | callee =>
    cases h2 with
    | callee => exact .inl ⟨rfl, rfl⟩
    | args hcallee => exact .inr (.inl ⟨_, _, hcallee, .refl _⟩)
  | args hcallee =>
    cases h2 with
    | callee => exact .inr (.inr ⟨_, _, hcallee, .refl _⟩)
    | args => grind
  | condition htest =>
    cases h2 with
    | condition => grind
    | whenBranch hcondition hbranch htemp =>
      exact .inr (.inl ((condition_over htest hcondition hbranch).later
        (hi.newTemp trivial _ _ _ htemp)))
    | thenBranch hcondition hbranch => exact .inr (.inl (condition_over htest hcondition hbranch))
    | elseBranch hcondition hbranch hthen helse =>
      exact .inr (.inl ((condition_over htest hcondition hbranch).later
        ((hi.attempt (hi.settling _ (lowerExpr_adding _)) _ _ _ hthen).trans
          (goElse_adding _ _ _ _ _ helse))))
  | whenBranch hcondition hbranch htemp =>
    cases h2 with
    | condition htest =>
      exact .inr (.inr ((condition_over htest hcondition hbranch).later
        (hi.newTemp trivial _ _ _ htemp)))
    | whenBranch => grind
  | thenBranch hcondition hbranch =>
    cases h2 with
    | condition htest => exact .inr (.inr (condition_over htest hcondition hbranch))
    | thenBranch => grind
    | elseBranch hcondition' hbranch' hthen helse =>
      cases hcondition.symm.trans hcondition'
      cases hbranch.symm.trans hbranch'
      exact .inr (.inl (branch_over hthen helse))
  | elseBranch hcondition hbranch hthen helse =>
    cases h2 with
    | condition htest =>
      exact .inr (.inr ((condition_over htest hcondition hbranch).later
        ((hi.attempt (hi.settling _ (lowerExpr_adding _)) _ _ _ hthen).trans
          (goElse_adding _ _ _ _ _ helse))))
    | thenBranch hcondition' hbranch' =>
      cases hcondition.symm.trans hcondition'
      cases hbranch.symm.trans hbranch'
      exact .inr (.inr (branch_over hthen helse))
    | elseBranch => grind
  | loopCondition hstart =>
    cases h2 with
    | loopCondition => grind
    | loopBody hstart' htest hbranch htemp =>
      cases hstart.symm.trans hstart'
      exact .inr (.inl (loopCondition_over htest hbranch htemp))
  | loopBody hstart htest hbranch htemp =>
    cases h2 with
    | loopCondition hstart' =>
      cases hstart.symm.trans hstart'
      exact .inr (.inr (loopCondition_over htest hbranch htemp))
    | loopBody => grind
  | target =>
    cases h2 with
    | target => exact .inl ⟨rfl, rfl⟩
    | value htarget =>
      exact .inr (.inl (Through.first .here (fun _ => hi.assignedPlace _ trivial) _ _ htarget))
  | value htarget =>
    cases h2 with
    | target =>
      exact .inr (.inr (Through.first .here (fun _ => hi.assignedPlace _ trivial) _ _ htarget))
    | value => grind
  | held =>
    cases h2 with
    | held => exact .inl ⟨rfl, rfl⟩
    | spilled hplace htemp => exact .inr (.inl ⟨_, _, hplace, hi.newTemp trivial _ _ _ htemp⟩)
  | spilled hplace htemp =>
    cases h2 with
    | held => exact .inr (.inr ⟨_, _, hplace, hi.newTemp trivial _ _ _ htemp⟩)
    | spilled => grind
  | operand htemp =>
    cases h2 with
    | operand => grind
    | otherOperands hfirst => exact .inr (.inl (operand_over htemp hfirst))
  | otherOperands hfirst =>
    cases h2 with
    | operand htemp => exact .inr (.inr (operand_over htemp hfirst))
    | otherOperands => grind
  | init hfield hunwritten hregister =>
    cases h2 with
    | init => grind
    | otherInits hfirst => exact .inr (.inl (init_over hfield hunwritten hregister hfirst))
  | otherInits hfirst =>
    cases h2 with
    | init hfield hunwritten hregister =>
      exact .inr (.inr (init_over hfield hunwritten hregister hfirst))
    | otherInits => grind
  | firstStmt =>
    cases h2 with
    | firstStmt => exact .inl ⟨rfl, rfl⟩
    | otherStmts hfirst => exact .inr (.inl (Through.attempt .here _ _ hfirst))
  | otherStmts hfirst =>
    cases h2 with
    | firstStmt => exact .inr (.inr (Through.attempt .here _ _ hfirst))
    | otherStmts => grind

/-! ## Moments of a task -/

theorem Reaches.passes (h : Reaches cx t b t' c) (hc : Passes cx t' c d) : Passes cx t b d := by
  induction h with
  | here => exact hc
  | there hcall _ ih => exact .within hcall (ih hc)

theorem adding (t : Task) : Adding (t.lower cx) := by
  cases t with
  | expr e dest => exact lowerExpr_adding e dest
  | place e purpose => exact lowerPlace_adding e purpose
  | holder e => exact lowerHolder_adding e
  | operands es => exact lowerOperands_adding es
  | inits rest f => exact lowerInits_adding rest f
  | stmt s dest => exact lowerStmt_adding s dest
  | stmts span rest dest => exact lowerStmts_adding span rest dest
  | consult index l purpose span => exact invariant_adding.localPlace index l purpose trivial

theorem Passes.of_start (h : Passes cx t b c) : b.Later c := by
  induction h with
  | start => exact .refl _
  | done hrun => exact adding _ _ _ _ hrun
  | within hcall _ ih => exact hcall.later.trans ih

theorem Passes.to_end (h : Passes cx t b c) {r : Option t.Result}
    (hrun : (t.lower cx).run b = .ok (r, d)) : c.Later d := by
  induction h generalizing d with
  | start => exact adding _ _ _ _ hrun
  | done hrun' =>
    cases hrun.symm.trans hrun'
    exact .refl _
  | within hcall _ ih =>
    obtain ⟨r', d', hrun', hl⟩ := hcall.through _ _ hrun
    exact (ih hrun').trans hl

/-- Of two moments one comes first. -/
theorem Passes.ordered (h : Passes cx t b c) (h' : Passes cx t b c') : c.Later c' ∨ c'.Later c := by
  induction h generalizing c' with
  | start => exact .inl h'.of_start
  | done hrun => exact .inr (h'.to_end hrun)
  | within hcall h ih =>
    cases h' with
    | start => exact .inr (hcall.later.trans h.of_start)
    | done hrun => exact .inl (Passes.to_end (.within hcall h) hrun)
    | within hcall' h' =>
      obtain ⟨rfl, rfl⟩ | ⟨r, d, hrun, hl⟩ | ⟨r, d, hrun, hl⟩ := hcall.ordered hcall'
      · exact ih h'
      · exact .inl ((h.to_end hrun).trans (hl.trans h'.of_start))
      · exact .inr ((h'.to_end hrun).trans (hl.trans h.of_start))

theorem Ready.intact (h : t.Ready cx b) : b.Intact cx := by
  cases t with
  | place _ _ | holder _ | operands _ => exact Body.Ready.intact h
  | expr _ _ | stmts _ _ _ | stmt _ _ | inits _ _ | consult _ _ _ _ => exact h.1.intact

theorem Ready.spec (h : t.Ready cx b) : ∃ P Q, Spec cx b (t.lower cx) P Q := by
  cases t with
  | expr e dest =>
    exact ⟨_, _, (lowerExpr_lowers cx e).fills h.1.intact h.2⟩
  | place e purpose => exact ⟨_, _, lowerPlace_places cx e b purpose h.intact⟩
  | holder e => exact ⟨_, _, lowerHolder_spec cx e h.intact⟩
  | operands es => exact ⟨_, _, lowerOperands_lowers cx es b h.intact⟩
  | inits rest f =>
    obtain ⟨hb, fields, hf, ht, hwithin, hplain⟩ := h
    exact ⟨_, _, lowerInits_lowers cx rest b fields f hb.intact hf ht hwithin hplain⟩
  | stmt s dest =>
    cases dest with
    | none => exact ⟨_, _, (lowerStmt_lowers cx s).1 b h.1.intact⟩
    | some dest =>
      have hd := h.2 dest rfl
      exact ⟨_, _, (lowerStmt_lowers cx s).2 b dest h.1.intact hd.inRange hd.accepts⟩
  | stmts span rest dest =>
    exact ⟨_, _, lowerStmts_lowers cx span rest b dest h.1.intact h.2.inRange h.2.accepts⟩
  | consult index l purpose span =>
    obtain ⟨hb, x, hfind⟩ := h
    exact ⟨_, _, localPlace_spec hb.intact hfind purpose span⟩

theorem Passes.intact (h : Passes cx t b c) (hb : t.Ready cx b) : c.Intact cx := by
  induction h with
  | start => exact Task.Ready.intact hb
  | done hrun =>
    obtain ⟨P, Q, hspec⟩ := hb.spec
    obtain ⟨sh, hg, -⟩ := hspec.of_run hrun
    exact hg.intact
  | within hcall _ ih => exact ih (hcall.ready hb)

/-- The task finds the place, and leaves `d` behind. -/
inductive Yields (cx : Context) : Task → Body → Place → Body → Prop
  | place {e purpose b p d} (hrun : (lowerPlace cx e purpose).run b = .ok (some (some p), d)) :
    Yields cx (.place e purpose) b p d
  | holder {e b p d} (hrun : (lowerHolder cx e).run b = .ok (some p, d)) :
    Yields cx (.holder e) b p d

end Task

/-! ## Stages -/

/-- While the body `e` is lowered, starting with `start`, there is `c`. -/
inductive Stage (cx : Context) (e : Expr) (start : Body) : Body → Prop
  | task {c} (h : Task.Passes cx (.expr e cx.result) start c) : Stage cx e start c
  | lowered {r c} (hrun : (lowerRoot cx e).run start = .ok (r, c)) : Stage cx e start c
  | closed {r c} (hrun : (do lowerRoot cx e; closeTypes cx).run start = .ok (r, c)) :
    Stage cx e start c

section Stages

variable {cx : Context} {e : Expr} {start b c c' d : Body} {p : Place}

/-- What comes behind the tasks: first the code is closed, and then the types. -/
theorem Stage.ends (hb : start.Intact cx) (hs : start.engine.strict = true) :
    ∃ last final, last.Grounded cx ∧ final.Grounded cx ∧ last.Extends final ∧
      (∀ c, Task.Passes cx (.expr e cx.result) start c → c.Extends last) ∧
      ∀ c, Stage cx e start c →
        Task.Passes cx (.expr e cx.result) start c ∨ c = last ∨ c = final := by
  obtain ⟨sh, b1, -, hroot, hg, -⟩ := lowerRoot_run hb e
  let last := b1.withGraph (b1.draft.graph.close (.leave cx.result))
  obtain ⟨failures, engine, report, hclose, -, hsolving, -⟩ := closeTypes_run cx (b := last)
    hg.intact.engine
  have hk := hsolving.keeps
  refine ⟨last, { last with engine := engine, report := report }, ?_, ?_, ?_, fun c h => ?_,
    fun c h => ?_⟩
  · exact ⟨hb.context, hg.intact.engine, hg.intact.registers⟩
  · exact ⟨hb.context, hk.valid, fun r hr => hk.slots ▸ hg.intact.registers r hr⟩
  · exact ⟨prefix_rfl, rfl, hk.grows (hg.engine.strict.trans hs), prefix_rfl⟩
  · obtain ⟨r, d, hrun, hl⟩ := lowerRoot_through cx e start _ _ hroot
    exact ((h.to_end hrun).trans hl).extends_strict (h.of_start.engine.strict.trans hs)
  · cases h with
    | task h => exact .inl h
    | lowered hrun =>
      cases hrun.symm.trans hroot
      exact .inr (.inl rfl)
    | closed hrun =>
      rw [run_bind_some hroot, hclose] at hrun
      cases hrun
      exact .inr (.inr rfl)

variable (hready : (Task.expr e cx.result).Ready cx start) (hs : start.engine.strict = true)
include hready hs

theorem Stage.grounded (h : Stage cx e start c) : c.Grounded cx := by
  obtain ⟨last, final, hlast, hfinal, -, -, hcases⟩ := Stage.ends (e := e) hready.intact hs
  obtain h | rfl | rfl := hcases c h
  · exact (h.intact hready).grounded
  · exact hlast
  · exact hfinal

/-- **Stages come one after the other.**  Of two stages one has all that the other one has. -/
theorem Stage.ordered (h : Stage cx e start c) (h' : Stage cx e start c') :
    c.Extends c' ∨ c'.Extends c := by
  obtain ⟨last, final, -, -, hx, hlast, hcases⟩ := Stage.ends (e := e) hready.intact hs
  obtain h | rfl | rfl := hcases c h
  · obtain h' | rfl | rfl := hcases c' h'
    · exact (h.ordered h').imp (·.extends_strict (h.of_start.engine.strict.trans hs))
        (·.extends_strict (h'.of_start.engine.strict.trans hs))
    · exact .inl (hlast c h)
    · exact .inl ((hlast c h).trans hx)
  · obtain h' | rfl | rfl := hcases c' h'
    · exact .inr (hlast c' h')
    · exact .inl (.refl _)
    · exact .inl hx
  · obtain h' | rfl | rfl := hcases c' h'
    · exact .inr ((hlast c' h').trans hx)
    · exact .inr hx
    · exact .inl (.refl _)

end Stages

/-! ## Types of places -/

/-- The type of the place, told from its access, is the type it was found with. -/
def Place.Agrees (cx : Context) (p : Place) (c : Body) : Prop :=
  ∃ type full, (accessType cx p.access).run c = .ok (some (some type), c) ∧
    c.engine.resolve type = .ok full ∧ c.engine.resolve p.type = .ok full

theorem Place.Typed.agrees {cx : Context} {p : Place} {b c : Body} (h : p.Typed cx b)
    (hx : b.Extends c) (hc : c.Grounded cx) : p.Agrees cx c := by
  obtain ⟨hrun, hwithin⟩ := accessType_eq hc (hx.accessType? h.access)
  have hresolve := hc.engine.resolve hwithin
  exact ⟨_, _, hrun, hresolve, hresolve⟩

variable {files : List SourceFile} {pending : PendingFunct} {cx : Context} {e : Expr} {t : Task}
  {start b d : Body} {p : Place}

theorem Task.Yields.passes (h : t.Yields cx b p d) : t.Passes cx b d := by
  cases h with
  | place hrun | holder hrun => exact .done hrun

theorem Task.Yields.inRange (h : t.Yields cx b p d) (hb : t.Ready cx b) : p.InRange cx d := by
  cases h with
  | place hrun =>
    obtain ⟨_, -, hp, -⟩ := (lowerPlace_places cx _ b _ hb.intact).of_run hrun
    exact hp _ rfl p rfl
  | holder hrun =>
    obtain ⟨_, -, hp, -⟩ := (lowerHolder_spec cx _ hb.intact).of_run hrun
    exact hp _ rfl

namespace Sample

/-- `*p` -/
def target : Expr :=
  .deref (var "p") .nowhere

end Sample

end Semcheck
