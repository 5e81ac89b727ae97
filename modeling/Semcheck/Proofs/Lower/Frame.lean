/-
  Lowering writes to the report and never reads it.

  A step is framed (`Framed`) if it does the same whatever was reported before:
  it comes to the same result, leaves the same state behind and adds the same
  diagnostics.  All steps of lowering a body are (`Lower.invariant_framed`), and
  so a body can be lowered with an empty report, and its diagnostics put behind
  those of the bodies before it (`lowerBodies_eq_ok`).
-/
import Semcheck.Proofs.Lower.Closure
import Semcheck.Proofs.Lower.Program

namespace Semcheck

open Report Body Lower

/-! ## Reports -/

namespace Report

@[simp] theorem append_empty (r : Report) : r.append .empty = r := by
  simp [append, empty]

@[simp] theorem empty_append (r : Report) : empty.append r = r := by
  simp [append, empty]

theorem append_assoc (r s t : Report) : (r.append s).append t = r.append (s.append t) := by
  simp [append]

end Report

/-- A state that holds a report. -/
class HasReport (σ : Type) where
  report : σ → Report
  withReport : Report → σ → σ

instance : HasReport Report where
  report r := r
  withReport r _ := r

instance : HasReport Body where
  report := Body.report
  withReport r b := { b with report := r }

open HasReport

/-! ## Framed steps -/

section Framed

variable {σ ε α β : Type} [HasReport σ]

/-- A step that ends adds `more` to the report, and does the same from every other
    report. -/
def Framed (step : StateT σ (Except ε) α) : Prop :=
  ∀ s a s', step.run s = .ok (a, s') → ∃ more, report s' = (report s).append more ∧
    ∀ r, step.run (withReport r s) = .ok (a, withReport (r.append more) s')

namespace Framed

theorem pure (a : α) : Framed (Pure.pure a : StateT σ (Except ε) α) := by
  intro s a s' hrun
  cases hrun
  refine ⟨.empty, by simp, fun r => ?_⟩
  simp only [append_empty]
  rfl

theorem bind {x : StateT σ (Except ε) α} {f : α → StateT σ (Except ε) β} (hx : Framed x)
    (hf : ∀ a, Framed (f a)) : Framed (x >>= f) := by
  intro s b s' hrun
  obtain ⟨⟨a, s1⟩, hrun1, hrun2⟩ := bind_eq_ok.1 (show x.run s >>= _ = _ from hrun)
  obtain ⟨more1, hreport1, hframe1⟩ := hx s a s1 hrun1
  obtain ⟨more2, hreport2, hframe2⟩ := hf a s1 b s' hrun2
  refine ⟨more1.append more2, ?_, fun r => ?_⟩
  · rw [hreport2, hreport1, append_assoc]
  · rw [← append_assoc]
    exact bind_eq_ok.2 ⟨_, hframe1 r, hframe2 _⟩

/-- Looking at the state is framed, if what is done then does not depend on the
    report. -/
theorem look {f : σ → StateT σ (Except ε) α} (hf : ∀ r s, f (withReport r s) = f s)
    (h : ∀ s, Framed (f s)) : Framed (get >>= f) := by
  intro s a s' hrun
  obtain ⟨more, hreport, hframe⟩ := h s s a s' hrun
  refine ⟨more, hreport, fun r => ?_⟩
  change (f (withReport r s)).run (withReport r s) = _
  rw [hf]
  exact hframe r

end Framed

end Framed

/-! ## Types in the syntax -/

section Types

variable (table : Table) (scope : UseScope)

theorem resolveType_framed (path : Path) (span : Location) :
    Framed (lowerType table scope (.path path span)) := by
  intro r type r' hrun
  obtain ⟨⟨found, r1⟩, hfound, hrun⟩ := bind_eq_ok.1
    (show (table.resolveType path.toName path.absolute scope path.span >>=
      fun found => .ok (found, r)) >>= _ = _ from hrun)
  obtain ⟨found, hresolve, hpair⟩ := bind_eq_ok.1 hfound
  cases hpair
  have hlift : ∀ s : Report, (liftM (table.resolveType path.toName path.absolute scope path.span) :
      ReportM _).run s = .ok (found, s) := by
    intro s
    rw [hresolve]
    rfl
  cases found with
  | ok id =>
    cases hrun
    refine ⟨.empty, by simp, fun s => ?_⟩
    rw [lowerType, run_bind (hlift _), append_empty]
    rfl
  | error e =>
    cases hrun
    refine ⟨⟨[e.toDiagnostic]⟩, rfl, fun s => ?_⟩
    rw [lowerType, run_bind (hlift _)]
    rfl

mutual

theorem lowerType_framed : ∀ type, Framed (lowerType table scope type)
  | .path path span => resolveType_framed table scope path span
  | .pointer _ _ pointee _ => .bind (lowerType_framed pointee) fun _ => .pure _
  | .tuple elements _ => .bind (lowerTypes_framed elements) fun _ => .pure _
  | .funct params none _ => .bind (lowerTypes_framed params) fun _ => .pure _
  | .funct params (some returns) _ =>
    .bind (lowerTypes_framed params) fun _ => .bind (lowerType_framed returns) fun _ => .pure _

theorem lowerTypes_framed : ∀ types, Framed (lowerTypes table scope types)
  | [] => .pure _
  | type :: rest =>
    .bind (lowerType_framed type) fun _ => .bind (lowerTypes_framed rest) fun _ => .pure _

end

end Types

/-! ## Bodies -/

namespace Lower

variable {α β : Type} {f : α → Lower β} {x : Lower α}

theorem chain_framed (hx : Framed x.run) (hf : ∀ a, Returns x a → Framed (f a).run) :
    Framed (x >>= f).run := by
  intro b r b' hrun
  rcases bind_eq_ok.1 hrun with ⟨a, b1, hrun1, hrun2⟩ | ⟨hrun1, rfl⟩
  · obtain ⟨more1, hreport1, hframe1⟩ := hx b _ b1 hrun1
    obtain ⟨more2, hreport2, hframe2⟩ := hf a ⟨b, b1, hrun1⟩ b1 _ b' hrun2
    refine ⟨more1.append more2, ?_, fun r => ?_⟩
    · rw [hreport2, hreport1, append_assoc]
    · rw [← append_assoc]
      exact bind_eq_ok.2 (.inl ⟨a, _, hframe1 r, hframe2 _⟩)
  · obtain ⟨more, hreport, hframe⟩ := hx b _ b' hrun1
    exact ⟨more, hreport, fun r => bind_eq_ok.2 (.inr ⟨hframe r, rfl⟩)⟩

theorem bind_framed (hx : Framed x.run) (hf : ∀ a, Framed (f a).run) : Framed (x >>= f).run :=
  chain_framed hx fun a _ => hf a

theorem recover_framed {step : Lower Unit} (h : Framed step.run) : Framed (recover step).run := by
  refine .bind h fun r => ?_
  cases r with
  | some u => exact .pure (some true)
  | none =>
    intro b r b' hrun
    cases hrun
    refine ⟨.empty, (append_empty _).symm, fun r => ?_⟩
    rw [append_empty]
    rfl

theorem report_framed (d : Diagnostic) : Framed (report d).run := by
  intro b r b' hrun
  cases hrun
  exact ⟨⟨[d]⟩, rfl, fun r => rfl⟩

theorem reporting_framed {step : ReportM α} (h : Framed step) : Framed (reporting step).run := by
  intro b r b' hrun
  obtain ⟨a, report', hstep, rfl, rfl⟩ := reporting_eq_ok.1 hrun
  obtain ⟨more, hreport, hframe⟩ := h _ _ _ hstep
  refine ⟨more, hreport, fun r => ?_⟩
  exact reporting_eq_ok.2 ⟨a, r.append more, hframe r, rfl, rfl⟩

theorem onEngine_framed (step : EngineM α) : Framed (onEngine step).run := by
  intro b r b' hrun
  obtain ⟨a, e, hstep, rfl, rfl⟩ := onEngine_eq_ok.1 hrun
  refine ⟨.empty, (append_empty _).symm, fun r => ?_⟩
  rw [append_empty]
  exact onEngine_eq_ok.2 ⟨a, e, hstep, rfl, rfl⟩

theorem change_framed {f : Body → Body} (h : ∀ b, f b = (f b.bare).around b) :
    Framed (modify f : Lower Unit).run := by
  intro b r b' hrun
  cases hrun
  refine ⟨.empty, ?_, fun r => ?_⟩
  · rw [append_empty, h b]
    rfl
  · have hr : f { b with report := r } = { f b with report := r } := by
      rw [h { b with report := r }, h b]
      rfl
    show Except.ok (some (), f { b with report := r }) = _
    rw [hr, append_empty]
    rfl

theorem closed_framed : Closed (fun _ => True) fun _ step => Framed step.run where
  pure a := .pure (some a)
  chain := chain_framed
  giveUp := .pure none
  abort reason := by
    intro b r b' hrun
    cases hrun
  recover := recover_framed
  report {d} _ := report_framed d
  reporting table scope type _ := reporting_framed (lowerType_framed table scope type)
  engine {_ step} _ := onEngine_framed step
  look {_ f} hbare h := by
    refine .look (fun r b => ?_) h
    rw [hbare b]
    exact hbare { b with report := r }
  change := change_framed

/-- **Lowering never looks at the report.** -/
theorem invariant_framed : Invariant (fun _ => True) fun _ step => Framed step.run :=
  closed_framed.invariant fun _ _ => onEngine_framed _

theorem closeTypes_framed (cx : Context) : Framed (closeTypes cx).run := by
  refine bind_framed (onEngine_framed solve) fun failures => ?_
  refine bind_framed (closed_framed.forM fun _ _ => closed_framed.reportInfer _ trivial) fun _ => ?_
  exact .look (fun _ _ => rfl) fun b =>
    closed_framed.forM fun _ _ => closed_framed.complain .inferenceImpossible _ trivial nofun

theorem sealFunction_framed (cx : Context) (span : Location) :
    Framed (sealFunction cx span).run := by
  refine .look (fun _ _ => rfl) fun b => bind_framed (closed_framed.orFault _) fun draft => ?_
  cases draft.finish cx.returnType span with
  | ok f => exact .pure _
  | error defect => exact closed_framed.abort _

theorem lowerFunction_framed (cx : Context) (body : Expr) (span : Location) :
    Framed (lowerFunction cx body span).run := by
  refine bind_framed (invariant_framed.lowerRoot (Node.within_true _)) fun _ => ?_
  exact bind_framed (closeTypes_framed cx) fun _ => sealFunction_framed cx span

end Lower

section Bodies

variable {strict gaveUp : Bool} {table : Table} {report report' : Report} {f : Function}
  {body : Expr}

theorem lowerBody_eq_ok {pending : PendingFunct} :
    lowerBody strict table pending body report = .ok (f, report', gaveUp) ↔
      ∃ signature result draft r b, table.funct pending.id = .ok signature ∧
        resultAccess (.ofSignature pending.id.index signature) signature.returnType body.span =
          (result, draft) ∧
        (lowerFunction ⟨table, result, signature.returnType⟩ body pending.decl.span).run
          (entry strict pending signature draft report) = .ok (r, b) ∧
        f = r.getD signature ∧ report' = b.report ∧ gaveUp = (r.isNone || b.gaveUp) := by
  rw [lowerBody]
  cases hsig : table.funct pending.id with
  | error fault => simp
  | ok signature =>
    cases hresult : resultAccess (.ofSignature pending.id.index signature) signature.returnType
      body.span with
    | mk result draft =>
      cases hlower : (lowerFunction ⟨table, result, signature.returnType⟩ body
          pending.decl.span).run (.entry strict pending signature draft report) with
      | error reason =>
        simp only [entry] at hlower
        simp [hlower, hresult, entry]
      | ok out =>
        obtain ⟨r, b⟩ := out
        simp only [entry] at hlower
        cases r with
        | none => simp [hlower, hresult, entry, eq_comm]
        | some f => simp [hlower, hresult, entry, eq_comm]

/-- The diagnostics of a body do not depend on what was reported before. -/
theorem lowerBody_framed {pending : PendingFunct}
    (hrun : lowerBody strict table pending body report = .ok (f, report', gaveUp)) :
    ∃ more, report' = report.append more ∧
      ∀ r, lowerBody strict table pending body r = .ok (f, r.append more, gaveUp) := by
  obtain ⟨signature, result, draft, out, b, hsig, hresult, hlower, rfl, rfl, rfl⟩ :=
    lowerBody_eq_ok.1 hrun
  obtain ⟨more, hreport, hframe⟩ := lowerFunction_framed _ _ _ _ _ _ hlower
  refine ⟨more, hreport, fun r => ?_⟩
  exact lowerBody_eq_ok.2 ⟨signature, result, draft, out, _, hsig, hresult, hframe r, rfl, rfl, rfl⟩

/-- What lowering the body of a function gives by itself: the function, its
    diagnostics, and whether a step gave up. -/
structure LoweredBody where
  id : FunctId
  funct : Function
  report : Report
  gaveUp : Bool

/-- The body of the function is lowered to `out`. -/
structure PendingFunct.Lowers (strict : Bool) (table : Table) (pending : PendingFunct)
    (out : LoweredBody) : Prop where
  id : out.id = pending.id
  body : ∃ body, pending.decl.body = some body ∧
    lowerBody strict table pending body .empty = .ok (out.funct, out.report, out.gaveUp)

def PendingFunct.hasBody (pending : PendingFunct) : Bool :=
  pending.decl.body.isSome

/-- **Every body is lowered by itself.**  The diagnostics are those of the bodies, one
    body after the other. -/
theorem lowerBodies_eq_ok {pendings : List PendingFunct} {bodies : List (FunctId × Function)} :
    lowerBodies strict table pendings report = .ok (bodies, report', gaveUp) ↔
      ∃ outs, List.Forall₂ (PendingFunct.Lowers strict table)
          (pendings.filter PendingFunct.hasBody) outs ∧
        bodies = outs.map (fun out => (out.id, out.funct)) ∧
        report'.entries = report.entries ++ outs.flatMap (fun out => out.report.entries) ∧
        gaveUp = outs.any LoweredBody.gaveUp := by
  induction pendings generalizing report report' bodies gaveUp with
  | nil =>
    simp only [lowerBodies, List.filter_nil, List.forall₂_nil_left_iff]
    constructor
    · intro hrun
      cases hrun
      exact ⟨[], rfl, rfl, by simp, rfl⟩
    · rintro ⟨outs, rfl, rfl, hreport, rfl⟩
      obtain rfl : report' = report := by
        cases report'
        cases report
        simpa using hreport
      rfl
  | cons pending rest ih =>
    rw [lowerBodies]
    cases hbody : pending.decl.body with
    | none =>
      rw [List.filter_cons_of_neg (by simp [PendingFunct.hasBody, hbody])]
      exact ih
    | some body =>
      rw [List.filter_cons_of_pos (by simp [PendingFunct.hasBody, hbody])]
      constructor
      · intro hrun
        obtain ⟨⟨f, report1, gaveUp1⟩, hfirst, hrun⟩ := bind_eq_ok.1 hrun
        obtain ⟨⟨others, report2, gaveUp2⟩, hrest, hrun⟩ := bind_eq_ok.1 hrun
        cases hrun
        obtain ⟨more, rfl, hframe⟩ := lowerBody_framed hfirst
        obtain ⟨outs, hall, rfl, hreport, rfl⟩ := ih.1 hrest
        have hempty := hframe .empty
        rw [empty_append] at hempty
        refine ⟨⟨pending.id, f, more, gaveUp1⟩ :: outs, .cons ⟨rfl, body, hbody, hempty⟩ hall, rfl,
          ?_, rfl⟩
        rw [hreport]
        simp
      · rintro ⟨outs, hall, rfl, hreport, rfl⟩
        cases hall with
        | cons hlowers hall =>
          rename_i out outs
          obtain ⟨hid, body', hbody', hempty⟩ := hlowers
          rw [hbody] at hbody'
          cases hbody'
          obtain ⟨more, hmore, hframe⟩ := lowerBody_framed hempty
          rw [empty_append] at hmore
          refine bind_eq_ok.2 ⟨_, hframe report, bind_eq_ok.2 ⟨(_, report', _),
            ih.2 ⟨outs, hall, rfl, ?_, rfl⟩, ?_⟩⟩
          · rw [hreport, ← hmore]
            simp
          · rw [← hid]
            rfl

end Bodies

end Semcheck
