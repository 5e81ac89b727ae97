/-
  Lowering in the two modes.

  If the strict mode has nothing to report then the lax mode lowers the bodies to
  the very same functions (`lowerBodies_lax`).  What has to be shown of a step is
  `Lower.Lenient`: from the same body, up to the mode, the lax mode comes to the
  same value and the same body, provided that the strict mode has reported
  nothing and no step of it gave up.

  A step that fails is no problem.  Either it reports something, or it is
  remembered that it gave up.
-/
import Semcheck.Proofs.Infer.Lax
import Semcheck.Proofs.Lower.Closure
import Semcheck.Proofs.Lower.Program

namespace Semcheck

open List Lower

/-! ## Bodies -/

namespace Body

variable {cx : Context} {b : Body}

/-- The body in the lax mode. -/
def relaxed (b : Body) : Body :=
  { b with engine := b.engine.relaxed }

structure Spotless (b : Body) : Prop where
  quiet : b.report.entries = []
  whole : b.gaveUp = false

theorem Intact.relaxed (h : b.Intact cx) : b.relaxed.Intact cx where
  context := h.context
  engine := ⟨h.engine.ordered, h.engine.bound, h.engine.types, h.engine.rules⟩
  registers := h.registers
  locals := h.locals
  distinct := h.distinct
  apart := h.apart
  bindings := h.bindings
  bound := h.bound
  params := h.params
  result := h.result
  opened := h.opened
  plain hc := nomatch hc.strict
  whole hs := nomatch hs

theorem Intact.firm (h : b.Intact cx) (hs : b.engine.strict = true) : b.engine.Firm :=
  ⟨hs, h.engine.ordered⟩

end Body

/-! ## Lenient steps -/

namespace Lower

variable {α β : Type} {b : Body}

/-- If the strict mode leaves a spotless body then the lax mode does the same. -/
def Lenient (b : Body) (step : Lower α) : Prop :=
  ∀ r b', step.run b = .ok (r, b') → b'.engine.Firm ∧ (b'.Spotless → b.Spotless ∧
    ∀ a, r = some a → ∀ out, step.run b.relaxed = .ok out → out = (some a, b'.relaxed))

theorem bind_giveUp {x : Lower α} {r : Option β} {b' : Body}
    (hrun : (x >>= fun _ => .giveUp).run b = .ok (r, b')) : r = none := by
  rcases bind_eq_ok.1 hrun with ⟨a, b1, -, hrun2⟩ | ⟨-, hnone⟩
  · cases hrun2
    rfl
  · exact hnone

namespace Lenient

theorem pure (hb : b.engine.Firm) (a : α) : Lenient b (Pure.pure a) := by
  intro r b' hrun
  cases hrun
  refine ⟨hb, fun hspotless => ⟨hspotless, ?_⟩⟩
  rintro a ⟨⟩ out ⟨⟩
  rfl

theorem giveUp (hb : b.engine.Firm) : Lenient b (giveUp : Lower α) := by
  intro r b' hrun
  cases hrun
  exact ⟨hb, fun hspotless => ⟨hspotless, fun a ha => nomatch ha⟩⟩

theorem bind {x : Lower α} {f : α → Lower β} (hx : Lenient b x)
    (hf : ∀ a b1, x.run b = .ok (some a, b1) → b1.engine.Firm → Lenient b1 (f a)) :
    Lenient b (x >>= f) := by
  intro r b' hrun
  rcases bind_eq_ok.1 hrun with ⟨a, b1, hrun1, hrun2⟩ | ⟨hrun1, rfl⟩
  · obtain ⟨hfirm1, hsame1⟩ := hx _ _ hrun1
    obtain ⟨hfirm2, hsame2⟩ := hf a b1 hrun1 hfirm1 _ _ hrun2
    refine ⟨hfirm2, fun hspotless => ?_⟩
    obtain ⟨hspotless1, hsame2⟩ := hsame2 hspotless
    obtain ⟨hspotless0, hsame1⟩ := hsame1 hspotless1
    refine ⟨hspotless0, fun c hc out hout => ?_⟩
    rcases bind_eq_ok.1 hout with ⟨a', b1', hout1, hout2⟩ | ⟨hout1, -⟩
    · cases hsame1 a rfl _ hout1
      exact hsame2 c hc _ hout2
    · cases hsame1 a rfl _ hout1
  · obtain ⟨hfirm, hsame⟩ := hx _ _ hrun1
    exact ⟨hfirm, fun hspotless => ⟨(hsame hspotless).1, fun a ha => nomatch ha⟩⟩

theorem recover {step : Lower Unit} (h : Lenient b step) : Lenient b (recover step) := by
  intro r b' hrun
  rcases recover_eq_ok.1 hrun with ⟨hrun1, rfl⟩ | ⟨b1, hrun1, rfl, rfl⟩
  · obtain ⟨hfirm, hsame⟩ := h _ _ hrun1
    refine ⟨hfirm, fun hspotless => ?_⟩
    obtain ⟨hspotless0, hsame⟩ := hsame hspotless
    refine ⟨hspotless0, ?_⟩
    rintro a ⟨⟩ ⟨r', b2⟩ hout
    rcases recover_eq_ok.1 hout with ⟨hout1, rfl⟩ | ⟨b1, hout1, -, -⟩
    · cases hsame () rfl _ hout1
      rfl
    · cases hsame () rfl _ hout1
  · -- it is remembered that the step gave up
    exact ⟨(h _ _ hrun1).1, fun hspotless => nomatch hspotless.whole⟩

theorem report (hb : b.engine.Firm) (d : Diagnostic) : Lenient b (report d) := by
  intro r b' hrun
  cases hrun
  refine ⟨hb, fun hspotless => ?_⟩
  have hquiet : b.report.entries ++ [d] = [] := hspotless.quiet
  simp at hquiet

theorem reporting (hb : b.engine.Firm) (table : Table) (scope : UseScope) (type : TypeExpr) :
    Lenient b (.reporting (lowerType table scope type)) := by
  intro r b' hrun
  obtain ⟨a, report, hstep, rfl, rfl⟩ := reporting_eq_ok.1 hrun
  refine ⟨hb, fun hspotless => ⟨⟨?_, hspotless.whole⟩, ?_⟩⟩
  · by_contra hloud
    exact lowerType_preserves (I := fun report => report.entries ≠ []) table scope
      (fun _ _ _ _ => by simp [Report.push]) type (Node.within_true _) _ _ _ hstep hloud
      hspotless.quiet
  · rintro a ⟨⟩ ⟨r', b2⟩ hout
    obtain ⟨a', report', hstep', rfl, rfl⟩ := reporting_eq_ok.1 hout
    cases hstep.symm.trans hstep'
    rfl

/-- Where the step of the engine has no good result, what follows gives up. -/
theorem onEngine {step : EngineM α} {good : α → Prop} {f : α → Lower β}
    (h : EngineM.Lenient b.engine step good)
    (hf : ∀ a e, e.Firm → Lenient { b with engine := e } (f a))
    (hbad : ∀ a, ¬ good a → ∀ b r b', (f a).run b = .ok (r, b') → r = none) :
    Lenient b (.onEngine step >>= f) := by
  intro r b' hrun
  rcases bind_eq_ok.1 hrun with ⟨a, b1, hrun1, hrun2⟩ | ⟨hrun1, -⟩
  · obtain ⟨a, e, hstep, ha, rfl⟩ := onEngine_eq_ok.1 hrun1
    cases ha
    obtain ⟨hadds, hsame1⟩ := h _ _ hstep
    obtain ⟨hfirm, hsame2⟩ := hf a e hadds.firm _ _ hrun2
    refine ⟨hfirm, fun hspotless => ?_⟩
    obtain ⟨hspotless1, hsame2⟩ := hsame2 hspotless
    refine ⟨⟨hspotless1.quiet, hspotless1.whole⟩, fun c hc out hout => ?_⟩
    have hgood : good a := by
      by_contra hbad'
      cases (hbad a hbad' _ _ _ hrun2).symm.trans hc
    rcases bind_eq_ok.1 hout with ⟨a', b1', hout1, hout2⟩ | ⟨hout1, -⟩
    · obtain ⟨a', e', hstep', ha, rfl⟩ := onEngine_eq_ok.1 hout1
      cases ha
      cases hsame1 hgood _ hstep'
      exact hsame2 c hc _ hout2
    · obtain ⟨-, -, -, ⟨⟩, -⟩ := onEngine_eq_ok.1 hout1
  · obtain ⟨-, -, -, ⟨⟩, -⟩ := onEngine_eq_ok.1 hrun1

theorem blind (hb : b.engine.Firm) {S : Location → Prop} {step : EngineM α} (h : step.Blind S) :
    Lenient b (.onEngine step) := by
  intro r b' hrun
  obtain ⟨a, e, hstep, rfl, rfl⟩ := onEngine_eq_ok.1 hrun
  obtain ⟨hbindings, hstrict⟩ := h.bindings hstep
  refine ⟨⟨hstrict.trans hb.strict, ?_⟩, fun hspotless =>
    ⟨⟨hspotless.quiet, hspotless.whole⟩, ?_⟩⟩
  · show e.bindings.Ordered
    rw [hbindings]
    exact hb.ordered
  · rintro a ⟨⟩ ⟨r', b2⟩ hout
    obtain ⟨a', e', hstep', rfl, rfl⟩ := onEngine_eq_ok.1 hout
    have hmode := h.mode b.engine false
    rw [hstep] at hmode
    cases hmode.symm.trans hstep'
    rfl

theorem look {f : Body → Lower α} (hbare : ∀ b, f b = f b.bare) (h : Lenient b (f b)) :
    Lenient b (get >>= f) := by
  intro r b' hrun
  obtain ⟨hfirm, hsame⟩ := h r b' hrun
  refine ⟨hfirm, fun hspotless => ⟨(hsame hspotless).1, fun a ha out hout => ?_⟩⟩
  have heq : f b.relaxed = f b := (hbare b.relaxed).trans (hbare b).symm
  change (f b.relaxed).run b.relaxed = .ok out at hout
  rw [heq] at hout
  exact (hsame hspotless).2 a ha out hout

theorem change (hb : b.engine.Firm) {f : Body → Body} (hbare : ∀ b, f b = (f b.bare).around b) :
    Lenient b (modify f) := by
  intro r b' hrun
  cases hrun
  have hrelaxed : f b.relaxed = (f b).relaxed := by
    rw [hbare b.relaxed, hbare b]
    rfl
  rw [hbare b]
  refine ⟨hb, fun hspotless => ⟨⟨hspotless.quiet, hspotless.whole⟩, ?_⟩⟩
  rintro a ⟨⟩ out ⟨⟩
  rw [← hbare b, ← hrelaxed]

end Lenient

/-! ## Lowering is lenient -/

theorem closed_lenient :
    Closed (fun _ => True) fun _ step => ∀ b : Body, b.engine.Firm → Lenient b step where
  pure a _ hb := .pure hb a
  chain hx hf b hb := (hx b hb).bind fun a b1 hrun hb1 => hf a ⟨b, b1, hrun⟩ b1 hb1
  giveUp _ hb := .giveUp hb
  abort reason b _ := by
    intro r b' hrun
    cases hrun
  recover h b hb := (h b hb).recover
  report {d} _ _ hb := .report hb d
  reporting table scope type _ _ hb := .reporting hb table scope type
  engine h _ hb := .blind hb h
  look hbare h b hb := .look hbare (h b b hb)
  change hbare _ hb := .change hb hbare

theorem invariant_lenient :
    Invariant (fun _ => True) fun _ step => ∀ b : Body, b.engine.Firm → Lenient b step where
  toFlat := closed_lenient.flat
  unifyAt cx expected found span _ b hb := by
    refine .onEngine (unify_lenient hb expected found).run (fun r e he => ?_) fun r hbad => ?_
    · cases r with
      | ok u => exact .pure he ()
      | error err =>
        exact (closed_lenient.reportInfer err trivial _ he).bind fun _ _ _ he1 => .giveUp he1
    · cases r with
      | ok u => exact absurd ⟨u, rfl⟩ hbad
      | error err => exact fun _ _ _ => bind_giveUp
  spoil slot b hb := by
    refine .onEngine (unify_lenient hb (.slot slot) .error).run (fun _ e he => .giveUp he) ?_
    intro a _ b r b' hrun
    cases hrun
    rfl
  terminate := closed_lenient.terminate
  change h _ := closed_lenient.change h

/-! ## Functions -/

section Functions

variable {cx : Context}

theorem closeTypes_quiet (cx : Context) {e : Engine} (hsolve : solve.run b.engine = .ok ([], e))
    (hknown : e.unresolved = []) :
    (closeTypes cx).run b = .ok (some (), { b with engine := e }) := by
  rw [closeTypes, run_bind_some (onEngine_run hsolve)]
  show (e.unresolved.forM _ : Lower Unit).run _ = _
  rw [hknown]
  rfl

theorem closeTypes_lenient (he : b.engine.Valid cx.table.structs.length)
    (hs : b.engine.strict = true) (hp : b.Clean → b.engine.Plain) : Lenient b (closeTypes cx) := by
  intro r b' hrun
  obtain ⟨failures, e, report, hclose, hsolve, hsolving, hpre, hclosed⟩ := closeTypes_run cx he
  cases hrun.symm.trans hclose
  refine ⟨⟨hsolving.keeps.strict.trans hs, hsolving.keeps.valid.ordered⟩, fun hspotless => ?_⟩
  have hquiet : b.report.entries = [] := prefix_nil.1 (hspotless.quiet ▸ hpre)
  refine ⟨⟨hquiet, hspotless.whole⟩, ?_⟩
  obtain ⟨rfl, hknown⟩ := hclosed hs (hp ⟨hquiet, hs⟩) hspotless.quiet
  cases hclose.symm.trans (closeTypes_quiet cx hsolve hknown)
  -- all is solved, and so it is in the lax mode
  obtain ⟨failures', e', hsolve', -⟩ := solve_spec (e := b.engine.relaxed)
    ⟨he.ordered, he.bound, he.types, he.rules⟩
  cases ((solve_lenient he hs) _ _ hsolve).2 rfl _ hsolve'
  rintro a ⟨⟩ out hout
  exact Except.ok.inj (hout.symm.trans (closeTypes_quiet cx (b := b.relaxed) hsolve' hknown))

theorem sealFunction_eq_ok {span : Location} {r : Option Function} {b' : Body} :
    (sealFunction cx span).run b = .ok (r, b') ↔ ∃ draft f,
      b.draft.mapTypes (fun type => b.engine.concretize type) = .ok draft ∧
      draft.finish cx.returnType span = .ok f ∧ r = some f ∧ b' = b := by
  rw [show (sealFunction cx span).run b = (orFault _ >>= _ : Lower Function).run b from rfl,
    bind_eq_ok]
  constructor
  · rintro (⟨draft, b1, hdraft, hfinish⟩ | ⟨hdraft, -⟩)
    · obtain ⟨draft, hmap, hsome, rfl⟩ := orFault_eq_ok.1 hdraft
      cases hsome
      cases hf : draft.finish cx.returnType span with
      | error defect =>
        rw [hf] at hfinish
        cases hfinish
      | ok f =>
        rw [hf] at hfinish
        cases hfinish
        exact ⟨draft, f, hmap, hf, rfl, rfl⟩
    · obtain ⟨-, -, ⟨⟩, -⟩ := orFault_eq_ok.1 hdraft
  · rintro ⟨draft, f, hmap, hf, rfl, rfl⟩
    refine .inl ⟨draft, b', orFault_eq_ok.2 ⟨draft, hmap, rfl, rfl⟩, ?_⟩
    rw [hf]
    rfl

theorem sealFunction_lenient (hb : b.engine.Firm) (span : Location) :
    Lenient b (sealFunction cx span) := by
  intro r b' hrun
  obtain ⟨draft, f, hmap, hf, rfl, rfl⟩ := sealFunction_eq_ok.1 hrun
  refine ⟨hb, fun hspotless => ⟨hspotless, ?_⟩⟩
  rintro f ⟨⟩ ⟨r, b2⟩ hout
  obtain ⟨draft', f', hmap', hf', rfl, rfl⟩ := sealFunction_eq_ok.1 hout
  cases hmap.symm.trans hmap'
  cases hf.symm.trans hf'
  rfl

/-- A function is lowered in the same way in both modes, if the strict mode has nothing
    to report. -/
theorem lowerFunction_lenient (hb : b.Intact cx) (hs : b.engine.strict = true) (body : Expr)
    (span : Location) : Lenient b (lowerFunction cx body span) := by
  refine (invariant_lenient.lowerRoot (Node.within_true _) b (hb.firm hs)).bind
    fun _ b1 hroot hfirm1 => ?_
  obtain ⟨sh, b1', -, hroot', hg, -⟩ := lowerRoot_run hb body
  cases hroot.symm.trans hroot'
  have hclose :
      Lenient (b1'.withGraph (b1'.draft.graph.close (.leave cx.result))) (closeTypes cx) :=
    closeTypes_lenient hg.intact.engine hfirm1.strict fun hc =>
      (hg.intact.plain ⟨hc.quiet, hc.strict⟩).1.engine
  exact hclose.bind fun _ b2 _ hfirm2 => sealFunction_lenient hfirm2 span

end Functions

end Lower

/-! ## Bodies of a program -/

section Bodies

variable {table : Table} {report report' : Report} {gaveUp : Bool}

theorem lowerBody_lax (ht : table.Valid) (hp : report.entries = [] → table.Plain)
    {pending : PendingFunct} {signature : Function}
    (hsig : table.funct? pending.id = some signature) (hh : signature.Header) {body : Expr}
    {f : Function} (hrun : lowerBody true table pending body report = .ok (f, report', gaveUp))
    (hq : report'.entries = []) :
    lowerBody false table pending body report = .ok (f, report', gaveUp) := by
  obtain ⟨result, more, _, _, f1, b1, rfl, rfl, hresult, -, hb, hstrict, hl⟩ :=
    lowerBody_run ht hp hsig hh true body
  cases hrun.symm.trans (lowerBody_eq hsig hresult hstrict)
  obtain ⟨f2, b2, hlax, -⟩ := lowerFunction_spec hb.relaxed rfl body pending.decl.span
  obtain ⟨-, hsame⟩ := lowerFunction_lenient hb rfl body pending.decl.span _ _ hstrict
  cases (hsame ⟨hq, hl.whole rfl hq⟩).2 _ rfl _ hlax
  exact lowerBody_eq (b := b1.relaxed) hsig hresult hlax

/-- **The lax mode lowers all bodies as the strict mode does**, if that has nothing to
    report. -/
theorem lowerBodies_lax (ht : table.Valid) (hh : table.Headed) {pendings : List PendingFunct}
    (hid : ∀ pending ∈ pendings, pending.id.index < table.functs.length)
    (hp : report.entries = [] → table.Plain) {bodies : List (FunctId × Function)}
    (hrun : lowerBodies true table pendings report = .ok (bodies, report', gaveUp))
    (hq : report'.entries = []) :
    lowerBodies false table pendings report = .ok (bodies, report', gaveUp) := by
  induction pendings generalizing report bodies gaveUp with
  | nil => exact hrun
  | cons pending rest ih =>
    rw [forall_mem_cons] at hid
    rw [lowerBodies] at hrun ⊢
    cases hbody : pending.decl.body with
    | none =>
      rw [hbody] at hrun
      exact ih hid.2 hp hrun
    | some body =>
      rw [hbody] at hrun
      obtain ⟨⟨f, report1, gaveUp1⟩, hfirst, hrun⟩ := bind_eq_ok.1 hrun
      obtain ⟨⟨others, report2, gaveUp2⟩, hrest, hrun⟩ := bind_eq_ok.1 hrun
      cases hrun
      obtain ⟨entry, hmem, hsig⟩ := Table.funct?_of_lt hid.1
      have hgrows : report.entries <+: report1.entries := by
        obtain ⟨_, _, _, hfirst', hpre, -⟩ := lowerBody_spec ht hp hsig (hh entry hmem) true body
        cases hfirst.symm.trans hfirst'
        exact hpre
      have hp1 : report1.entries = [] → table.Plain :=
        fun hq1 => hp (prefix_nil.1 (hq1 ▸ hgrows))
      have hquiet1 : report1.entries = [] := by
        obtain ⟨_, _, _, hrest', hpre, -⟩ := lowerBodies_spec true ht hh hid.2 hp1
        cases hrest.symm.trans hrest'
        exact prefix_nil.1 (hq ▸ hpre)
      refine bind_eq_ok.2 ⟨_, lowerBody_lax ht hp hsig (hh entry hmem) hfirst hquiet1, ?_⟩
      exact bind_eq_ok.2 ⟨_, ih hid.2 hp1 hrest, rfl⟩

end Bodies

end Semcheck
