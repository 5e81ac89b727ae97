/-
  The function that a body becomes.

  If a strict lowering reports nothing then inference has come to a solution `θ`, and
  the types of the finished function are those of the body under `θ`
  (`Body.Becomes`).  This holds of what any task leaves behind while the function is
  lowered (`Begins.becomes`): the task comes to an end, and what is then known of
  types is what the program says.
-/
import Semcheck.Proofs.Lower.Frame
import Semcheck.Proofs.Lower.Later
import Semcheck.Proofs.Lower.Moments

namespace Semcheck

open Lower Body List Outline Bindings

/-! ## Final types -/

/-- Nothing is reported so far, and under `θ` the types of the body are those of the
    function `f`. -/
structure Body.Becomes (cx : Context) (θ : Slot → Ty) (b : Body) (f : Function) : Prop where
  clean : b.Clean
  admits : b.engine.Admits (fun _ => True) θ
  plain : ∀ t : Ty, t.Plain → (t.inst θ).Plain
  has : ∀ a t, b.accessType? cx a = some t → f.Has cx.table a (t.inst θ)

variable {cx : Context} {θ : Slot → Ty} {b b' : Body} {f : Function} {files : List SourceFile}
  {pending : PendingFunct} {p : Program} {e : Expr}

theorem Body.Later.clean (h : b.Later b') (hc : b'.Clean) : b.Clean :=
  ⟨prefix_nil.1 (hc.quiet ▸ h.report), h.engine.strict.symm.trans hc.strict⟩

theorem Body.Later.extends_strict (h : b.Later b') (hs : b.engine.strict = true) : b.Extends b' :=
  ⟨h.draft.registers, h.draft.paramCount, h.engine.bindings hs, h.draft.bindings⟩

theorem Body.Later.extends (h : b.Later b') (hc : b.Clean) : b.Extends b' :=
  h.extends_strict hc.strict

/-- What is said later was so before. -/
theorem Body.Becomes.of_later (h : b'.Becomes cx θ f) (hl : b.Later b') : b.Becomes cx θ f :=
  have hc := hl.clean h.clean
  ⟨hc, hl.engine.admits hc.strict h.admits, h.plain,
    fun a t ht => h.has a t ((hl.extends hc).accessType? ht)⟩

/-- Types that agree under `θ` are equal in the function. -/
theorem Body.Becomes.eq_of_agree (h : b.Becomes cx θ f) {t u : Ty}
    (ha : Ty.Agree (t.inst θ) (u.inst θ)) (ht : t.Plain) (hu : u.Plain) : t.inst θ = u.inst θ :=
  ha.eq_of_plain (h.plain t ht) (h.plain u hu)

namespace Lower

theorem inRange_of_accessType? {a : Access} {u : Ty} (hu : b.accessType? cx a = some u) :
    a.InRange b.draft.registers.length := by
  cases a with
  | discard => cases hu
  | place r fields deref =>
    obtain ⟨register, hr, -⟩ := Option.bind_eq_some_iff.1 hu
    rintro _ ⟨⟩
    exact (List.getElem?_eq_some_iff.1 hr).1

theorem accessType_eq (hb : b.Grounded cx) {a : Access} {u : Ty}
    (hu : b.accessType? cx a = some u) : (accessType cx a).run b = .ok (some (some u), b) ∧
      u.Legal cx b := by
  obtain ⟨o, hrun, ⟨rfl, -⟩ | ⟨t, rfl, ht, heq⟩⟩ := accessType_run hb (inRange_of_accessType? hu)
  · cases hu
  · cases heq u hu
    exact ⟨hrun, ht⟩

/-- Inference ends with a solution: that of its bindings. -/
theorem Seals.becomes {e : Engine} {report : Report} {g : Graph} (hb : b.Intact cx) (hc : b.Clean)
    (hsolve : solve.run b.engine = .ok ([], e)) (hknown : e.unresolved = [])
    (hs : Seals cx { b.withGraph g with engine := e, report := report } f) :
    (b.withGraph g).Becomes cx e.bindings.meaning f := by
  obtain ⟨_, _, hsolve', hsolving, hrules⟩ := solve_spec hb.engine
  cases hsolve.symm.trans hsolve'
  have hk := hsolving.keeps
  obtain ⟨hplain, -⟩ := hb.plain hc
  have hbindings := ((hsolving.plain hc.strict hplain.engine).1 rfl).bindings
  refine ⟨⟨hc.quiet, hc.strict⟩, ?_, fun t ht => ?_, fun a t ht => ?_⟩
  · exact hsolving.meaning hc.strict (fun _ _ _ _ _ => trivial) hrules
  · exact apply_eq_inst _ t ▸ plain_apply hbindings ht
  · have hx : (b.withGraph g).Extends { b.withGraph g with engine := e, report := report } :=
      ⟨prefix_rfl, rfl, hk.grows hc.strict, prefix_rfl⟩
    have hclosed : (e.bindings.apply t).Closed :=
      hk.valid.closed_apply hknown (hk.slots ▸ (accessType_eq hb.grounded ht).2)
    exact hs.has hb.context.table hk.valid.ordered
      ⟨t, hx.accessType? ht, apply_eq_inst _ t, apply_eq_inst _ t ▸ hclosed⟩

theorem lowerRoot_through (cx : Context) (body : Expr) (b : Body) :
    Through (lowerRoot cx body) b (lowerExpr cx body cx.result) b := by
  have hi := invariant_adding
  refine .first (.attempt (.settling .here)) fun _ => hi.look (fun _ => rfl) fun b => ?_
  exact hi.bind (hi.orFault _) fun done => Aside.ite _ (hi.terminate _) (hi.pure ())

/-- **A function is what its body becomes.** -/
theorem lowerFunction_becomes {body : Expr} {span : Location} (hb : b.Intact cx)
    (hstart : b.draft.graph = .start) (hstrict : b.engine.strict = true)
    (hrun : (lowerFunction cx body span).run b = .ok (some f, b'))
    (hquiet : b'.report.entries = []) :
    ∃ θ r c, (lowerExpr cx body cx.result).run b = .ok (r, c) ∧ c.Becomes cx θ f := by
  obtain ⟨sh, b1, -, hroot, hg, -⟩ := lowerRoot_run hb body
  obtain ⟨r, c, hbody, hlater⟩ := lowerRoot_through cx body b _ _ hroot
  let b2 := b1.withGraph (b1.draft.graph.close (.leave cx.result))
  obtain ⟨failures, e, report, hclose, hsolve, hsolving, hpre, hclosed⟩ := closeTypes_run cx
    (b := b2) hg.intact.engine
  have hseal : (sealFunction cx span).run { b2 with engine := e, report := report } =
      .ok (some f, b') := by
    rw [lowerFunction, run_bind_some hroot, run_bind_some hclose] at hrun
    exact hrun
  have hk := hsolving.keeps
  obtain ⟨f', hseal', hs⟩ := sealFunction_run cx
    (b := { b2 with engine := e, report := report }) hk.valid
    (fun r hr => show r.type.Within e.slots.length _ from hk.slots ▸ hg.intact.registers r hr)
    (by
      show ∀ s ∈ (b1.draft.graph.close (.leave cx.result)).segments, _
      rw [hg.code, hstart]
      exact sh.build_closed _) span
  cases hseal.symm.trans hseal'
  have hc : b1.Clean := ⟨prefix_nil.1 (hquiet ▸ hpre), hg.engine.strict.trans hstrict⟩
  obtain ⟨rfl, hknown⟩ := hclosed hc.strict (hg.intact.plain hc).1.engine hquiet
  exact ⟨_, r, c, hbody, (hs.becomes hg.intact hc hsolve hknown).of_later hlater⟩

end Lower

/-! ## Programs -/

/-- **A body becomes the function of the program**, if nothing is reported before and behind it. -/
theorem Begins.becomes {last : Body} (h : Begins true files pending cx e b)
    (hprogram : lowerFiles true files = .ok p)
    (hrun : (lowerFunction cx e pending.decl.span).run b = .ok (some f, last))
    (hquiet : last.report.entries = []) :
    p.table.funct? pending.id = some f ∧ p.table.structs = cx.table.structs ∧
      ∃ θ r c, (lowerExpr cx e cx.result).run b = .ok (r, c) ∧ c.Becomes cx θ f := by
  have hready := h.ready.1.intact
  cases h with
  | @intro program report signature result draft _ hsignatures hpending hreport hbody hsignature
      hresult =>
    obtain ⟨_, bodies, hsignatures', hbodies, hset⟩ := lowerFiles_eq_ok.1 hprogram
    cases hsignatures.symm.trans hsignatures'
    have ho := ofFiles_valid files
    obtain ⟨_, hsignatures', hl⟩ := lowerSignatures_spec ho
    cases hsignatures.symm.trans hsignatures'
    have hlength : program.table.functs.length = (ofFiles files).table.functs.length :=
      hl.functs
    obtain ⟨_, _, _, hbodies', -, -, hlowered⟩ := lowerBodies_spec true hl.valid.table
      hl.valid.headed (fun pending hp => hlength ▸ ho.lt hp) hl.valid.plain
    cases hbodies.symm.trans hbodies'
    obtain ⟨_, hset', -, hstructs, -, hnew, -⟩ := hlowered.set ho hlength
    cases hset.symm.trans hset'
    -- the body itself is lowered to `f`, whatever was reported before
    obtain ⟨outs, houts, rfl, -⟩ := lowerBodies_eq_ok.1 hbodies
    obtain ⟨⟨i, hi⟩, hget⟩ := mem_iff_get.1
      (mem_filter.2 ⟨hpending, show pending.hasBody = true by simp [PendingFunct.hasBody, hbody]⟩)
    obtain ⟨hid, e', hbody', hempty⟩ := hget ▸ houts.get hi (houts.length_eq ▸ hi)
    cases hbody.symm.trans hbody'
    obtain ⟨more, -, hframe⟩ := lowerBody_framed hempty
    have hsame := (hframe report).symm.trans (lowerBody_eq hsignature hresult hrun)
    rw [Except.ok.injEq, Prod.mk.injEq] at hsame
    have hdraft : draft.graph = .start := by
      obtain ⟨more, rfl, -⟩ := resultAccess_cases hresult
      rfl
    refine ⟨hnew (pending.id, f) (mem_map.2 ⟨_, get_mem _ _, by rw [hid, hsame.1]⟩), hstructs, ?_⟩
    exact lowerFunction_becomes hready hdraft rfl hrun hquiet

/-- What a task leaves behind becomes the function of the program. -/
theorem Task.Reaches.becomes {start last : Body} {t : Task}
    (h : Reaches cx (.expr e cx.result) start t b) (hbegins : Begins true files pending cx e start)
    (hprogram : lowerFiles true files = .ok p)
    (hrun : (lowerFunction cx e pending.decl.span).run start = .ok (some f, last))
    (hquiet : last.report.entries = []) :
    p.table.funct? pending.id = some f ∧ p.table.structs = cx.table.structs ∧
      ∃ θ r c, (t.lower cx).run b = .ok (r, c) ∧ c.Becomes cx θ f := by
  obtain ⟨hf, hstructs, θ, r, c, hbody, hc⟩ := hbegins.becomes hprogram hrun hquiet
  obtain ⟨r', c', hrun', hlater⟩ := h.through r c hbody
  exact ⟨hf, hstructs, θ, r', c', hrun', hc.of_later hlater⟩

end Semcheck
