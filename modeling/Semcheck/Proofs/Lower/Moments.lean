/-
  Every moment of lowering is in order.

  `Moment strict files cx t b`: while the files are lowered, the task `t` is begun
  with the body `b`.  At every such moment the body is intact, and the destination
  of the task, if it has one, can take a value (`Moment.ready`).
-/
import Semcheck.Proofs.Lower.Footprint

namespace Semcheck

open Lower Body List Option Table Outline

/-! ## Tasks that can be begun -/

/-- If the step writes, then to one of the first `n` registers or through one of them. -/
def Event.WritesWithin (n : Nat) (ev : Event) : Prop :=
  ∀ i, ev = .run i → i.dest.InRange n

theorem Event.WritesWithin.mono {n m : Nat} {ev : Event} (h : ev.WritesWithin n) (hnm : n ≤ m) :
    ev.WritesWithin m :=
  fun i hi => (h i hi).mono hnm

theorem Event.InRange.writesWithin {table : Table} {n : Nat} {ev : Event}
    (h : ev.InRange table n) : ev.WritesWithin n := by
  rintro i rfl
  exact h.1 i.dest (mem_append_right _ mem_cons_self)

namespace Body

/-- The body is intact, its code writes only to registers that were made, and the targets of all
    its jumps exist. -/
structure Ready (cx : Context) (b : Body) : Prop where
  intact : b.Intact cx
  written : b.draft.graph.All (Event.WritesWithin b.draft.registers.length)

variable {cx : Context} {b b' : Body} {sh : Shape} {dest : Access}

theorem Ready.linked (h : b.Ready cx) : b.draft.graph.All fun _ => True :=
  h.written.mono fun _ _ => trivial

theorem Ready.grown (h : b.Ready cx) (hg : b.Grown cx sh b') : b'.Ready cx := by
  refine ⟨hg.intact, hg.code ▸ Shape.build_all h.intact.opened (h.written.mono ?_)
    (hg.steps.mono fun _ => Event.InRange.writesWithin)⟩
  exact fun _ hev => hev.mono hg.registers_le

theorem Ready.branch (h : b.Ready cx) (test : Access) : (b.taken test).Ready cx :=
  ⟨h.intact.withGraph (h.intact.opened.branch test), h.written.branch nofun⟩

theorem Ready.atDepth (h : b.Ready cx) (n : Nat) : (b.atDepth n).Ready cx :=
  ⟨h.intact.atDepth n, h.written⟩

end Body

namespace Task

/-- The task can be begun with the body. -/
def Ready (cx : Context) : Task → Body → Prop
  | .expr _ dest, b | .stmts _ _ dest, b => b.Ready cx ∧ b.Takes cx dest
  | .stmt _ dest, b => b.Ready cx ∧ ∀ a ∈ dest, b.Takes cx a
  | .place _ _, b | .holder _, b | .operands _, b => b.Ready cx
  | .inits _ f, b => b.Ready cx ∧ ∃ fields, f.InRange fields b ∧ (b.Clean → f.Typed cx b) ∧
    (∀ field ∈ fields, field.type.Within 0 cx.table.structs.length) ∧
    (b.Clean → ∀ field ∈ fields, field.type.Plain)
  | .consult index l _ _, b => b.Ready cx ∧ ∃ x, findLocal x b.locals = some (index, l)

end Task

namespace Lower

variable {cx : Context} {b b' c : Body} {α : Type} {span : Location} {test : Access}

theorem Spec.of_run {step : Lower α} {P : α → Body → Prop} {Q : α → Shape → Body → Prop}
    {r : Option α} (h : Spec cx b step P Q) (hrun : step.run b = .ok (r, b')) :
    ∃ sh, b.Grown cx sh b' ∧ (∀ a, r = some a → P a b') ∧
      (b'.Clean → ∃ a, r = some a ∧ Q a sh b') := by
  obtain ⟨r', sh, b1, hrun', hg, hsome, h⟩ := h
  cases hrun.symm.trans hrun'
  refine ⟨sh, hg, fun a ha => (h a ha).1, fun hc => ?_⟩
  obtain ⟨a, ha⟩ := Option.isSome_iff_exists.1 (hsome hc)
  exact ⟨a, ha, (h a ha).2 (hc.whole hg.intact)⟩

theorem newTemp_allocates {r : RegisterId} (hb : b.Intact cx)
    (hrun : (newTemp span).run b = .ok (some r, c)) : ∃ type, b.Allocates cx type r c := by
  obtain ⟨r', b1, s, hrun', hr⟩ := newTemp_run hb span
  cases hrun.symm.trans hrun'
  exact ⟨_, hr⟩

theorem lowerHolder_spec (cx : Context) (e : Expr) (hb : b.Intact cx) :
    Spec cx b (lowerHolder cx e) (fun p b' => p.InRange cx b') fun _ _ _ => True :=
  (placeOrTemp_spec (lowerPlace_places cx e) (lowerExpr_lowers cx e) hb e.span).imp
    fun _ _ _ _ _ _ => trivial

theorem lowerTarget_spec (cx : Context) (target : Expr) (hb : b.Intact cx) :
    Spec cx b (lowerTarget cx target) (fun p b' => b'.Takes cx p.access) fun _ _ _ => True := by
  refine (lowerPlace_places cx target b .assign hb).bind fun o sh1 b1 hg1 hp1 hq1 => ?_
  refine (assignedPlace_spec hg1.intact hp1 target.span).mono ?_ fun _ _ _ _ _ _ _ => trivial
  intro p sh2 b2 hg2 hp
  refine .grown ⟨(hp1 p hp).access, fun hc => ?_⟩ hg2
  exact .inr ⟨_, ((hp1 p hp).typed hc.strict).access⟩

theorem lowerCondition_spec (cx : Context) (condition : Expr) (hb : b.Intact cx) :
    Spec cx b (lowerCondition cx condition) (fun _ _ => True) fun _ _ _ => True := by
  obtain ⟨r, b1, hrun, hr, -⟩ := conditionRegister_run hb condition.span
  refine .allocate hrun hr ((settling_temp (lowerExpr_lowers cx condition) hb hr).bind
    fun _ _ _ hg _ _ => .pure hg.intact trivial fun _ => trivial)

theorem resolveFields_spec (cx : Context) (path : Path) (hb : b.Intact cx) :
    Spec cx b (resolveFields cx path) (fun found b' => ∃ fields, found.2.InRange fields b' ∧
      (b'.Clean → found.2.Typed cx b') ∧
      (∀ field ∈ fields, field.type.Within 0 cx.table.structs.length) ∧
      (b'.Clean → ∀ field ∈ fields, field.type.Plain)) fun _ _ _ => True := by
  obtain ⟨r, hr, hid⟩ := hb.context.table.resolveType path.toName path.absolute b.scope path.span
  refine .look (get_run b) ((orReport_spec (P := fun id _ => r = .ok id)
    (Q := fun _ _ _ => True) hb hr (fun _ h => h) fun _ _ => trivial).bind
    fun id sh1 b1 hg1 hr1 _ => ?_)
  have hlt := hid id hr1
  obtain ⟨entry, hmem, hentry⟩ := struct?_of_lt (t := cx.table) hlt
  obtain ⟨name, hname⟩ := displayName_ok (t := cx.table) (d := .struct id) hlt
  refine .look (orFault_run (fields_eq hentry)) (.look (orFault_run hname)
    (.pure hg1.intact ⟨entry.fields, ?_, fun _ => ?_, ?_, fun hc => ?_⟩ fun _ => trivial))
  · exact ⟨rfl, by simp [Fields.unwritten], by simp [written_unwritten]⟩
  · exact ⟨rfl, fun i a h => by simp [Fields.unwritten, getElem?_replicate] at h⟩
  · exact hb.context.table.fields entry hmem
  · exact (hg1.intact.plain hc).2.table.fields entry hmem

theorem lookupLocal_ok {path : Path} {index : Nat} {l : Local}
    (hrun : (lookupLocal path).run b = .ok (some (some (index, l)), c)) :
    c = b ∧ ∃ x, findLocal x b.locals = some (index, l) := by
  rw [lookupLocal] at hrun
  cases hsingle : path.single? with
  | none =>
    rw [hsingle] at hrun
    cases hrun
  | some name =>
    rw [hsingle] at hrun
    have hfound : (.ok (some (findLocal name.text b.locals), b) :
        Except Abort (Option (Option (Nat × Local)) × Body)) = .ok (some (some (index, l)), c) := hrun
    cases hfind : findLocal name.text b.locals with
    | none =>
      rw [hfind] at hfound
      cases hfound
    | some entry =>
      rw [hfind] at hfound
      cases hfound
      exact ⟨rfl, name.text, hfind⟩

theorem startLoop_ready (hb : b.Ready cx) (hrun : (startLoop span).run b = .ok (some test, c)) :
    ∃ (b0 : Body) (r : RegisterId), b0.Ready cx ∧ test = .register r ∧
      b0.Allocates cx (.struct .bool) r c := by
  rw [startLoop_run hb.intact.opened] at hrun
  have hb0 : (b.withGraph (b.draft.graph.add.jump ⟨b.draft.graph.size⟩
      ⟨b.draft.graph.size⟩)).Ready cx :=
    ⟨hb.intact.withGraph hb.intact.opened.loopHead, hb.written.add.jump (by simp)⟩
  obtain ⟨r, b1, hrun1, hr, -⟩ := conditionRegister_run hb0.intact span
  cases hrun1
  cases hrun
  exact ⟨_, _, hb0, rfl, hr⟩

theorem inLoop_ready {value : Access → Lower Unit} {E : Effect} {test : RegisterId} {b0 : Body}
    {type : Ty} (hvalue : Lowers cx value E) (hb0 : b0.Ready cx) (hr : b0.Allocates cx type test b)
    (hrun : (inLoop (settling cx (.register test) value)).run b = .ok (some (), c)) :
    c.Ready cx := by
  obtain ⟨-, b1, hstep, rfl⟩ := inLoop_ok hrun
  have hb := (hb0.grown hr.grown).atDepth (b.loopDepth + 1)
  obtain ⟨sh, hg, -⟩ := (settling_temp hvalue (hb0.intact.atDepth (b.loopDepth + 1))
    (hr.atDepth _)).attempt.of_run hstep
  exact (hb.grown hg).atDepth _

theorem returnTarget_ready {target : Access} (hb : b.Ready cx)
    (hrun : (returnTarget cx span).run b = .ok (some target, c)) :
    c.Ready cx ∧ c.Takes cx target := by
  rw [returnTarget] at hrun
  split at hrun
  · obtain ⟨r, b1, hrun1, hr⟩ := newRegister_run hb.intact Ty.within_unit
      (fun _ => Ty.plain_unit) span
    rw [run_bind_some hrun1] at hrun
    cases hrun
    exact ⟨hb.grown hr.grown, hr.takes⟩
  · cases hrun
    exact ⟨hb, result_takes hb.intact⟩

theorem declareRegister_ready {name : Ident} {type : Option TypeExpr} {r : RegisterId}
    (hb : b.Ready cx) (hrun : (declareRegister cx name type).run b = .ok (some r, c)) :
    c.Ready cx ∧ c.Takes cx (.register r) := by
  obtain ⟨t, b1, hrun1, hg1, -, ht, hplain⟩ := letType_run hb.intact name type
  obtain ⟨r', b2, hrun2, hr⟩ := newRegister_run hg1.intact ht hplain name.span
  rw [declareRegister, run_bind_some hrun1] at hrun
  cases hrun.symm.trans hrun2
  exact ⟨(hb.grown hg1).grown hr.grown, hr.takes⟩

theorem branchOn_ready {second : SegmentId} (hb : b.Ready cx)
    (hrun : (branchOn test).run b = .ok (some second, c)) : c.Ready cx := by
  rw [branchOn_run hb.intact.opened] at hrun
  cases hrun
  exact hb.branch test

theorem goElse_ready {b1 : Body} {sh : Shape} (hb : b.Ready cx) (hg : (b.taken test).Grown cx sh b1)
    (hrun : (goElse (b.locals.map Local.assigned) ⟨b.draft.graph.size + 1⟩).run b1 =
      .ok (some (), c)) : c.Ready cx ∧ ∀ dest, b1.Takes cx dest → c.Takes cx dest := by
  cases hrun
  have hflags := Grown.flags hg.intact b1.scope
    (update_fixed (fun _ other => other) b1.locals (b.locals.map Local.assigned))
  have hopen : (b1.draft.graph.goTo ⟨b.draft.graph.size + 1⟩).Open :=
    hg.code ▸ hb.intact.opened.goElse (sh.frame (hb.intact.opened.branch test))
  have hwritten := ((hb.branch test).grown hg).written
  refine ⟨⟨hflags.intact.withGraph hopen, hwritten⟩, fun dest h => ⟨h.inRange, fun hc => ?_⟩⟩
  exact h.accepts ⟨hc.quiet, hc.strict⟩

end Lower

/-! ## Calls -/

namespace Task

variable {cx : Context} {t t' : Task} {b c : Body}

/-- **What is called can be begun.** -/
theorem Calls.ready (h : Calls cx t b t' c) (hb : t.Ready cx b) : t'.Ready cx c := by
  cases h with
  | block => exact hb
  | elements => exact hb.1
  | fields hfields =>
    obtain ⟨sh, hg, hp, -⟩ := (resolveFields_spec cx _ hb.1.intact).of_run hfields
    exact ⟨hb.1.grown hg, hp _ rfl⟩
  | placeName hlocal =>
    obtain ⟨rfl, hfind⟩ := lookupLocal_ok hlocal
    exact ⟨hb, hfind⟩
  | name | field | addressed | deref | callee | target => exact hb.1
  | args hcallee =>
    obtain ⟨sh, hg, -⟩ := (lowerHolder_spec cx _ hb.1.intact).of_run hcallee
    exact hb.1.grown hg
  | condition htest =>
    obtain ⟨r, b1, hrun, hr, -⟩ := conditionRegister_run hb.1.intact _
    cases htest.symm.trans hrun
    exact ⟨hb.1.grown hr.grown, hr.takes⟩
  | whenBranch htest hbranch htemp =>
    obtain ⟨sh, hg, -⟩ := (lowerCondition_spec cx _ hb.1.intact).of_run htest
    have hb2 := branchOn_ready (hb.1.grown hg) hbranch
    obtain ⟨type, hr⟩ := newTemp_allocates hb2.intact htemp
    exact ⟨hb2.grown hr.grown, hr.takes⟩
  | thenBranch htest hbranch =>
    obtain ⟨sh, hg, -⟩ := (lowerCondition_spec cx _ hb.1.intact).of_run htest
    have hd := hb.2.grown hg
    have hb2 := branchOn_ready (hb.1.grown hg) hbranch
    rw [branchOn_run hg.intact.opened] at hbranch
    cases hbranch
    exact ⟨hb2, hd.withGraph _⟩
  | elseBranch htest hbranch hthen helse =>
    obtain ⟨sh, hg, -⟩ := (lowerCondition_spec cx _ hb.1.intact).of_run htest
    have hb1 := hb.1.grown hg
    have hd := hb.2.grown hg
    rw [branchOn_run hg.intact.opened] at hbranch
    cases hbranch
    obtain ⟨sh3, hg3, -⟩ := (((lowerExpr_lowers cx _).fills (hb1.branch _).intact
      (hd.withGraph _)).settling hd.inRange).attempt.of_run hthen
    obtain ⟨hready, htakes⟩ := goElse_ready hb1 hg3 helse
    exact ⟨hready, htakes _ ((hd.withGraph _).grown hg3)⟩
  | loopCondition hstart =>
    obtain ⟨b0, r, hb0, rfl, hr⟩ := startLoop_ready hb.1 hstart
    exact ⟨(hb0.grown hr.grown).atDepth _, (hr.atDepth _).takes⟩
  | loopBody hstart htest hbranch htemp =>
    obtain ⟨b0, r, hb0, rfl, hr⟩ := startLoop_ready hb.1 hstart
    have hb2 := inLoop_ready (lowerExpr_lowers cx _) hb0 hr htest
    have hb3 := branchOn_ready hb2 hbranch
    obtain ⟨type, htemp⟩ := newTemp_allocates hb3.intact htemp
    exact ⟨(hb3.grown htemp.grown).atDepth _, (htemp.atDepth _).takes⟩
  | value htarget =>
    obtain ⟨sh, hg, hp, -⟩ := (lowerTarget_spec cx _ hb.1.intact).of_run htarget
    exact ⟨hb.1.grown hg, hp _ rfl⟩
  | returned htarget => exact returnTarget_ready hb.1 htarget
  | placeRecord | placePointer | held => exact hb
  | spilled hplace htemp =>
    obtain ⟨sh, hg, -⟩ := (lowerPlace_places cx _ b .read hb.intact).of_run hplace
    obtain ⟨type, hr⟩ := newTemp_allocates hg.intact htemp
    exact ⟨(hb.grown hg).grown hr.grown, hr.takes⟩
  | operand htemp =>
    obtain ⟨type, hr⟩ := newTemp_allocates hb.intact htemp
    exact ⟨hb.grown hr.grown, hr.takes⟩
  | otherOperands hfirst =>
    obtain ⟨sh, hg, -⟩ := (lowerOperand_spec (lowerExpr_lowers cx _) hb.intact _).of_run hfirst
    exact hb.grown hg
  | init hfield hunwritten hregister =>
    obtain ⟨hb, fields, hf, -, hwithin, hplain⟩ := hb
    have hmem := hf.same ▸ mem_of_getElem? (findField_some hfield)
    obtain ⟨r, b1, hrun, hr⟩ := newRegister_run hb.intact ((hwithin _ hmem).mono (Nat.zero_le _)
      (Nat.le_refl _)) (fun hc => hplain hc _ hmem) _
    cases hregister.symm.trans hrun
    exact ⟨hb.grown hr.grown, hr.takes⟩
  | otherInits hfirst =>
    obtain ⟨hb, fields, hf, htyped, hwithin, hplain⟩ := hb
    obtain ⟨sh, hg, hp, hq⟩ := (lowerInit_lowers (lowerExpr_lowers cx _) _ _ _ b fields _ hb.intact
      hf htyped hwithin hplain).of_run hfirst
    refine ⟨hb.grown hg, fields, hp _ rfl, fun hc => ?_, hwithin, fun hc => hplain (hg.clean hc)⟩
    obtain ⟨_, ⟨⟩, hQ⟩ := hq hc
    exact hQ.1 hc
  | result => exact ⟨hb.1, hb.2 _ rfl⟩
  | ignored htemp =>
    obtain ⟨type, hr⟩ := newTemp_allocates hb.1.intact htemp
    exact ⟨hb.1.grown hr.grown, hr.takes⟩
  | initializer hregister => exact declareRegister_ready hb.1 hregister
  | lastStmt => exact ⟨hb.1, fun a ha => by cases ha; exact hb.2⟩
  | firstStmt => exact ⟨hb.1, by rintro _ ⟨⟩⟩
  | otherStmts hfirst =>
    obtain ⟨sh, hg, -⟩ := ((lowerStmt_lowers cx _).1 b hb.1.intact).attempt.of_run hfirst
    exact ⟨hb.1.grown hg, hb.2.grown hg⟩

theorem Reaches.ready (h : Reaches cx t b t' c) (hb : t.Ready cx b) : t'.Ready cx c := by
  induction h with
  | here => exact hb
  | there hcall _ ih => exact ih (hcall.ready hb)

end Task

/-! ## The bodies of a program -/

/-- While the files are lowered, the body `e` of a function is lowered in the context `cx` and
    starts with `b`: the signatures are resolved.  Whatever the bodies before it reported is in the
    report as well. -/
inductive Begins (strict : Bool) (files : List SourceFile) (pending : PendingFunct) :
    Context → Expr → Body → Prop
  | intro {program report signature result draft e}
    (hsignatures : (lowerSignatures (Outline.ofFiles files)).run
      ⟨(Outline.ofFiles files).table, (Outline.ofFiles files).report, false⟩ = .ok ((), program))
    (hpending : pending ∈ (Outline.ofFiles files).functs)
    (hreport : program.report.entries <+: report.entries)
    (hbody : pending.decl.body = some e)
    (hsignature : program.table.funct? pending.id = some signature)
    (hresult : resultAccess (.ofSignature pending.id.index signature) signature.returnType e.span =
      (result, draft)) :
    Begins strict files pending ⟨program.table, result, signature.returnType⟩ e
      (Body.entry strict pending signature draft report)

/-- While the files are lowered, the task is begun with the body `b`. -/
def Moment (strict : Bool) (files : List SourceFile) (cx : Context) (t : Task) (b : Body) : Prop :=
  ∃ pending e start, Begins strict files pending cx e start ∧
    Task.Reaches cx (.expr e cx.result) start t b

section Program

variable {strict : Bool} {files : List SourceFile} {pending : PendingFunct} {cx : Context}
  {e : Expr} {t : Task} {b : Body}

theorem Begins.ready (h : Begins strict files pending cx e b) :
    (Task.expr e cx.result).Ready cx b := by
  cases h with
  | intro hsignatures _ hreport _ hsignature hresult =>
    obtain ⟨p, hrun, hl⟩ := lowerSignatures_spec (ofFiles_valid files)
    cases hsignatures.symm.trans hrun
    obtain ⟨entry, hmem, rfl⟩ := mem_of_funct? hsignature
    obtain ⟨more, rfl, hmore⟩ := resultAccess_cases hresult
    have hb := entry_intact hl.valid.table
      (fun hq => hl.valid.plain (prefix_nil.1 (hq ▸ hreport))) hsignature
      (hl.valid.headed entry hmem) strict hmore
    exact ⟨⟨hb, Graph.start_all⟩, result_takes hb⟩

/-- **Every moment is in order.** -/
theorem Moment.ready (h : Moment strict files cx t b) : t.Ready cx b := by
  obtain ⟨pending, e, start, hbegins, hreaches⟩ := h
  exact hreaches.ready hbegins.ready

end Program

namespace Sample

def body? (files : List SourceFile) : Option Expr :=
  (Outline.ofFiles files).functs.head?.bind fun pending => pending.decl.body

/-- The context and the body in which the first function of the files begins. -/
def entry (files : List SourceFile) : Option (Context × Body) := do
  let outline := Outline.ofFiles files
  let out ← ((lowerSignatures outline).run ⟨outline.table, outline.report, false⟩).toOption
  let pending ← outline.functs.head?
  let e ← pending.decl.body
  let signature ← out.2.table.funct? pending.id
  let start := resultAccess (.ofSignature pending.id.index signature) signature.returnType e.span
  return (⟨out.2.table, start.1, signature.returnType⟩,
    Body.entry true pending signature start.2 out.2.report)

variable {files : List SourceFile} {e : Expr} {x : Context × Body}

theorem entry_begins (hbody : body? files = some e) (hx : x ∈ entry files) :
    ∃ pending ∈ (ofFiles files).functs.head?, Begins true files pending x.1 e x.2 := by
  simp only [entry, bind, bind_eq_some_iff, mem_def] at hx
  obtain ⟨⟨_, program⟩, hrun, pending, hhead, e', he', signature, hsignature, hx⟩ := hx
  cases hx
  rw [body?, hhead, bind_some, he'] at hbody
  cases hbody
  exact ⟨pending, hhead, .intro (ok_of_toOption hrun) (mem_of_head? hhead) prefix_rfl he'
    hsignature rfl⟩

theorem entry_moment (hbody : body? files = some e) (hx : x ∈ entry files) :
    Moment true files x.1 (.expr e x.1.result) x.2 := by
  obtain ⟨pending, -, h⟩ := entry_begins hbody hx
  exact ⟨pending, e, x.2, h, .here⟩

end Sample

end Semcheck
