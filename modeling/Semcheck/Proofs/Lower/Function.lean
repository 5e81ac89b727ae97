/-
  One function: its body is lowered, its types are closed and it is sealed.

  * `Function.WellFormed`: everything the function mentions exists, and its types
    have no open part;
  * `Function.Resolved`: no type of it is open or erroneous;
  * `Function.Fine`: a step on a path is well typed and reads only what has a
    value;
  * `Function.Assigns`: the names of the function are its parameters and the
    `let`s of its body, and which of them are assigned once.

  `lowerBody_spec`: a body is lowered without fault or defect to a well-formed
  function, and in the strict mode, if nothing is reported, no step gave up, all
  types are resolved and all steps on all its paths are fine.
-/
import Semcheck.Proofs.Lower.Expr

namespace Semcheck

open Lower Body List Engine Semcheck.Graph Terminator Table Access Ty

variable {f : Function} {result : Access} {sh : Shape} {past : History} {cx : Context} {ev : Event}
  {d : Draft}

/-! ## Finished types -/

/-- A register when inference is over. -/
def Register.final (e : Engine) (r : Register) : Register :=
  { r with type := e.final r.type }

section Final

variable {table : Table} {e : Engine} {t : Ty}

theorem Table.member?_final (ht : table.Valid) {index : Nat} {member : Ty}
    (h : table.member? index t = some member) :
    table.member? index (e.final t) = some (e.final member) := by
  cases t with
  | struct id =>
    obtain ⟨entry, hentry, hfield⟩ := Option.bind_eq_some_iff.1 h
    obtain ⟨field, hf, rfl⟩ := Option.map_eq_some_iff.1 hfield
    have hclosed := Ty.Closed.of_within (ht.fields entry (mem_of_getElem? hentry) field
      (mem_of_getElem? hf))
    rw [final_struct, final_closed hclosed]
    exact h
  | tuple elements =>
    rw [final_tuple, member?, getElem?_map]
    exact congrArg (Option.map e.final) h
  | _ => cases h

theorem Table.project?_final (ht : table.Valid) (ho : e.bindings.Ordered) {fields : List Nat}
    {u : Ty} (h : table.project? e.bindings.head fields t = some u) :
    table.project? id fields (e.final t) = some (e.final u) := by
  induction fields generalizing t with
  | nil => cases h; rfl
  | cons index rest ih =>
    obtain ⟨member, hm, hrest⟩ := Option.bind_eq_some_iff.1 h
    have hm' := member?_final (e := e) ht hm
    rw [final_head ho] at hm'
    rw [project?, id, hm']
    exact ih hrest

theorem Access.type?_final (ht : table.Valid) (ho : e.bindings.Ordered) {registers : List Register}
    {a : Access} (h : a.type? table e.bindings.head registers = some t) :
    a.type? table id (registers.map (.final e)) = some (e.final t) := by
  cases a with
  | discard => cases h
  | place r fields deref =>
    obtain ⟨register, hr, hrest⟩ := Option.bind_eq_some_iff.1 h
    obtain ⟨base, hbase, hproj⟩ := Option.bind_eq_some_iff.1 hrest
    rw [type?, getElem?_map, hr, Option.map_some, Option.bind_some]
    refine Option.bind_eq_some_iff.2 ⟨e.final base, ?_, project?_final ht ho hproj⟩
    cases deref with
    | false => cases hbase; rfl
    | true =>
      have hview : e.final register.type = e.final (e.bindings.head register.type) :=
        (final_head ho _).symm
      cases hh : e.bindings.head register.type with
      | pointer mutable pointee =>
        simp only [hh, if_true, pointee?] at hbase
        cases hbase
        simp [Register.final, hview, hh, pointee?]
      | _ => simp [hh, pointee?] at hbase

end Final

/-! ## Finished functions -/

namespace Function

variable {table : Table} {f : Function}

/-- The access reaches a value of the type `t`. -/
def Has (table : Table) (f : Function) (a : Access) (t : Ty) : Prop :=
  f.accessType? table a = some t

/-- Only the signature is known.  The registers are those of the parameters, and
    the names are theirs. -/
structure Header (f : Function) : Prop where
  registers : f.registers.length = f.paramCount
  bindings : f.bindings.map Binding.register = (List.range f.paramCount).map RegisterId.mk
  segments : f.segments = []

theorem Header.lt (h : f.Header) {x : Binding} (hx : x ∈ f.bindings) :
    x.register.index < f.paramCount := by
  have hmem := mem_map_of_mem (f := Binding.register) hx
  rw [h.bindings] at hmem
  obtain ⟨n, hn, heq⟩ := mem_map.1 hmem
  rw [← heq]
  exact mem_range.1 hn

theorem Header.length (h : f.Header) : f.bindings.length = f.paramCount := by
  simpa using congrArg List.length h.bindings

theorem Header.nodup (h : f.Header) : (f.bindings.map Binding.register).Nodup := by
  rw [h.bindings, List.Nodup, pairwise_map]
  exact nodup_range.imp fun hne heq => hne (by cases heq; rfl)

/-- Everything the function mentions exists, and its types have no open part. -/
structure WellFormed (table : Table) (f : Function) : Prop where
  signed : f.Signed table.structs.length
  steps : ∀ segment ∈ f.segments,
    (∀ i ∈ segment.instructions, (Event.run i).InRange table f.registers.length) ∧
      segment.terminator.Obeys (Event.InRange table f.registers.length) f.segments.length

/-- The step, behind the instructions `past`, is well typed and reads only
    parameters and what was written. -/
structure Fine (table : Table) (f : Function) (past : History) (ev : Event) : Prop where
  reads : ∀ r ∈ ev.reads, r.index < f.paramCount ∨ 0 < past.writes r
  typed : ev.Typed table (f.Has table) f.returnType

/-- The name belongs to the `let`.  An immutable local is written at most once on
    every path, unless it is declared in a loop or assigned in the value of an
    assignment to it. -/
structure Assigns (f : Function) (x : Binding) (info : LetInfo) : Prop where
  name : x.name = info.name
  mutable : x.mutable = info.mutable
  once : info.mutable = false → info.looped = false → info.nested = false →
    ∀ past s i, f.Runs past s i → past.writes x.register ≤ 1

/-- A register that is not written again after its first write. -/
theorem Runs.writes_le_one {r : RegisterId}
    (hfirst : ∀ past ins, f.Meets past (.run ins) → ins.Writes r → past.writes r = 0)
    {past : History} {s : SegmentId} {i : Nat} (hr : f.Runs past s i) : past.writes r ≤ 1 := by
  induction hr with
  | entry => exact Nat.zero_le _
  | step hr hseg hins ih =>
    rw [History.writes_snoc]
    split
    · rename_i hw
      have hzero := hfirst _ _ (.run hr hseg hins) hw
      omega
    · exact ih
  | jump hr hseg ht ih => exact ih

end Function

/-! ## Sealing -/

theorem Draft.mapTypes_eq {e : Engine} {k : Nat} (he : e.Valid k)
    (h : ∀ r ∈ d.registers, r.type.Within e.slots.length k) :
    d.mapTypes (fun t => e.concretize t) =
      .ok { d with registers := d.registers.map (.final e) } := by
  have hall : ∀ rs : List Register, (∀ r ∈ rs, r.type.Within e.slots.length k) →
      rs.mapM (fun r => do return { r with type := ← e.concretize r.type }) =
        Except.ok (rs.map (.final e)) := by
    intro rs hrs
    induction rs with
    | nil => rfl
    | cons r rs ih =>
      rw [mapM_cons, he.concretize (hrs r (by simp)), ih fun r hr => hrs r (mem_cons_of_mem _ hr)]
      rfl
  rw [Draft.mapTypes, hall _ h]
  rfl

theorem Draft.close_ok {segments : List OpenSegment}
    (h : ∀ s ∈ segments, s.terminator.isSome = true) (function index : Nat) :
    ∃ finished, close function index segments = .ok finished ∧
      finished.length = segments.length ∧
      ∀ j : Nat, finished[j]? = segments[j]?.bind OpenSegment.finish? := by
  induction segments generalizing index with
  | nil => exact ⟨[], rfl, rfl, by simp⟩
  | cons s rest ih =>
    obtain ⟨finished, hclose, hlength, hget⟩ := ih (fun s hs => h s (mem_cons_of_mem _ hs))
      (index + 1)
    obtain ⟨t, ht⟩ := Option.isSome_iff_exists.1 (h s (by simp))
    refine ⟨⟨s.instructions, t⟩ :: finished, ?_, by simp [hlength], fun j => ?_⟩
    · rw [close, ht]
      simp only [hclose]
      rfl
    · cases j with
      | zero => simp [OpenSegment.finish?, ht]
      | succ j => simpa using hget j

theorem Shape.build_closed (sh : Shape) (t : Terminator) :
    ∀ s ∈ ((sh.build .start).close t).segments, s.terminator.isSome = true := by
  intro s hs
  obtain ⟨j, hj⟩ := mem_iff_getElem?.1 hs
  change ((sh.build .start).close t).seg j = some s at hj
  rw [seg_close] at hj
  split at hj
  · exact isSome_of_close hj
  · rename_i hne
    refine (sh.frame start_open).closed j s hj hne ?_
    simp only [Graph.start, Graph.size, SegmentId.entry, length_singleton]
    omega

theorem Function.MadeFrom.all {g : Graph} {P : Event → Prop} (hf : f.MadeFrom g) (hg : g.All P) :
    ∀ segment ∈ f.segments, (∀ i ∈ segment.instructions, P (.run i)) ∧
      segment.terminator.Obeys P g.size := by
  intro segment hs
  obtain ⟨j, hj⟩ := mem_iff_getElem?.1 hs
  obtain ⟨hrun, hend⟩ := hg j _ (hf.segment (s := ⟨j⟩) hj)
  exact ⟨hrun, hend _ rfl⟩

namespace Lower

variable {cx : Context} {b : Body}

/-- The function is what the draft says, with its final types. -/
structure Seals (cx : Context) (b : Body) (f : Function) : Prop where
  registers : f.registers = b.draft.registers.map (Register.final b.engine)
  paramCount : f.paramCount = b.draft.paramCount
  bindings : f.bindings = b.draft.bindings
  returnType : f.returnType = cx.returnType
  length : f.segments.length = b.draft.graph.size
  code : f.MadeFrom b.draft.graph

theorem sealFunction_run (cx : Context) (he : b.engine.Valid cx.table.structs.length)
    (hw : ∀ r ∈ b.draft.registers, r.type.Legal cx b)
    (hc : ∀ s ∈ b.draft.segments, s.terminator.isSome = true) (span : Location) :
    ∃ f, (sealFunction cx span).run b = .ok (some f, b) ∧ Seals cx b f := by
  obtain ⟨finished, hclose, hlength, hget⟩ := Draft.close_ok hc b.draft.function 0
  let f : Function := {
    registers := b.draft.registers.map (.final b.engine)
    paramCount := b.draft.paramCount
    bindings := b.draft.bindings
    segments := finished
    returnType := cx.returnType
    external := false
    span := span }
  refine ⟨f, ?_, ?_⟩
  · rw [sealFunction, run_bind_some (get_run b),
      run_bind_some (orFault_run (Draft.mapTypes_eq he hw)), Draft.finish]
    simp only [hclose]
    rfl
  · exact ⟨rfl, rfl, rfl, rfl, hlength, hget⟩

/-! ## Lowering a function -/

/-- The body goes to the result of the function, and the function is left at its
    end. -/
theorem lowerRoot_run (hb : b.Intact cx) (body : Expr) :
    ∃ sh b', (attempt (settling cx cx.result (lowerExpr cx body))).run b = .ok (some (), b') ∧
      (lowerRoot cx body).run b =
        .ok (some (), b'.withGraph (b'.draft.graph.close (.leave cx.result))) ∧
      b.Grown cx sh b' ∧ (b'.gaveUp = false →
        Traced cx b cx.result.needs cx.result body.effect sh b' cx.result.plain?.toList) := by
  obtain ⟨sh, b', hrun, hg, hq⟩ := (((lowerExpr_lowers cx body).fills hb
    (result_takes hb)).settling hb.result_inRange).attempted
  have hopen := hg.intact.opened
  obtain ⟨s, hs, hterm⟩ := hopen
  have hdone : b'.draft.isTerminated = .ok false := by
    rw [Draft.isTerminated, Draft.currentSegment_eq hs]
    simp [bind, Except.bind, pure, Except.pure, hterm]
  refine ⟨sh, b', hrun, ?_, hg, hq⟩
  rw [lowerRoot, run_bind_some hrun, run_bind_some (get_run b'),
    run_bind_some (orFault_run hdone), Context.exit_eq]
  exact terminate_run hg.intact.opened _

/-- A list of steps that only report something.  A step reports where `P` holds. -/
theorem reports_run {α : Type} {f : α → Lower Unit} {P : α → Prop} (xs : List α)
    (h : ∀ x ∈ xs, ∀ report, ∃ report',
      (f x).run { b with report := report } = .ok (some (), { b with report := report' }) ∧
        report.entries <+: report'.entries ∧ (P x → report'.entries ≠ [])) (report : Report) :
    ∃ report',
      (xs.forM f).run { b with report := report } = .ok (some (), { b with report := report' }) ∧
        report.entries <+: report'.entries ∧ ∀ x ∈ xs, P x → report'.entries ≠ [] := by
  induction xs generalizing report with
  | nil => exact ⟨report, rfl, prefix_rfl, by simp⟩
  | cons x xs ih =>
    obtain ⟨report1, hrun1, hpre1, hloud1⟩ := h x (by simp) report
    obtain ⟨report2, hrun2, hpre2, hloud2⟩ :=
      ih (fun y hy => h y (mem_cons_of_mem _ hy)) report1
    refine ⟨report2, (run_bind_some hrun1).trans hrun2, hpre1.trans hpre2,
      forall_mem_cons.2 ⟨fun hx hnil => hloud1 hx ?_, hloud2⟩⟩
    exact prefix_nil.1 (hnil ▸ hpre2)

/-- Inference is brought to its end.  If nothing was erroneous and nothing is
    reported then it has succeeded, and no type is unknown. -/
theorem closeTypes_run (cx : Context) (he : b.engine.Valid cx.table.structs.length) :
    ∃ failures e report, (closeTypes cx).run b =
        .ok (some (), { b with engine := e, report := report }) ∧
      solve.run b.engine = .ok (failures, e) ∧
      Engine.Solving cx.table.structs.length b.engine failures e ∧
      b.report.entries <+: report.entries ∧
      (b.engine.strict = true → b.engine.Plain → report.entries = [] →
        failures = [] ∧ e.unresolved = []) := by
  obtain ⟨failures, e, hsolve, hs, -⟩ := solve_spec he
  obtain ⟨report1, hrun1, hpre1, hloud1⟩ := reports_run (b := { b with engine := e })
    (f := fun failure => reportInfer cx failure.error failure.span)
    (P := fun failure => failure.error.Plain) failures
    (fun failure hmem report => by
      have hw := hs.within failure hmem
      rw [← hs.keeps.slots] at hw
      exact reportInfer_run (b := { b with engine := e, report := report }) hs.keeps.valid hw
        failure.span) b.report
  obtain ⟨report2, hrun2, hpre2, hloud2⟩ := reports_run (b := { b with engine := e })
    (f := fun entry : Slot × Location => complain .inferenceImpossible
      "type annotations needed: cannot infer the type of this value" entry.2)
    (P := fun _ => True) e.unresolved
    (fun entry _ report => ⟨_, rfl, prefix_append _ _, fun _ => by simp [Report.push]⟩) report1
  refine ⟨failures, e, report2, ?_, hsolve, hs, hpre1.trans hpre2,
    fun hstrict hplain hquiet => ⟨?_, ?_⟩⟩
  · rw [closeTypes, run_bind_some (onEngine_run hsolve), run_bind_some hrun1,
      run_bind_some (get_run _)]
    exact hrun2
  · -- the first failure mentions no erroneous type
    rw [eq_nil_iff_forall_not_mem]
    intro failure hmem
    obtain ⟨first, hfirst⟩ := Option.isSome_iff_exists.1 (isSome_head?.2 (ne_nil_of_mem hmem))
    exact hloud1 first (mem_of_mem_head? hfirst) ((hs.plain hstrict hplain).2 first hfirst)
      (prefix_nil.1 (hquiet ▸ hpre2))
  · rw [eq_nil_iff_forall_not_mem]
    exact fun entry hmem => hloud2 entry hmem trivial hquiet

theorem result_needs (hb : b.Intact cx) : cx.result.needs = [] := by
  rcases hb.result with ⟨hresult, -⟩ | ⟨r, register, hresult, -⟩ <;> rw [hresult] <;> rfl

namespace Seals

variable {f : Function} {ev : Event}

theorem has (hs : Seals cx b f) (ht : cx.table.Valid) (he : b.engine.bindings.Ordered) {a : Access}
    {t : Ty} (hh : b.Has cx a t) : f.Has cx.table a t := by
  obtain ⟨u, hu, rfl, hclosed⟩ := hh
  have h := type?_final ht he hu
  rw [final, hclosed.closeSlots_eq, ← hs.registers] at h
  exact h

theorem fine (hs : Seals cx b f) (ht : cx.table.Valid) (he : b.engine.bindings.Ordered)
    {h : History} (hf : b.Fine cx h ev) : f.Fine cx.table h ev where
  reads r hr := hs.paramCount ▸ hf.reads r hr
  typed := hs.returnType ▸ hf.typed.mono fun _ _ hh => hs.has ht he hh

theorem permitted (hs : Seals cx b f) (he : b.engine.bindings.Ordered) (hp : b.Permitted ev) :
    ev.Permitted f.Points f.Binds := by
  refine hp.mono (fun r hr => ?_) fun r hr => ?_
  · obtain ⟨register, pointee, hreg, hhead⟩ := hr
    refine ⟨register.final b.engine, b.engine.final pointee, ?_, ?_⟩
    · rw [hs.registers, getElem?_map, hreg]
      rfl
    · rw [Register.final, ← final_head he, hhead, final_pointer]
  · obtain ⟨x, hx, hreg, hmutable⟩ := hr
    exact ⟨x, hs.bindings ▸ hx, hreg, hmutable⟩

theorem wellFormed (hs : Seals cx b f) (hcx : cx.Valid) (he : b.engine.Valid cx.table.structs.length)
    (hw : ∀ r ∈ b.draft.registers, r.type.Legal cx b)
    (hparams : b.draft.paramCount ≤ b.draft.registers.length)
    (hbindings : ∀ x ∈ b.draft.bindings, x.register.index < b.draft.registers.length)
    (hsteps : b.draft.graph.All (Event.InRange cx.table b.draft.registers.length)) :
    f.WellFormed cx.table := by
  have hlength : f.registers.length = b.draft.registers.length := by
    rw [hs.registers, length_map]
  refine ⟨⟨fun r hr => ?_, hs.returnType ▸ hcx.returnType, ?_, ?_⟩, ?_⟩
  · rw [hs.registers] at hr
    obtain ⟨r', hr', rfl⟩ := mem_map.1 hr
    exact he.final (hw r' hr')
  · rw [hs.paramCount, hlength]
    exact hparams
  · rw [hs.bindings, hlength]
    exact hbindings
  · rw [hlength, hs.length]
    exact hs.code.all hsteps

end Seals

end Lower

variable {b b' : Body}

theorem Flow.meets (hflow : Flow cx b [] sh b' cx.result.plain?.toList) (hb' : b'.Intact cx)
    (hcode : f.MadeFrom ((sh.build .start).close (.leave cx.result))) (hsound : b.Sound [])
    (hm : f.Meets past ev) : b'.Fine cx past ev := by
  obtain ⟨hfine, hend⟩ := hflow [] hsound (by simp)
  rcases Shape.visits_of_meets hcode hm with hv | ⟨m, he, rfl, rfl⟩
  · exact hfine past ev hv
  · refine ⟨fun r hr => ?_, exit_typed hb'⟩
    rw [exit_reads hb'] at hr
    exact ((hend _ he).2 r hr).defined

theorem Permits.meets (hpermits : Permits b result sh b')
    (hcode : f.MadeFrom ((sh.build .start).close (.leave result))) (hreached : b.Reached)
    (hresult : b.Writable result) (hm : f.Meets past ev) : b'.Permitted ev := by
  rcases Shape.visits_of_meets hcode hm with hv | ⟨m, -, -, rfl⟩
  · exact hpermits.steps hreached hresult [] past ev hv
  · trivial

theorem Declares.assigns {x : Binding} {info : LetInfo} (hd : Declares b sh x info)
    (hcode : f.MadeFrom ((sh.build .start).close (.leave result))) (hdepth : b.loopDepth = 0) :
    f.Assigns x info := by
  refine ⟨hd.name, hd.mutable, fun hmutable hlooped hnested past s i hr => ?_⟩
  refine hr.writes_le_one fun past ins hm hw => ?_
  rcases Shape.visits_of_meets hcode hm with hv | ⟨m, -, -, ⟨⟩⟩
  exact (hd.bounds hmutable hlooped hnested hdepth).visits [] (Nat.le_refl _) past ins hv hw

/-- No type of the function is unknown or erroneous. -/
structure Function.Resolved (f : Function) : Prop where
  registers : ∀ r ∈ f.registers, r.type.isResolved = true
  returnType : f.returnType.isResolved = true

namespace Lower

variable {cx : Context} {b : Body}

/-- A function without fault or defect.  `b` is the body at its entry, and `b'` at
    its end. -/
structure Lowered (cx : Context) (b : Body) (body : Expr) (f : Function) (b' : Body) : Prop where
  grows : b.report.entries <+: b'.report.entries
  wellFormed : f.WellFormed cx.table
  returnType : f.returnType = cx.returnType
  paramCount : f.paramCount = b.draft.paramCount
  registers : ∀ (i : Nat) register, b.draft.registers[i]? = some register →
    register.type.Closed → f.registers[i]? = some register
  whole : b.engine.strict = true → b'.report.entries = [] → b'.gaveUp = false
  resolved : b.engine.strict = true → b'.report.entries = [] → f.Resolved
  fine : b.engine.strict = true → b'.report.entries = [] → b.Sound [] →
    ∀ past ev, f.Meets past ev → f.Fine cx.table past ev
  permitted : b.engine.strict = true → b'.report.entries = [] → b.Reached →
    ∀ past ev, f.Meets past ev → ev.Permitted f.Points f.Binds
  lets : b'.gaveUp = false → b.loopDepth = 0 →
    ∃ new, f.bindings = b.draft.bindings ++ new ∧ List.Forall₂ f.Assigns new body.effect.lets
  names : b.draft.bindings <+: f.bindings
  entry : f.segments ≠ []
  exits : ∀ segment ∈ f.segments, segment.terminator.successors = [] →
    segment.terminator = .leave cx.result
  code : ∃ b₁, (attempt (settling cx cx.result (lowerExpr cx body))).run b = .ok (some (), b₁) ∧
    f.MadeFrom (b₁.draft.graph.close (.leave cx.result))

/-- **A function with a body is lowered** without fault or defect, and is fine on
    all its paths if nothing is reported. -/
theorem lowerFunction_spec (hb : b.Intact cx) (hstart : b.draft.graph = .start) (body : Expr)
    (span : Location) : ∃ f b', (lowerFunction cx body span).run b = .ok (some f, b') ∧
      Lowered cx b body f b' := by
  obtain ⟨sh, b1, hbody, hroot, hg, htraced⟩ := lowerRoot_run hb body
  obtain ⟨failures, e, report, hclose, -, hsolving, hpre, hclosed⟩ := closeTypes_run cx
    (b := b1.withGraph (b1.draft.graph.close (.leave cx.result))) hg.intact.engine
  have hk := hsolving.keeps
  let b2 : Body := { b1.withGraph (b1.draft.graph.close (.leave cx.result)) with
    engine := e, report := report }
  have hgraph : b2.draft.graph = (sh.build .start).close (.leave cx.result) := by
    rw [← hstart, ← hg.code]
    rfl
  have hw : ∀ r ∈ b2.draft.registers, r.type.Legal cx b2 := by
    intro r hr
    have h := hg.intact.registers r hr
    have hslots : b2.engine.slots = b1.engine.slots := hk.slots
    rwa [← hslots] at h
  obtain ⟨f, hseal, hs⟩ := sealFunction_run cx (b := b2) hk.valid hw
    (by
      show ∀ s ∈ b2.draft.graph.segments, _
      rw [hgraph]
      exact sh.build_closed _) span
  have hcode : f.MadeFrom ((sh.build .start).close (.leave cx.result)) := hgraph ▸ hs.code
  have hquiet : b.engine.strict = true → report.entries = [] → b1.Clean := fun hstrict hr =>
    ⟨prefix_nil.1 (hr ▸ hpre), hg.engine.strict.trans hstrict⟩
  have hx : b1.Clean → b1.Extends b2 := fun hc =>
    ⟨prefix_rfl, rfl, hk.grows hc.strict, prefix_rfl⟩
  refine ⟨f, b2, ?_, ?_⟩
  · rw [lowerFunction, run_bind_some hroot, run_bind_some hclose]
    exact hseal
  refine ⟨hg.report.trans hpre, ?_, hs.returnType, hs.paramCount.trans hg.draft.paramCount,
    fun i register hr hclosed => ?_, fun hstrict hr => ?_, fun hstrict hr => ?_,
    fun hstrict hr hsound past ev hm => ?_, fun hstrict hr hreached past ev hm => ?_,
    fun hw hdepth => ?_, hs.bindings ▸ hg.draft.bindings, ?_, ?_, b1, hbody, hs.code⟩
  · refine hs.wellFormed hb.context hk.valid hw hg.intact.params hg.intact.bindings ?_
    rw [hgraph]
    refine (Shape.build_all start_open start_all hg.steps).close ⟨fun ev hev => ?_, ?_, leave_ne _⟩
    · rw [event?_leave] at hev
      cases hev
      exact hg.intact.result_inRange
    · simp [successors_leave]
  · have hr' : b1.draft.registers[i]? = some register := by
      obtain ⟨more, hmore⟩ := hg.draft.registers
      rw [← hmore, getElem?_append_left (List.getElem?_eq_some_iff.1 hr).1]
      exact hr
    rw [hs.registers, getElem?_map, show b2.draft.registers[i]? = _ from hr', Option.map_some,
      Register.final, final_closed hclosed]
  · have hc := hquiet hstrict hr
    exact hg.intact.whole hc.strict hc.quiet
  · have hc := hquiet hstrict hr
    obtain ⟨hplain, hcx⟩ := hg.intact.plain hc
    obtain ⟨rfl, hknown⟩ := hclosed hc.strict hplain.engine hr
    have hbindings := ((hsolving.plain hc.strict hplain.engine).1 rfl).bindings
    refine ⟨?_, ?_⟩
    · rw [hs.registers, forall_mem_map]
      intro r hmem
      have hall := hk.valid.closed_apply hknown (hw r hmem)
      show ((e.bindings.apply r.type).closeSlots).isResolved = true
      rw [hall.closeSlots_eq]
      exact (Bindings.plain_apply hbindings (hplain.registers r hmem)).isResolved hall
    · rw [hs.returnType]
      exact hcx.returnType.isResolved (.of_within hb.context.returnType)
  · have hc := hquiet hstrict hr
    have hflow := (htraced (hc.whole hg.intact)).flow hc
    rw [result_needs hb] at hflow
    exact hs.fine hb.context.table hk.valid.ordered
      ((hx hc).fine (hflow.meets hg.intact hcode hsound hm))
  · have hc := hquiet hstrict hr
    exact hs.permitted hk.valid.ordered ((hx hc).permitted
      (((htraced (hc.whole hg.intact)).permit hc).meets hcode hreached (result_writable hb) hm))
  · obtain ⟨new, hnew, hall⟩ := (htraced hw).once.lets
    exact ⟨new, hs.bindings.trans hnew, hall.imp fun _ _ hd => hd.assigns hcode hdepth⟩
  · refine ne_nil_of_length_pos ?_
    rw [hs.length, hgraph, size_close]
    exact Nat.lt_of_lt_of_le Nat.one_pos (sh.frame start_open).size
  · have hleave : ((sh.build .start).close (.leave cx.result)).All (Event.LeavesWith cx.result) :=
      (Shape.build_all start_open start_all hg.exits).close ⟨fun ev hev => by
        rw [event?_leave] at hev
        cases hev
        exact Event.leavesWith_exit _, by simp [successors_leave],
        leave_ne _⟩
    exact fun segment hmem hnone => ((hcode.all hleave segment hmem).2).eq_leave hnone

end Lower

/-! ## Lowering a body -/

/-- All types of the function are known, and everything on its paths is fine and
    permitted. -/
structure Function.Checked (table : Table) (f : Function) : Prop where
  resolved : f.Resolved
  fine : ∀ past ev, f.Meets past ev → f.Fine table past ev
  permitted : ∀ past ev, f.Meets past ev → ev.Permitted f.Points f.Binds

theorem Lower.Lowered.signature {body : Expr} {signature : Function} (hl : Lowered cx b body f b')
    (hs : signature.Signed cx.table.structs.length)
    (hreturns : cx.returnType = signature.returnType)
    (hcount : b.draft.paramCount = signature.paramCount)
    (hregisters : signature.registers <+: b.draft.registers) :
    f.signature = signature.signature := by
  have hparams : f.params = signature.params := by
    rw [Function.params, Function.params, hl.paramCount, hcount]
    refine ext_getElem? fun i => ?_
    rw [getElem?_take, getElem?_take]
    split
    · rename_i hi
      have hlt : i < signature.registers.length := Nat.lt_of_lt_of_le hi hs.params
      obtain ⟨more, hmore⟩ := hregisters
      rw [getElem?_eq_getElem hlt]
      refine hl.registers i _ ?_ (.of_within (hs.registers _ (getElem_mem hlt)))
      rw [← hmore, getElem?_append_left hlt, getElem?_eq_getElem hlt]
    · rfl
  rw [Function.signature, Function.signature, hparams, hl.returnType, hreturns]

/-- The result of a function gets a register, unless it is `()`. -/
def Function.Results (signature : Function) (span : Location) (more : List Register)
    (result : Access) : Prop :=
  (more = [] ∧ result = .discard ∧ signature.returnType = .unit) ∨
    (more = [⟨signature.returnType, span⟩] ∧ result = .register ⟨signature.registers.length⟩ ∧
      signature.returnType ≠ .unit)

/-- The draft in which the lowering of a body begins. -/
def Draft.entry (function : Nat) (signature : Function) (more : List Register) : Draft :=
  { ofSignature function signature with registers := signature.registers ++ more }

theorem resultAccess_cases {n : Nat} {signature : Function} {draft : Draft} {span : Location}
    (h : resultAccess (.ofSignature n signature) signature.returnType span = (result, draft)) :
    ∃ more, draft = .entry n signature more ∧ signature.Results span more result := by
  rw [resultAccess] at h
  split at h
  · rename_i hunit
    cases h
    exact ⟨[], by simp [Draft.entry, Draft.ofSignature], .inl ⟨rfl, rfl, isUnit_iff.1 hunit⟩⟩
  · rename_i hunit
    cases h
    exact ⟨_, rfl, .inr ⟨rfl, rfl, fun hu => hunit (isUnit_iff.2 hu)⟩⟩

/-- A body at the entry of its function. -/
def Body.entry (strict : Bool) (pending : PendingFunct) (signature : Function) (draft : Draft)
    (report : Report) : Body where
  report := report
  engine := .empty strict
  draft := draft
  scope := pending.scope
  locals := signature.bindings.map Local.ofParam
  loopDepth := 0
  gaveUp := false

section Entry

variable {table : Table} {pending : PendingFunct} {signature : Function} {strict : Bool}
  {report : Report}

theorem Body.entry_sound (hs : signature.Signed table.structs.length) (hh : signature.Header)
    (more : List Register) :
    (entry strict pending signature (.entry pending.id.index signature more) report).Sound [] := by
  refine forall_mem_map.2 fun x hx _ => ⟨.inl (hh.lt hx), ?_⟩
  have hlt := hs.bindings x hx
  refine ⟨signature.registers.get ⟨x.register.index, hlt⟩, ?_, ?_⟩
  · show (signature.registers ++ more)[x.register.index]? = _
    rw [getElem?_append_left hlt, getElem?_eq_getElem hlt]
    rfl
  · have hclosed := Ty.Closed.of_within (hs.registers _ (get_mem signature.registers
      ⟨x.register.index, hlt⟩))
    rw [Bindings.apply_closed hclosed]
    exact hclosed

theorem lowerBody_eq {body : Expr} {draft : Draft} {b : Body}
    (hsig : table.funct? pending.id = some signature)
    (hresult : resultAccess (.ofSignature pending.id.index signature) signature.returnType
      body.span = (result, draft))
    (hrun : (lowerFunction ⟨table, result, signature.returnType⟩ body pending.decl.span).run
      (.entry strict pending signature draft report) = .ok (some f, b)) :
    lowerBody strict table pending body report = .ok (f, b.report, b.gaveUp) := by
  rw [lowerBody, funct_eq hsig]
  simp only [hresult]
  rw [entry] at hrun
  rw [hrun]

variable (ht : table.Valid) (hp : report.entries = [] → table.Plain)
  (hsig : table.funct? pending.id = some signature) (hh : signature.Header) (strict : Bool)
  (body : Expr)

include ht hp hsig hh

theorem Body.entry_intact {more : List Register} {span : Location}
    (hmore : signature.Results span more result) : (entry strict pending signature
      (.entry pending.id.index signature more) report).Intact
        ⟨table, result, signature.returnType⟩ := by
  obtain ⟨entry, hmem, rfl⟩ := mem_of_funct? hsig
  have hs := ht.functs entry hmem
  have htypes : ∀ r ∈ more, r.type = entry.funct.returnType := by
    rcases hmore with ⟨rfl, -⟩ | ⟨rfl, -⟩ <;> simp
  have hlt : ∀ x ∈ entry.funct.bindings,
      x.register.index < (entry.funct.registers ++ more).length := by
    intro x hx
    have := hs.bindings x hx
    rw [length_append]
    omega
  refine {
    context := ⟨ht, hs.returnType⟩
    engine := valid_empty strict
    registers := fun r hr => ?_
    locals := forall_mem_map.2 hlt
    distinct := ?_
    apart := forall_mem_map.2 fun x hx hresult => ?_
    bindings := hlt
    bound := forall_mem_map.2 fun x hx => ⟨x, hx, rfl, rfl⟩
    params := ?_
    result := ?_
    opened := start_open
    plain := fun hc => ?_
    whole := fun _ _ => rfl }
  · rcases mem_append.1 hr with hr | hr
    · exact hs.registers r hr
    · rw [htypes r hr]
      exact hs.returnType
  · exact (map_map ..).symm ▸ hh.nodup
  · have hx' := hs.bindings x hx
    rcases hmore with ⟨-, rfl, -⟩ | ⟨-, rfl, -⟩
    · cases hresult
    · have hlast : x.register = ⟨entry.funct.registers.length⟩ := (register_inj hresult).symm
      rw [hlast] at hx'
      exact Nat.lt_irrefl _ hx'
  · have := hs.params
    show entry.funct.paramCount ≤ (entry.funct.registers ++ more).length
    rw [length_append]
    omega
  · rcases hmore with ⟨rfl, rfl, hunit⟩ | ⟨rfl, rfl, hne⟩
    · exact .inl ⟨rfl, hunit⟩
    · exact .inr ⟨_, _, rfl, getElem?_concat_length, rfl, hne⟩
  · have hplain := hp hc.quiet
    have hf := hplain.functs entry hmem
    refine ⟨⟨plain_empty strict, fun r hr => ?_⟩, hplain, hf.returnType⟩
    rcases mem_append.1 hr with hr | hr
    · exact hf.registers r hr
    · rw [htypes r hr]
      exact hf.returnType

theorem lowerBody_run : ∃ result more b cx f b',
      b = .entry strict pending signature (.entry pending.id.index signature more) report ∧
      cx = ⟨table, result, signature.returnType⟩ ∧
      resultAccess (.ofSignature pending.id.index signature) signature.returnType body.span =
        (result, .entry pending.id.index signature more) ∧
      signature.Results body.span more result ∧ b.Intact cx ∧
      (lowerFunction cx body pending.decl.span).run b = .ok (some f, b') ∧
      Lowered cx b body f b' := by
  cases hresult : resultAccess (.ofSignature pending.id.index signature) signature.returnType
    body.span with
  | mk result draft =>
    obtain ⟨more, rfl, hmore⟩ := resultAccess_cases hresult
    have hb := entry_intact ht hp hsig hh strict hmore
    obtain ⟨f, b', hrun, hl⟩ := lowerFunction_spec hb rfl body pending.decl.span
    exact ⟨result, more, _, _, f, b', rfl, rfl, rfl, hmore, hb, hrun, hl⟩

/-- **A body is lowered without fault or defect**, to a function with the
    signature that was declared. -/
theorem lowerBody_spec : ∃ f report' gaveUp,
      lowerBody strict table pending body report = .ok (f, report', gaveUp) ∧
      report.entries <+: report'.entries ∧ f.WellFormed table ∧
      f.signature = signature.signature ∧
      (strict = true → report'.entries = [] → gaveUp = false ∧ f.Checked table) ∧
      (gaveUp = false →
        List.Forall₂ f.Assigns (f.bindings.drop f.paramCount) body.effect.lets) := by
  obtain ⟨entry, hmem, hentry⟩ := mem_of_funct? hsig
  have hs : signature.Signed table.structs.length := hentry ▸ ht.functs entry hmem
  obtain ⟨result, more, _, _, f, b', rfl, rfl, hresult, -, -, hrun, hl⟩ :=
    lowerBody_run ht hp hsig hh strict body
  refine ⟨f, b'.report, b'.gaveUp, ?_, hl.grows, hl.wellFormed, ?_, fun hstrict hquiet =>
    ⟨hl.whole hstrict hquiet, hl.resolved hstrict hquiet, ?_, ?_⟩, fun hw => ?_⟩
  · exact lowerBody_eq hsig hresult hrun
  · refine hl.signature hs rfl rfl ?_
    exact prefix_append _ _
  · exact hl.fine hstrict hquiet (entry_sound hs hh more)
  · refine hl.permitted hstrict hquiet (forall_mem_map.2 fun x _ => ?_)
    rintro ⟨⟩
  · obtain ⟨new, hnew, hall⟩ := hl.lets hw rfl
    have hdrop : f.bindings.drop f.paramCount = new := by
      rw [hnew, hl.paramCount]
      exact drop_left' hh.length
    rwa [hdrop]

end Entry

end Semcheck
