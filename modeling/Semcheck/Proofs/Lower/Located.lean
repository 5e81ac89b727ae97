/-
  Diagnostics point into the program.

  Every diagnostic of lowering is an error at one location, and that location and those of
  its note are among the marks of the files (`lowerFiles_located`).

  The three passes are followed one by one.  A location that is reported is that of the
  syntax at hand, or it was remembered before: with a declaration in the outline
  (`Outline.Located`), with a field in the declarations (`Program.Located`), or with a slot or
  a rule in the state of inference (`Body.Located`).
-/
import Semcheck.Proofs.Lower.Meaning

namespace Semcheck

open List Option Table Outline Engine

variable {S : Location → Prop} {files : List SourceFile}

/-! ## Reports -/

/-- Every diagnostic is an error at locations in the set. -/
def Report.Points (S : Location → Prop) (r : Report) : Prop :=
  ∀ d ∈ r.entries, d.Points S

theorem Report.points_empty : empty.Points S :=
  nofun

theorem Report.Points.push {r : Report} (h : r.Points S) {d : Diagnostic} (hd : d.Points S) :
    (r.push d).Points S :=
  forall_mem_append.2 ⟨h, forall_mem_singleton.2 hd⟩

theorem lowerType_points (table : Table) (scope : UseScope) {type : TypeExpr}
    (h : (Node.type type).Within S) : Preserves (Report.Points S) (lowerType table scope type) :=
  lowerType_preserves table scope (fun _ _ hd hr => hr.push hd.toPoints) type h

theorem lowerReturns_points (table : Table) (scope : UseScope) {returns : Option TypeExpr}
    (h : ∀ t ∈ returns, (Node.type t).Within S) :
    Preserves (Report.Points S) (lowerReturns table scope returns) := by
  cases returns with
  | none => exact .pure _
  | some type => exact lowerType_points table scope (h type rfl)

/-! ## The outline -/

/-- The declarations, apart from the builtin ones, stand at locations in the set. -/
structure Table.Placed (S : Location → Prop) (t : Table) : Prop where
  structs : ∀ entry ∈ t.structs.drop builtinCount, S entry.span
  functs : ∀ entry ∈ t.functs, S entry.funct.span

namespace Table

variable {t t' : Table} {name : Name} {span l : Location} {d : Decl} {e : LookupError}

theorem placed_builtin : builtin.Placed S :=
  ⟨nofun, nofun⟩

theorem Placed.of_span (h : t.Placed S) (hl : t.span d = .ok (some l)) : S l := by
  cases d with
  | struct id =>
    rw [span] at hl
    split at hl
    · cases hl
    · rename_i hbuiltin
      split at hl
      · rename_i entry hentry
        cases hl
        refine h.structs entry (mem_of_getElem? (i := id.index - builtinCount) ?_)
        rw [getElem?_drop, Nat.add_sub_cancel' (Nat.not_lt.1 hbuiltin), hentry]
      · cases hl
  | funct id =>
    rw [span] at hl
    split at hl
    · rename_i entry hentry
      cases hl
      exact h.functs entry (mem_of_getElem? hentry)
    · cases hl

/-- A name that is taken is reported where it is declared again, with a note where it was
    declared first; the note on a builtin name has no location. -/
theorem Placed.duplicate (h : t.Placed S) (name : Name) (d : Decl) (hspan : S span) :
    (t.duplicate name d span).toDiagnostic.Points S := by
  unfold Table.duplicate
  split
  · rename_i first hfirst
    exact LookupError.points hspan fun l hl => h.of_span (hfirst.trans (congrArg _ hl))
  · exact LookupError.points hspan nofun

theorem Placed.addStruct (h : t.Placed S) {id : StructId} (hspan : S span)
    (hrun : t.addStruct name span = .ok (id, t')) : t'.Placed S := by
  unfold Table.addStruct at hrun
  split at hrun
  · cases hrun
  · cases hrun
    refine ⟨fun entry hentry => ?_, h.functs⟩
    rw [drop_append] at hentry
    rcases mem_append.1 hentry with hold | hnew
    · exact h.structs entry hold
    · obtain rfl := mem_singleton.1 (mem_of_mem_drop hnew)
      exact hspan

theorem Placed.addFunct (h : t.Placed S) {id : FunctId} (hspan : S span)
    (hrun : t.addFunct name span = .ok (id, t')) : t'.Placed S := by
  unfold Table.addFunct at hrun
  split at hrun
  · cases hrun
  · cases hrun
    exact ⟨h.structs, forall_mem_append.2 ⟨h.functs, forall_mem_singleton.2 hspan⟩⟩

theorem addStruct_eq_error (h : t.addStruct name span = .error e) :
    ∃ d, e = t.duplicate name d span := by
  unfold addStruct at h
  split at h
  · cases h
    exact ⟨_, rfl⟩
  · cases h

theorem addFunct_eq_error (h : t.addFunct name span = .error e) :
    ∃ d, e = t.duplicate name d span := by
  unfold addFunct at h
  split at h
  · cases h
    exact ⟨_, rfl⟩
  · cases h

end Table

/-- What the outline reports and remembers lies in the set. -/
structure Outline.Located (S : Location → Prop) (o : Outline) : Prop where
  report : o.report.Points S
  table : o.table.Placed S
  structs : ∀ pending ∈ o.structs, (Node.item (.struct pending.decl)).Within S
  functs : ∀ pending ∈ o.functs, (Node.item (.funct pending.decl)).Within S

namespace Outline

variable {o : Outline}

theorem located_empty : empty.Located S :=
  ⟨Report.points_empty, placed_builtin, nofun, nofun⟩

theorem Located.addStruct (h : o.Located S) (space : Name) (scope : UseScope) {decl : StructDecl}
    (hdecl : (Node.item (.struct decl)).Within S) : (o.addStruct space scope decl).Located S := by
  rw [Outline.addStruct]
  split
  · rename_i id t hrun
    exact ⟨h.report, h.table.addStruct hdecl.span hrun,
      forall_mem_append.2 ⟨h.structs, forall_mem_singleton.2 hdecl⟩, h.functs⟩
  · rename_i e hrun
    obtain ⟨d, rfl⟩ := addStruct_eq_error hrun
    exact { h with report := h.report.push (h.table.duplicate _ d hdecl.span) }

theorem Located.addFunct (h : o.Located S) (space : Name) (scope : UseScope) {decl : FunctDecl}
    (hdecl : (Node.item (.funct decl)).Within S) : (o.addFunct space scope decl).Located S := by
  rw [Outline.addFunct]
  split
  · rename_i id t hrun
    exact ⟨h.report, h.table.addFunct hdecl.span hrun, h.structs,
      forall_mem_append.2 ⟨h.functs, forall_mem_singleton.2 hdecl⟩⟩
  · rename_i e hrun
    obtain ⟨d, rfl⟩ := addFunct_eq_error hrun
    exact { h with report := h.report.push (h.table.duplicate _ d hdecl.span) }

theorem ofFiles_located {files : List SourceFile}
    (h : ∀ file ∈ files, (Node.file file).Within S) : (ofFiles files).Located S :=
  Keeping.ofFiles ⟨fun space scope _ hdecl ho => ho.addStruct space scope hdecl,
    fun space scope _ hdecl ho => ho.addFunct space scope hdecl⟩ located_empty h

end Outline

/-! ## Signatures -/

/-- What is reported and the declared fields lie in the set. -/
structure Program.Located (S : Location → Prop) (p : Program) : Prop where
  report : p.report.Points S
  fields : ∀ entry ∈ p.table.structs, ∀ field ∈ entry.fields, S field.span

namespace ProgramM

variable {α : Type}

theorem orFault_ensures {I : Program → Prop} (x : Except Fault α) :
    Ensures I (fun a => x = .ok a) (ProgramM.orFault x) := by
  cases x with
  | ok a => exact .pure rfl
  | error fault => exact .throw _

theorem orDefect_preserves {I : Program → Prop} (x : Except Defect α) :
    Preserves I (ProgramM.orDefect x) := by
  cases x with
  | ok a => exact .pure a
  | error defect => exact .throw _

theorem reporting_located {step : Table → ReportM α}
    (h : ∀ table, Preserves (Report.Points S) (step table)) :
    Preserves (Program.Located S) (ProgramM.reporting step) := by
  intro p a p' hrun hp
  change ((ProgramM.orFault ((step p.table).run p.report)).run p >>= _) = _ at hrun
  cases hstep : (step p.table).run p.report with
  | error fault => rw [hstep] at hrun; cases hrun
  | ok out =>
    rw [hstep] at hrun
    cases hrun
    exact ⟨h p.table _ _ _ hstep hp.report, hp.fields⟩

theorem updating_located {change : Table → Except Fault Table}
    (h : ∀ t t', change t = .ok t' → (∀ entry ∈ t.structs, ∀ field ∈ entry.fields, S field.span) →
      ∀ entry ∈ t'.structs, ∀ field ∈ entry.fields, S field.span) :
    Preserves (Program.Located S) (ProgramM.updating change) := by
  intro p a p' hrun hp
  change ((ProgramM.orFault (change p.table)).run p >>= _) = _ at hrun
  cases hchange : change p.table with
  | error fault => rw [hchange] at hrun; cases hrun
  | ok table =>
    rw [hchange] at hrun
    cases hrun
    exact ⟨hp.report, h _ _ hchange hp.fields⟩

end ProgramM

section Signatures

open ProgramM

theorem addField_located {id : StructId} {field : Field} (hfield : S field.span) :
    Preserves (Program.Located S) (updating fun table => table.addField id field) := by
  refine updating_located fun t t' hrun ht entry hentry => ?_
  rw [addField] at hrun
  split at hrun
  · cases hrun
    rcases mem_modify hentry with hold | ⟨old, hold, rfl⟩
    · exact ht entry hold
    · exact forall_mem_append.2 ⟨ht old hold, forall_mem_singleton.2 hfield⟩
  · cases hrun

theorem setFunct_located (id : FunctId) (f : Function) :
    Preserves (Program.Located S) (updating fun table => table.setFunct id f) := by
  refine updating_located fun t t' hrun ht => ?_
  rw [setFunct] at hrun
  split at hrun
  · cases hrun
    exact ht
  · cases hrun

theorem Table.fields_located {t : Table} {id : StructId} {fields : List Field}
    (ht : ∀ entry ∈ t.structs, ∀ field ∈ entry.fields, S field.span)
    (h : t.fields id = .ok fields) : ∀ field ∈ fields, S field.span := by
  rw [Table.fields] at h
  split at h
  · cases h
    exact ht _ (mem_of_getElem? ‹_›)
  · cases h

theorem lowerField_located (id : StructId) (scope : UseScope) {field : FieldDecl}
    (hfield : (Node.field field).Within S) :
    Preserves (Program.Located S) (lowerField id scope field) := by
  have htype := hfield.child mem_cons_self
  refine .bind (reporting_located fun table => lowerType_points table scope htype) fun type => ?_
  refine .look fun p hp => .chain (orFault_ensures _) fun fields hfields => ?_
  have hspans := fields_located hp.fields hfields
  cases hfind : findField field.name.text fields with
  | some found =>
    obtain ⟨i, first⟩ := found
    have hfirst : S first.span := hspans first (mem_of_getElem? (findField_some hfind))
    exact .modify fun p hp => ⟨hp.report.push
      ((Diagnostic.points_error _ _ hfield.span).withNote _ hfirst), hp.fields⟩
  | none => exact addField_located hfield.span

theorem lowerParams_located (scope : UseScope) {params : List ParamDecl}
    (hparams : ∀ param ∈ params, (Node.param param).Within S) (draft : Draft) :
    Preserves (Program.Located S) (lowerParams scope params draft) := by
  induction params generalizing draft with
  | nil => exact .pure draft
  | cons param rest ih =>
    rw [forall_mem_cons] at hparams
    have htype := hparams.1.child mem_cons_self
    refine .bind (reporting_located fun table => lowerType_points table scope htype) fun _ => ?_
    exact .bind (orDefect_preserves _) fun out => ih hparams.2 out.2

theorem lowerSignature_located {pending : PendingFunct}
    (h : (Node.item (.funct pending.decl)).Within S) :
    Preserves (Program.Located S) (lowerSignature pending) := by
  refine .bind (lowerParams_located _ (fun _ hp => h.child ?_) _) fun draft => ?_
  · exact mem_append_left _ (mem_append_left _ (mem_map_of_mem hp))
  refine .bind (reporting_located fun table =>
    lowerReturns_points table _ fun _ ht => h.child ?_) fun returns => setFunct_located _ _
  exact mem_append_left _ (mem_append_right _ (mem_map_of_mem (mem_toList.2 ht)))

theorem lowerSignatures_located {outline : Outline} (h : outline.Located S) :
    Preserves (Program.Located S) (lowerSignatures outline) := by
  refine .bind (.forM fun pending hp => .forM fun _ hf => lowerField_located _ _ ?_) fun _ =>
    .forM fun pending hp => lowerSignature_located (h.functs pending hp)
  exact (h.structs pending hp).child (mem_map_of_mem hf)

end Signatures

/-! ## Bodies -/

/-- The report is as it should be, and what inference remembers lies in the set. -/
structure Body.Located (S : Location → Prop) (I : Report → Prop) (b : Body) : Prop where
  report : I b.report
  engine : b.engine.Located S

namespace Lower

variable {α β : Type} {I : Report → Prop} {x : Lower α}

theorem onEngine_located {step : EngineM α} (h : Preserves (Engine.Located S) step) :
    Preserves (Body.Located S I) (onEngine step).run := by
  intro b r b' hrun hb
  obtain ⟨a, e, hstep, -, rfl⟩ := onEngine_eq_ok.1 hrun
  exact ⟨hb.report, h _ _ _ hstep hb.engine⟩

section Steps

variable (hpush : ∀ r d, d.Arises S → I r → I (r.push d))
include hpush

/-- The primitive steps report and remember what lies in the set. -/
theorem closed_located : Closed S fun _ step => Preserves (Body.Located S I) step.run where
  toAside := aside_of_related id (fun _ h => h) (fun _ h => h) (fun h => ⟨h.report, h.engine⟩)
    (fun hd h => ⟨hpush _ _ hd h.report, h.engine⟩)
    fun hblind hrun h => ⟨h.report, hblind.located _ _ _ hrun h.engine⟩
  change {f} h := by
    intro b r b' hrun hb
    cases hrun
    rw [h b]
    exact ⟨hb.report, hb.engine⟩

theorem invariant_located : Invariant S fun _ step => Preserves (Body.Located S I) step.run :=
  (closed_located hpush).invariant fun expected found =>
    onEngine_located (InferM.unify_maintains located_stable expected found)

/-- A rule that failed is reported where it was queued, and an open type where its slot came
    from. -/
theorem closeTypes_located (cx : Context) : Preserves (Body.Located S I) (closeTypes cx).run := by
  have hi := closed_located (S := S) hpush
  intro b r b' hrun hb
  rcases bind_eq_ok.1 hrun with ⟨failures, b1, hsolve, hrest⟩ | ⟨hsolve, -⟩
  · obtain ⟨failures', e, hsolve, heq, rfl⟩ := onEngine_eq_ok.1 hsolve
    cases heq
    obtain ⟨he, hfailures⟩ := solve_located _ _ _ hsolve hb.engine
    refine hi.bind (hi.forM fun failure hf => ?_) (fun _ => ?_) _ _ _ hrest ⟨hb.report, he⟩
    · exact hi.reportInfer _ (hfailures failure hf)
    · exact .look fun b hb => hi.forM fun entry hentry =>
        hi.complain .inferenceImpossible _ (hb.engine.unresolved hentry) nofun
  · obtain ⟨_, _, -, ⟨⟩, -⟩ := onEngine_eq_ok.1 hsolve

theorem sealFunction_located (cx : Context) (span : Location) :
    Preserves (Body.Located S I) (sealFunction cx span).run := by
  have hi := closed_located (S := S) hpush
  refine .look fun b _ => hi.bind (hi.orFault _) fun draft => ?_
  cases draft.finish cx.returnType span with
  | ok f => exact .pure _
  | error defect => exact hi.abort _

theorem lowerFunction_located (cx : Context) {body : Expr} (hbody : (Node.expr body).Within S)
    (span : Location) : Preserves (Body.Located S I) (lowerFunction cx body span).run := by
  have hi := invariant_located (S := S) hpush
  exact hi.bind (hi.lowerRoot hbody) fun _ =>
    hi.bind (closeTypes_located hpush cx) fun _ => sealFunction_located hpush cx span

end Steps

end Lower

section Bodies

variable {strict gaveUp : Bool} {table : Table} {report report' : Report}

/-- What the diagnostics of lowering do not change, lowering a body does not change. -/
theorem lowerBody_preserves {I : Report → Prop} (hpush : ∀ r d, d.Arises S → I r → I (r.push d))
    {pending : PendingFunct} {body : Expr} {f : Function}
    (hrun : lowerBody strict table pending body report = .ok (f, report', gaveUp))
    (hbody : (Node.expr body).Within S) (h : I report) : I report' := by
  rw [lowerBody] at hrun
  cases hsig : table.funct pending.id with
  | error fault => rw [hsig] at hrun; cases hrun
  | ok signature =>
    rw [hsig] at hrun
    dsimp only at hrun
    split at hrun
    · cases hrun
    · rename_i hlower
      cases hrun
      exact (Lower.lowerFunction_located hpush _ hbody _ _ _ _ hlower
        ⟨h, located_empty strict⟩).report
    · rename_i hlower
      cases hrun
      exact (Lower.lowerFunction_located hpush _ hbody _ _ _ _ hlower
        ⟨h, located_empty strict⟩).report

theorem lowerBodies_points {pendings : List PendingFunct} {bodies : List (FunctId × Function)}
    (hrun : lowerBodies strict table pendings report = .ok (bodies, report', gaveUp))
    (hpendings : ∀ pending ∈ pendings, (Node.item (.funct pending.decl)).Within S)
    (h : report.Points S) : report'.Points S := by
  induction pendings generalizing report bodies gaveUp with
  | nil => cases hrun; exact h
  | cons pending rest ih =>
    rw [forall_mem_cons] at hpendings
    rw [lowerBodies] at hrun
    cases hbody : pending.decl.body with
    | none => rw [hbody] at hrun; exact ih hrun hpendings.2 h
    | some body =>
      have hwithin : (Node.expr body).Within S := hpendings.1.child
        (mem_append_right _ (mem_map_of_mem (mem_toList.2 hbody)))
      rw [hbody] at hrun
      obtain ⟨⟨f, report1, gaveUp1⟩, hfirst, hrun⟩ := bind_eq_ok.1 hrun
      obtain ⟨⟨others, report2, gaveUp2⟩, hrest, hrun⟩ := bind_eq_ok.1 hrun
      cases hrun
      exact ih hrest hpendings.2
        (lowerBody_preserves (fun _ _ hd hr => hr.push hd.toPoints) hfirst hwithin h)

end Bodies

/-! ## Programs -/

/-- The location is that of a node, an identifier or a path in the files. -/
def Marked (files : List SourceFile) (l : Location) : Prop :=
  ∃ file ∈ files, ∃ n ∈ (Node.file file).preorder, l ∈ n.marks

theorem within_marked {file : SourceFile} (h : file ∈ files) :
    (Node.file file).Within (Marked files) :=
  fun n hn _ hl => ⟨file, h, n, hn, hl⟩

theorem lowerFiles_points {strict : Bool} {p : Program} (hrun : lowerFiles strict files = .ok p) :
    p.report.Points (Marked files) := by
  obtain ⟨program, bodies, hsignatures, hbodies, -⟩ := lowerFiles_eq_ok.1 hrun
  have houtline : (ofFiles files).Located (Marked files) :=
    ofFiles_located fun _ => within_marked
  have hfields : ∀ entry ∈ (ofFiles files).table.structs, ∀ field ∈ entry.fields,
      Marked files field.span := by
    intro entry hentry field hfield
    rw [(ofFiles_numbered files).fields entry hentry] at hfield
    cases hfield
  have hprogram := lowerSignatures_located houtline _ _ _ hsignatures ⟨houtline.report, hfields⟩
  exact lowerBodies_points hbodies houtline.functs hprogram.report

/-- **Diagnostics point into the program.**  Lowering comes to an end, and every diagnostic is
    an error at one location.  That location and those of the note are locations of nodes,
    identifiers or paths in the files. -/
theorem lowerFiles_located (strict : Bool) (files : List SourceFile) :
    ∃ p, lowerFiles strict files = .ok p ∧ ∀ d ∈ p.report.entries, d.severity = .error ∧
      (∃ span, d.spans = [span] ∧ Marked files span) ∧
        ∀ note ∈ d.note, ∀ l ∈ note.spans, Marked files l := by
  obtain ⟨p, hrun, -⟩ := lowerFiles_spec strict files
  refine ⟨p, hrun, fun d hd => ?_⟩
  have hpoints := lowerFiles_points hrun d hd
  exact ⟨hpoints.error, hpoints.primary, hpoints.note⟩

end Semcheck
