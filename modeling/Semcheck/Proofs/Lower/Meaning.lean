/-
  What the pass over the signatures comes to.

  Resolving a type looks at the names of the declarations and at nothing else
  (`lowerType_congr`), and the pass leaves these alone.  So each declaration can
  be resolved by itself, and what comes out can be written down:

  * `TypeExpr.meaning`: the type that type syntax stands for;
  * `resolveFields`: the fields of a struct, less those whose name is taken;
  * `PendingFunct.signature`: the function without its body;
  * `lowerSignatures_run`: the pass puts these into the table, and reports what
    was found on the way, one declaration after the other.
-/
import Semcheck.Proofs.Lower.Frame

namespace Semcheck

open List Table PendingFunct Outline Draft Report

/-! ## Names -/

/-- The tables declare the same names, by the same numbers. -/
structure Table.SameNames (t t' : Table) : Prop where
  index : t'.index = t.index
  structs : t'.structs.map StructEntry.name = t.structs.map StructEntry.name
  functs : t'.functs.map FunctEntry.name = t.functs.map FunctEntry.name

namespace Table.SameNames

variable {t t' t1 : Table}

theorem refl (t : Table) : t.SameNames t := ⟨rfl, rfl, rfl⟩

theorem symm (h : t.SameNames t') : t'.SameNames t :=
  ⟨h.index.symm, h.structs.symm, h.functs.symm⟩

theorem trans (h1 : t.SameNames t1) (h2 : t1.SameNames t') : t.SameNames t' :=
  ⟨h2.index.trans h1.index, h2.structs.trans h1.structs, h2.functs.trans h1.functs⟩

section

variable (h : t.SameNames t')
include h

theorem name? (d : Decl) : t'.name? d = t.name? d := by
  cases d with
  | struct id =>
    have heq := congrArg (fun names => names[id.index]?) h.structs
    simpa [Table.name?] using heq
  | funct id =>
    have heq := congrArg (fun names => names[id.index]?) h.functs
    simpa [Table.name?] using heq

theorem displayName (d : Decl) : t'.displayName d = t.displayName d := by
  simp only [Table.displayName, h.name?]

theorem displayNames (ds : List Decl) : t'.displayNames ds = t.displayNames ds := by
  induction ds with
  | nil => rfl
  | cons d ds ih => simp only [Table.displayNames, h.displayName, ih]

theorem get? (name : Name) : t'.get? name = t.get? name := by
  simp only [Table.get?, h.index]

theorem resolve (name : Name) (absolute : Bool) (scope : UseScope) (span : Location) :
    t'.resolve name absolute scope span = t.resolve name absolute scope span := by
  have hlookup : t'.lookup name absolute scope = t.lookup name absolute scope := by
    simp only [Table.lookup, funext h.get?]
  rw [Table.resolve, Table.resolve, hlookup]
  simp only [Table.onlyDecl, Table.suggestions, h.index, h.displayNames]

theorem resolveType (name : Name) (absolute : Bool) (scope : UseScope) (span : Location) :
    t'.resolveType name absolute scope span = t.resolveType name absolute scope span := by
  simp only [Table.resolveType, h.resolve]

end

mutual

theorem lowerType (h : t.SameNames t') (scope : UseScope) :
    ∀ e, lowerType t' scope e = Semcheck.lowerType t scope e
  | .path path span => by simp only [Semcheck.lowerType, h.resolveType]
  | .pointer _ _ pointee _ => by simp only [Semcheck.lowerType, h.lowerType scope pointee]
  | .tuple elements _ => by simp only [Semcheck.lowerType, h.lowerTypes scope elements]
  | .funct params none _ => by simp only [Semcheck.lowerType, h.lowerTypes scope params]
  | .funct params (some returns) _ => by
    simp only [Semcheck.lowerType, h.lowerTypes scope params, h.lowerType scope returns]

theorem lowerTypes (h : t.SameNames t') (scope : UseScope) :
    ∀ es, lowerTypes t' scope es = Semcheck.lowerTypes t scope es
  | [] => rfl
  | e :: rest => by
    simp only [Semcheck.lowerTypes, h.lowerType scope e, h.lowerTypes scope rest]

end

end Table.SameNames

/-! ## Types -/

/-- The type that type syntax stands for, and what there is to report on it. -/
def TypeExpr.meaning (table : Table) (scope : UseScope) (e : TypeExpr) : Ty × Report :=
  ((lowerType table scope e).run .empty).toOption.getD (.error, .empty)

/-- The type that a function returns, and what there is to report on it. -/
def returnMeaning (table : Table) (scope : UseScope) : Option TypeExpr → Ty × Report
  | none => (.unit, .empty)
  | some e => e.meaning table scope

section Types

variable {table table' : Table} {scope : UseScope}

theorem TypeExpr.meaning_congr (h : table.SameNames table') (e : TypeExpr) :
    e.meaning table' scope = e.meaning table scope := by
  simp only [TypeExpr.meaning, h.lowerType]

theorem returnMeaning_congr (h : table.SameNames table') (returns : Option TypeExpr) :
    returnMeaning table' scope returns = returnMeaning table scope returns := by
  cases returns with
  | none => rfl
  | some e => exact e.meaning_congr h

theorem lowerType_run (ht : table.Valid) (e : TypeExpr) (report : Report) :
    (lowerType table scope e).run report =
      .ok ((e.meaning table scope).1, report.append (e.meaning table scope).2) := by
  obtain ⟨t, report', hrun, -⟩ := lowerType_spec scope ht e .empty
  obtain ⟨more, hmore, hframe⟩ := lowerType_framed table scope e _ _ _ hrun
  have hmore : report' = more := by simpa [HasReport.report] using hmore
  subst hmore
  simp only [TypeExpr.meaning, hrun]
  exact hframe report

theorem lowerReturns_run (ht : table.Valid) (returns : Option TypeExpr) (report : Report) :
    (lowerReturns table scope returns).run report =
      .ok ((returnMeaning table scope returns).1,
        report.append (returnMeaning table scope returns).2) := by
  cases returns with
  | none =>
    rw [returnMeaning, append_empty]
    rfl
  | some e => exact lowerType_run ht e report

end Types

/-! ## Fields -/

/-- The complaint about a field whose name is taken by the field `first`. -/
def duplicateField (field : FieldDecl) (first : Field) : Diagnostic :=
  (Diagnostic.error .duplicateDeclaration
    ("field " ++ ticked field.name.text ++ " is declared more than once") field.span).withNote
    "first declared here" first.span

/-- The fields of a struct, behind those that are there already, and what there is to
    report on them. -/
def resolveFields (table : Table) (scope : UseScope) :
    List FieldDecl → List Field → List Field × Report
  | [], fields => (fields, .empty)
  | field :: rest, fields =>
    let type := field.type.meaning table scope
    match findField field.name.text fields with
    | some (_, first) =>
      let out := resolveFields table scope rest fields
      (out.1, (type.2.push (duplicateField field first)).append out.2)
    | none =>
      let out := resolveFields table scope rest
        (fields ++ [⟨field.name.text, type.1, field.span⟩])
      (out.1, type.2.append out.2)

theorem resolveFields_congr {table table' : Table} (h : table.SameNames table')
    (scope : UseScope) (decls : List FieldDecl) (fields : List Field) :
    resolveFields table' scope decls fields = resolveFields table scope decls fields := by
  induction decls generalizing fields with
  | nil => rfl
  | cons field rest ih => simp only [resolveFields, TypeExpr.meaning_congr h, ih]

def Table.withFields (t : Table) (id : StructId) (fields : List Field) : Table :=
  { t with structs := t.structs.modify id.index fun entry => { entry with fields := fields } }

namespace Table

variable {t : Table} {entry : StructEntry} {id : StructId}

theorem sameNames_withFields (t : Table) (id : StructId) (fields : List Field) :
    t.SameNames (t.withFields id fields) := by
  refine ⟨rfl, ?_, rfl⟩
  refine ext_getElem? fun i => ?_
  simp only [withFields, getElem?_map, getElem?_modify]
  cases t.structs[i]? with
  | none => simp
  | some entry => by_cases h : id.index = i <;> simp [h]

theorem sameNames_withFunct (t : Table) (id : FunctId) (f : Function) :
    t.SameNames (t.withFunct id f) := by
  refine ⟨rfl, rfl, ?_⟩
  refine ext_getElem? fun i => ?_
  simp only [withFunct, getElem?_map, getElem?_modify]
  cases t.functs[i]? with
  | none => simp
  | some entry => by_cases h : id.index = i <;> simp [h]

theorem struct?_withFields (id id' : StructId) (fields : List Field) :
    (t.withFields id fields).struct? id' =
      if id' = id then (t.struct? id').map fun entry => { entry with fields := fields }
      else t.struct? id' := by
  simp only [struct?, withFields, getElem?_modify]
  by_cases h : id' = id
  · subst h
    simp
  · have hne : id.index ≠ id'.index := fun heq => h (by cases id; cases id'; simp_all)
    simp [h, hne]

theorem withFields_withFields (id : StructId) (fields fields' : List Field) :
    (t.withFields id fields).withFields id fields' = t.withFields id fields' := by
  simp only [withFields, modify_modify_eq]
  rfl

theorem withFields_self (h : t.struct? id = some entry) : t.withFields id entry.fields = t := by
  have hstructs : (t.withFields id entry.fields).structs = t.structs := by
    refine ext_getElem? fun i => ?_
    simp only [withFields, getElem?_modify]
    by_cases hi : id.index = i
    · subst hi
      rw [struct?] at h
      simp [h]
    · simp [hi]
  cases t
  simp only [withFields] at hstructs ⊢
  rw [hstructs]

theorem addField_eq (h : t.struct? id = some entry) (field : Field) :
    t.addField id field = .ok (t.withFields id (entry.fields ++ [field])) := by
  have hlt : id.index < t.structs.length := (List.getElem?_eq_some_iff.1 h).1
  rw [addField, if_pos hlt, withFields]
  congr 2
  refine ext_getElem? fun i => ?_
  simp only [getElem?_modify]
  by_cases hi : id.index = i
  · subst hi
    rw [struct?] at h
    simp [h]
  · simp [hi]

end Table

/-! ## Signatures -/

def paramRegisters (table : Table) (scope : UseScope) (params : List ParamDecl) : List Register :=
  params.map fun param => ⟨(param.type.meaning table scope).1, param.span⟩

/-- The names of parameters, for the registers from `n` on. -/
def paramBindings (n : Nat) (params : List ParamDecl) : List Binding :=
  (params.zipIdx n).map fun x => ⟨x.1.name.text, ⟨x.2⟩, x.1.mutable⟩

/-- What there is to report on parameters. -/
def paramComplaints (table : Table) (scope : UseScope) (params : List ParamDecl) :
    List Diagnostic :=
  params.flatMap fun param => (param.type.meaning table scope).2.entries

namespace PendingFunct

/-- The function without its body. -/
def signature (table : Table) (pending : PendingFunct) : Function where
  registers := paramRegisters table pending.scope pending.decl.params
  paramCount := pending.decl.params.length
  bindings := paramBindings 0 pending.decl.params
  segments := []
  returnType := (returnMeaning table pending.scope pending.decl.returns).1
  external := pending.decl.body.isNone
  span := pending.decl.span

/-- What there is to report on the signature. -/
def complaints (table : Table) (pending : PendingFunct) : List Diagnostic :=
  paramComplaints table pending.scope pending.decl.params ++
    (returnMeaning table pending.scope pending.decl.returns).2.entries

variable {table table' : Table}

theorem signature_congr (h : table.SameNames table') (pending : PendingFunct) :
    pending.signature table' = pending.signature table := by
  simp only [signature, paramRegisters, TypeExpr.meaning_congr h, returnMeaning_congr h]

theorem complaints_congr (h : table.SameNames table') (pending : PendingFunct) :
    pending.complaints table' = pending.complaints table := by
  simp only [complaints, paramComplaints, TypeExpr.meaning_congr h, returnMeaning_congr h]

end PendingFunct

/-- The fields of the struct, and what there is to report on them. -/
def PendingStruct.resolved (table : Table) (pending : PendingStruct) : List Field × Report :=
  resolveFields table pending.scope pending.decl.fields []

section Steps

open ProgramM

variable {p p' : Program} {α : Type} {a : α}

theorem ProgramM.reporting_run (step : Table → ReportM α) {report : Report}
    (h : (step p.table).run p.report = .ok (a, report)) :
    (reporting step).run p = .ok (a, { p with report := report }) := by
  rw [reporting, run_bind (ProgramM.get_run p), run_bind (orFault_run h)]
  rfl

theorem ProgramM.updating_run {change : Table → Except Fault Table} {t : Table}
    (h : change p.table = .ok t) : (updating change).run p = .ok ((), { p with table := t }) := by
  rw [updating, run_bind (ProgramM.get_run p), run_bind (orFault_run h)]
  rfl

/-- A step that is known to go through, and whose outcome is known. -/
theorem ProgramM.Spec.later {step : ProgramM α} {Q : α → Program → Prop} (h : Spec p step Q)
    (hrun : step.run p = .ok (a, p')) : p.Later p' := by
  obtain ⟨b, q, hrun', hl, -⟩ := h
  cases hrun.symm.trans hrun'
  exact hl

theorem lowerFields_run (hp : p.Valid) {id : StructId} {entry : StructEntry}
    (hentry : p.table.struct? id = some entry) (scope : UseScope) (decls : List FieldDecl) :
    (decls.forM (lowerField id scope)).run p = .ok ((), { p with
      table := p.table.withFields id (resolveFields p.table scope decls entry.fields).1
      report := p.report.append (resolveFields p.table scope decls entry.fields).2 }) := by
  induction decls generalizing p entry with
  | nil =>
    rw [resolveFields, withFields_self hentry, append_empty]
    rfl
  | cons field rest ih =>
    have htype := reporting_run (fun table => lowerType table scope field.type)
      (lowerType_run hp.table field.type p.report)
    have hid : id.index < p.table.structs.length := (List.getElem?_eq_some_iff.1 hentry).1
    rw [resolveFields]
    cases hfind : findField field.name.text entry.fields with
    | some found =>
      obtain ⟨index, first⟩ := found
      have hstep : (lowerField id scope field).run p = .ok ((), { p with
          report := (p.report.append (field.type.meaning p.table scope).2).push
            (duplicateField field first) }) := by
        rw [lowerField, run_bind htype, run_bind (ProgramM.get_run _),
          run_bind (orFault_run (fields_eq hentry))]
        simp only [hfind]
        rfl
      have hl := (lowerField_spec hp hid scope field).later hstep
      refine (run_bind hstep).trans ((ih hl.valid hentry).trans ?_)
      simp [Report.append, Report.push]
    | none =>
      have hstep : (lowerField id scope field).run p = .ok ((), { p with
          table := p.table.withFields id (entry.fields ++
            [⟨field.name.text, (field.type.meaning p.table scope).1, field.span⟩])
          report := p.report.append (field.type.meaning p.table scope).2 }) := by
        rw [lowerField, run_bind htype, run_bind (ProgramM.get_run _),
          run_bind (orFault_run (fields_eq hentry))]
        simp only [hfind]
        exact updating_run (addField_eq hentry _)
      have hl := (lowerField_spec hp hid scope field).later hstep
      have hentry' := p.table.struct?_withFields id id (entry.fields ++
        [⟨field.name.text, (field.type.meaning p.table scope).1, field.span⟩])
      rw [if_pos rfl, hentry] at hentry'
      refine (run_bind hstep).trans ((ih hl.valid hentry').trans ?_)
      simp only [resolveFields_congr (sameNames_withFields _ _ _),
        withFields_withFields, Report.append_assoc]

theorem lowerParams_run (ht : p.table.Valid) (scope : UseScope) (params : List ParamDecl)
    {d : Draft} (hd : d.registers.length = d.paramCount) :
    (lowerParams scope params d).run p = .ok ({ d with
        registers := d.registers ++ paramRegisters p.table scope params
        paramCount := d.paramCount + params.length
        bindings := d.bindings ++ paramBindings d.paramCount params },
      { p with report := ⟨p.report.entries ++ paramComplaints p.table scope params⟩ }) := by
  induction params generalizing p d with
  | nil =>
    simp only [paramRegisters, paramBindings, paramComplaints, map_nil, zipIdx_nil,
      flatMap_nil, append_nil, length_nil, Nat.add_zero]
    rfl
  | cons param rest ih =>
    have htype := reporting_run (fun table => lowerType table scope param.type)
      (lowerType_run ht param.type p.report)
    let p' := { p with report := p.report.append (param.type.meaning p.table scope).2 }
    let d' : Draft := { d with
      registers := d.registers ++ [⟨(param.type.meaning p.table scope).1, param.span⟩]
      paramCount := d.paramCount + 1
      bindings := d.bindings ++ [⟨param.name.text, ⟨d.registers.length⟩, param.mutable⟩] }
    have hd' : d'.registers.length = d'.paramCount := by simp [d', hd]
    rw [lowerParams, run_bind htype, addParam, if_neg (not_not.2 hd)]
    refine (ih (p := p') (d := d') ht hd').trans ?_
    simp [d', p', paramRegisters, paramBindings, paramComplaints, hd, append, Nat.add_comm,
      Nat.add_left_comm]

/-- The table gets the signature, and the report what there is to report on it. -/
theorem lowerSignature_run (hp : p.Valid) {pending : PendingFunct}
    (hid : pending.id.index < p.table.functs.length) :
    (lowerSignature pending).run p = .ok ((), { p with
      table := p.table.withFunct pending.id (pending.signature p.table)
      report := ⟨p.report.entries ++ pending.complaints p.table⟩ }) := by
  have hreturns := reporting_run
    (p := { p with report := ⟨p.report.entries ++
      paramComplaints p.table pending.scope pending.decl.params⟩ })
    (fun table => lowerReturns table pending.scope pending.decl.returns)
    (lowerReturns_run hp.table _ _)
  rw [lowerSignature, run_bind (lowerParams_run hp.table _ _ rfl), run_bind hreturns,
    updating_run (setFunct_eq hid _)]
  simp [PendingFunct.signature, PendingFunct.complaints, toSignature, new, append]

end Steps

/-! ## The pass -/

section Passes

open ProgramM

variable {p : Program}

theorem lowerStructs_run (hp : p.Valid) {pendings : List PendingStruct}
    (hnodup : (pendings.map PendingStruct.id).Nodup)
    (hempty : ∀ pending ∈ pendings, ∃ entry, p.table.struct? pending.id = some entry ∧
      entry.fields = []) :
    ∃ p', (pendings.forM lowerStruct).run p = .ok ((), p') ∧ p.Later p' ∧
      p.table.SameNames p'.table ∧ p'.table.functs = p.table.functs ∧ p'.gaveUp = p.gaveUp ∧
      p'.report.entries = p.report.entries ++
        pendings.flatMap (fun pending => (pending.resolved p.table).2.entries) ∧
      (∀ pending ∈ pendings, p'.table.struct? pending.id = (p.table.struct? pending.id).map
        fun entry => { entry with fields := (pending.resolved p.table).1 }) ∧
      ∀ id, id ∉ pendings.map PendingStruct.id → p'.table.struct? id = p.table.struct? id := by
  induction pendings generalizing p with
  | nil => exact ⟨p, rfl, .refl hp, .refl _, rfl, rfl, by simp, by simp, fun _ _ => rfl⟩
  | cons pending rest ih =>
    rw [map_cons, nodup_cons] at hnodup
    rw [forall_mem_cons] at hempty
    obtain ⟨entry, hentry, hfields⟩ := hempty.1
    have hid : pending.id.index < p.table.structs.length := (List.getElem?_eq_some_iff.1 hentry).1
    have hstep := lowerFields_run hp hentry pending.scope pending.decl.fields
    have hl1 := (lowerStruct_spec hp hid).later hstep
    have hnames1 := p.table.sameNames_withFields pending.id
      (resolveFields p.table pending.scope pending.decl.fields entry.fields).1
    have hne : ∀ other ∈ rest, other.id ≠ pending.id := fun other ho heq =>
      hnodup.1 (heq ▸ mem_map_of_mem ho)
    obtain ⟨p', hrun, hl, hnames, hfuncts, hgaveUp, hreport, hnew, hold⟩ :=
      ih hl1.valid hnodup.2 fun other ho => by
        rw [struct?_withFields, if_neg (hne other ho)]
        exact hempty.2 other ho
    have hresolved : ∀ other : PendingStruct, other.resolved (p.table.withFields pending.id
        (resolveFields p.table pending.scope pending.decl.fields entry.fields).1) =
          other.resolved p.table := fun other => resolveFields_congr hnames1 _ _ _
    simp only [hresolved] at hreport hnew
    refine ⟨p', (run_bind hstep).trans hrun, hl1.trans hl, hnames1.trans hnames, hfuncts, hgaveUp,
      ?_, forall_mem_cons.2 ⟨?_, fun other ho => ?_⟩, fun id hid => ?_⟩
    · rw [hreport, flatMap_cons, PendingStruct.resolved, ← hfields]
      simp
    · rw [hold _ hnodup.1, struct?_withFields, if_pos rfl, PendingStruct.resolved, hfields]
    · rw [hnew other ho, struct?_withFields, if_neg (hne other ho)]
    · rw [map_cons, mem_cons, not_or] at hid
      rw [hold id hid.2, struct?_withFields, if_neg hid.1]

theorem lowerSignatureList_run (hp : p.Valid) {pendings : List PendingFunct}
    (hnodup : (pendings.map PendingFunct.id).Nodup)
    (hid : ∀ pending ∈ pendings, pending.id.index < p.table.functs.length) :
    ∃ p', (pendings.forM lowerSignature).run p = .ok ((), p') ∧ p.Later p' ∧
      p.table.SameNames p'.table ∧ p'.table.structs = p.table.structs ∧ p'.gaveUp = p.gaveUp ∧
      p'.report.entries = p.report.entries ++ pendings.flatMap (PendingFunct.complaints p.table) ∧
      (∀ pending ∈ pendings, p'.table.funct? pending.id = some (pending.signature p.table)) ∧
      ∀ id, id ∉ pendings.map PendingFunct.id → p'.table.funct? id = p.table.funct? id := by
  induction pendings generalizing p with
  | nil => exact ⟨p, rfl, .refl hp, .refl _, rfl, rfl, by simp, by simp, fun _ _ => rfl⟩
  | cons pending rest ih =>
    rw [map_cons, nodup_cons] at hnodup
    rw [forall_mem_cons] at hid
    have hstep := lowerSignature_run hp hid.1
    have hl1 := (lowerSignature_spec hp hid.1).later hstep
    have hnames1 := p.table.sameNames_withFunct pending.id (pending.signature p.table)
    obtain ⟨p', hrun, hl, hnames, hstructs, hgaveUp, hreport, hnew, hold⟩ :=
      ih hl1.valid hnodup.2 fun other ho => by simpa using hid.2 other ho
    simp only [signature_congr hnames1, funext (complaints_congr hnames1)] at hreport hnew
    refine ⟨p', (run_bind hstep).trans hrun, hl1.trans hl, hnames1.trans hnames, hstructs, hgaveUp,
      ?_, forall_mem_cons.2 ⟨?_, hnew⟩, fun id hid' => ?_⟩
    · rw [hreport, flatMap_cons]
      simp
    · rw [hold _ hnodup.1, funct?_withFunct hid.1, if_pos rfl]
    · rw [map_cons, mem_cons, not_or] at hid'
      rw [hold id hid'.2, funct?_withFunct hid.1, if_neg hid'.1]

end Passes

/-- The structs of the outline have the numbers after the builtin ones, in the order of
    their declaration, and no struct has a field. -/
structure Outline.Numbered (o : Outline) : Prop where
  ids : o.structs.map PendingStruct.id =
    (List.range' Table.builtinCount o.structs.length).map StructId.mk
  length : o.table.structs.length = Table.builtinCount + o.structs.length
  fields : ∀ entry ∈ o.table.structs, entry.fields = []

namespace Outline

variable {o : Outline}

theorem Numbered.addStruct (h : o.Numbered) (space : Name) (scope : UseScope)
    (decl : StructDecl) : (o.addStruct space scope decl).Numbered := by
  rw [Outline.addStruct]
  split
  · rename_i id table hadd
    rw [Table.addStruct] at hadd
    split at hadd
    · cases hadd
    · cases hadd
      refine ⟨?_, ?_, forall_mem_append.2 ⟨h.fields, by simp⟩⟩
      · simp [h.ids, h.length, range'_concat]
      · simp [h.length, Nat.add_assoc]
  · exact ⟨h.ids, h.length, h.fields⟩

theorem Numbered.addFunct (h : o.Numbered) (space : Name) (scope : UseScope)
    (decl : FunctDecl) : (o.addFunct space scope decl).Numbered := by
  rw [Outline.addFunct]
  split
  · rename_i id table hadd
    rw [Table.addFunct] at hadd
    split at hadd
    · cases hadd
    · cases hadd
      exact ⟨h.ids, h.length, h.fields⟩
  · exact ⟨h.ids, h.length, h.fields⟩

theorem ofFiles_numbered (files : List SourceFile) : (ofFiles files).Numbered :=
  Keeping.ofFiles ⟨fun space scope decl _ h => h.addStruct space scope decl,
    fun space scope decl _ h => h.addFunct space scope decl⟩
    ⟨rfl, rfl, by simp [empty, builtin]⟩ fun _ _ => Node.within_true _

theorem Numbered.nodup (h : o.Numbered) : (o.structs.map PendingStruct.id).Nodup := by
  rw [h.ids, List.Nodup, pairwise_map]
  exact (nodup_range' : (range' builtinCount _).Nodup).imp fun hne heq => hne (by cases heq; rfl)

/-- What the signatures of the outline come to. -/
structure Signs (o : Outline) (p : Program) : Prop where
  later : Program.Later ⟨o.table, o.report, false⟩ p
  names : o.table.SameNames p.table
  structs : ∀ pending ∈ o.structs, p.table.struct? pending.id =
    (o.table.struct? pending.id).map fun entry =>
      { entry with fields := (pending.resolved o.table).1 }
  builtins : ∀ id, id ∉ o.structs.map PendingStruct.id → p.table.struct? id = o.table.struct? id
  functs : ∀ pending ∈ o.functs, p.table.funct? pending.id = some (pending.signature o.table)
  report : p.report.entries = o.report.entries ++
    o.structs.flatMap (fun pending => (pending.resolved o.table).2.entries) ++
    o.functs.flatMap (PendingFunct.complaints o.table)

end Outline

/-- **The outcome of the pass over the signatures.** -/
theorem lowerSignatures_run {o : Outline} (ho : o.Valid) (hn : o.Numbered) :
    ∃ p, (lowerSignatures o).run ⟨o.table, o.report, false⟩ = .ok ((), p) ∧ o.Signs p := by
  have hempty : ∀ pending ∈ o.structs, ∃ entry, o.table.struct? pending.id = some entry ∧
      entry.fields = [] := by
    intro pending hp
    obtain ⟨entry, hmem, hentry⟩ := struct?_of_lt (ho.structs pending hp)
    exact ⟨entry, hentry, hn.fields entry hmem⟩
  obtain ⟨p1, hrun1, hl1, hnames1, hfuncts1, -, hreport1, hnew1, hold1⟩ :=
    lowerStructs_run ho.program hn.nodup hempty
  obtain ⟨p, hrun, hl, hnames, hstructs, -, hreport, hnew, -⟩ :=
    lowerSignatureList_run hl1.valid ho.nodup fun pending hp => by
      rw [hfuncts1]
      exact ho.lt hp
  simp only [signature_congr hnames1, funext (complaints_congr hnames1)] at hreport hnew
  have hstruct? : p.table.struct? = p1.table.struct? := by
    funext id
    rw [struct?, struct?, hstructs]
  refine ⟨p, (run_bind hrun1).trans hrun, hl1.trans hl, hnames1.trans hnames, ?_, ?_,
    hnew, ?_⟩
  · rw [hstruct?]
    exact hnew1
  · rw [hstruct?]
    exact hold1
  · rw [hreport, hreport1]

/-! ## Whole programs -/

theorem Table.setFuncts_sameNames {t t' : Table} {bodies : List (FunctId × Function)}
    (h : t.setFuncts bodies = .ok t') : t.SameNames t' := by
  induction bodies generalizing t with
  | nil =>
    cases h
    exact .refl _
  | cons x rest ih =>
    obtain ⟨id, f⟩ := x
    rw [setFuncts] at h
    obtain ⟨t1, hset, hrest⟩ := bind_eq_ok.1 h
    rw [setFunct] at hset
    split at hset
    · cases hset
      exact (t.sameNames_withFunct id f).trans (ih hrest)
    · cases hset

/-- What the three passes come to: the program `signed` with the signatures, the bodies
    that are lowered by themselves, and the program that has both. -/
structure Outline.Lowers (strict : Bool) (o : Outline) (signed : Program)
    (outs : List LoweredBody) (p : Program) : Prop where
  signs : o.Signs signed
  bodies : List.Forall₂ (PendingFunct.Lowers strict signed.table)
    (o.functs.filter PendingFunct.hasBody) outs
  names : signed.table.SameNames p.table
  structs : p.table.structs = signed.table.structs
  functs : ∀ out ∈ outs, p.table.funct? out.id = some out.funct
  others : ∀ id, id ∉ outs.map LoweredBody.id → p.table.funct? id = signed.table.funct? id
  report : p.report.entries = signed.report.entries ++ outs.flatMap fun out => out.report.entries
  gaveUp : p.gaveUp = outs.any LoweredBody.gaveUp

theorem PendingFunct.Lowers.map_id {strict : Bool} {table : Table} {pendings : List PendingFunct}
    {outs : List LoweredBody} (h : Forall₂ (PendingFunct.Lowers strict table) pendings outs) :
    outs.map LoweredBody.id = pendings.map PendingFunct.id := by
  induction h with
  | nil => rfl
  | cons hlowers _ ih => rw [map_cons, map_cons, hlowers.id, ih]

/-- **The outcome of lowering**, pass by pass. -/
theorem lowerFiles_run (strict : Bool) (files : List SourceFile) :
    ∃ signed outs p, lowerFiles strict files = .ok p ∧
      (lowerSignatures (ofFiles files)).run
        ⟨(ofFiles files).table, (ofFiles files).report, false⟩ = .ok ((), signed) ∧
      (ofFiles files).Lowers strict signed outs p := by
  have ho := ofFiles_valid files
  obtain ⟨signed, hsigned, hs⟩ := lowerSignatures_run ho (ofFiles_numbered files)
  obtain ⟨p, hp, -⟩ := lowerFiles_spec strict files
  obtain ⟨signed', bodies, hsigned', hbodies, hset⟩ := lowerFiles_eq_ok.1 hp
  cases hsigned.symm.trans hsigned'
  obtain ⟨outs, hall, rfl, hreport, hgaveUp⟩ := lowerBodies_eq_ok.1 hbodies
  have hids : (outs.map fun out => (out.id, out.funct)).map Prod.fst =
      ((ofFiles files).functs.filter PendingFunct.hasBody).map PendingFunct.id := by
    rw [map_map]
    exact PendingFunct.Lowers.map_id hall
  have hlt : ∀ x ∈ outs.map fun out => (out.id, out.funct),
      x.1.index < signed.table.functs.length := by
    intro x hx
    have hmem := mem_map_of_mem (f := Prod.fst) hx
    rw [hids] at hmem
    obtain ⟨pending, hpending, heq⟩ := mem_map.1 hmem
    rw [← heq, hs.later.functs]
    exact ho.lt (mem_of_mem_filter hpending)
  obtain ⟨t, hset', hindex, hstructs, -, hnew, hold⟩ := setFuncts_spec hlt
    (hids ▸ ho.nodup.sublist (filter_sublist.map _))
  cases hset.symm.trans hset'
  refine ⟨signed, outs, p, hp, hsigned, hs, hall, setFuncts_sameNames hset, hstructs,
    fun out hout => ?_, fun id hid => ?_, hreport, hgaveUp⟩
  · exact hnew (out.id, out.funct) (mem_map_of_mem hout)
  · refine hold id ?_
    rw [map_map]
    exact hid

theorem exists_of_forall₂ {α β : Type} {R : α → β → Prop} {xs : List α} {ys : List β}
    (h : Forall₂ R xs ys) {x : α} (hx : x ∈ xs) : ∃ y ∈ ys, R x y := by
  induction h with
  | nil => cases hx
  | cons hr _ ih =>
    rcases mem_cons.1 hx with rfl | hx
    · exact ⟨_, by simp, hr⟩
    · obtain ⟨y, hy, hxy⟩ := ih hx
      exact ⟨y, mem_cons_of_mem _ hy, hxy⟩

namespace Outline.Lowers

variable {strict : Bool} {o : Outline} {signed p : Program} {outs : List LoweredBody}
  {pending : PendingFunct}

/-- A function with a body is what its body is lowered to. -/
theorem funct_of_body (h : o.Lowers strict signed outs p) (hp : pending ∈ o.functs) {body : Expr}
    (hbody : pending.decl.body = some body) :
    ∃ out ∈ outs, pending.Lowers strict signed.table out ∧
      p.table.funct? pending.id = some out.funct := by
  have hmem : pending ∈ o.functs.filter PendingFunct.hasBody :=
    mem_filter.2 ⟨hp, by simp [PendingFunct.hasBody, hbody]⟩
  obtain ⟨out, hout, hlowers⟩ := exists_of_forall₂ h.bodies hmem
  exact ⟨out, hout, hlowers, hlowers.id ▸ h.functs out hout⟩

theorem funct_of_none (h : o.Lowers strict signed outs p) (ho : o.Valid) (hp : pending ∈ o.functs)
    (hbody : pending.decl.body = none) :
    p.table.funct? pending.id = some (pending.signature o.table) := by
  rw [h.others, h.signs.functs pending hp]
  rw [PendingFunct.Lowers.map_id h.bodies]
  intro hmem
  obtain ⟨other, hother, heq⟩ := mem_map.1 hmem
  obtain ⟨ho', hb⟩ := mem_filter.1 hother
  cases inj_on_of_nodup_map ho.nodup ho' hp heq
  simp [PendingFunct.hasBody, hbody] at hb

theorem exists_pending (h : o.Lowers strict signed outs p) (ho : o.Valid) {id : FunctId}
    {f : Function} (hf : p.table.funct? id = some f) : ∃ pending ∈ o.functs, pending.id = id := by
  obtain ⟨entry, hentry, -⟩ := Option.map_eq_some_iff.1 hf
  have hlength := congrArg length (h.signs.names.trans h.names).functs
  rw [length_map, length_map] at hlength
  exact ho.exists_id id (hlength ▸ (List.getElem?_eq_some_iff.1 hentry).1)

end Outline.Lowers

end Semcheck
