/-
  Struct literals.

  * `initObjections`, `missingFields`: what may be wrong with the initializers of a literal,
    one by one and taken together;
  * `InTurn`: the values are lowered one after the other;
  * `Initialized`: what is known after some of the initializers, which the next one keeps
    whether it is accepted or rejected (`lowerInits_initialized`);
  * `lowerExpr_structLit_exact`: a literal is accepted if its initializers are a permutation
    of the fields, and otherwise the report says why not.

  The fields are filled in the order of the initializers and read in the order of the
  declaration.  So it is tracked by name which register belongs to which field
  (`registerFor`), and that the names of the fields differ makes that a matter of one place
  in the list of values (`map_set_of_nodup`).
-/
import Semcheck.Proofs.Lower.First
import Semcheck.Proofs.Lower.Fits

namespace Semcheck

open Lower List Table Outline

/-! ## Initializers -/

def FieldInit.text (init : FieldInit) : String :=
  init.name.text

/-- The objection to an initializer, given with the first one of its name before it. -/
def initObjection (entry : StructEntry) (x : FieldInit × Option FieldInit) : Option Diagnostic :=
  if x.1.text ∈ entry.fields.map Field.name then
    x.2.map fun _ => .error .incompatibleTypes
      ("field " ++ ticked x.1.text ++ " is initialized more than once") x.1.span
  else
    some (.error .undeclared
      ("struct " ++ ticked entry.name.text ++ " has no field named " ++ ticked x.1.text)
      x.1.name.span)

/-- What there is to report on initializers, in their order. -/
def initObjections (entry : StructEntry) (inits : List FieldInit) : List Diagnostic :=
  (withFirst FieldInit.text inits).filterMap (initObjection entry)

/-- The fields that no initializer names, in the order of their declaration. -/
def missingFields (entry : StructEntry) (inits : List FieldInit) : List String :=
  (entry.fields.map Field.name).filter fun name => name ∉ inits.map FieldInit.text

/-- The values of the initializers are lowered one after the other, each into a register of
    its own that has the type of the field. -/
inductive InTurn (cx : Context) (fields : List Field) (b : Body) :
    List FieldInit → List RegisterId → Body → Prop where
  | start : InTurn cx fields b [] [] b
  | next {inits : List FieldInit} {registers : List RegisterId} {b₁ b₂ : Body} {init : FieldInit}
      {field : Field} (h : InTurn cx fields b inits registers b₁) (hfield : field ∈ fields)
      (hname : field.name = init.text)
      (hrun : (lowerExpr cx init.value (.register b₁.nextRegister)).run
        (b₁.withRegister field.type init.value.span) = .ok (some (), b₂)) :
      InTurn cx fields b (inits ++ [init]) (registers ++ [b₁.nextRegister]) b₂

/-- Where the value of an initializer comes to be lowered, after the initializers before it, it
    is lowered without an error. -/
def ValuesLower (cx : Context) (entry : StructEntry) (b : Body) (inits : List FieldInit) : Prop :=
  ∀ before init after, inits = before ++ init :: after →
    init.text ∉ before.map FieldInit.text →
    ∀ field ∈ entry.fields, field.name = init.text →
    ∀ f b₁, (lowerInits cx before (.unwritten entry.name.text entry.fields)).run b =
      .ok (some f, b₁) →
    ∃ b₂, (lowerExpr cx init.value (.register b₁.nextRegister)).run
      (b₁.withRegister field.type init.value.span) = .ok (some (), b₂) ∧ b₂.report = b₁.report

/-- The register of the initializer with the given name. -/
def registerFor (inits : List FieldInit) (registers : List RegisterId) (name : String) :
    Option RegisterId :=
  ((inits.zip registers).find? fun x => x.1.text = name).map Prod.snd

/-- The operand is the register of the initializer that is named like the field. -/
def Supplies (inits : List FieldInit) (registers : List RegisterId) (field : Field)
    (operand : Access) : Prop :=
  ∃ init register, (init, register) ∈ inits.zip registers ∧ init.text = field.name ∧
    operand = .register register

/-- The fields are written as far as the initializers go. -/
structure Lower.Fields.Holds (entry : StructEntry) (inits : List FieldInit) (f : Fields) :
    Prop where
  name : f.name = entry.name.text
  fields : f.fields = entry.fields
  written : f.values.map Option.isSome =
    entry.fields.map fun field => decide (field.name ∈ inits.map FieldInit.text)
  failed : f.failed = !(initObjections entry inits).isEmpty

section Initializers

variable {cx : Context} {entry : StructEntry} {inits : List FieldInit} {init : FieldInit}
  {b b' : Body} {f : Fields} {fields : List Field} {index : Nat} {field : Field}
  {registers : List RegisterId} {name : String}

theorem initObjections_concat (entry : StructEntry) (inits : List FieldInit) (init : FieldInit) :
    initObjections entry (inits ++ [init]) = initObjections entry inits ++
      (initObjection entry (init, inits.find? fun other => other.text = init.text)).toList :=
  filterMap_withFirst_concat FieldInit.text (initObjection entry) inits init

theorem find?_text_eq_none : inits.find? (fun other => other.text = init.text) = none ↔
    init.text ∉ inits.map FieldInit.text := by
  simp [find?_eq_none]

/-- Nothing is wrong with the initializers if they name fields, and each a different one. -/
theorem initObjections_eq_nil : initObjections entry inits = [] ↔
    (∀ init ∈ inits, init.text ∈ entry.fields.map Field.name) ∧
      (inits.map FieldInit.text).Nodup := by
  induction inits using reverseRecOn with
  | nil => simp [initObjections, withFirst]
  | append_singleton inits init ih =>
    have hobjection : initObjection entry (init, inits.find? fun other =>
        other.text = init.text) = none ↔ init.text ∈ entry.fields.map Field.name ∧
          init.text ∉ inits.map FieldInit.text := by
      rw [← find?_text_eq_none]
      by_cases hknown : init.text ∈ entry.fields.map Field.name <;>
        simp [initObjection, hknown]
    rw [initObjections_concat, append_eq_nil_iff, ih, Option.toList_eq_nil_iff, hobjection,
      map_append, nodup_append']
    simp only [forall_mem_append, forall_mem_singleton, map_cons, map_nil,
      nodup_singleton, disjoint_singleton, true_and]
    tauto

theorem findField_eq_none : findField name fields = none ↔ name ∉ fields.map Field.name := by
  rw [← Option.map_eq_none_iff (f := Prod.snd), findField_eq_find?]
  simp [find?_eq_none]

theorem name_of_findField (h : findField name fields = some (index, field)) :
    field.name = name := by
  have hfind : fields.find? (fun field => field.name = name) = some field := by
    rw [← findField_eq_find?, h]
    rfl
  simpa using find?_some hfind

/-- Values that differ for one field only. -/
theorem map_set_of_nodup {β : Type} (hnodup : (fields.map Field.name).Nodup)
    (hfield : fields[index]? = some field) {p q : Field → β}
    (hother : ∀ other, other.name ≠ field.name → q other = p other) :
    (fields.map p).set index (q field) = fields.map q := by
  have hlt : index < fields.length := (List.getElem?_eq_some_iff.1 hfield).1
  refine ext_getElem? fun i => ?_
  rw [getElem?_set, getElem?_map, getElem?_map, length_map]
  by_cases hi : index = i
  · subst hi
    rw [if_pos rfl, if_pos hlt, hfield]
    rfl
  · rw [if_neg hi]
    cases hget : fields[i]? with
    | none => rfl
    | some other =>
      have hne : other.name ≠ field.name := by
        intro heq
        refine hi ((getElem?_inj (by simpa using hlt) hnodup).1 ?_)
        rw [getElem?_map, getElem?_map, hfield, hget, Option.map_some, Option.map_some, heq]
      rw [Option.map_some, Option.map_some, hother other hne]

/-! ### One initializer -/

theorem lowerInit_unknown (h : findField init.text f.fields = none)
    (hname : f.name = entry.name.text) (value : Access → Lower Unit) :
    (lowerInit cx f init.name init.span init.value.span value).run b =
      .ok (some { f with failed := true }, { b with report := b.report.push (.error .undeclared
        ("struct " ++ ticked entry.name.text ++ " has no field named " ++ ticked init.text)
        init.name.span) }) := by
  rw [lowerInit, show findField init.name.text f.fields = none from h, ← hname]
  rfl

theorem lowerInit_repeated (h : findField init.text f.fields = some (index, field))
    (hwritten : (f.values[index]?.bind id).isSome) (value : Access → Lower Unit) :
    (lowerInit cx f init.name init.span init.value.span value).run b =
      .ok (some { f with failed := true }, { b with
        report := b.report.push (.error .incompatibleTypes
          ("field " ++ ticked init.text ++ " is initialized more than once") init.span) }) := by
  rw [lowerInit, show findField init.name.text f.fields = _ from h]
  dsimp only
  rw [if_pos hwritten]
  rfl

theorem lowerInit_fresh (h : findField init.text f.fields = some (index, field))
    (hwritten : ¬ (f.values[index]?.bind id).isSome) {value : Access → Lower Unit}
    (hrun : (value (.register b.nextRegister)).run (b.withRegister field.type init.value.span) =
      .ok (some (), b')) :
    (lowerInit cx f init.name init.span init.value.span value).run b =
      .ok (some { f with
        values := f.values.set index (some (.register b.nextRegister)) }, b') := by
  have hregister : (newRegister field.type init.value.span).run b =
      .ok (some b.nextRegister, b.withRegister field.type init.value.span) := rfl
  have hsettled : (settling cx (.register b.nextRegister) value).run
      (b.withRegister field.type init.value.span) = .ok (some (), b') := by
    rw [settling, run_bind_some (recover_eq_ok.2 (.inl ⟨hrun, rfl⟩))]
    rfl
  rw [lowerInit, show findField init.name.text f.fields = _ from h]
  dsimp only
  rw [if_neg hwritten, run_bind_some hregister,
    run_bind_some (recover_eq_ok.2 (.inl ⟨hsettled, rfl⟩))]
  simp only [Bool.not_true, Bool.or_false]
  rfl

theorem lowerInits_concat (cx : Context) (inits : List FieldInit) (init : FieldInit)
    (f : Fields) : lowerInits cx (inits ++ [init]) f = (do
      let f ← lowerInits cx inits f
      lowerInit cx f init.name init.span init.value.span (lowerExpr cx init.value)) := by
  induction inits generalizing f with
  | nil =>
    obtain ⟨name, value, span⟩ := init
    simp only [nil_append, lowerInits, bind_pure, pure_bind]
  | cons first rest ih =>
    obtain ⟨name, value, span⟩ := first
    simp only [cons_append, lowerInits, ih, bind_assoc]

theorem ValuesLower.concat (h : ValuesLower cx entry b (inits ++ [init])) :
    ValuesLower cx entry b inits := by
  rintro before other after rfl
  exact h before other (after ++ [init]) (by simp)

/-! ### All initializers -/

theorem Lower.Fields.Holds.written_iff (h : f.Holds entry inits)
    (hfield : entry.fields[index]? = some field) :
    (f.values[index]?.bind id).isSome ↔ field.name ∈ inits.map FieldInit.text := by
  have hwritten := congrArg (fun values => values[index]?) h.written
  simp only [getElem?_map, hfield, Option.map_some] at hwritten
  obtain ⟨value, hvalue, heq⟩ := Option.map_eq_some_iff.1 hwritten
  rw [hvalue, Option.bind_some, id, heq, decide_eq_true_eq]

/-- An initializer that is reported leaves the fields as they are. -/
theorem Lower.Fields.Holds.reject (h : f.Holds entry inits) {d : Diagnostic}
    (hd : initObjection entry (init, inits.find? fun other => other.text = init.text) = some d)
    (hsame : ∀ field ∈ entry.fields, field.name = init.text →
      field.name ∈ inits.map FieldInit.text) :
    ({ f with failed := true } : Fields).Holds entry (inits ++ [init]) where
  name := h.name
  fields := h.fields
  written := by
    rw [h.written]
    refine map_congr_left fun field hfield => decide_eq_decide.2 ?_
    rw [map_append, mem_append]
    exact ⟨.inl, fun hmem => hmem.elim id fun heq => hsame field hfield (by simpa using heq)⟩
  failed := by simp [initObjections_concat, hd]

/-- An initializer that is not reported writes its field. -/
theorem Lower.Fields.Holds.accept (h : f.Holds entry inits)
    (hnodup : (entry.fields.map Field.name).Nodup) (hfield : entry.fields[index]? = some field)
    (hname : field.name = init.text)
    (hnone : initObjection entry (init, inits.find? fun other => other.text = init.text) = none)
    (value : Access) :
    ({ f with values := f.values.set index (some value) } : Fields).Holds entry
      (inits ++ [init]) where
  name := h.name
  fields := h.fields
  written := by
    rw [map_set, h.written, Option.isSome_some]
    have hset := map_set_of_nodup hnodup hfield
      (p := fun other => decide (other.name ∈ inits.map FieldInit.text))
      (q := fun other => decide (other.name ∈ (inits ++ [init]).map FieldInit.text))
      fun other hother => decide_eq_decide.2 (by
        rw [hname] at hother
        simp [hother])
    rw [← hset]
    simp [hname]
  failed := by simp [initObjections_concat, hnone, h.failed]

theorem length_inTurn (h : InTurn cx fields b inits registers b') :
    registers.length = inits.length := by
  induction h with
  | start => rfl
  | next h hfield hname hrun ih => simp [ih]

theorem registerFor_concat (hlength : registers.length = inits.length)
    (hnew : init.text ∉ inits.map FieldInit.text) (register : RegisterId) (name : String) :
    registerFor (inits ++ [init]) (registers ++ [register]) name =
      if name = init.text then some register else registerFor inits registers name := by
  rw [registerFor, zip_append hlength.symm, find?_append, registerFor]
  by_cases hname : name = init.text
  · have hnone : (inits.zip registers).find? (fun x => x.1.text = name) = none := by
      refine find?_eq_none.2 fun x hx heq => hnew ?_
      rw [← hname, ← of_decide_eq_true heq]
      exact mem_map_of_mem (of_mem_zip hx).1
    rw [hnone, if_pos hname]
    simp [hname]
  · rw [if_neg hname]
    simp [Ne.symm hname]

/-- What is known after the initializers. -/
structure Initialized (cx : Context) (entry : StructEntry) (b : Body) (inits : List FieldInit)
    (f : Fields) (b' : Body) : Prop where
  holds : f.Holds entry inits
  report : b'.report.entries = b.report.entries ++ initObjections entry inits
  /-- If nothing is wrong then every value has its register. -/
  registers : initObjections entry inits = [] → ∃ registers,
    InTurn cx entry.fields b inits registers b' ∧ f.values = entry.fields.map fun field =>
      (registerFor inits registers field.name).map Access.register

namespace Initialized

variable {b₁ b₂ : Body}

theorem start (cx : Context) (entry : StructEntry) (b : Body) :
    Initialized cx entry b [] (.unwritten entry.name.text entry.fields) b where
  holds := ⟨rfl, rfl, by simp [Fields.unwritten], rfl⟩
  report := by simp [initObjections, withFirst]
  registers _ := ⟨[], .start, rfl⟩

theorem reject (h : Initialized cx entry b inits f b₁) {d : Diagnostic}
    (hd : initObjection entry (init, inits.find? fun other => other.text = init.text) = some d)
    (hsame : ∀ field ∈ entry.fields, field.name = init.text →
      field.name ∈ inits.map FieldInit.text) :
    Initialized cx entry b (inits ++ [init]) { f with failed := true }
      { b₁ with report := b₁.report.push d } where
  holds := h.holds.reject hd hsame
  report := by
    rw [initObjections_concat, hd, Report.entries_push, h.report, append_assoc]
    rfl
  registers hnil := by simp [initObjections_concat, hd] at hnil

theorem accept (h : Initialized cx entry b inits f b₁)
    (hnodup : (entry.fields.map Field.name).Nodup) (hfield : entry.fields[index]? = some field)
    (hname : field.name = init.text) (hnew : init.text ∉ inits.map FieldInit.text)
    (hrun : (lowerExpr cx init.value (.register b₁.nextRegister)).run
      (b₁.withRegister field.type init.value.span) = .ok (some (), b₂))
    (hreport : b₂.report = b₁.report) :
    Initialized cx entry b (inits ++ [init])
      { f with values := f.values.set index (some (.register b₁.nextRegister)) } b₂ := by
  have hmem : field ∈ entry.fields := mem_of_getElem? hfield
  have hknown : init.text ∈ entry.fields.map Field.name := hname ▸ mem_map_of_mem hmem
  have hnone : initObjection entry (init, inits.find? fun other => other.text = init.text) =
      none := by
    rw [find?_text_eq_none.2 hnew, initObjection, if_pos hknown]
    rfl
  refine ⟨h.holds.accept hnodup hfield hname hnone _, ?_, fun hnil => ?_⟩
  · rw [hreport, h.report, initObjections_concat, hnone]
    simp
  · rw [initObjections_concat, hnone, Option.toList_none, append_nil] at hnil
    obtain ⟨registers, hturn, hvalues⟩ := h.registers hnil
    refine ⟨registers ++ [b₁.nextRegister], hturn.next hmem hname hrun, ?_⟩
    have hset := map_set_of_nodup hnodup hfield
      (p := fun other => (registerFor inits registers other.name).map Access.register)
      (q := fun other => (registerFor (inits ++ [init]) (registers ++ [b₁.nextRegister])
        other.name).map Access.register)
      fun other hother => by
        rw [registerFor_concat (length_inTurn hturn) hnew, if_neg (hname ▸ hother)]
    rw [← hset, registerFor_concat (length_inTurn hturn) hnew, if_pos hname, hvalues]
    rfl

end Initialized

theorem lowerInits_initialized (hnodup : (entry.fields.map Field.name).Nodup)
    (hvalues : ValuesLower cx entry b inits) :
    ∃ f b₁, (lowerInits cx inits (.unwritten entry.name.text entry.fields)).run b =
      .ok (some f, b₁) ∧ Initialized cx entry b inits f b₁ := by
  induction inits using reverseRecOn with
  | nil => exact ⟨_, b, rfl, .start cx entry b⟩
  | append_singleton inits init ih =>
    obtain ⟨f, b₁, hrun, h⟩ := ih hvalues.concat
    rw [lowerInits_concat, run_bind_some hrun]
    cases hfind : findField init.text entry.fields with
    | none =>
      have hunknown := findField_eq_none.1 hfind
      exact ⟨_, _, lowerInit_unknown (h.holds.fields ▸ hfind) h.holds.name _,
        h.reject (if_neg hunknown) fun field hfield hname =>
          absurd (hname ▸ mem_map_of_mem hfield) hunknown⟩
    | some found =>
      obtain ⟨index, field⟩ := found
      have hfield := findField_some hfind
      have hname := name_of_findField hfind
      have hknown : init.text ∈ entry.fields.map Field.name :=
        hname ▸ mem_map_of_mem (mem_of_getElem? hfield)
      have hwritten := h.holds.written_iff hfield
      rw [hname] at hwritten
      by_cases hold : init.text ∈ inits.map FieldInit.text
      · obtain ⟨first, hfirst⟩ := Option.ne_none_iff_exists'.1 (mt find?_text_eq_none.1
          (not_not.2 hold))
        have hobjection : initObjection entry (init, inits.find? fun other =>
            other.text = init.text) = some (.error .incompatibleTypes
              ("field " ++ ticked init.text ++ " is initialized more than once") init.span) := by
          rw [hfirst, initObjection, if_pos hknown]
          rfl
        exact ⟨_, _, lowerInit_repeated (h.holds.fields ▸ hfind) (hwritten.2 hold) _,
          h.reject hobjection fun field _ heq => heq ▸ hold⟩
      · obtain ⟨b₂, hvalue, hreport⟩ := hvalues inits init [] rfl hold field
          (mem_of_getElem? hfield) hname f b₁ hrun
        exact ⟨_, b₂, lowerInit_fresh (h.holds.fields ▸ hfind) (mt hwritten.1 hold) hvalue,
          h.accept hnodup hfield hname hold hvalue hreport⟩

/-! ## Literals -/

theorem zip_filter_isNone {values : List (Option Access)} {p : Field → Bool}
    (h : values.map Option.isSome = fields.map p) :
    ((fields.zip values).filter fun x => x.2.isNone).map (fun x => x.1.name) =
      (fields.filter fun field => !p field).map Field.name := by
  induction fields generalizing values with
  | nil => simp
  | cons field rest ih =>
    cases values with
    | nil => simp at h
    | cons value values =>
      simp only [map_cons, cons.injEq] at h
      rw [zip_cons_cons, filter_cons, filter_cons, ← h.1]
      cases value <;> simp [ih h.2]

theorem Lower.Fields.Holds.missing (h : f.Holds entry inits) :
    f.missing = missingFields entry inits := by
  rw [Fields.missing, h.fields, zip_filter_isNone h.written, missingFields, filter_map]
  simp only [Function.comp_def, decide_not]

/-- The initializers are a permutation of the fields if nothing is wrong with them and none is
    missing. -/
theorem perm_iff (hnodup : (entry.fields.map Field.name).Nodup) :
    (inits.map FieldInit.text).Perm (entry.fields.map Field.name) ↔
      initObjections entry inits = [] ∧ missingFields entry inits = [] := by
  have hmissing : missingFields entry inits = [] ↔
      ∀ name ∈ entry.fields.map Field.name, name ∈ inits.map FieldInit.text := by
    simp [missingFields, filter_eq_nil_iff]
  have hknown : (∀ init ∈ inits, init.text ∈ entry.fields.map Field.name) ↔
      ∀ name ∈ inits.map FieldInit.text, name ∈ entry.fields.map Field.name :=
    forall_mem_map.symm
  rw [initObjections_eq_nil, hmissing, hknown]
  constructor
  · intro hperm
    exact ⟨⟨fun name => hperm.mem_iff.1, hperm.nodup_iff.2 hnodup⟩, fun name => hperm.mem_iff.2⟩
  · rintro ⟨⟨hsub, hnames⟩, hsup⟩
    exact (perm_ext_iff_of_nodup hnames hnodup).2 fun name => ⟨hsub name, hsup name⟩

/-- What there is to report if fields are missing. -/
def missingObjection (entry : StructEntry) (inits : List FieldInit) (span : Location) :
    List Diagnostic :=
  let missing := missingFields entry inits
  if missing = [] then []
  else
    let plural := if missing.length = 1 then "" else "s"
    [.error .incompatibleTypes
      ("missing field" ++ plural ++ " " ++ joinWith ", " (missing.map ticked) ++
        " in initializer of " ++ ticked entry.name.text) span]

section Literal

variable {id : StructId} {dest : Access} {span : Location}

theorem makeStruct_missing (h : f.Holds entry inits) (hmissing : missingFields entry inits ≠ []) :
    (makeStruct cx id f dest span).run b = .ok (none, { b with
      report := ⟨b.report.entries ++ missingObjection entry inits span⟩ }) := by
  rw [makeStruct, missingObjection, if_neg hmissing, h.missing, h.name]
  dsimp only
  rw [if_pos (by simpa using hmissing)]
  rfl

theorem makeStruct_failed (h : f.Holds entry inits) (hmissing : missingFields entry inits = [])
    (hfailed : initObjections entry inits ≠ []) :
    (makeStruct cx id f dest span).run b = .ok (none, b) := by
  have hfailed : f.failed = true := by simpa [h.failed] using hfailed
  rw [makeStruct, h.missing, hmissing]
  dsimp only
  rw [if_neg (by simp), hfailed]
  rfl

theorem makeStruct_done (h : f.Holds entry inits) (hmissing : missingFields entry inits = [])
    (hfine : initObjections entry inits = []) (ho : b.draft.graph.Open)
    (hfits : b.Fits cx dest (.struct id)) :
    (makeStruct cx id f dest span).run b = .ok (some (), b.withGraph (b.draft.graph.push
      (.literal (.struct id (f.values.filterMap fun value => value)) dest))) := by
  have hfailed : f.failed = false := by simp [h.failed, hfine]
  rw [makeStruct, h.missing, hmissing]
  dsimp only
  rw [if_neg (by simp), hfailed]
  exact moveLiteral_fits ho hfits _ span

theorem exists_registerFor {registers : List RegisterId}
    (hlength : registers.length = inits.length) {name : String}
    (hname : name ∈ inits.map FieldInit.text) : ∃ init register,
      (init, register) ∈ inits.zip registers ∧ init.text = name ∧
      registerFor inits registers name = some register := by
  have hzip : inits = (inits.zip registers).map Prod.fst :=
    (map_fst_zip (Nat.le_of_eq hlength.symm)).symm
  rw [hzip, map_map] at hname
  obtain ⟨x, hx, hxname⟩ := mem_map.1 hname
  have hsome : ((inits.zip registers).find? fun x => x.1.text = name).isSome :=
    find?_isSome.2 ⟨x, hx, decide_eq_true hxname⟩
  obtain ⟨⟨init, register⟩, hfind⟩ := Option.isSome_iff_exists.1 hsome
  refine ⟨init, register, mem_of_find?_eq_some hfind, ?_, by rw [registerFor, hfind]; rfl⟩
  exact of_decide_eq_true (find?_some hfind :)

/-- Values that are all there, in their order. -/
theorem forall₂_filterMap {α β : Type} {R : α → β → Prop} {g : α → Option β} {xs : List α}
    (h : ∀ x ∈ xs, ∃ y, g x = some y ∧ R x y) : Forall₂ R xs ((xs.map g).filterMap fun y => y) := by
  induction xs with
  | nil => exact .nil
  | cons x xs ih =>
    rw [forall_mem_cons] at h
    obtain ⟨y, hy, hR⟩ := h.1
    rw [map_cons, hy]
    exact .cons hR (ih h.2)

theorem Initialized.operands (h : Initialized cx entry b inits f b')
    (hfine : initObjections entry inits = []) (hmissing : missingFields entry inits = []) :
    ∃ registers, InTurn cx entry.fields b inits registers b' ∧
      Forall₂ (Supplies inits registers) entry.fields (f.values.filterMap fun value => value) := by
  obtain ⟨registers, hturn, hvalues⟩ := h.registers hfine
  refine ⟨registers, hturn, ?_⟩
  rw [hvalues]
  refine forall₂_filterMap fun field hfield => ?_
  have hnamed : field.name ∈ inits.map FieldInit.text := by
    by_contra hnot
    have hmem : field.name ∈ missingFields entry inits :=
      mem_filter.2 ⟨mem_map_of_mem hfield, decide_eq_true hnot⟩
    rw [hmissing] at hmem
    cases hmem
  obtain ⟨init, register, hmem, hname, hregister⟩ :=
    exists_registerFor (length_inTurn hturn) hnamed
  exact ⟨.register register, by rw [hregister]; rfl, init, register, hmem, hname, rfl⟩

theorem resolveFields_run {path : Path}
    (hpath : cx.table.resolveType path.toName path.absolute b.scope path.span = .ok (.ok id))
    (hentry : cx.table.struct? id = some entry) :
    (Lower.resolveFields cx path).run b =
      .ok (some (id, .unwritten entry.name.text entry.fields), b) := by
  have hid : (orReport (cx.table.resolveType path.toName path.absolute b.scope path.span)).run b =
      .ok (some id, b) := by
    rw [hpath]
    rfl
  have hname : cx.table.displayName (.struct id) = .ok entry.name.text := by
    rw [displayName, name?, show cx.table.structs[id.index]? = some entry from hentry]
    rfl
  rw [Lower.resolveFields, run_bind_some (Lower.get_run b), run_bind_some hid,
    run_bind_some (orFault_eq_ok.2 ⟨_, fields_eq hentry, rfl, rfl⟩),
    run_bind_some (orFault_eq_ok.2 ⟨_, hname, rfl, rfl⟩)]
  rfl

end Literal

end Initializers

theorem Outline.Signs.nodup_fields {o : Outline} {p : Program} (h : o.Signs p) (hn : o.Numbered)
    {id : StructId} {entry : StructEntry} (hentry : p.table.struct? id = some entry) :
    (entry.fields.map Field.name).Nodup := by
  by_cases hid : id ∈ o.structs.map PendingStruct.id
  · obtain ⟨pending, hpending, rfl⟩ := mem_map.1 hid
    rw [h.structs pending hpending, (pending.resolved_firsts o.table).1] at hentry
    obtain ⟨_, -, rfl⟩ := Option.map_eq_some_iff.1 hentry
    have hnames : ((firsts FieldDecl.text pending.decl.fields).map FieldDecl.text).Nodup :=
      nodup_firsts _
    simpa [firstFields, Function.comp_def] using hnames
  · rw [h.builtins id hid] at hentry
    rw [hn.fields entry (mem_of_getElem? hentry)]
    exact nodup_nil

/-- **Struct literals accept exactly the permutations of the fields.**  The values are lowered in
    the order in which they are written, and the literal takes them in the order in which the
    fields are declared.  Otherwise the report says what is wrong with each initializer, and
    then which fields are missing.

    In the strict mode a destination has its type for good.  In the lax mode a value may change
    it, and then it has to be the type of the struct when the values are there. -/
theorem lowerExpr_structLit_exact {files : List SourceFile} {signed : Program} {cx : Context}
    {b : Body} {path : Path} {inits : List FieldInit} {dest : Access} {span : Location}
    {id : StructId} {entry : StructEntry}
    (hsigned : (lowerSignatures (Outline.ofFiles files)).run
      ⟨(Outline.ofFiles files).table, (Outline.ofFiles files).report, false⟩ = .ok ((), signed))
    (htable : cx.table = signed.table) (ho : b.draft.graph.Open)
    (hpath : cx.table.resolveType path.toName path.absolute b.scope path.span = .ok (.ok id))
    (hentry : cx.table.struct? id = some entry) (hvalues : ValuesLower cx entry b inits)
    (hdest : b.engine.strict = true ∧ b.Fits cx dest (.struct id) ∨
      ∀ f b₁, (lowerInits cx inits (.unwritten entry.name.text entry.fields)).run b =
        .ok (some f, b₁) → b₁.Fits cx dest (.struct id)) :
    ∃ r b', (lowerExpr cx (.structLit path inits span) dest).run b = .ok (r, b') ∧
      (r = some () ↔ (inits.map FieldInit.text).Perm (entry.fields.map Field.name)) ∧
      (r = some () → ∃ registers operands b₁, InTurn cx entry.fields b inits registers b₁ ∧
        List.Forall₂ (Supplies inits registers) entry.fields operands ∧
        b' = b₁.withGraph (b₁.draft.graph.push (.literal (.struct id operands) dest))) ∧
      b'.report.entries = b.report.entries ++ initObjections entry inits ++
        missingObjection entry inits span := by
  obtain ⟨p, hp, hs⟩ := lowerSignatures_run (Outline.ofFiles_valid files)
    (Outline.ofFiles_numbered files)
  cases hsigned.symm.trans hp
  have hnodup : (entry.fields.map Field.name).Nodup :=
    hs.nodup_fields (Outline.ofFiles_numbered files) (htable ▸ hentry)
  obtain ⟨f, b₁, hrun, h⟩ := lowerInits_initialized hnodup hvalues
  have ho₁ : b₁.draft.graph.Open :=
    (walk_keeps.lowerInits inits Task.confined_true ho hrun).code.opened ho
  have hfits : b₁.Fits cx dest (.struct id) := by
    rcases hdest with ⟨hstrict, hfits⟩ | hfits
    · have hlater := lowerInits_adding inits _ _ _ _ hrun
      exact Knows.fits ⟨hlater.draft.registers, hlater.engine.bindings hstrict,
        hlater.engine.slots⟩ hfits
    · exact hfits f b₁ hrun
  rw [lowerExpr_structLit, run_bind_some (resolveFields_run hpath hentry), run_bind_some hrun]
  rw [perm_iff hnodup]
  by_cases hmissing : missingFields entry inits = []
  · have hnone : missingObjection entry inits span = [] := if_pos hmissing
    by_cases hfine : initObjections entry inits = []
    · refine ⟨some (), _, makeStruct_done h.holds hmissing hfine ho₁ hfits,
        iff_of_true rfl ⟨hfine, hmissing⟩, fun _ => ?_, ?_⟩
      · obtain ⟨registers, hturn, hoperands⟩ := h.operands hfine hmissing
        exact ⟨registers, _, b₁, hturn, hoperands, rfl⟩
      · rw [hnone, List.append_nil]
        exact h.report
    · refine ⟨none, b₁, makeStruct_failed h.holds hmissing hfine, ?_, nofun, ?_⟩
      · simp [hfine]
      · rw [hnone, List.append_nil]
        exact h.report
  · refine ⟨none, _, makeStruct_missing h.holds hmissing, ?_, nofun, ?_⟩
    · simp [hmissing]
    · rw [h.report]

namespace Sample

/-- `struct Pair { first: int, second: bool }` -/
def pairs : List SourceFile := [⟨⟨0⟩, [.struct ⟨name "Pair",
  [⟨name "first", type "int", .nowhere⟩, ⟨name "second", type "bool", .nowhere⟩], .nowhere⟩],
  .nowhere⟩]

def pairEntry : StructEntry :=
  ⟨⟨["Pair"]⟩, [⟨"first", .struct .int, .nowhere⟩, ⟨"second", .struct .bool, .nowhere⟩], .nowhere⟩

/-- An empty body with a register for a pair. -/
def pairBody : Body :=
  { unitBody with draft := ((Draft.new 0).addRegister (.struct ⟨2⟩) .nowhere).2 }

/-- `second: true, first: 7` -/
def pairInits : List FieldInit :=
  [⟨name "second", .bool true .nowhere, .nowhere⟩, ⟨name "first", .int 7 .nowhere, .nowhere⟩]

theorem pairs_signed : ∃ out ∈ ((lowerSignatures (ofFiles pairs)).run
    ⟨(ofFiles pairs).table, (ofFiles pairs).report, false⟩).toOption,
      out.2.table.struct? ⟨2⟩ = some pairEntry ∧
      ∃ found ∈ (out.2.table.resolveType (path "Pair").toName (path "Pair").absolute
          pairBody.scope (path "Pair").span).toOption, found.toOption = some ⟨2⟩ := by
  decide +kernel

theorem pairInits_lower (cx : Context) : ValuesLower cx pairEntry pairBody pairInits := by
  intro before init after hsplit _ field hfield hname f b₁ hrun
  have ho : pairBody.draft.graph.Open := ⟨_, rfl, rfl⟩
  have ho1 : ∀ id, (b₁.withRegister (.struct id) .nowhere).draft.graph.Open :=
    fun _ => (walk_keeps.lowerInits before Task.confined_true ho hrun).code.opened ho
  have hinit : init ∈ pairInits := hsplit ▸ by simp
  simp only [pairInits, mem_cons, not_mem_nil, or_false] at hinit
  simp only [pairEntry, mem_cons, not_mem_nil, or_false] at hfield
  rcases hinit with rfl | rfl <;> rcases hfield with rfl | rfl
  · exact absurd hname (by decide)
  · exact ⟨_, moveLiteral_fits (ho1 .bool) (fits_withRegister cx b₁ .bool _) _ _, rfl⟩
  · exact ⟨_, moveLiteral_fits (ho1 .int) (fits_withRegister cx b₁ .int _) _ _, rfl⟩
  · exact absurd hname (by decide)

end Sample

/-- The initializers are in another order than the fields. -/
theorem pair_structLit_exact : ∃ signed r b', (lowerSignatures (Outline.ofFiles Sample.pairs)).run
      ⟨(Outline.ofFiles Sample.pairs).table, (Outline.ofFiles Sample.pairs).report, false⟩ =
        .ok ((), signed) ∧
    (lowerExpr ⟨signed.table, .discard, .unit⟩
      (.structLit (Sample.path "Pair") Sample.pairInits .nowhere) (.register ⟨0⟩)).run
        Sample.pairBody = .ok (r, b') ∧
    r = some () ∧ b'.report.entries = [] := by
  obtain ⟨⟨_, signed⟩, hsigned, hentry, found, hfound, hid⟩ := Sample.pairs_signed
  have hpath := ok_of_toOption hfound
  rw [ok_of_toOption (x := found) hid] at hpath
  have hfits : Sample.pairBody.Fits ⟨signed.table, .discard, .unit⟩ (.register ⟨0⟩)
      (.struct ⟨2⟩) := ⟨some (.struct ⟨2⟩), rfl, by rintro t ⟨⟩; rfl⟩
  obtain ⟨r, b', hrun, hperm, -, hreport⟩ := lowerExpr_structLit_exact (ok_of_toOption hsigned) rfl
    ⟨_, rfl, rfl⟩ hpath hentry (Sample.pairInits_lower _) (.inl ⟨rfl, hfits⟩)
  refine ⟨signed, r, b', ok_of_toOption hsigned, hrun, hperm.2 (by decide), ?_⟩
  exact hreport.trans (by decide)

end Semcheck
