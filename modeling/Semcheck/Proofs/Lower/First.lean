/-
  Of what is declared more than once, the first is kept.

  * `withFirst`: the members of a list, each with the first one before it that has the same
    key; those without one are the `firsts`;
  * `Outline.Keeps`: an outline has of every name the first declaration, and reports the
    others (`Outline.ofFiles_keeps`);
  * `resolveFields_firsts`: a struct has of every name the first field;
  * `lowerFiles_keeps_first`: so has the program, and there are no other reports of this kind.

  That a declaration is dropped is settled in the first pass, and that a field is dropped in
  the second.  What they report beyond that, and all that bodies report, comes from names that
  are used (`Diagnostic.Arises`), so that it cannot be mistaken for a second declaration.
-/
import Mathlib.Data.List.Induction
import Semcheck.Proofs.Lower.Declared
import Semcheck.Proofs.Lower.Located

namespace Semcheck

open List Table Outline

/-! ## Firsts -/

section Firsts

variable {α κ : Type} [DecidableEq κ] (key : α → κ)

/-- The members of the list, each with the first one before it that has the same key, if
    there is one. -/
def withFirst (xs : List α) : List (α × Option α) :=
  xs.zipIdx.map fun x => (x.1, (xs.take x.2).find? fun y => key y = key x.1)

/-- The members before which there is none with the same key. -/
def firsts (xs : List α) : List α :=
  ((withFirst key xs).filter fun x => x.2.isNone).map Prod.fst

/-- The other members, each with the first one that has the same key. -/
def repeats (xs : List α) : List (α × α) :=
  (withFirst key xs).filterMap fun x => x.2.map fun first => (x.1, first)

theorem withFirst_concat (xs : List α) (x : α) : withFirst key (xs ++ [x]) =
    withFirst key xs ++ [(x, xs.find? fun y => key y = key x)] := by
  have hbefore : ∀ y ∈ xs.zipIdx, (xs ++ [x]).take y.2 = xs.take y.2 := by
    intro y hy
    obtain ⟨-, hlt, -⟩ := mem_zipIdx hy
    exact take_append_of_le_length (by omega)
  simp only [withFirst, zipIdx_append, map_append]
  congr 1
  · exact map_congr_left fun y hy => by rw [hbefore y hy]
  · simp

theorem filterMap_withFirst_concat {β : Type} (f : α × Option α → Option β) (xs : List α)
    (x : α) : (withFirst key (xs ++ [x])).filterMap f = (withFirst key xs).filterMap f ++
      (f (x, xs.find? fun y => key y = key x)).toList := by
  rw [withFirst_concat, filterMap_append]
  cases h : f (x, xs.find? fun y => key y = key x) <;> simp [h]

variable {key} {xs : List α} {x first : α}

theorem firsts_concat_of_none (h : xs.find? (fun y => key y = key x) = none) :
    firsts key (xs ++ [x]) = firsts key xs ++ [x] := by
  simp [firsts, withFirst_concat, h]

theorem firsts_concat_of_some (h : xs.find? (fun y => key y = key x) = some first) :
    firsts key (xs ++ [x]) = firsts key xs := by
  simp [firsts, withFirst_concat, h]

theorem repeats_concat_of_none (h : xs.find? (fun y => key y = key x) = none) :
    repeats key (xs ++ [x]) = repeats key xs := by
  simp [repeats, filterMap_withFirst_concat, h]

theorem repeats_concat_of_some (h : xs.find? (fun y => key y = key x) = some first) :
    repeats key (xs ++ [x]) = repeats key xs ++ [(x, first)] := by
  simp [repeats, filterMap_withFirst_concat, h]

theorem firsts_map {β : Type} (f : β → α) (ys : List β) :
    firsts key (ys.map f) = (firsts (key ∘ f) ys).map f := by
  induction ys using reverseRecOn with
  | nil => rfl
  | append_singleton ys y ih =>
    have hfind : (ys.map f).find? (fun x => key x = key (f y)) =
        (ys.find? fun x => (key ∘ f) x = (key ∘ f) y).map f := find?_map
    rw [map_append, map_singleton]
    cases h : ys.find? (fun x => (key ∘ f) x = (key ∘ f) y) with
    | none =>
      rw [h] at hfind
      rw [firsts_concat_of_none hfind, firsts_concat_of_none h, ih, map_append, map_singleton]
    | some first =>
      rw [h] at hfind
      rw [firsts_concat_of_some hfind, firsts_concat_of_some h, ih]

/-- The first member of a key is among the firsts, and before the others of that key. -/
theorem find?_firsts (xs : List α) (k : κ) :
    (firsts key xs).find? (fun y => key y = k) = xs.find? fun y => key y = k := by
  induction xs using reverseRecOn with
  | nil => rfl
  | append_singleton xs x ih =>
    cases h : xs.find? (fun y => key y = key x) with
    | none => rw [firsts_concat_of_none h, find?_append, find?_append, ih]
    | some first =>
      rw [firsts_concat_of_some h, find?_append, ih]
      by_cases hk : key x = k
      · rw [← hk, h]
        rfl
      · simp [hk]

theorem mem_of_mem_firsts (h : x ∈ firsts key xs) : x ∈ xs := by
  obtain ⟨y, hy, rfl⟩ := mem_map.1 h
  obtain ⟨z, hz, rfl⟩ := mem_map.1 (mem_of_mem_filter hy)
  exact fst_mem_of_mem_zipIdx hz

theorem nodup_firsts (xs : List α) : ((firsts key xs).map key).Nodup := by
  induction xs using reverseRecOn with
  | nil => exact nodup_nil
  | append_singleton xs x ih =>
    cases h : xs.find? (fun y => key y = key x) with
    | some first => rwa [firsts_concat_of_some h]
    | none =>
      rw [firsts_concat_of_none h, map_append]
      refine ih.append (nodup_singleton _) ?_
      rintro k hk hx
      obtain ⟨y, hy, rfl⟩ := mem_map.1 hk
      rw [find?_eq_none] at h
      exact h y (mem_of_mem_firsts hy) (by simpa using hx)

end Firsts

/-! ## Declarations -/

def Declared.span (d : Declared) : Location :=
  d.registration.span

/-- The declarations that are the first of their name; a builtin name is taken. -/
def firstOf (ds : List Declared) : List Declared :=
  firsts Declared.name (ds.filter fun d => d.name ∉ builtinNames)

/-- The error of declaring a name that is builtin or was declared before. -/
def redeclared? (x : Declared × Option Declared) : Option LookupError :=
  if x.1.name ∈ builtinNames then some (.duplicate x.1.name.text none x.1.span)
  else x.2.map fun first => .duplicate x.1.name.text (some first.span) x.1.span

/-- What there is to report on declarations that are not the first of their name. -/
def redeclarations (ds : List Declared) : List Diagnostic :=
  ((withFirst Declared.name ds).filterMap redeclared?).map LookupError.toDiagnostic

/-- The outline has the first declarations of their names and reports the others. -/
structure Outline.Keeps (o : Outline) (ds : List Declared) : Prop where
  lists : { o with report := .empty }.Lists (firstOf ds)
  distinct : Distinct (firstOf ds)
  records : o.table.Records (ds.map Declared.registration)
  index : o.table.index.map Prod.fst = builtinNames ++ (firstOf ds).map Declared.name
  report : o.report.entries = redeclarations ds
  count : o.report.entries.length + (firstOf ds).length = ds.length

section Declarations

variable {o : Outline} {ds : List Declared} {d : Declared}

theorem isSome_builtin_iff {name : Name} : (builtin.get? name).isSome ↔ name ∈ builtinNames := by
  rw [isSome_get?_builtin]
  simp [builtinNames, builtin]

theorem redeclarations_concat (ds : List Declared) (d : Declared) :
    redeclarations (ds ++ [d]) = redeclarations ds ++
      ((redeclared? (d, ds.find? fun e => e.name = d.name)).map
        LookupError.toDiagnostic).toList := by
  rw [redeclarations, filterMap_withFirst_concat, map_append, Option.toList_map, redeclarations]

theorem find?_filter_builtin (hd : d.name ∉ builtinNames) (ds : List Declared) :
    (ds.filter fun e => e.name ∉ builtinNames).find? (fun e => e.name = d.name) =
      ds.find? fun e => e.name = d.name := by
  rw [find?_filter]
  congr 1
  funext e
  by_cases he : e.name = d.name
  · simp [he, hd]
  · simp [he]

/-- A declaration is one of the firsts unless there is an error. -/
theorem firstOf_concat (ds : List Declared) (d : Declared) :
    firstOf (ds ++ [d]) =
      if (redeclared? (d, ds.find? fun e => e.name = d.name)).isSome then firstOf ds
      else firstOf ds ++ [d] := by
  rw [firstOf, filter_append]
  by_cases hbuiltin : d.name ∈ builtinNames
  · simp [redeclared?, hbuiltin, firstOf]
  · have hfilter : [d].filter (fun e => e.name ∉ builtinNames) = [d] := by simp [hbuiltin]
    rw [hfilter]
    cases hfind : ds.find? (fun e => e.name = d.name) with
    | some first =>
      rw [firsts_concat_of_some ((find?_filter_builtin hbuiltin ds).trans hfind)]
      simp [redeclared?, hbuiltin, firstOf]
    | none =>
      rw [firsts_concat_of_none ((find?_filter_builtin hbuiltin ds).trans hfind)]
      simp [redeclared?, hbuiltin, firstOf]

theorem mem_of_mem_firstOf (h : d ∈ firstOf ds) : d ∈ ds ∧ d.name ∉ builtinNames := by
  have hmem := mem_of_mem_firsts h
  simpa using hmem

theorem isSome_redeclared? :
    (redeclared? (d, ds.find? fun e => e.name = d.name)).isSome ↔
      d.name ∈ builtinNames ∨ ∃ e ∈ ds, e.name = d.name := by
  by_cases hbuiltin : d.name ∈ builtinNames
  · simp [redeclared?, hbuiltin]
  · simp [redeclared?, hbuiltin, find?_isSome]

theorem firstSpan_map (ds : List Declared) (name : Name) :
    firstSpan (ds.map Declared.registration) name =
      if name ∈ builtinNames then none
      else (ds.find? fun e => e.name = name).map Declared.span := by
  simp only [firstSpan, isSome_builtin_iff, find?_map, Option.map_map,
    Function.comp_def, Declared.name_registration]
  rfl

theorem redeclared?_eq (h : (redeclared? (d, ds.find? fun e => e.name = d.name)).isSome) :
    redeclared? (d, ds.find? fun e => e.name = d.name) = some (.duplicate d.name.text
      (firstSpan (ds.map Declared.registration) d.name) d.span) := by
  rw [firstSpan_map]
  by_cases hbuiltin : d.name ∈ builtinNames
  · simp [redeclared?, hbuiltin]
  · simp only [redeclared?, hbuiltin, if_false, Option.isSome_map] at h ⊢
    obtain ⟨first, hfirst⟩ := Option.isSome_iff_exists.1 h
    simp [hfirst]

theorem Table.Records.taken_iff {t : Table} (h : t.Records (ds.map Declared.registration)) :
    (t.get? d.name).isSome ↔ (redeclared? (d, ds.find? fun e => e.name = d.name)).isSome := by
  rw [h.declared, isSome_builtin_iff, isSome_redeclared?]
  simp

namespace Outline

/-- Taking up a declaration is registering it, and reporting what goes wrong. -/
theorem declare_of_error {e : LookupError} (h : o.table.register d.registration = .error e) :
    o.declare d = { o with report := o.report.push e.toDiagnostic } := by
  cases d with
  | struct d =>
    change (o.table.addStruct d.name d.decl.span).map _ = _ at h
    rw [declare]
    cases hadd : o.table.addStruct d.name d.decl.span with
    | ok out => rw [hadd] at h; cases h
    | error e' => rw [hadd] at h; cases h; rfl
  | funct d =>
    change (o.table.addFunct d.name d.decl.span).map _ = _ at h
    rw [declare]
    cases hadd : o.table.addFunct d.name d.decl.span with
    | ok out => rw [hadd] at h; cases h
    | error e' => rw [hadd] at h; cases h; rfl

/-- A declaration that is taken up leaves the report alone. -/
theorem declare_of_none (h : o.table.get? d.name = none) :
    (o.declare d).report = o.report ∧
      { o.declare d with report := .empty } = ({ o with report := .empty } : Outline).declare d ∧
      (o.declare d).table = o.table.after d.registration ∧
      (o.declare d).table.index.map Prod.fst = o.table.index.map Prod.fst ++ [d.name] := by
  cases d with
  | struct d =>
    change o.table.get? d.name = none at h
    simp [declare, Table.addStruct_of_none h, Table.after, Table.register, Declared.registration,
      Declared.name, Except.map]
  | funct d =>
    change o.table.get? d.name = none at h
    simp [declare, Table.addFunct_of_none h, Table.after, Table.register, Declared.registration,
      Declared.name, Except.map]

namespace Keeps

theorem empty : empty.Keeps [] where
  lists := .empty
  distinct := by decide
  records := records_builtin
  index := rfl
  report := rfl
  count := rfl

theorem reject (h : o.Keeps ds)
    (htaken : (redeclared? (d, ds.find? fun e => e.name = d.name)).isSome) :
    (o.declare d).Keeps (ds ++ [d]) := by
  have hfirsts : firstOf (ds ++ [d]) = firstOf ds := by rw [firstOf_concat, if_pos htaken]
  have hget : (o.table.get? d.registration.name).isSome := by
    rw [Declared.name_registration]
    exact h.records.taken_iff.2 htaken
  have herror := h.records.register_eq_error.2 ⟨hget, rfl⟩
  rw [Declared.name_registration] at herror
  obtain ⟨decl, hdecl⟩ := Option.isSome_iff_exists.1 hget
  rw [declare_of_error herror]
  refine ⟨hfirsts ▸ h.lists, hfirsts ▸ h.distinct, ?_, hfirsts ▸ h.index, ?_, ?_⟩
  · rw [map_append]
    exact h.records.reject hdecl
  · rw [redeclarations_concat, redeclared?_eq htaken, Report.entries_push, h.report]
    rfl
  · simp only [hfirsts, Report.entries_push, length_append, length_singleton, ← h.count]
    omega

theorem accept (h : o.Keeps ds) (hnew : redeclared? (d, ds.find? fun e => e.name = d.name) = none) :
    (o.declare d).Keeps (ds ++ [d]) := by
  have hfirsts : firstOf (ds ++ [d]) = firstOf ds ++ [d] := by
    rw [firstOf_concat, if_neg (by simp [hnew])]
  have hnone : o.table.get? d.name = none := by
    rw [← Option.not_isSome_iff_eq_none, h.records.taken_iff, hnew]
    simp
  have hfree : ¬ (d.name ∈ builtinNames ∨ ∃ e ∈ ds, e.name = d.name) := by
    rw [← isSome_redeclared?, hnew]
    simp
  rw [not_or] at hfree
  have hdistinct : Distinct (firstOf ds ++ [d]) := by
    rw [Distinct, map_append, ← append_assoc]
    refine h.distinct.append (nodup_singleton _) ?_
    rintro name hname hd
    cases mem_singleton.1 hd
    rcases mem_append.1 hname with hbuiltin | hmem
    · exact hfree.1 hbuiltin
    · obtain ⟨e, he, heq⟩ := mem_map.1 hmem
      exact hfree.2 ⟨e, (mem_of_mem_firstOf he).1, heq⟩
  obtain ⟨hreport, hlists, htable, hindex⟩ := declare_of_none hnone
  refine ⟨?_, hfirsts ▸ hdistinct, ?_, ?_, ?_, ?_⟩
  · rw [hlists, hfirsts]
    exact h.lists.declare d hdistinct
  · rw [htable, map_append]
    exact h.records.after d.registration
  · rw [hindex, hfirsts, h.index]
    simp
  · rw [hreport, redeclarations_concat, hnew, h.report]
    simp
  · simp only [hreport, hfirsts, length_append, length_singleton, ← h.count]
    omega

theorem declare (h : o.Keeps ds) (d : Declared) : (o.declare d).Keeps (ds ++ [d]) := by
  cases hd : redeclared? (d, ds.find? fun e => e.name = d.name) with
  | none => exact h.accept hd
  | some e => exact h.reject (by simp [hd])

theorem foldl (h : o.Keeps ds) (es : List Declared) :
    (es.foldl Outline.declare o).Keeps (ds ++ es) := by
  induction es generalizing o ds with
  | nil => simpa using h
  | cons e es ih => simpa using ih (h.declare e)

end Keeps

/-- **An outline has of every name the first declaration.** -/
theorem ofFiles_keeps (files : List SourceFile) : (ofFiles files).Keeps (declarations files) := by
  rw [ofFiles_eq]
  exact Keeps.empty.foldl _

end Outline

end Declarations

/-! ## Fields -/

def FieldDecl.text (field : FieldDecl) : String :=
  field.name.text

/-- The fields that are the first of their name, with their types. -/
def firstFields (table : Table) (scope : UseScope) (decls : List FieldDecl) : List Field :=
  (firsts FieldDecl.text decls).map fun field =>
    ⟨field.text, (field.type.meaning table scope).1, field.span⟩

/-- The complaint about a field whose name is that of the field `first` before it. -/
def repeatedField (field first : FieldDecl) : Diagnostic :=
  (Diagnostic.error .duplicateDeclaration
    ("field " ++ ticked field.text ++ " is declared more than once") field.span).withNote
    "first declared here" first.span

/-- What there is to report on fields that are not the first of their name. -/
def repeatedFields (decls : List FieldDecl) : List Diagnostic :=
  (repeats FieldDecl.text decls).map fun x => repeatedField x.1 x.2

/-- The diagnostics about names that are declared twice. -/
def duplicates (ds : List Diagnostic) : List Diagnostic :=
  ds.filter fun d => d.code = .duplicateDeclaration

@[simp] theorem duplicates_append (ds es : List Diagnostic) :
    duplicates (ds ++ es) = duplicates ds ++ duplicates es :=
  filter_append ..

theorem duplicates_flatMap {α : Type} (f : α → List Diagnostic) (xs : List α) :
    duplicates (xs.flatMap f) = xs.flatMap fun x => duplicates (f x) :=
  filter_flatMap ..

/-- What comes from a name that is used is not about a second declaration. -/
theorem duplicates_push {S : Location → Prop} (r : Report) (d : Diagnostic) (hd : d.Arises S)
    (h : duplicates r.entries = []) : duplicates (r.push d).entries = [] := by
  rw [Report.entries_push, duplicates_append, h]
  simp [duplicates, hd.code_ne]

section Fields

variable (table : Table) (scope : UseScope)

theorem TypeExpr.duplicates_meaning (e : TypeExpr) :
    duplicates (e.meaning table scope).2.entries = [] := by
  rw [meaning]
  cases hrun : (lowerType table scope e).run .empty with
  | error fault => rfl
  | ok out =>
    exact lowerType_preserves table scope duplicates_push e (Node.within_true _) _ _ _ hrun rfl

theorem duplicates_returnMeaning (returns : Option TypeExpr) :
    duplicates (returnMeaning table scope returns).2.entries = [] := by
  cases returns with
  | none => rfl
  | some e => exact e.duplicates_meaning table scope

theorem PendingFunct.duplicates_complaints (pending : PendingFunct) :
    duplicates (pending.complaints table) = [] := by
  rw [complaints, paramComplaints, duplicates_append, duplicates_flatMap, duplicates_returnMeaning]
  simp [TypeExpr.duplicates_meaning]

theorem findField_eq_find? (name : String) (fields : List Field) :
    (findField name fields).map Prod.snd = fields.find? fun field => field.name = name := by
  conv_rhs => rw [← zipIdx_map_fst 0 fields]
  rw [findField, find?_map, Option.map_map]
  rfl

theorem find?_firstFields (decls : List FieldDecl) (name : String) :
    (firstFields table scope decls).find? (fun field => field.name = name) =
      (decls.find? fun field => field.text = name).map fun field =>
        ⟨field.text, (field.type.meaning table scope).1, field.span⟩ := by
  rw [firstFields, find?_map, ← find?_firsts]
  rfl

/-- **A struct has of every name the first field.**  The others are reported, each with the
    first field of its name. -/
theorem resolveFields_firsts (before decls : List FieldDecl) :
    (resolveFields table scope decls (firstFields table scope before)).1 =
        firstFields table scope (before ++ decls) ∧
      repeatedFields before ++
          duplicates (resolveFields table scope decls (firstFields table scope before)).2.entries =
        repeatedFields (before ++ decls) := by
  induction decls generalizing before with
  | nil => simp [resolveFields, duplicates]
  | cons field rest ih =>
    have hsplit : before ++ field :: rest = (before ++ [field]) ++ rest := by simp
    have hfind := (findField_eq_find? field.text _).trans
      (find?_firstFields table scope before field.text)
    obtain ⟨hfields, hreport⟩ := ih (before ++ [field])
    rw [hsplit, ← hfields, ← hreport, resolveFields]
    cases hbefore : before.find? (fun other => other.text = field.text) with
    | some first =>
      have hsame : firstFields table scope (before ++ [field]) =
          firstFields table scope before := by
        rw [firstFields, firsts_concat_of_some hbefore, firstFields]
      rw [hbefore, Option.map_some] at hfind
      obtain ⟨⟨index, found⟩, hfound, hspan⟩ := Option.map_eq_some_iff.1 hfind
      have hcomplaint : duplicateField field found = repeatedField field first := by
        rw [show found = _ from hspan]
        rfl
      have hcons : ∀ ds, duplicates (repeatedField field first :: ds) =
          repeatedField field first :: duplicates ds := fun _ => rfl
      rw [show findField field.name.text _ = _ from hfound, hsame]
      refine ⟨rfl, ?_⟩
      simp [repeatedFields, repeats_concat_of_some hbefore, TypeExpr.duplicates_meaning, hcomplaint,
        hcons]
    | none =>
      have hnext : firstFields table scope (before ++ [field]) = firstFields table scope before ++
          [⟨field.text, (field.type.meaning table scope).1, field.span⟩] := by
        rw [firstFields, firsts_concat_of_none hbefore, map_append]
        rfl
      rw [hbefore, Option.map_none, Option.map_eq_none_iff] at hfind
      rw [show findField field.name.text _ = _ from hfind, hnext]
      refine ⟨rfl, ?_⟩
      simp [repeatedFields, repeats_concat_of_none hbefore, TypeExpr.duplicates_meaning,
        FieldDecl.text]

end Fields

theorem firstFields_congr {table table' : Table} (h : table.SameNames table') (scope : UseScope)
    (decls : List FieldDecl) : firstFields table' scope decls = firstFields table scope decls := by
  simp only [firstFields, TypeExpr.meaning_congr h]

/-- The fields of a struct, and which of the reports on them are about second fields. -/
theorem PendingStruct.resolved_firsts (table : Table) (pending : PendingStruct) :
    (pending.resolved table).1 = firstFields table pending.scope pending.decl.fields ∧
      duplicates (pending.resolved table).2.entries = repeatedFields pending.decl.fields :=
  resolveFields_firsts table pending.scope [] pending.decl.fields

/-! ## Programs -/

namespace Outline.Lists

variable {o : Outline} {ds : List Declared}

/-- A struct of the list is in the table, without fields as yet. -/
theorem exists_struct (h : o.Lists ds) (hds : Distinct ds) {d : Named StructDecl}
    (hd : .struct d ∈ ds) : ∃ id, ⟨id, d.decl, d.scope⟩ ∈ o.structs ∧
      o.table.get? d.name = some (.struct id) ∧
      o.table.struct? id = some ⟨d.name, [], d.decl.span⟩ := by
  have hmem : d ∈ ds.filterMap Declared.struct? := mem_filterMap.2 ⟨_, hd, rfl⟩
  obtain ⟨⟨id, _, _⟩, hpending, hget, rfl, rfl⟩ := exists_of_forall₂ h.structs.flip hmem
  refine ⟨id, hpending, hget, ?_⟩
  obtain ⟨entry, hentry, hname⟩ := Option.map_eq_some_iff.1 ((h.indexed _ _).1 hget)
  rw [struct?, hentry]
  have hlisted := mem_of_getElem? hentry
  rw [h.structEntries] at hlisted
  have hnew : d.name ∉ builtinNames := fun hbuiltin =>
    (nodup_append'.1 hds).2.2 hbuiltin (mem_map_of_mem hd)
  rcases mem_append.1 hlisted with hbuiltin | hlisted
  · exact absurd (hname ▸ mem_map_of_mem hbuiltin) hnew
  · -- no other struct of the list has this name
    obtain ⟨e, he, rfl⟩ := mem_map.1 hlisted
    obtain ⟨_, he, hstruct⟩ := mem_filterMap.1 he
    cases Declared.struct?_eq_some.1 hstruct
    cases inj_on_of_nodup_map (nodup_append'.1 hds).2.1 he hd hname
    rfl

theorem exists_funct (h : o.Lists ds) {d : Named FunctDecl} (hd : .funct d ∈ ds) :
    ∃ id, ⟨id, d.decl, d.scope⟩ ∈ o.functs ∧ o.table.get? d.name = some (.funct id) := by
  have hmem : d ∈ ds.filterMap Declared.funct? := mem_filterMap.2 ⟨_, hd, rfl⟩
  obtain ⟨⟨id, _, _⟩, hpending, hget, rfl, rfl⟩ := exists_of_forall₂ h.functs.flip hmem
  exact ⟨id, hpending, hget⟩

theorem decls_structs (h : o.Lists ds) :
    o.structs.map PendingStruct.decl = (ds.filterMap Declared.struct?).map Named.decl := by
  have hdecls := h.structs.imp fun _ _ hp => hp.2.1
  rw [← forall₂_eq_eq_eq, forall₂_map_left_iff, forall₂_map_right_iff]
  exact hdecls

end Outline.Lists

/-- The function is what the declaration says: its signature or, with a body, what lowering
    the body against the signatures of the program gives. -/
def PendingFunct.Stands (strict : Bool) (signed : Table) (pending : PendingFunct)
    (f : Function) : Prop :=
  match pending.decl.body with
  | none => f = pending.signature signed
  | some body => ∃ report gaveUp,
      lowerBody strict signed pending body .empty = .ok (f, report, gaveUp)

theorem duplicates_redeclarations (ds : List Declared) :
    duplicates (redeclarations ds) = redeclarations ds := by
  refine filter_eq_self.2 fun d hd => ?_
  obtain ⟨e, he, rfl⟩ := mem_map.1 hd
  obtain ⟨⟨d, first⟩, -, he⟩ := mem_filterMap.1 he
  rw [LookupError.code_toDiagnostic]
  by_cases hbuiltin : d.name ∈ builtinNames
  · simp only [redeclared?, if_pos hbuiltin] at he
    cases he
    rfl
  · simp only [redeclared?, if_neg hbuiltin] at he
    obtain ⟨other, -, rfl⟩ := Option.map_eq_some_iff.1 he
    rfl

theorem Outline.Keeps.count_report {o : Outline} {ds : List Declared} (h : o.Keeps ds) :
    o.report.count .duplicateDeclaration + (firstOf ds).length = ds.length := by
  have hall : duplicates o.report.entries = o.report.entries := by
    rw [h.report, duplicates_redeclarations]
  rw [← h.count, Report.count, countP_eq_length_filter]
  exact congrArg (·.length + (firstOf ds).length) hall

namespace Outline.Lowers

variable {strict : Bool} {o : Outline} {signed p : Program} {outs : List LoweredBody}
  {ds : List Declared}

variable (h : o.Lowers strict signed outs p)
include h

theorem duplicates_outs : duplicates (outs.flatMap fun out => out.report.entries) = [] := by
  rw [duplicates_flatMap]
  refine flatMap_eq_nil_iff.2 fun out hout => ?_
  obtain ⟨pending, -, hlowers⟩ := exists_of_forall₂ h.bodies.flip hout
  obtain ⟨body, -, hrun⟩ := hlowers.body
  exact lowerBody_preserves duplicates_push hrun (Node.within_true _) rfl

/-- The index leads to what has the name, and to nothing else. -/
theorem indexed (hk : o.Keeps ds) : p.table.Indexed := fun name d => by
  rw [(h.signs.names.trans h.names).get?, (h.signs.names.trans h.names).name?]
  exact hk.records.indexed name d

theorem unique_name (hk : o.Keeps ds) {d : Declared} (hd : d ∈ ds) :
    ∃! decl, p.table.name? decl = some d.name := by
  have hdeclared : (o.table.get? d.name).isSome :=
    (hk.records.declared d.name).2 (.inr ⟨_, mem_map_of_mem hd, d.name_registration⟩)
  obtain ⟨decl, hdecl⟩ := Option.isSome_iff_exists.1 hdeclared
  rw [← (h.signs.names.trans h.names).get?] at hdecl
  refine ⟨decl, (h.indexed hk _ _).1 hdecl, fun other hother => ?_⟩
  cases hdecl.symm.trans ((h.indexed hk _ _).2 hother)
  rfl

/-- A function has the name under which it was declared. -/
theorem funct_declared (hk : o.Keeps ds) {f : FunctEntry} (hf : f ∈ p.table.functs) :
    ∃ d ∈ ds, d.name = f.name := by
  have hname : f.name ∈ p.table.functs.map FunctEntry.name := mem_map_of_mem hf
  have hentries : o.table.functs = _ := hk.lists.functEntries
  rw [(h.signs.names.trans h.names).functs, hentries] at hname
  simp only [map_map, mem_map, mem_filterMap, Declared.funct?_eq_some] at hname
  obtain ⟨e, ⟨d, hd, rfl⟩, hname⟩ := hname
  exact ⟨_, (mem_of_mem_firstOf hd).1, hname⟩

theorem struct?_builtin (hk : o.Keeps ds) (hn : o.Numbered) {id : StructId}
    (hid : id.index < builtinCount) : p.table.struct? id = builtin.struct? id := by
  have hlt : id.index < builtin.structs.length := hid
  have hold : id ∉ o.structs.map PendingStruct.id := by
    rw [hn.ids]
    intro hmem
    obtain ⟨n, hn, rfl⟩ := mem_map.1 hmem
    exact absurd hid (Nat.not_lt.2 (mem_range'_1.1 hn).1)
  have hentries : o.table.structs = _ := hk.lists.structEntries
  rw [struct?, h.structs, ← struct?, h.signs.builtins id hold, struct?,
    hentries, getElem?_append_left hlt, struct?]

/-- Which of the reports are about second declarations. -/
theorem duplicates_report (hk : o.Keeps ds) :
    duplicates p.report.entries = redeclarations ds ++
      ((firstOf ds).filterMap Declared.struct?).flatMap fun d => repeatedFields d.decl.fields := by
  have hstructs : o.structs.flatMap (fun pending => repeatedFields pending.decl.fields) =
      ((firstOf ds).filterMap Declared.struct?).flatMap fun d => repeatedFields d.decl.fields := by
    have hdecls := congrArg (flatMap fun decl => repeatedFields decl.fields) hk.lists.decls_structs
    rwa [flatMap_map, flatMap_map] at hdecls
  rw [h.report, h.signs.report, hk.report, ← hstructs]
  simp only [duplicates_append, duplicates_redeclarations, h.duplicates_outs, duplicates_flatMap,
    PendingFunct.duplicates_complaints, PendingStruct.resolved_firsts]
  simp

/-- The struct of a first declaration has the first fields. -/
theorem struct?_first (hk : o.Keeps ds) {d : Named StructDecl} (hd : .struct d ∈ firstOf ds) :
    ∃ id, p.table.get? d.name = some (.struct id) ∧ p.table.struct? id =
      some ⟨d.name, firstFields p.table d.scope d.decl.fields, d.decl.span⟩ := by
  have hnames := h.signs.names.trans h.names
  obtain ⟨id, hpending, hget, hentry⟩ := hk.lists.exists_struct hk.distinct hd
  refine ⟨id, ?_, ?_⟩
  · rw [hnames.get?]
    exact hget
  · have hsigned := h.signs.structs _ hpending
    rw [show o.table.struct? id = _ from hentry] at hsigned
    rw [struct?, h.structs, firstFields_congr hnames]
    exact hsigned.trans (by rw [(PendingStruct.resolved_firsts _ _).1]; rfl)

/-- The function of a first declaration is what that declaration says. -/
theorem funct?_first (hk : o.Keeps ds) (ho : o.Valid) {d : Named FunctDecl}
    (hd : .funct d ∈ firstOf ds) :
    ∃ id f, p.table.get? d.name = some (.funct id) ∧ p.table.funct? id = some f ∧
      PendingFunct.Stands strict signed.table ⟨id, d.decl, d.scope⟩ f := by
  obtain ⟨id, hpending, hget⟩ := hk.lists.exists_funct hd
  have hget' : p.table.get? d.name = some (.funct id) := by
    rw [(h.signs.names.trans h.names).get?]
    exact hget
  cases hbody : d.decl.body with
  | none =>
    refine ⟨id, _, hget', h.funct_of_none ho hpending hbody, ?_⟩
    simp only [PendingFunct.Stands, hbody, PendingFunct.signature_congr h.signs.names]
  | some body =>
    obtain ⟨out, -, hlowers, hf⟩ := h.funct_of_body hpending hbody
    obtain ⟨body', hbody', hrun⟩ := hlowers.body
    cases hbody.symm.trans hbody'
    refine ⟨id, _, hget', hf, ?_⟩
    simp only [PendingFunct.Stands, hbody]
    exact ⟨_, _, hrun⟩

end Outline.Lowers

/-- The program has of every declared name the first declaration, with the first field of
    every name, and reports all others. -/
structure Program.KeepsFirst (strict : Bool) (files : List SourceFile) (p signed : Program) :
    Prop where
  /-- The declared names, in the order of their declaration. -/
  names : p.table.index.map Prod.fst =
    builtinNames ++ (firstOf (declarations files)).map Declared.name
  unique : ∀ d ∈ declarations files, ∃! decl, p.table.name? decl = some d.name
  builtins : ∀ id : StructId, id.index < Table.builtinCount →
    p.table.struct? id = Table.builtin.struct? id
  structs : ∀ d, .struct d ∈ firstOf (declarations files) →
    ∃ id, p.table.get? d.name = some (.struct id) ∧ p.table.struct? id =
      some ⟨d.name, firstFields p.table d.scope d.decl.fields, d.decl.span⟩
  functs : ∀ d, .funct d ∈ firstOf (declarations files) →
    ∃ id f, p.table.get? d.name = some (.funct id) ∧ p.table.funct? id = some f ∧
      PendingFunct.Stands strict signed.table ⟨id, d.decl, d.scope⟩ f
  /-- The first pass reports every declaration that it does not take up. -/
  count : (Outline.ofFiles files).report.count .duplicateDeclaration +
    (firstOf (declarations files)).length = (declarations files).length
  report : duplicates p.report.entries = redeclarations (declarations files) ++
    ((firstOf (declarations files)).filterMap Declared.struct?).flatMap fun d =>
      repeatedFields d.decl.fields

/-- **Declarations and fields keep the first.** -/
theorem lowerFiles_keeps_first (strict : Bool) (files : List SourceFile) :
    ∃ signed p, lowerFiles strict files = .ok p ∧
      (lowerSignatures (Outline.ofFiles files)).run
        ⟨(Outline.ofFiles files).table, (Outline.ofFiles files).report, false⟩ =
          .ok ((), signed) ∧
      p.KeepsFirst strict files signed := by
  obtain ⟨signed, outs, p, hp, hsigned, hl⟩ := lowerFiles_run strict files
  have hk := Outline.ofFiles_keeps files
  refine ⟨signed, p, hp, hsigned, ?_, fun d => hl.unique_name hk, fun id => ?_,
    fun d => hl.struct?_first hk, fun d => hl.funct?_first hk (Outline.ofFiles_valid files),
    hk.count_report, hl.duplicates_report hk⟩
  · rw [(hl.signs.names.trans hl.names).index, hk.index]
  · exact hl.struct?_builtin hk (Outline.ofFiles_numbered files)

end Semcheck
