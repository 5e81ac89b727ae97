/-
  What a program declares.

  * `declaredIn`, `declarations`: what items and files declare, each declaration with its
    full name and the directives in force;
  * `Distinct`: no name is declared twice, and none is that of a builtin type;
  * `Outline.Lists`: an outline has these declarations and no others.

  The outline of a program takes up its declarations one by one (`Outline.ofFiles_eq`), and
  without repeated names it lists them all (`Outline.ofFiles_lists`).  Files and items in
  another order, in which no item has moved across a bare `use`, declare the same in another
  order (`FilesReordered.perm`).
-/
import Semcheck.Proofs.Decl.History
import Semcheck.Proofs.Lower.Meaning

namespace Semcheck

open List Option Table Outline

/-! ## Declarations -/

/-- The syntax of a declaration, with its full name and the directives in force. -/
structure Named (α : Type) where
  name : Name
  scope : UseScope
  decl : α

inductive Declared where
  | struct (d : Named StructDecl)
  | funct (d : Named FunctDecl)

namespace Declared

def name : Declared → Name
  | .struct d => d.name
  | .funct d => d.name

def struct? : Declared → Option (Named StructDecl)
  | .struct d => some d
  | .funct _ => none

def funct? : Declared → Option (Named FunctDecl)
  | .struct _ => none
  | .funct d => some d

theorem struct?_eq_some {d : Declared} {e : Named StructDecl} :
    d.struct? = some e ↔ d = .struct e := by
  cases d <;> simp [struct?]

theorem funct?_eq_some {d : Declared} {e : Named FunctDecl} : d.funct? = some e ↔ d = .funct e := by
  cases d <;> simp [funct?]

end Declared

mutual

/-- What an item of the namespace `space` declares. -/
def declaredBy (space : Name) (scope : UseScope) : Item → List Declared
  | .space path items _ =>
    declaredIn (Outline.innerSpace space path) (scope.extend (Outline.innerSpace space path)) items
  | .use _ _ => []
  | .useBlock path items _ => declaredIn space (scope.extend path.toName) items
  | .struct decl => [.struct ⟨space.child decl.name.text, scope, decl⟩]
  | .funct decl => [.funct ⟨space.child decl.name.text, scope, decl⟩]

/-- What a list of items declares. -/
def declaredIn (space : Name) (scope : UseScope) : List Item → List Declared
  | [] => []
  | .use path _ :: rest => declaredIn space (scope.extend path.toName) rest
  | item :: rest => declaredBy space scope item ++ declaredIn space scope rest

end

/-- What the files of a program declare. -/
def declarations (files : List SourceFile) : List Declared :=
  files.flatMap fun file => declaredIn .root .empty file.items

def builtinNames : List Name :=
  Table.builtin.structs.map StructEntry.name

/-- No name is declared twice, and none is that of a builtin type. -/
def Distinct (ds : List Declared) : Prop :=
  (builtinNames ++ ds.map Declared.name).Nodup

instance (ds : List Declared) : Decidable (Distinct ds) :=
  inferInstanceAs (Decidable (List.Nodup _))

theorem Distinct.left {ds es : List Declared} (h : Distinct (ds ++ es)) : Distinct ds := by
  rw [Distinct, map_append, ← append_assoc] at h
  exact h.of_append_left

theorem Distinct.perm {ds es : List Declared} (h : Distinct ds) (hp : ds.Perm es) : Distinct es :=
  ((hp.map Declared.name).append_left builtinNames).nodup_iff.1 h

theorem Distinct.fresh {ds : List Declared} {d : Declared} (h : Distinct (ds ++ [d])) :
    d.name ∉ builtinNames ++ ds.map Declared.name := by
  rw [Distinct, map_append, ← append_assoc] at h
  exact fun hmem => (nodup_append'.1 h).2.2 hmem (by simp)

/-! ## Other orders -/

/-- The item is a bare `use`, which is in force for the items that follow it. -/
def Item.isUse : Item → Bool
  | .use _ _ => true
  | _ => false

/-- The same items in another order, inside and outside of namespaces and `use` blocks.
    No item moves across a bare `use`. -/
inductive Reordered : List Item → List Item → Prop where
  | refl (items : List Item) : Reordered items items
  | swap (a b : Item) (rest : List Item) (ha : a.isUse = false) (hb : b.isUse = false) :
      Reordered (a :: b :: rest) (b :: a :: rest)
  | cons (item : Item) {rest rest' : List Item} (h : Reordered rest rest') :
      Reordered (item :: rest) (item :: rest')
  | space (path : Path) {items items' : List Item} (span : Location) (rest : List Item)
      (h : Reordered items items') :
      Reordered (.space path items span :: rest) (.space path items' span :: rest)
  | useBlock (path : Path) {items items' : List Item} (span : Location) (rest : List Item)
      (h : Reordered items items') :
      Reordered (.useBlock path items span :: rest) (.useBlock path items' span :: rest)
  | trans {items items₁ items' : List Item} (h : Reordered items items₁)
      (h' : Reordered items₁ items') : Reordered items items'

/-- The same files in another order, with their items in another order. -/
inductive FilesReordered : List SourceFile → List SourceFile → Prop where
  | refl (files : List SourceFile) : FilesReordered files files
  | swap (a b : SourceFile) (rest : List SourceFile) :
      FilesReordered (a :: b :: rest) (b :: a :: rest)
  | cons (file : SourceFile) {rest rest' : List SourceFile} (h : FilesReordered rest rest') :
      FilesReordered (file :: rest) (file :: rest')
  | items (file : SourceFile) {items' : List Item} (rest : List SourceFile)
      (h : Reordered file.items items') :
      FilesReordered (file :: rest) ({ file with items := items' } :: rest)
  | trans {files files₁ files' : List SourceFile} (h : FilesReordered files files₁)
      (h' : FilesReordered files₁ files') : FilesReordered files files'

theorem Item.isUse_cases (item : Item) :
    (∃ path span, item = .use path span) ∨ item.isUse = false := by
  cases item <;> simp [isUse]

theorem declaredIn_cons {item : Item} (h : item.isUse = false) (space : Name) (scope : UseScope)
    (rest : List Item) : declaredIn space scope (item :: rest) =
      declaredBy space scope item ++ declaredIn space scope rest := by
  cases item with
  | use path span => cases h
  | space path items span => rfl
  | useBlock path items span => rfl
  | struct decl => rfl
  | funct decl => rfl

theorem Outline.addItems_cons {item : Item} (h : item.isUse = false) (o : Outline) (space : Name)
    (scope : UseScope) (rest : List Item) : o.addItems space scope (item :: rest) =
      (o.addItem space scope item).addItems space scope rest := by
  cases item with
  | use path span => cases h
  | space path items span => rfl
  | useBlock path items span => rfl
  | struct decl => rfl
  | funct decl => rfl

theorem Reordered.perm {items items' : List Item} (h : Reordered items items') (space : Name)
    (scope : UseScope) : (declaredIn space scope items).Perm (declaredIn space scope items') := by
  induction h generalizing space scope with
  | refl items => exact .refl _
  | swap a b rest ha hb =>
    simp only [declaredIn_cons ha, declaredIn_cons hb]
    exact perm_append_comm_assoc ..
  | cons item h ih =>
    rcases item.isUse_cases with ⟨path, span, rfl⟩ | hitem
    · exact ih space _
    · rw [declaredIn_cons hitem, declaredIn_cons hitem]
      exact (ih space scope).append_left _
  | space path span rest h ih => exact (ih _ _).append_right _
  | useBlock path span rest h ih => exact (ih _ _).append_right _
  | trans h h' ih ih' => exact (ih space scope).trans (ih' space scope)

/-- **The order of the items matters to the order of the declarations only.** -/
theorem FilesReordered.perm {files files' : List SourceFile} (h : FilesReordered files files') :
    (declarations files).Perm (declarations files') := by
  induction h with
  | refl files => exact .refl _
  | swap a b rest =>
    simp only [declarations, flatMap_cons]
    exact perm_append_comm_assoc ..
  | cons file h ih => exact ih.append_left _
  | items file rest h => exact (h.perm .root .empty).append_right _
  | trans h h' ih ih' => exact ih.trans ih'

/-! ## Outlines -/

/-- What belongs to the same things belongs together. -/
theorem forall₂_join {α β γ : Type} {R : α → β → Prop} {S : α → γ → Prop} {T : β → γ → Prop}
    {xs : List α} {ys : List β} {zs : List γ} (h : Forall₂ R xs ys)
    (h' : Forall₂ S xs zs) (hT : ∀ x y z, R x y → S x z → T y z) : Forall₂ T ys zs := by
  induction h generalizing zs with
  | nil =>
    cases h'
    exact .nil
  | cons hr _ ih =>
    cases h' with
    | cons hs hrest => exact .cons (hT _ _ _ hr hs) (ih hrest)

/-- What a declaration asks of the table. -/
def Declared.registration : Declared → Registration
  | .struct d => .struct d.name d.decl.span
  | .funct d => .funct d.name d.decl.span

@[simp] theorem Declared.name_registration (d : Declared) : d.registration.name = d.name := by
  cases d <;> rfl

namespace Outline

/-- Take up a declaration; one whose name is taken is reported and dropped. -/
def declare (o : Outline) : Declared → Outline
  | .struct d =>
    match o.table.addStruct d.name d.decl.span with
    | .ok (id, table) => { o with table := table, structs := o.structs ++ [⟨id, d.decl, d.scope⟩] }
    | .error e => { o with report := o.report.push e.toDiagnostic }
  | .funct d =>
    match o.table.addFunct d.name d.decl.span with
    | .ok (id, table) => { o with table := table, functs := o.functs ++ [⟨id, d.decl, d.scope⟩] }
    | .error e => { o with report := o.report.push e.toDiagnostic }

mutual

theorem addItem_eq (o : Outline) (space : Name) (scope : UseScope) (item : Item) :
    o.addItem space scope item = (declaredBy space scope item).foldl declare o := by
  cases item with
  | space path items span => exact o.addItems_eq _ _ items
  | use path span => rfl
  | useBlock path items span => exact o.addItems_eq _ _ items
  | struct decl => rfl
  | funct decl => rfl

theorem addItems_eq (o : Outline) (space : Name) (scope : UseScope) (items : List Item) :
    o.addItems space scope items = (declaredIn space scope items).foldl declare o := by
  cases items with
  | nil => rfl
  | cons item rest =>
    rcases item.isUse_cases with ⟨path, span, rfl⟩ | hitem
    · exact o.addItems_eq space _ rest
    · rw [addItems_cons hitem, declaredIn_cons hitem, foldl_append, ← addItem_eq]
      exact addItems_eq _ space scope rest

end

/-- **An outline takes up the declarations of the program one by one.** -/
theorem ofFiles_eq (files : List SourceFile) :
    ofFiles files = (declarations files).foldl declare .empty := by
  simp only [ofFiles, declarations, foldl_flatMap, addItems_eq]

end Outline

/-- The outline has the declarations of the list, in its order, and no others. -/
structure Outline.Lists (o : Outline) (ds : List Declared) : Prop where
  report : o.report = .empty
  indexed : o.table.Indexed
  structEntries : o.table.structs = Table.builtin.structs ++
    (ds.filterMap Declared.struct?).map fun d => ⟨d.name, [], d.decl.span⟩
  functEntries : o.table.functs =
    (ds.filterMap Declared.funct?).map fun d => ⟨d.name, .declared d.decl.span⟩
  structs : List.Forall₂ (fun pending d => o.table.get? d.name = some (.struct pending.id) ∧
    pending.decl = d.decl ∧ pending.scope = d.scope) o.structs (ds.filterMap Declared.struct?)
  functs : List.Forall₂ (fun pending d => o.table.get? d.name = some (.funct pending.id) ∧
    pending.decl = d.decl ∧ pending.scope = d.scope) o.functs (ds.filterMap Declared.funct?)

namespace Outline.Lists

variable {o : Outline} {ds : List Declared}

theorem empty : empty.Lists [] :=
  ⟨rfl, indexed_builtin, rfl, rfl, .nil, .nil⟩

theorem get?_eq_none (h : o.Lists ds) {name : Name}
    (hname : name ∉ builtinNames ++ ds.map Declared.name) : o.table.get? name = none := by
  cases hget : o.table.get? name with
  | none => rfl
  | some d =>
    have hd := (h.indexed name d).1 hget
    refine absurd (mem_append.2 ?_) hname
    cases d with
    | struct id =>
      obtain ⟨entry, hentry, rfl⟩ := map_eq_some_iff.1 hd
      have hmem := mem_of_getElem? hentry
      rw [h.structEntries] at hmem
      rcases mem_append.1 hmem with hmem | hmem
      · exact .inl (mem_map_of_mem hmem)
      · obtain ⟨e, he, rfl⟩ := mem_map.1 hmem
        simp only [mem_filterMap, Declared.struct?_eq_some, exists_eq_right] at he
        exact .inr (mem_map.2 ⟨_, he, rfl⟩)
    | funct id =>
      obtain ⟨entry, hentry, rfl⟩ := map_eq_some_iff.1 hd
      have hmem := mem_of_getElem? hentry
      rw [h.functEntries] at hmem
      obtain ⟨e, he, rfl⟩ := mem_map.1 hmem
      simp only [mem_filterMap, Declared.funct?_eq_some, exists_eq_right] at he
      exact .inr (mem_map.2 ⟨_, he, rfl⟩)

theorem declare (h : o.Lists ds) (d : Declared) (hd : Distinct (ds ++ [d])) :
    (o.declare d).Lists (ds ++ [d]) := by
  -- the name is new, so that the declaration is not dropped
  have hnone : o.table.get? d.name = none := h.get?_eq_none hd.fresh
  cases d with
  | struct d =>
    change o.table.get? d.name = none at hnone
    have hdeclares := declares_struct hnone d.decl.span
    simp only [Outline.declare, addStruct_of_none hnone]
    refine ⟨h.report, hdeclares.indexed h.indexed, ?_, ?_, ?_, ?_⟩
    · simp [h.structEntries, Declared.struct?]
    · simp [h.functEntries, Declared.funct?]
    · rw [filterMap_append]
      refine rel_append (h.structs.imp fun _ _ hp => hp.imp_left hdeclares.kept)
        (.cons ⟨?_, rfl, rfl⟩ .nil)
      rw [hdeclares.get?, if_pos rfl]
    · rw [filterMap_append, filterMap_cons_none rfl, filterMap_nil, append_nil]
      exact h.functs.imp fun _ _ hp => hp.imp_left hdeclares.kept
  | funct d =>
    change o.table.get? d.name = none at hnone
    have hdeclares := declares_funct hnone d.decl.span
    simp only [Outline.declare, addFunct_of_none hnone]
    refine ⟨h.report, hdeclares.indexed h.indexed, ?_, ?_, ?_, ?_⟩
    · simp [h.structEntries, Declared.struct?]
    · simp [h.functEntries, Declared.funct?]
    · rw [filterMap_append, filterMap_cons_none rfl, filterMap_nil, append_nil]
      exact h.structs.imp fun _ _ hp => hp.imp_left hdeclares.kept
    · rw [filterMap_append]
      refine rel_append (h.functs.imp fun _ _ hp => hp.imp_left hdeclares.kept)
        (.cons ⟨?_, rfl, rfl⟩ .nil)
      rw [hdeclares.get?, if_pos rfl]

theorem foldl (h : o.Lists ds) (es : List Declared) (hd : Distinct (ds ++ es)) :
    (es.foldl Outline.declare o).Lists (ds ++ es) := by
  induction es generalizing o ds with
  | nil => simpa using h
  | cons e es ih =>
    have hsplit : ds ++ e :: es = (ds ++ [e]) ++ es := by simp
    rw [hsplit] at hd ⊢
    exact ih (h.declare e hd.left) hd

end Outline.Lists

/-- **A program without repeated names has the outline that lists what it declares.** -/
theorem Outline.ofFiles_lists {files : List SourceFile} (h : Distinct (declarations files)) :
    (ofFiles files).Lists (declarations files) := by
  rw [ofFiles_eq]
  exact Outline.Lists.empty.foldl _ h

end Semcheck
