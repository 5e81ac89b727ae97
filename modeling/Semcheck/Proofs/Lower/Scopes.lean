/-
  Which directives a declaration sees, and what it is called.

  A `Site` is a place in a file where a struct or a function is declared: the
  namespaces and `use` blocks around it, and what stands before it and before
  each of them.  From this alone follow, from the inside out,

  * the namespace (`spaceInside`): the paths of the namespaces around, back to
    the nearest absolute one;
  * the directives in force (`Site.directives`): the bare `use` items before the
    declaration in its list, then the directive of the namespace or block that
    the list belongs to, then the bare `use` items before that, and so on.

  The outline, which goes through the files from the outside in, keeps with
  every declaration exactly these (`Outline.ofFiles_scoped`).
-/
import Semcheck.Proofs.Lower.First

namespace Semcheck

open List Outline

/-! ## Ways into a file -/

/-- An item with the items before it in its list. -/
structure Level where
  before : List Item
  item : Item

def Item.inner : Item → List Item
  | .space _ items _ | .useBlock _ items _ => items
  | .use _ _ | .struct _ | .funct _ => []

def Item.bareUse? : Item → Option Name
  | .use path _ => some path.toName
  | _ => none

def Item.spacePath? : Item → Option Path
  | .space path _ _ => some path
  | _ => none

/-- The paths up to the first absolute one. -/
def upToAbsolute : List Path → List Path
  | [] => []
  | path :: rest => if path.absolute then [path] else path :: upToAbsolute rest

/-- The namespace inside the given levels, the innermost of which comes first. -/
def spaceInside (levels : List Level) : Name :=
  ⟨(upToAbsolute (levels.filterMap fun level => level.item.spacePath?)).reverse.flatMap Path.texts⟩

/-- The bare `use` items of a list, the last one first. -/
def bareUses (items : List Item) : List Name :=
  (items.filterMap Item.bareUse?).reverse

/-- The directives in force at the start of the list inside the given levels. -/
def directivesInside : List Level → List Name
  | [] => []
  | level :: outer =>
    match level.item with
    | .space _ _ _ =>
      spaceInside (level :: outer) :: bareUses level.before ++ directivesInside outer
    | .useBlock path _ _ => path.toName :: bareUses level.before ++ directivesInside outer
    | _ => bareUses level.before ++ directivesInside outer

/-! ## Sites -/

inductive Declaration where
  | struct (decl : StructDecl)
  | funct (decl : FunctDecl)

namespace Declaration

def item : Declaration → Item
  | .struct decl => .struct decl
  | .funct decl => .funct decl

def ident : Declaration → Ident
  | .struct decl => decl.name
  | .funct decl => decl.name

end Declaration

/-- Where a declaration stands: inside the levels `outer`, after the items `before`. -/
structure Site where
  outer : List Level
  before : List Item
  decl : Declaration

namespace Site

def name (s : Site) : Name :=
  (spaceInside s.outer).child s.decl.ident.text

/-- The directives in force, innermost first. -/
def directives (s : Site) : List Name :=
  bareUses s.before ++ directivesInside s.outer

def isStruct (s : Site) : Bool :=
  match s.decl with
  | .struct _ => true
  | .funct _ => false

/-- The declaration with its full name and the directives in force. -/
def declared (s : Site) : Declared :=
  match s.decl with
  | .struct decl => .struct ⟨s.name, ⟨s.directives⟩, decl⟩
  | .funct decl => .funct ⟨s.name, ⟨s.directives⟩, decl⟩

@[simp] theorem name_declared (s : Site) : s.declared.name = s.name := by
  unfold declared
  split <;> rfl

end Site

/-- From the items of a file the levels lead to the given list of items. -/
inductive Leads (root : List Item) : List Level → List Item → Prop where
  | root : Leads root [] root
  | inside {outer : List Level} {before after : List Item} {item : Item}
      (h : Leads root outer (before ++ item :: after)) :
      Leads root (⟨before, item⟩ :: outer) item.inner

/-- The site is one among the items of a file. -/
def Site.In (s : Site) (root : List Item) : Prop :=
  ∃ after, Leads root s.outer (s.before ++ s.decl.item :: after)

mutual

/-- The sites in an item, which stands after the items `before`. -/
def sitesOf (outer : List Level) (before : List Item) : Item → List Site
  | .space path items span => sitesIn (⟨before, .space path items span⟩ :: outer) [] items
  | .use _ _ => []
  | .useBlock path items span => sitesIn (⟨before, .useBlock path items span⟩ :: outer) [] items
  | .struct decl => [⟨outer, before, .struct decl⟩]
  | .funct decl => [⟨outer, before, .funct decl⟩]

/-- The sites in a list of items, which stands after the items `before`. -/
def sitesIn (outer : List Level) (before : List Item) : List Item → List Site
  | [] => []
  | item :: rest => sitesOf outer before item ++ sitesIn outer (before ++ [item]) rest

end

/-- The sites of a program, as they follow each other. -/
def sites (files : List SourceFile) : List Site :=
  files.flatMap fun file => sitesIn [] [] file.items

theorem sitesIn_append (outer : List Level) (before items more : List Item) :
    sitesIn outer before (items ++ more) =
      sitesIn outer before items ++ sitesIn outer (before ++ items) more := by
  induction items generalizing before with
  | nil => simp [sitesIn]
  | cons item items ih => simp [sitesIn, ih]

variable {outer : List Level} {s : Site}

/-- What stands inside an item is in the list of the item's sites. -/
theorem mem_sitesOf_of_inner {before : List Item} {item : Item}
    (h : s ∈ sitesIn (⟨before, item⟩ :: outer) [] item.inner) : s ∈ sitesOf outer before item := by
  cases item with
  | space path items span => exact h
  | useBlock path items span => exact h
  | use path span => simp [Item.inner, sitesIn] at h
  | struct decl => simp [Item.inner, sitesIn] at h
  | funct decl => simp [Item.inner, sitesIn] at h

theorem Leads.mem_sites {root items : List Item} (h : Leads root outer items)
    (hs : s ∈ sitesIn outer [] items) : s ∈ sitesIn [] [] root := by
  induction h with
  | root => exact hs
  | inside h ih =>
    refine ih ?_
    rw [sitesIn_append]
    exact mem_append_right _ (mem_append_left _ (mem_sitesOf_of_inner hs))

mutual

theorem in_of_mem_sitesOf {root : List Item} {outer : List Level} {before after : List Item}
    {item : Item} (h : Leads root outer (before ++ item :: after)) {s : Site}
    (hs : s ∈ sitesOf outer before item) : s.In root := by
  cases item with
  | space path items span => exact in_of_mem_sitesIn [] (.inside h) hs
  | useBlock path items span => exact in_of_mem_sitesIn [] (.inside h) hs
  | use path span => cases hs
  | struct decl =>
    obtain rfl := mem_singleton.1 hs
    exact ⟨after, h⟩
  | funct decl =>
    obtain rfl := mem_singleton.1 hs
    exact ⟨after, h⟩

theorem in_of_mem_sitesIn {root : List Item} {outer : List Level} (before : List Item)
    {items : List Item} (h : Leads root outer (before ++ items)) {s : Site}
    (hs : s ∈ sitesIn outer before items) : s.In root := by
  cases items with
  | nil => cases hs
  | cons item rest =>
    rcases mem_append.1 hs with hs | hs
    · exact in_of_mem_sitesOf h hs
    · exact in_of_mem_sitesIn (before ++ [item]) (by simpa using h) hs

end

/-- The list of sites has those that stand in the file, and no others. -/
theorem mem_sitesIn_iff {root : List Item} : s ∈ sitesIn [] [] root ↔ s.In root := by
  constructor
  · exact in_of_mem_sitesIn [] .root
  · rintro ⟨after, h⟩
    refine h.mem_sites ?_
    rw [sitesIn_append]
    refine mem_append_right _ (mem_append_left _ ?_)
    cases s with
    | mk outer before decl => cases decl <;> simp [Declaration.item, sitesOf]

theorem mem_sites_iff {files : List SourceFile} :
    s ∈ sites files ↔ ∃ file ∈ files, s.In file.items := by
  simp only [sites, mem_flatMap, mem_sitesIn_iff]

/-! ## Declarations are the sites -/

theorem spaceInside_space (before : List Item) (path : Path) (items : List Item) (span : Location)
    (outer : List Level) : spaceInside (⟨before, .space path items span⟩ :: outer) =
      innerSpace (spaceInside outer) path := by
  cases habs : path.absolute <;>
    simp [spaceInside, Item.spacePath?, upToAbsolute, innerSpace, habs, Path.toName, Name.join]

theorem spaceInside_useBlock (before : List Item) (path : Path) (items : List Item)
    (span : Location) (outer : List Level) :
    spaceInside (⟨before, .useBlock path items span⟩ :: outer) = spaceInside outer := rfl

theorem bareUses_concat (before : List Item) (item : Item) :
    bareUses (before ++ [item]) = item.bareUse?.toList ++ bareUses before := by
  cases h : item.bareUse? <;> simp [bareUses, h]

mutual

theorem declaredBy_eq_sites (outer : List Level) (before : List Item) (item : Item) :
    declaredBy (spaceInside outer) ⟨bareUses before ++ directivesInside outer⟩ item =
      (sitesOf outer before item).map Site.declared := by
  cases item with
  | space path items span =>
    have h := declaredIn_eq_sites (⟨before, .space path items span⟩ :: outer) [] items
    rw [spaceInside_space] at h
    simpa [declaredBy, sitesOf, UseScope.extend, bareUses, directivesInside, spaceInside_space]
      using h
  | useBlock path items span =>
    have h := declaredIn_eq_sites (⟨before, .useBlock path items span⟩ :: outer) [] items
    rw [spaceInside_useBlock] at h
    simpa [declaredBy, sitesOf, UseScope.extend, bareUses, directivesInside] using h
  | use path span => rfl
  | struct decl => rfl
  | funct decl => rfl

/-- Going in from the outside finds what the sites say from the inside. -/
theorem declaredIn_eq_sites (outer : List Level) (before items : List Item) :
    declaredIn (spaceInside outer) ⟨bareUses before ++ directivesInside outer⟩ items =
      (sitesIn outer before items).map Site.declared := by
  cases items with
  | nil => rfl
  | cons item rest =>
    have hrest := declaredIn_eq_sites outer (before ++ [item]) rest
    rw [bareUses_concat, append_assoc] at hrest
    rcases item.isUse_cases with ⟨path, span, rfl⟩ | hitem
    · exact hrest
    · have hnone : item.bareUse? = none := by
        cases item with
        | use path span => cases hitem
        | _ => rfl
      rw [hnone] at hrest
      rw [declaredIn_cons hitem, sitesIn, map_append, declaredBy_eq_sites, ← hrest]
      rfl

end

theorem declarations_eq_sites (files : List SourceFile) :
    declarations files = (sites files).map Site.declared := by
  rw [declarations, sites, map_flatMap]
  exact flatMap_congr fun file _ => declaredIn_eq_sites [] [] file.items

/-! ## What is registered -/

theorem filterMap_struct?_declared (ss : List Site) :
    Forall₂ (fun (d : Named StructDecl) (s : Site) =>
        s.decl = .struct d.decl ∧ d.name = s.name ∧ d.scope.directives = s.directives)
      ((ss.map Site.declared).filterMap Declared.struct?) (ss.filter Site.isStruct) := by
  induction ss with
  | nil => exact .nil
  | cons s ss ih =>
    obtain ⟨outer, before, decl⟩ := s
    cases decl with
    | struct decl => exact .cons ⟨rfl, rfl, rfl⟩ ih
    | funct decl => exact ih

theorem filterMap_funct?_declared (ss : List Site) :
    Forall₂ (fun (d : Named FunctDecl) (s : Site) =>
        s.decl = .funct d.decl ∧ d.name = s.name ∧ d.scope.directives = s.directives)
      ((ss.map Site.declared).filterMap Declared.funct?) (ss.filter fun s => !s.isStruct) := by
  induction ss with
  | nil => exact .nil
  | cons s ss ih =>
    obtain ⟨outer, before, decl⟩ := s
    cases decl with
    | struct decl => exact ih
    | funct decl => exact .cons ⟨rfl, rfl, rfl⟩ ih

/-- **Every declaration is kept with the directives in force where it stands**, and under its
    full name.  What is registered are the sites of the files in their order, of each name that
    is not builtin the first one. -/
theorem Outline.ofFiles_scoped (files : List SourceFile) :
    (∀ s, s ∈ sites files ↔ ∃ file ∈ files, s.In file.items) ∧
    List.Forall₂ (fun (p : PendingStruct) (s : Site) => s.decl = .struct p.decl ∧
        (Outline.ofFiles files).table.name? (.struct p.id) = some s.name ∧
        p.scope.directives = s.directives)
      (Outline.ofFiles files).structs
      ((firsts Site.name ((sites files).filter fun s => s.name ∉ builtinNames)).filter
        Site.isStruct) ∧
    List.Forall₂ (fun (p : PendingFunct) (s : Site) => s.decl = .funct p.decl ∧
        (Outline.ofFiles files).table.name? (.funct p.id) = some s.name ∧
        p.scope.directives = s.directives)
      (Outline.ofFiles files).functs
      ((firsts Site.name ((sites files).filter fun s => s.name ∉ builtinNames)).filter
        fun s => !s.isStruct) := by
  have hnames : Declared.name ∘ Site.declared = Site.name := funext Site.name_declared
  have hlists := (Outline.ofFiles_keeps files).lists
  rw [declarations_eq_sites, firstOf, filter_map, firsts_map, hnames] at hlists
  simp only [Function.comp_def, Site.name_declared] at hlists
  refine ⟨fun s => mem_sites_iff, ?_, ?_⟩
  · refine forall₂_join (List.Forall₂.flip hlists.structs) (filterMap_struct?_declared _) ?_
    rintro d p s ⟨hget, hdecl, hscope⟩ ⟨hdecl', hname, hscope'⟩
    exact ⟨hdecl ▸ hdecl', hname ▸ (hlists.indexed _ _).1 hget, hscope ▸ hscope'⟩
  · refine forall₂_join (List.Forall₂.flip hlists.functs) (filterMap_funct?_declared _) ?_
    rintro d p s ⟨hget, hdecl, hscope⟩ ⟨hdecl', hname, hscope'⟩
    exact ⟨hdecl ▸ hdecl', hname ▸ (hlists.indexed _ _).1 hget, hscope ▸ hscope'⟩

end Semcheck
