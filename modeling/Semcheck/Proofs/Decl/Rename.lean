/-
  Tables with the same declarations under other numbers.

  `Table.Mirrors` says that a table has the declarations of another one, each under
  the number a renaming gives it.  What is asked about a declaration or a name then
  has the renamed answer.  The names a failed lookup suggests depend on the order of
  the declarations; so what is said about a failed lookup is only related, by `D`.
-/
import Semcheck.Proofs.Ir.Rename
import Semcheck.Proofs.Lower.Simulation

namespace Semcheck

open List

/-- The table `t'` has the declarations of `t` under the numbers `ρ` gives them. -/
structure Table.Mirrors (ρ : Renaming) (D : Diagnostic → Diagnostic → Prop) (t t' : Table) :
    Prop where
  get? : ∀ name, t'.get? name = (t.get? name).map ρ.decl
  struct? : ∀ id, t'.struct? (ρ.struct id) = (t.struct? id).map (StructEntry.rename ρ)
  funct? : ∀ id, t'.funct? (ρ.funct id) = (t.funct? id).map (Function.rename ρ)
  functName : ∀ id, t'.name? (.funct (ρ.funct id)) = t.name? (.funct id)
  names : t.names.Follows ρ t'.names
  undeclared : ∀ (name : Name) span,
    D (LookupError.undeclared name.text span (t.suggestions name)).toDiagnostic
      (LookupError.undeclared name.text span (t'.suggestions name)).toDiagnostic

/-- Both lookups find something, the one what belongs to what the other finds, or both
    fail with related diagnostics. -/
inductive Found (D : Diagnostic → Diagnostic → Prop) {α β : Type} (g : α → β) :
    Except LookupError α → Except LookupError β → Prop
  | ok (a : α) : Found D g (.ok a) (.ok (g a))
  | error {e e' : LookupError} (h : D e.toDiagnostic e'.toDiagnostic) :
    Found D g (.error e) (.error e')

namespace Table

variable {ρ : Renaming} {D : Diagnostic → Diagnostic → Prop} {t t' : Table}

theorem Mirrors.refl (hD : ∀ d, D d d) (t : Table) : Mirrors .identity D t t where
  get? name := by simp
  struct? i := by
    rw [StructEntry.rename_identity, Option.map_id]
    rfl
  funct? i := by
    rw [Function.rename_identity, Option.map_id]
    rfl
  functName _ := rfl
  names := ⟨fun _ => rfl, fun _ => rfl⟩
  undeclared _ _ := hD _

namespace Mirrors

variable (h : Mirrors ρ D t t')
include h

theorem name? (d : Decl) : t'.name? (ρ.decl d) = t.name? d := by
  cases d with
  | funct id => exact h.functName id
  | struct id =>
    show (t'.struct? (ρ.struct id)).map StructEntry.name = (t.struct? id).map StructEntry.name
    rw [h.struct?, Option.map_map]
    rfl

theorem displayName (d : Decl) : Alike Eq (t.displayName d) (t'.displayName (ρ.decl d)) := by
  rw [Table.displayName, Table.displayName, h.name?]
  cases t.name? d with
  | none => exact .error _ _
  | some name => exact .ok rfl

theorem displayNames (ds : List Decl) :
    Alike Eq (t.displayNames ds) (t'.displayNames (ds.map ρ.decl)) := by
  induction ds with
  | nil => exact .ok rfl
  | cons d ds ih =>
    refine (h.displayName d).bind ?_
    rintro name _ rfl
    refine ih.bind ?_
    rintro names _ rfl
    exact .ok rfl

theorem fields (id : StructId) :
    Alike (fun fs fs' => fs' = fs.map (.rename ρ)) (t.fields id) (t'.fields (ρ.struct id)) := by
  rw [Table.fields, Table.fields, h.struct?]
  cases t.struct? id with
  | none => exact .error _ _
  | some entry => exact .ok rfl

theorem funct (id : FunctId) :
    Alike (fun f f' => f' = f.rename ρ) (t.funct id) (t'.funct (ρ.funct id)) := by
  rw [Table.funct, Table.funct, h.funct?]
  cases t.funct? id with
  | none => exact .error _ _
  | some f => exact .ok rfl

theorem typeText (type : Ty) : Alike Eq (t.typeText type) (t'.typeText (type.rename ρ.struct)) := by
  have hcheck : ∀ ids : List StructId,
      Alike (fun _ _ : Unit => True) (t.checkStructs ids) (t'.checkStructs (ids.map ρ.struct)) := by
    intro ids
    induction ids with
    | nil => exact .ok trivial
    | cons id ids ih =>
      have hid : Alike (fun _ _ : Unit => True)
          (do let _ ← t.displayName (.struct id)) (do let _ ← t'.displayName (.struct (ρ.struct id))) :=
        (h.displayName (.struct id)).bind fun _ _ _ => .ok trivial
      exact hid.bind fun _ _ _ => ih
  rw [Table.typeText, Table.typeText, Ty.structs_rename, Ty.text_rename h.names.struct]
  exact (hcheck _).bind fun _ _ _ => .ok rfl

end Mirrors

/-! ## Lookup -/

theorem eraseDups_map {α β : Type} [DecidableEq α] [DecidableEq β] {g : α → β}
    (hg : Function.Injective g) (xs : List α) : (xs.map g).eraseDups = xs.eraseDups.map g := by
  cases xs with
  | nil => rfl
  | cons x xs =>
    have hbeq : ∀ y, (g y == g x) = (y == x) := fun y => by
      rw [Bool.eq_iff_iff, beq_iff_eq, beq_iff_eq, hg.eq_iff]
    have hfilter : (xs.map g).filter (fun y => !y == g x) =
        (xs.filter fun y => !y == x).map g := by
      simp [filter_map, Function.comp_def, hbeq]
    rw [map_cons, eraseDups_cons, eraseDups_cons, hfilter, eraseDups_map hg, map_cons]
termination_by xs.length
decreasing_by
  have := length_filter_le (fun y => !y == x) xs
  simp only [length_cons]
  omega

section Lookup

variable (h : Mirrors ρ D t t') (hD : ∀ d, D d d)
include h hD

theorem onlyDecl_mirrors (candidates : List Decl) (name : Name) (span : Location) :
    Alike (Found D ρ.decl) (t.onlyDecl candidates name span)
      (t'.onlyDecl (candidates.map ρ.decl) name span) := by
  rcases candidates with _ | ⟨d, _ | ⟨e, rest⟩⟩
  · exact .ok (.error (h.undeclared name span))
  · exact .ok (.ok d)
  · refine (h.displayNames (d :: e :: rest)).bind ?_
    rintro names _ rfl
    exact .ok (.error (hD _))

variable (hρ : ρ.Faithful)
include hρ

theorem resolve_mirrors (name : Name) (absolute : Bool) (scope : UseScope) (span : Location) :
    Alike (Found D ρ.decl) (t.resolve name absolute scope span)
      (t'.resolve name absolute scope span) := by
  have hlookup : t'.lookup name absolute scope = (t.lookup name absolute scope).map ρ.decl := by
    rw [lookup, lookup, show t'.get? = fun n => (t.get? n).map ρ.decl from funext h.get?,
      ← map_filterMap, eraseDups_map hρ.decl]
  rw [resolve, resolve, hlookup]
  exact onlyDecl_mirrors h hD _ name span

theorem resolveType_mirrors (name : Name) (absolute : Bool) (scope : UseScope) (span : Location) :
    Alike (Found D ρ.struct) (t.resolveType name absolute scope span)
      (t'.resolveType name absolute scope span) := by
  refine (resolve_mirrors h hD hρ name absolute scope span).bind ?_
  rintro _ _ (d | he)
  · cases d with
    | struct id => exact .ok (.ok id)
    | funct id => exact .ok (.error (hD _))
  · exact .ok (.error he)

end Lookup

end Table

end Semcheck
