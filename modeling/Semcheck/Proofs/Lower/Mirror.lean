/-
  Lowering against a table and against a mirror of it.

  What a declaration comes to is renamed along with the table: `resolveFields_mirrored`,
  `PendingFunct.signature_mirrored`, `PendingFunct.Lowers.mirrored`.  What is reported on it
  stays related.  The texts of the declarations do not change (`Table.Mirrors.declText?`).
-/
import Semcheck.Proofs.Lower.Independence
import Semcheck.Proofs.Pooled.Text

namespace Semcheck

open List Option

/-- The struct under another number. -/
def PendingStruct.rename (ρ : Renaming) (pending : PendingStruct) : PendingStruct :=
  { pending with id := ρ.struct pending.id }

section Mirrored

variable {ρ : Renaming} {D : Diagnostic → Diagnostic → Prop} {t t' : Table}
  (h : t.Mirrors ρ D t') (hD : ∀ d, D d d) (hρ : ρ.Faithful)
include h hD hρ

/-! ## Signatures -/

theorem TypeExpr.meaning_mirrored (scope : UseScope) (e : TypeExpr) :
    (e.meaning t' scope).1 = (e.meaning t scope).1.rename ρ.struct ∧
      Forall₂ D (e.meaning t scope).2.entries (e.meaning t' scope).2.entries := by
  have hrun := lowerType_mirrored h hD hρ scope e
  rw [TypeExpr.meaning, TypeExpr.meaning]
  generalize (lowerType t scope e).run .empty = x at hrun ⊢
  generalize (lowerType t' scope e).run .empty = y at hrun ⊢
  cases hrun with
  | ok hout => exact hout
  | error e e' => exact ⟨rfl, .nil⟩

theorem returnMeaning_mirrored (scope : UseScope) (returns : Option TypeExpr) :
    (returnMeaning t' scope returns).1 = (returnMeaning t scope returns).1.rename ρ.struct ∧
      Forall₂ D (returnMeaning t scope returns).2.entries
        (returnMeaning t' scope returns).2.entries := by
  cases returns with
  | none => exact ⟨by simp [returnMeaning], .nil⟩
  | some e => exact e.meaning_mirrored h hD hρ scope

theorem resolveFields_mirrored (scope : UseScope) (decls : List FieldDecl) (fields : List Field) :
    (resolveFields t' scope decls (fields.map (.rename ρ))).1 =
        (resolveFields t scope decls fields).1.map (.rename ρ) ∧
      Forall₂ D (resolveFields t scope decls fields).2.entries
        (resolveFields t' scope decls (fields.map (.rename ρ))).2.entries := by
  induction decls generalizing fields with
  | nil => exact ⟨rfl, .nil⟩
  | cons field rest ih =>
    obtain ⟨htype, hreport⟩ := field.type.meaning_mirrored h hD hρ scope
    rw [resolveFields, resolveFields, findField_rename]
    cases findField field.name.text fields with
    | some found =>
      obtain ⟨hfields, hrest⟩ := ih fields
      exact ⟨hfields, rel_append (rel_append hreport (.cons (hD _) .nil)) hrest⟩
    | none =>
      obtain ⟨hfields, hrest⟩ := ih (fields ++ [⟨field.name.text,
        (field.type.meaning t scope).1, field.span⟩])
      rw [map_append] at hfields hrest
      rw [htype]
      exact ⟨hfields, rel_append hreport hrest⟩

theorem PendingStruct.resolved_mirrored (pending : PendingStruct) :
    ((pending.rename ρ).resolved t').1 = (pending.resolved t).1.map (.rename ρ) ∧
      Forall₂ D (pending.resolved t).2.entries ((pending.rename ρ).resolved t').2.entries :=
  resolveFields_mirrored h hD hρ pending.scope pending.decl.fields []

theorem PendingFunct.signature_mirrored (pending : PendingFunct) :
    (pending.rename ρ).signature t' = (pending.signature t).rename ρ := by
  have hparams : paramRegisters t' pending.scope pending.decl.params =
      (paramRegisters t pending.scope pending.decl.params).map (.rename ρ) := by
    simp [paramRegisters, Register.rename, (TypeExpr.meaning_mirrored h hD hρ _ _).1,
      Function.comp_def]
  have hreturns := (returnMeaning_mirrored h hD hρ pending.scope pending.decl.returns).1
  simp [signature, PendingFunct.rename, Function.rename, hparams, hreturns]

theorem PendingFunct.complaints_mirrored (pending : PendingFunct) :
    Forall₂ D (pending.complaints t) ((pending.rename ρ).complaints t') := by
  refine rel_append ?_ (returnMeaning_mirrored h hD hρ pending.scope pending.decl.returns).2
  exact rel_flatMap (forall₂_same.2 fun _ _ => rfl) fun param _ heq =>
    heq ▸ (param.type.meaning_mirrored h hD hρ pending.scope).2

/-! ## Bodies -/

theorem PendingFunct.Lowers.mirrored {strict : Bool} {pending : PendingFunct}
    {out out' : LoweredBody} (hout : pending.Lowers strict t out)
    (hout' : (pending.rename ρ).Lowers strict t' out') :
    out'.funct = out.funct.rename ρ ∧ Forall₂ D out.report.entries out'.report.entries := by
  obtain ⟨-, body, hbody, hrun⟩ := hout
  obtain ⟨-, body', hbody', hrun'⟩ := hout'
  cases hbody.symm.trans hbody'
  obtain ⟨_, hother, hfunct, hreport, -⟩ :=
    (lowerBody_mirrored h hD hρ strict pending body).eq_ok hrun
  cases hother.symm.trans hrun'
  exact ⟨hfunct, hreport⟩

end Mirrored

/-! ## Texts -/

def Table.declText? (t : Table) (name : Name) : Option String :=
  match t.get? name with
  | some (.struct id) => (t.struct? id).map fun entry => structText t.names name.text entry.fields
  | some (.funct id) => t.functText? id
  | none => none

namespace Table

variable {ρ : Renaming} {D : Diagnostic → Diagnostic → Prop} {t t' u u' : Table}

theorem Mirrors.functText? (h : t.Mirrors ρ D t') (id : FunctId) :
    t'.functText? (ρ.funct id) = t.functText? id := by
  have htext : ∀ (name : Name) (f : Function),
      (f.rename ρ).text t'.names name.text = f.text t.names name.text :=
    fun name f => Function.text_rename h.names name.text f
  simp only [Table.functText?, h.functName, h.funct?, bind_eq_bind, bind_map,
    Function.comp_def, htext]

theorem Mirrors.declText? (h : t.Mirrors ρ D t') (name : Name) :
    t'.declText? name = t.declText? name := by
  rw [Table.declText?, Table.declText?, h.get?]
  cases t.get? name with
  | none => rfl
  | some d =>
    cases d with
    | funct id => exact h.functText? id
    | struct id =>
      show (t'.struct? (ρ.struct id)).map _ = (t.struct? id).map _
      rw [h.struct?, Option.map_map]
      refine congrArg (Option.map · (t.struct? id)) ?_
      funext entry
      exact structText_rename h.names name.text entry.fields

/-- Tables with the names of mirrored tables mirror each other if what they say about
    structs and functions does. -/
theorem Mirrors.later (h : t.Mirrors ρ D t') (hu : t.SameNames u) (hu' : t'.SameNames u')
    (hstruct? : ∀ id, u'.struct? (ρ.struct id) = (u.struct? id).map (.rename ρ))
    (hfunct? : ∀ id, u'.funct? (ρ.funct id) = (u.funct? id).map (.rename ρ)) :
    u.Mirrors ρ D u' where
  get? name := by rw [hu'.get?, hu.get?, h.get?]
  struct? := hstruct?
  funct? := hfunct?
  functName id := by rw [hu'.name?, hu.name?, h.functName]
  names := by
    rw [hu.names, hu'.names]
    exact h.names
  undeclared name span := by
    have hsuggest : ∀ {t u : Table}, t.SameNames u → u.suggestions name = t.suggestions name :=
      fun hs => by simp only [suggestions, hs.index]
    rw [hsuggest hu, hsuggest hu']
    exact h.undeclared name span

end Table

end Semcheck
