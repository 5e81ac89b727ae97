/-
  Texts as their own symbols.

  A pool may take every text as its own symbol (`Verbatim`).  Under such names a program is
  lowered as under texts, and as in any other table that mirrors its own.  So lowering
  against a table and lowering against a mirror of it come to the same, up to the renaming:
  `lowerType_mirrored`, `lowerBody_mirrored`.
-/
import Semcheck.Proofs.Pooled.Program

namespace Semcheck

open Naming List Report

/-! ## The pool -/

/-- The pool in which every text is its own symbol. -/
structure Verbatim where

instance : Naming String Verbatim where
  empty := ⟨⟩
  intern pool text := (text, pool)
  get? _ text := some text
  text _ symbol := symbol

instance : LawfulNaming String Verbatim where
  get?_intern _ _ := rfl
  get?_kept _ h := h
  text_eq h := (Option.some.inj h).symm

namespace Pooled

variable {ρ : Renaming} {D : Diagnostic → Diagnostic → Prop} {t t' : Semcheck.Table}

/-- The table with its texts as symbols. -/
def Table.verbatim (t : Semcheck.Table) : Table String where
  index := t.index.map fun entry => (entry.1.segments, entry.2)
  structs := t.structs.map fun entry =>
    ⟨entry.name.segments, entry.fields.map fun f => ⟨f.name, f.type, f.span⟩, entry.span⟩
  functs := t.functs.map fun entry =>
    ⟨entry.name.segments, entry.funct.bindings.map Binding.name, entry.funct⟩

theorem name_verbatim (pool : Verbatim) (name : Name) : Naming.name pool name.segments = name :=
  congrArg Name.mk (map_id _)

theorem scope_verbatim (pool : Verbatim) (scope : UseScope) :
    Naming.scope pool (scope.directives.map Name.segments) = scope := by
  simp [Naming.scope, name_verbatim, Function.comp_def]

theorem Table.spell_verbatim (pool : Verbatim) (t : Semcheck.Table) :
    (Table.verbatim t).spell pool = t := by
  have hindex : (Table.verbatim t).index.map
      (fun entry => (Naming.name pool entry.1, entry.2)) = t.index := by
    simp [Table.verbatim, name_verbatim, Function.comp_def]
  have hfield : ∀ f : Semcheck.Field, Field.spell pool ⟨f.name, f.type, f.span⟩ = f := fun _ => rfl
  have hstructs : (Table.verbatim t).structs.map (StructEntry.spell pool) = t.structs := by
    simp [Table.verbatim, StructEntry.spell, name_verbatim, hfield, Function.comp_def]
  have hbindings : ∀ bs : List Binding, Naming.bindings pool (bs.map Binding.name) bs = bs :=
    fun bs => Naming.bindings_self (map_id _)
  have hfuncts : (Table.verbatim t).functs.map (FunctEntry.spell pool) = t.functs := by
    simp [Table.verbatim, FunctEntry.spell, FunctEntry.function, name_verbatim, hbindings,
      Function.comp_def]
  rw [Table.spell, hindex, hstructs, hfuncts]

theorem Table.known_verbatim (pool : Verbatim) (t : Semcheck.Table) :
    (Table.verbatim t).Known pool where
  index _ _ _ _ := rfl
  structs _ _ := ⟨fun _ _ => rfl, fun _ _ => rfl⟩
  functs entry he := by
    obtain ⟨old, -, rfl⟩ := mem_map.1 he
    exact ⟨fun _ _ => rfl, fun _ _ => rfl, length_map ..⟩

theorem Table.spells_verbatim (pool : Verbatim) (h : t.Mirrors ρ D t') :
    (Table.verbatim t).Spells pool ρ D t' :=
  ⟨known_verbatim pool t, (spell_verbatim pool t).symm ▸ h⟩

/-- The function with its texts as symbols. -/
def PendingFunct.verbatim (pending : Semcheck.PendingFunct) : PendingFunct String :=
  ⟨pending.id, pending.decl, pending.scope.directives.map Name.segments⟩

end Pooled

/-- The function under another number. -/
def PendingFunct.rename (ρ : Renaming) (pending : PendingFunct) : PendingFunct :=
  { pending with id := ρ.funct pending.id }

theorem Pooled.PendingFunct.spells_verbatim (pool : Verbatim) (ρ : Renaming)
    (pending : Semcheck.PendingFunct) :
    (PendingFunct.verbatim pending).Spells pool ρ (pending.rename ρ) :=
  ⟨rfl, rfl, fun _ _ _ _ => rfl, (scope_verbatim pool pending.scope).symm⟩

/-! ## Mirrored tables -/

variable {ρ : Renaming} {D : Diagnostic → Diagnostic → Prop} {t t' : Table}

open Pooled in
theorem lowerType_mirrored (h : t.Mirrors ρ D t') (hD : ∀ d, D d d) (hρ : ρ.Faithful)
    (scope : UseScope) (e : TypeExpr) :
    Alike (fun out out' => out'.1 = out.1.rename ρ.struct ∧
        Forall₂ D out.2.entries out'.2.entries)
      ((lowerType t scope e).run .empty) ((lowerType t' scope e).run .empty) := by
  have hknown : KnowsAll (⟨⟩ : Verbatim) (scope.directives.map Name.segments) :=
    fun _ _ _ _ => rfl
  have hself := lowerType_follows (Table.spells_verbatim ⟨⟩ (.refl (fun _ => rfl) t)) hknown
    (fun _ => rfl) Renaming.identity_faithful e ⟨⟩ .empty .empty (.refl _) .nil
  have hother := lowerType_follows (Table.spells_verbatim ⟨⟩ h) hknown hD hρ e
    ⟨⟩ .empty .empty (.refl _) .nil
  rw [scope_verbatim] at hself hother
  refine (hself.join hother).mono ?_
  rintro ⟨type, report⟩ ⟨type', report'⟩ ⟨⟨⟨type1, pool1⟩, report1⟩, ⟨htype, -, hreport⟩,
    htype', -, hreport'⟩
  obtain rfl : type = type1 := by simpa using htype
  obtain rfl : report1 = report := congrArg Report.mk (forall₂_eq_eq_eq ▸ hreport)
  exact ⟨htype', hreport'⟩

open Pooled in
theorem lowerBody_mirrored (h : t.Mirrors ρ D t') (hD : ∀ d, D d d) (hρ : ρ.Faithful)
    (strict : Bool) (pending : PendingFunct) (body : Expr) :
    Alike (fun out out' => out'.1 = out.1.rename ρ ∧
        Forall₂ D out.2.1.entries out'.2.1.entries ∧ out'.2.2 = out.2.2)
      (lowerBody strict t pending body .empty)
      (lowerBody strict t' (pending.rename ρ) body .empty) := by
  have hnil : ∀ D : Diagnostic → Diagnostic → Prop,
      Forall₂ D empty.entries empty.entries := fun _ => .nil
  have hself := lowerBody_follows (Table.spells_verbatim ⟨⟩ (.refl (fun _ => rfl) t))
    (fun _ => rfl) Renaming.identity_faithful (.refl _)
    (PendingFunct.spells_verbatim ⟨⟩ .identity pending) (hnil Eq) strict body
  have hother := lowerBody_follows (Table.spells_verbatim ⟨⟩ h) hD hρ (.refl _)
    (PendingFunct.spells_verbatim ⟨⟩ ρ pending) (hnil D) strict body
  refine (hself.join hother).mono ?_
  rintro ⟨f, report, gaveUp⟩ ⟨f', report', gaveUp'⟩ ⟨out, ⟨h1, -⟩, h2, -⟩
  obtain rfl : f = out.1.function out.2.1 := by simpa using h1.funct
  obtain rfl : out.2.2.1 = report := congrArg Report.mk (forall₂_eq_eq_eq ▸ h1.report)
  exact ⟨h2.funct, h2.report, h2.gaveUp.trans h1.gaveUp.symm⟩

end Semcheck
