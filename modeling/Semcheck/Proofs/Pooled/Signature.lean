/-
  Types and signatures under pooled names and under texts.

  A step under pooled names follows one under texts (`ReportM.Follows`) if it comes to
  the same, up to a renaming of the declarations, in a pool that has only grown.  The
  steps that change the declarations keep their numbers, so the program under texts stays
  what the other one spells (`ProgramM.FollowsAt`): `lowerSignatures_follows`.
-/
import Semcheck.Pooled.Signature
import Semcheck.Proofs.Decl.Rename
import Semcheck.Proofs.Lower.Signature
import Semcheck.Proofs.Pooled.Table

namespace Semcheck

namespace Pooled

open Naming List Pooled.Table Draft

variable {σ π : Type} [Naming σ π] {p : π} {D : Diagnostic → Diagnostic → Prop} {α β γ δ : Type}
  {R : α → β → Prop} {R' : γ → δ → Prop} {ρ : Renaming} {t' : Semcheck.Table}

/-! ## Types -/

/-- In a pool beyond `p` and with related reports, both steps fail, or both come to
    related values and reports. -/
def ReportM.Follows (p : π) (D : Diagnostic → Diagnostic → Prop) (R : α → β → Prop)
    (x : ReportM π α) (y : Semcheck.ReportM β) : Prop :=
  ∀ pool report report', Within p pool → List.Forall₂ D report.entries report'.entries →
    Alike (fun out out' => R out.1.1 out'.1 ∧ Within pool out.1.2 ∧
        List.Forall₂ D out.2.entries out'.2.entries)
      ((x.run pool).run report) (y.run report')

namespace ReportM.Follows

theorem pure {a : α} {b : β} (h : R a b) : Follows p D R (pure a) (pure b) :=
  fun pool _ _ _ hreport => .ok ⟨h, .refl pool, hreport⟩

theorem bind {x : ReportM π α} {y : Semcheck.ReportM β} {k : α → ReportM π γ}
    {k' : β → Semcheck.ReportM δ} (hx : Follows p D R x y)
    (hk : ∀ a b, R a b → Follows p D R' (k a) (k' b)) : Follows p D R' (x >>= k) (y >>= k') := by
  intro pool report report' hpool hreport
  refine .bind (hx pool report report' hpool hreport) ?_
  rintro ⟨⟨a, pool1⟩, report1⟩ ⟨b, report1'⟩ ⟨hab, hpool1, hreport1⟩
  refine (hk a b hab pool1 report1 report1' (hpool.trans hpool1) hreport1).mono ?_
  rintro ⟨⟨c, pool2⟩, report2⟩ ⟨d, report2'⟩ ⟨hd, hpool2, hreport2⟩
  exact ⟨hd, hpool1.trans hpool2, hreport2⟩

theorem lift {x : Except Fault α} {y : Except Fault β} (h : Alike R x y) :
    Follows p D R (liftM x) (liftM y) := by
  intro pool report report' hpool hreport
  cases h with
  | ok h => exact .ok ⟨h, .refl pool, hreport⟩
  | error e e' => exact .error e e'

end ReportM.Follows

/-- The table has its symbols in the pool, and under their texts it is the same up to
    a renaming. -/
structure Table.Spells (p : π) (ρ : Renaming) (D : Diagnostic → Diagnostic → Prop) (t : Table σ)
    (t' : Semcheck.Table) : Prop where
  known : t.Known p
  mirrors : (t.spell p).Mirrors ρ D t'

theorem Table.Spells.fields {t : Table σ} (h : t.Spells p ρ D t') (id : StructId) :
    Alike (fun fs fs' => (∀ f ∈ fs, Naming.Known p f.name) ∧
        fs' = (fs.map (Field.spell p)).map (Field.rename ρ))
      (t.fields id) (t'.fields (ρ.struct id)) := by
  have hfields := h.mirrors.fields id
  rw [fields_spell] at hfields
  refine hfields.of_map.keep.mono ?_
  rintro fs fs' ⟨hspelled, hfs⟩
  obtain ⟨entry, hentry, rfl⟩ := fields_eq_ok.1 hfs
  exact ⟨(h.known.structs entry (mem_of_getElem? hentry)).2, hspelled⟩

theorem Table.Spells.funct {t : Table σ} (h : t.Spells p ρ D t') (id : FunctId) :
    Alike (fun entry f' => (Knows p entry.bindings ∧
        entry.bindings.length = entry.funct.bindings.length) ∧ f' = (entry.function p).rename ρ)
      (t.funct id) (t'.funct (ρ.funct id)) := by
  have hfunct := h.mirrors.funct id
  rw [funct_spell] at hfunct
  refine hfunct.of_map.keep.mono ?_
  rintro entry f' ⟨hspelled, hf⟩
  exact ⟨(h.known.functs entry (mem_of_getElem? (funct_eq_ok.1 hf))).2, hspelled⟩

theorem Table.Spells.grow [LawfulNaming σ π] {t : Table σ} (h : t.Spells p ρ D t') {q : π}
    (hq : Within p q) : t.Spells q ρ D t' where
  known := h.known.within hq
  mirrors := by
    rw [spell_within h.known hq]
    exact h.mirrors

section Types

variable [DecidableEq σ] {ρ : Renaming} {table : Table σ}
  {table' : Semcheck.Table} {scope : List (List σ)}

variable [LawfulNaming σ π] (ht : table.Spells p ρ D table') (hscope : KnowsAll p scope)
  (hD : ∀ d, D d d) (hρ : ρ.Faithful)
include ht hscope hD hρ

theorem resolvePath_follows (path : Path) :
    ReportM.Follows p D (Found D ρ.struct) (resolvePath table scope path)
      (liftM (table'.resolveType path.toName path.absolute (Naming.scope p scope) path.span)) := by
  intro pool report report' hpool hreport
  have hgrown := within_internAll pool path.texts
  have hp := hpool.trans hgrown
  have hresolve : table.resolveType (internAll pool path.texts).2 (internAll pool path.texts).1
      path.absolute scope path.span =
        (table.spell p).resolveType path.toName path.absolute (Naming.scope p scope) path.span := by
    rw [resolveType_spell (ht.known.within hp) (knows_internAll _ _) _ (hp.knowsAll hscope),
      name_internAll, spell_within ht.known hp, hp.scope hscope]
    rfl
  have hfound := Table.resolveType_mirrors ht.mirrors hD hρ path.toName path.absolute
    (Naming.scope p scope) path.span
  rw [← hresolve] at hfound
  refine (ReportM.Follows.lift hfound (internAll pool path.texts).2 report report' hp hreport).mono ?_
  rintro out out' ⟨htype, hpool1, hreport1⟩
  exact ⟨htype, hgrown.trans hpool1, hreport1⟩

set_option linter.unusedSectionVars false in
mutual

theorem lowerType_follows (type : TypeExpr) :
    ReportM.Follows p D (fun t t' => t' = t.rename ρ.struct) (lowerType table scope type)
      (Semcheck.lowerType table' (Naming.scope p scope) type) := by
  cases type with
  | path path span =>
    rw [lowerType, Semcheck.lowerType]
    refine (resolvePath_follows ht hscope hD hρ path).bind ?_
    rintro _ _ (id | he)
    · exact .pure (by simp)
    · intro pool report report' _ hreport
      exact .ok ⟨by simp, .refl pool, rel_append hreport (.cons he .nil)⟩
  | pointer mutable lifetime pointee span =>
    rw [lowerType, Semcheck.lowerType]
    refine (lowerType_follows pointee).bind ?_
    rintro t _ rfl
    exact .pure (by simp)
  | tuple elements span =>
    rw [lowerType, Semcheck.lowerType]
    refine (lowerTypes_follows elements).bind ?_
    rintro ts _ rfl
    exact .pure (by simp)
  | funct params returns span =>
    cases returns with
    | none =>
      rw [lowerType, Semcheck.lowerType]
      refine (lowerTypes_follows params).bind ?_
      rintro ts _ rfl
      exact .pure (by simp)
    | some returns =>
      rw [lowerType, Semcheck.lowerType]
      refine (lowerTypes_follows params).bind ?_
      rintro ts _ rfl
      refine (lowerType_follows returns).bind ?_
      rintro t _ rfl
      exact .pure (by simp)

theorem lowerTypes_follows (types : List TypeExpr) :
    ReportM.Follows p D (fun ts ts' => ts' = ts.map (Ty.rename ρ.struct))
      (lowerTypes table scope types)
      (Semcheck.lowerTypes table' (Naming.scope p scope) types) := by
  cases types with
  | nil =>
    rw [lowerTypes, Semcheck.lowerTypes]
    exact .pure rfl
  | cons type rest =>
    rw [lowerTypes, Semcheck.lowerTypes]
    refine (lowerType_follows type).bind ?_
    rintro t _ rfl
    refine (lowerTypes_follows rest).bind ?_
    rintro ts _ rfl
    exact .pure rfl

end

end Types

/-! ## Declarations -/

section Tables

theorem map_modify {α β : Type} (g : α → β) (f : α → α) (f' : β → β)
    (h : ∀ x, g (f x) = f' (g x)) (xs : List α) (i : Nat) :
    (xs.modify i f).map g = (xs.map g).modify i f' := by
  refine ext_getElem? fun j => ?_
  rw [getElem?_map, getElem?_modify, getElem?_modify, getElem?_map]
  cases xs[j]? with
  | none => rfl
  | some x => by_cases hij : i = j <;> simp [hij, h]

theorem Table.addField_spell {t : Table σ} (ht : t.Known p) (id : StructId) (field : Field σ)
    (hf : Naming.Known p field.name) :
    Alike (fun t t' => t.Known p ∧ t' = t.spell p) (t.addField id field)
      ((t.spell p).addField id (field.spell p)) := by
  have hlength : (t.spell p).structs.length = t.structs.length := length_map ..
  rw [addField, Semcheck.Table.addField, hlength]
  by_cases hid : id.index < t.structs.length
  · rw [if_pos hid, if_pos hid]
    refine .ok ⟨⟨ht.index, fun entry he => ?_, ht.functs⟩, ?_⟩
    · rcases mem_modify he with he | ⟨old, hold, rfl⟩
      · exact ht.structs entry he
      · refine ⟨(ht.structs old hold).1, fun f hf' => ?_⟩
        rcases mem_append.1 hf' with hf' | hf'
        · exact (ht.structs old hold).2 f hf'
        · exact mem_singleton.1 hf' ▸ hf
    · have hstructs := map_modify (StructEntry.spell p)
        (fun entry => { entry with fields := entry.fields ++ [field] })
        (fun entry => { entry with fields := entry.fields ++ [field.spell p] })
        (fun entry => by simp [StructEntry.spell]) t.structs id.index
      simp only [spell, hstructs]
  · rw [if_neg hid, if_neg hid]
    exact .error _ _

theorem Table.setFunct_spell {t : Table σ} (ht : t.Known p) (id : FunctId) {bindings : List σ}
    (hb : Knows p bindings) {f : Function} (hcount : bindings.length = f.bindings.length) :
    Alike (fun t t' => t.Known p ∧ t' = t.spell p) (t.setFunct id bindings f)
      ((t.spell p).setFunct id { f with bindings := Naming.bindings p bindings f.bindings }) := by
  have hlength : (t.spell p).functs.length = t.functs.length := length_map ..
  rw [setFunct, Semcheck.Table.setFunct, hlength]
  by_cases hid : id.index < t.functs.length
  · rw [if_pos hid, if_pos hid]
    refine .ok ⟨⟨ht.index, ht.structs, fun entry he => ?_⟩, ?_⟩
    · rcases mem_modify he with he | ⟨old, hold, rfl⟩
      · exact ht.functs entry he
      · exact ⟨(ht.functs old hold).1, hb, hcount⟩
    · have hfuncts := map_modify (FunctEntry.spell p)
        (fun entry => { entry with bindings := bindings, funct := f })
        (fun entry => { entry with
          funct := { f with bindings := Naming.bindings p bindings f.bindings } })
        (fun entry => rfl) t.functs id.index
      simp only [spell, hfuncts]
  · rw [if_neg hid, if_neg hid]
    exact .error _ _

end Tables

section Programs

/-- Started with a program and with what it spells, both steps fail, or both come to
    related values, to a program whose symbols are known, and to what that spells. -/
def ProgramM.FollowsAt (P : Program σ π) (R : π → α → β → Prop) (x : ProgramM σ π α)
    (y : Semcheck.ProgramM β) : Prop :=
  Alike (fun out out' => R out.2.pool out.1 out'.1 ∧ out.2.table.Known out.2.pool ∧
      Within P.pool out.2.pool ∧ out'.2 = out.2.spell)
    (x.run P) (y.run P.spell)

namespace ProgramM

variable {P : Program σ π} {R : π → α → β → Prop} {R' : π → γ → δ → Prop}

theorem FollowsAt.pure {a : α} {b : β} (hP : P.table.Known P.pool) (h : R P.pool a b) :
    FollowsAt P R (pure a) (pure b) :=
  .ok ⟨h, hP, .refl _, rfl⟩

theorem FollowsAt.bind {x : ProgramM σ π α} {y : Semcheck.ProgramM β} {k : α → ProgramM σ π γ}
    {k' : β → Semcheck.ProgramM δ} (h : FollowsAt P R x y)
    (hk : ∀ P1 : Program σ π, P1.table.Known P1.pool → Within P.pool P1.pool →
      ∀ a b, R P1.pool a b → FollowsAt P1 R' (k a) (k' b)) :
    FollowsAt P R' (x >>= k) (y >>= k') := by
  refine Alike.bind h ?_
  rintro ⟨a, P1⟩ ⟨b, _⟩ ⟨hab, hP1, hpool, rfl⟩
  refine (hk P1 hP1 hpool a b hab).mono ?_
  rintro ⟨c, P2⟩ ⟨d, _⟩ ⟨hcd, hP2, hpool2, rfl⟩
  exact ⟨hcd, hP2, hpool.trans hpool2, rfl⟩

theorem FollowsAt.look {k : Program σ π → ProgramM σ π α}
    {k' : Semcheck.Program → Semcheck.ProgramM β} (h : FollowsAt P R (k P) (k' P.spell)) :
    FollowsAt P R (get >>= k) (get >>= k') :=
  h

theorem orFault_follows {Q : α → β → Prop} (hP : P.table.Known P.pool) {x : Except Fault α}
    {y : Except Fault β} (h : Alike Q x y) : FollowsAt P (fun _ => Q) (orFault x) (.orFault y) := by
  cases h with
  | ok h => exact .pure hP h
  | error e e' => exact .error _ _

theorem orDefect_follows (hP : P.table.Known P.pool) (x : Except Defect α) :
    FollowsAt P (fun _ a b => b = a ∧ x = .ok a) (orDefect x) (.orDefect x) := by
  cases x with
  | ok a => exact .pure hP ⟨rfl, rfl⟩
  | error e => exact .error _ _

/-- Steps for one thing after the other, all of them related in pools that grow. -/
theorem forM_follows {Q : π → α → β → Prop}
    (hgrow : ∀ {p q : π} {a : α} {b : β}, Within p q → Q p a b → Q q a b)
    {f : α → ProgramM σ π Unit} {f' : β → Semcheck.ProgramM Unit}
    (hf : ∀ (P : Program σ π) a b, P.table.Known P.pool → Q P.pool a b →
      FollowsAt P (fun _ _ _ => True) (f a) (f' b)) {xs : List α} {ys : List β}
    (h : Forall₂ (Q P.pool) xs ys) (hP : P.table.Known P.pool) :
    FollowsAt P (fun _ _ _ => True) (xs.forM f) (ys.forM f') := by
  induction xs generalizing ys P with
  | nil =>
    cases h
    exact .pure hP trivial
  | cons x xs ih =>
    cases h with
    | cons hxy hrest =>
      exact (hf P x _ hP hxy).bind fun P1 hP1 hpool _ _ _ =>
        ih (hrest.imp fun _ _ => hgrow hpool) hP1

theorem updating_follows {change : Table σ → Except Fault (Table σ)}
    {change' : Semcheck.Table → Except Fault Semcheck.Table}
    (h : Alike (fun t t' => t.Known P.pool ∧ t' = t.spell P.pool) (change P.table)
      (change' P.spell.table)) :
    FollowsAt P (fun _ _ _ => True) (updating change) (.updating change') := by
  refine .look ?_
  generalize change P.table = x at h ⊢
  generalize change' P.spell.table = y at h ⊢
  cases h with
  | error e e' => exact .error _ _
  | ok h =>
    obtain ⟨hknown, rfl⟩ := h
    exact .ok ⟨trivial, hknown, .refl _, rfl⟩

variable [LawfulNaming σ π]

theorem reporting_follows {Q : α → β → Prop} (hP : P.table.Known P.pool)
    {step : Table σ → ReportM π α} {step' : Semcheck.Table → Semcheck.ReportM β}
    (h : ReportM.Follows P.pool Eq Q (step P.table) (step' (P.table.spell P.pool))) :
    FollowsAt P (fun _ => Q) (reporting step) (.reporting step') := by
  have hrun : Alike _ (((step P.table).run P.pool).run P.report)
      ((step' P.spell.table).run P.spell.report) :=
    h P.pool P.report P.report (.refl _) (forall₂_same.2 fun _ _ => rfl)
  refine .look ?_
  generalize ((step P.table).run P.pool).run P.report = x at hrun ⊢
  generalize (step' P.spell.table).run P.spell.report = y at hrun ⊢
  cases hrun with
  | error e e' => exact .error _ _
  | @ok out out' h =>
    obtain ⟨⟨a, pool⟩, report⟩ := out
    obtain ⟨a', report'⟩ := out'
    obtain ⟨hvalue, hpool, hreport⟩ := h
    have heq : report = report' := congrArg Report.mk (forall₂_eq_eq_eq ▸ hreport)
    subst heq
    refine .ok ⟨hvalue, hP.within hpool, hpool, ?_⟩
    simp only [Program.spell, spell_within hP hpool]

theorem intern_follows (hP : P.table.Known P.pool) {text : String} {k : σ → ProgramM σ π γ}
    {y : Semcheck.ProgramM δ}
    (hk : ∀ q symbol, Within P.pool q → get? q text = some symbol →
      FollowsAt { P with pool := q } R' (k symbol) y) : FollowsAt P R' (intern text >>= k) y := by
  have hgrown := within_intern P.pool text
  have hspell : ({ P with pool := (Naming.intern P.pool text).2 } : Program σ π).spell = P.spell := by
    simp only [Program.spell, spell_within hP hgrown]
  have hrun := hk _ _ hgrown (LawfulNaming.get?_intern _ _)
  rw [FollowsAt, hspell] at hrun
  refine .mono hrun ?_
  rintro out out' ⟨hvalue, hknown, hpool, heq⟩
  exact ⟨hvalue, hknown, hgrown.trans hpool, heq⟩

end ProgramM

open Semcheck.Pooled.ProgramM

/-- The same struct is to be resolved under pooled names and under texts. -/
structure PendingStruct.Spells (p : π) (s : PendingStruct σ) (s' : Semcheck.PendingStruct) :
    Prop where
  id : s'.id = s.id
  decl : s'.decl = s.decl
  known : KnowsAll p s.scope
  scope : s'.scope = Naming.scope p s.scope

/-- The same function is to be lowered under pooled names and under texts. -/
structure PendingFunct.Spells (p : π) (ρ : Renaming) (f : PendingFunct σ)
    (f' : Semcheck.PendingFunct) : Prop where
  id : f'.id = ρ.funct f.id
  decl : f'.decl = f.decl
  known : KnowsAll p f.scope
  scope : f'.scope = Naming.scope p f.scope

theorem PendingStruct.Spells.grow [LawfulNaming σ π] {s : PendingStruct σ}
    {s' : Semcheck.PendingStruct} {q : π} (hq : Within p q) (h : s.Spells p s') : s.Spells q s' :=
  ⟨h.id, h.decl, hq.knowsAll h.known, h.scope.trans (hq.scope h.known).symm⟩

theorem PendingFunct.Spells.grow [LawfulNaming σ π] {ρ : Renaming} {f : PendingFunct σ}
    {f' : Semcheck.PendingFunct} {q : π} (hq : Within p q) (h : f.Spells p ρ f') : f.Spells q ρ f' :=
  ⟨h.id, h.decl, hq.knowsAll h.known, h.scope.trans (hq.scope h.known).symm⟩

theorem Table.Known.spells {t : Table σ} (ht : t.Known p) : t.Spells p .identity Eq (t.spell p) :=
  ⟨ht, .refl (fun _ => rfl) _⟩

section Passes

variable [DecidableEq σ] [LawfulNaming σ π] {P : Program σ π} (hP : P.table.Known P.pool)
  {scope : List (List σ)} (hscope : KnowsAll P.pool scope)

include hP

include hscope

theorem reportType_follows (type : TypeExpr) :
    FollowsAt P (fun _ => Eq) (reporting fun table => lowerType table scope type)
      (.reporting fun table =>
        Semcheck.lowerType table (Naming.scope P.pool scope) type) := by
  have htype := lowerType_follows hP.spells hscope (fun _ => rfl) Renaming.identity_faithful type
  refine reporting_follows hP fun pool report report' hpool hreport => ?_
  refine (htype pool report report' hpool hreport).mono fun out out' h => ⟨?_, h.2⟩
  rw [h.1, Ty.rename_identity]
  rfl

theorem reportReturns_follows (returns : Option TypeExpr) :
    FollowsAt P (fun _ => Eq) (reporting fun table => lowerReturns table scope returns)
      (.reporting fun table =>
        Semcheck.lowerReturns table (Naming.scope P.pool scope) returns) := by
  cases returns with
  | none => exact reporting_follows hP (.pure rfl)
  | some type => exact reportType_follows hP hscope type

theorem lowerField_follows (id : StructId) (field : FieldDecl) :
    FollowsAt P (fun _ _ _ => True) (lowerField id scope field)
      (Semcheck.lowerField id (Naming.scope P.pool scope) field) := by
  refine (reportType_follows hP hscope field.type).bind fun P1 hP1 hpool1 type _ heq => ?_
  subst heq
  refine intern_follows hP1 fun q symbol hq hsymbol => .look ?_
  have hP2 := hP1.within hq
  refine (orFault_follows (P := { P1 with pool := q }) hP2 (hP2.spells.fields id)).bind
    fun P3 hP3 hpool3 fields _ hknown => ?_
  obtain ⟨hknown, rfl⟩ := hknown
  have hfind : Semcheck.findField field.name.text
      ((fields.map (Field.spell q)).map (Field.rename .identity)) =
        (findField symbol fields).map fun found =>
          (found.1, (found.2.spell q).rename .identity) := by
    rw [findField_rename, findField_spell hknown (.refl q), hsymbol, Option.map_map]
    rfl
  rw [hfind]
  cases findField symbol fields with
  | some found => exact .ok ⟨trivial, hP3, .refl _, rfl⟩
  | none =>
    have hsymbol3 := hpool3 _ _ hsymbol
    have hadd := addField_spell hP3 id ⟨symbol, type, field.span⟩ (known_of_get? hsymbol3)
    rw [Field.spell, LawfulNaming.text_eq hsymbol3] at hadd
    exact updating_follows hadd

omit [Naming σ π] [DecidableEq σ] [LawfulNaming σ π] hP hscope in
theorem bindings_addParam {d : Draft} {name : String} {type : Ty} {mutable : Bool}
    {span : Location} {added : RegisterId × Draft}
    (h : d.addParam name type mutable span = .ok added) :
    added.2.bindings.map Binding.name = d.bindings.map Binding.name ++ [name] := by
  rw [addParam] at h
  split at h
  · cases h
  · cases h
    simp [Draft.bind]

theorem lowerParams_follows (params : List ParamDecl) (names : List σ) (draft : Draft)
    (hnames : Knows P.pool names)
    (htexts : names.map (text P.pool) = draft.bindings.map Binding.name) :
    FollowsAt P (fun q out draft' => draft' = out.2 ∧ Knows q out.1 ∧
        out.1.map (text q) = out.2.bindings.map Binding.name)
      (lowerParams scope params names draft)
      (Semcheck.lowerParams (Naming.scope P.pool scope) params draft) := by
  induction params generalizing P names draft with
  | nil => exact .pure hP ⟨rfl, hnames, htexts⟩
  | cons param rest ih =>
    refine (reportType_follows hP hscope param.type).bind fun P1 hP1 hpool1 type _ heq => ?_
    subst heq
    refine intern_follows hP1 fun q symbol hq hsymbol => ?_
    have hP2 := hP1.within hq
    refine (orDefect_follows (P := { P1 with pool := q }) hP2 _).bind
      fun P3 hP3 hpool3 added _ hadded => ?_
    obtain ⟨rfl, hadded⟩ := hadded
    have hgrown : Within P.pool P3.pool := hpool1.trans (hq.trans hpool3)
    have hsymbol3 := hpool3 _ _ hsymbol
    rw [← hgrown.scope hscope]
    refine .mono (ih hP3 (hgrown.knowsAll hscope) _ _ ((hgrown.knows hnames).append ?_) ?_)
      fun _ _ h => h
    · exact fun s hs => mem_singleton.1 hs ▸ known_of_get? hsymbol3
    · have hsymbolText : [symbol].map (text P3.pool) = [param.name.text] := by
        rw [map_singleton, LawfulNaming.text_eq hsymbol3]
      rw [map_append, hgrown.map_text hnames, htexts, hsymbolText, bindings_addParam hadded]

end Passes

/-- The names of the bindings are those of the symbols. -/
theorem lowerSignature_follows [DecidableEq σ] [LawfulNaming σ π] {P : Program σ π}
    (hP : P.table.Known P.pool) {pending : PendingFunct σ} {pending' : Semcheck.PendingFunct}
    (h : pending.Spells P.pool .identity pending') :
    FollowsAt P (fun _ _ _ => True) (lowerSignature pending) (Semcheck.lowerSignature pending') := by
  obtain ⟨hid, hdecl, hknown, hscope⟩ := h
  rw [lowerSignature, Semcheck.lowerSignature, hid, hdecl, hscope]
  refine (lowerParams_follows hP hknown pending.decl.params [] (.new pending.id.index)
    (fun _ h => by cases h) rfl).bind
    fun P1 hP1 hpool1 out _ h => ?_
  obtain ⟨rfl, hnames, htexts⟩ := h
  rw [← hpool1.scope hknown]
  refine (reportReturns_follows hP1 (hpool1.knowsAll hknown) pending.decl.returns).bind
    fun P2 hP2 hpool2 returns _ heq => ?_
  subst heq
  have hcount : out.1.length = out.2.bindings.length := by
    simpa using congrArg length htexts
  have hself : Naming.bindings P2.pool out.1 out.2.bindings = out.2.bindings :=
    Naming.bindings_self ((hpool2.map_text hnames).trans htexts)
  have hset := setFunct_spell hP2 pending.id (hpool2.knows hnames) (f :=
    { out.2.toSignature returns pending.decl.span with external := pending.decl.body.isNone }) hcount
  simp only [toSignature, hself] at hset
  exact updating_follows hset

theorem lowerSignatures_follows [DecidableEq σ] [LawfulNaming σ π] {P : Program σ π}
    (hP : P.table.Known P.pool) {o : Outline σ π} {o' : Semcheck.Outline}
    (hstructs : Forall₂ (PendingStruct.Spells P.pool) o.structs o'.structs)
    (hfuncts : Forall₂ (PendingFunct.Spells P.pool .identity) o.functs o'.functs) :
    FollowsAt P (fun _ _ _ => True) (lowerSignatures o) (Semcheck.lowerSignatures o') := by
  refine (forM_follows (Q := PendingStruct.Spells) (.grow ·) (fun P s s' hP h => ?_) hstructs hP).bind
    fun P1 hP1 hpool _ _ _ => ?_
  · obtain ⟨hid, hdecl, hknown, hscope⟩ := h
    rw [lowerStruct, Semcheck.lowerStruct, hid, hdecl, hscope]
    refine forM_follows (Q := fun p field field' => field' = field ∧ KnowsAll p s.scope ∧
      Naming.scope P.pool s.scope = Naming.scope p s.scope) ?_ ?_ ?_ hP
    · rintro p q field _ hq ⟨rfl, hknown, hscope⟩
      exact ⟨rfl, hq.knowsAll hknown, hscope.trans (hq.scope hknown).symm⟩
    · rintro P1 field _ hP1 ⟨rfl, hknown, hscope⟩
      rw [hscope]
      exact lowerField_follows hP1 hknown s.id _
    · exact forall₂_same.2 fun _ _ => ⟨rfl, hknown, rfl⟩
  · exact forM_follows (Q := fun p => PendingFunct.Spells p .identity)
      (.grow ·) (fun _ _ _ hP h => lowerSignature_follows hP h)
      (hfuncts.imp fun _ _ => .grow hpool) hP1

end Programs

end Pooled

end Semcheck
