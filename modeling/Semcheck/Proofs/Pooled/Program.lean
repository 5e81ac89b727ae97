/-
  Whole programs under pooled names and under texts.

  A body is lowered to the same function under both (`lowerBody_follows`).  From there on
  the declarations keep their numbers, and the two programs are equal once the symbols
  are spelled out (`lowerFiles_spells`), whatever the pool held before.
-/
import Semcheck.Proofs.Pooled.Expr
import Semcheck.Proofs.Pooled.Outline
import Semcheck.Session

namespace Semcheck

open Naming List Draft

/-- The draft of a body depends on the names of the parameters and on the numbers of
    declarations only in that it has them. -/
theorem resultAccess_rename (ρ : Renaming) (function function' : Nat) (f : Function)
    (bindings : List Binding) (span : Location) :
    resultAccess (.ofSignature function' ({ f with bindings := bindings }.rename ρ))
        (f.returnType.rename ρ.struct) span =
      ((resultAccess (.ofSignature function f) f.returnType span).1,
        { (resultAccess (.ofSignature function f) f.returnType span).2 with
          bindings := bindings }.mirror ρ function') := by
  rw [resultAccess, resultAccess, Ty.isUnit_rename]
  by_cases hunit : f.returnType.isUnit = true
  · rw [if_pos hunit, if_pos hunit]
    rfl
  · rw [if_neg hunit, if_neg hunit]
    simp [mirror, addRegister, ofSignature, new, Function.rename,
      Register.rename, OpenSegment.rename, OpenSegment.empty]

theorem bindings_resultAccess (d : Draft) (type : Ty) (span : Location) :
    (resultAccess d type span).2.bindings = d.bindings := by
  rw [resultAccess]
  split <;> rfl

namespace Pooled

variable {σ π : Type} [DecidableEq σ] [Naming σ π] {p : π} {ρ : Renaming}
  {D : Diagnostic → Diagnostic → Prop}

/-! ## Bodies -/

/-- A lowered function with its bindings spelled out. -/
def Lowered.function (pool : π) (f : Lowered σ) : Function :=
  { f.funct with bindings := Naming.bindings pool f.bindings f.funct.bindings }

omit [DecidableEq σ] in
theorem spellLocals_ofParam (pool : π) (symbols : List σ) (bindings : List Binding) :
    spellLocals pool symbols (bindings.map Local.ofParam) =
      (Naming.bindings pool symbols bindings).map Local.ofParam := by
  rw [spellLocals, Naming.bindings, zipWith_map_right, map_zipWith]
  rfl

/-- What lowering a body gives under pooled names, in a pool beyond `pool`, and under texts. -/
structure Lowered.Spells (pool : π) (ρ : Renaming) (D : Diagnostic → Diagnostic → Prop)
    (out : Lowered σ × π × Report × Bool) (out' : Function × Report × Bool) : Prop where
  pool : Within pool out.2.1
  bindings : Knows out.2.1 out.1.bindings
  count : out.1.bindings.length = out.1.funct.bindings.length
  funct : out'.1 = (out.1.function out.2.1).rename ρ
  report : List.Forall₂ D out.2.2.1.entries out'.2.1.entries
  gaveUp : out'.2.2 = out.2.2.2

theorem lowerBody_follows [LawfulNaming σ π] {table : Table σ} {table' : Semcheck.Table}
    (ht : table.Spells p ρ D table') (hD : ∀ d, D d d) (hρ : ρ.Faithful)
    {pending : PendingFunct σ} {pending' : Semcheck.PendingFunct} {pool : π}
    (hpool : Within p pool) (hpending : pending.Spells pool ρ pending') {report report' : Report}
    (hreport : Forall₂ D report.entries report'.entries) (strict : Bool) (body : Expr) :
    Alike (fun out out' => Lowered.Spells pool ρ D out out' ∧ out.1.id = pending.id)
      (lowerBody strict table pending body pool report)
      (Semcheck.lowerBody strict table' pending' body report') := by
  have hentry := (ht.grow hpool).funct pending.id
  rw [lowerBody, Semcheck.lowerBody, hpending.id]
  generalize table.funct pending.id = x at hentry ⊢
  generalize table'.funct (ρ.funct pending.id) = y at hentry ⊢
  cases hentry with
  | error e e' => exact .error _ _
  | @ok entry f' h =>
    obtain ⟨⟨hknown, hcount⟩, rfl⟩ := h
    have hresult := resultAccess_rename ρ pending.id.index (ρ.funct pending.id).index entry.funct
      (Naming.bindings pool entry.bindings entry.funct.bindings) body.span
    have hbindings := bindings_resultAccess (.ofSignature pending.id.index entry.funct)
      entry.funct.returnType body.span
    rcases hres : resultAccess (.ofSignature pending.id.index entry.funct)
      entry.funct.returnType body.span with ⟨result, draft⟩
    rw [hres] at hresult hbindings
    have hdraft : draft.bindings = entry.funct.bindings := hbindings
    have hcx : Context.Spells pool ρ D ⟨table, result, entry.funct.returnType⟩
        ⟨table', result, entry.funct.returnType.rename ρ.struct⟩ :=
      ⟨(ht.grow hpool).known, (ht.grow hpool).mirrors, rfl, rfl⟩
    have hstart : Body.Spells pool ρ D
        { pool := pool, scope := pending.scope, locals := entry.bindings,
          bindings := entry.bindings, rest := ⟨report, .empty strict, draft, .empty,
            entry.funct.bindings.map Local.ofParam, 0, false⟩ }
        ⟨report', .empty strict, { draft with
            bindings := Naming.bindings pool entry.bindings entry.funct.bindings }.mirror ρ
              (ρ.funct pending.id).index, pending'.scope,
          (Naming.bindings pool entry.bindings entry.funct.bindings).map Local.ofParam, 0, false⟩ := by
      refine ⟨.refl pool, hpending.known, hknown, hknown, by simpa using hcount,
        by simpa [hdraft] using hcount, report', (ρ.funct pending.id).index, hreport, ?_⟩
      rw [hpending.scope, ← spellLocals_ofParam]
      simp only [Body.spell, Semcheck.Body.mirror, hdraft]
      rfl
    have hrun := Lower.lowerFunction_follows hcx hD hρ body pending.decl.span hstart
    have hreturns : ((entry.function pool).rename ρ).returnType =
        entry.funct.returnType.rename ρ.struct := rfl
    have hparams : ((entry.function pool).rename ρ).bindings =
        Naming.bindings pool entry.bindings entry.funct.bindings := rfl
    have hsignature : resultAccess
        (.ofSignature (ρ.funct pending.id).index ((entry.function pool).rename ρ))
        (entry.funct.returnType.rename ρ.struct) body.span = _ := hresult
    simp only [hres, hreturns, hparams, hsignature, hpending.decl]
    generalize (.lowerFunction _ body pending.decl.span : Lower σ π _).run _ = x at hrun ⊢
    generalize (Semcheck.Lower.lowerFunction _ body pending.decl.span).run _ = y at hrun ⊢
    cases hrun with
    | error e e' => exact .error e e'
    | @ok out out' h =>
      obtain ⟨r, b⟩ := out
      obtain ⟨r', b'⟩ := out'
      obtain ⟨⟨hvalue, hspells⟩, hgrown⟩ := h
      obtain ⟨report1, function, hentries, rfl⟩ : b.spell.Mirrors ρ D b' := hspells.mirrors
      cases hvalue with
      | none =>
        refine .ok ⟨⟨hgrown, hgrown.knows hknown, hcount, ?_, hentries, rfl⟩, rfl⟩
        rw [Lowered.function, hgrown.bindings hknown]
        rfl
      | @some f f' h =>
        obtain ⟨rfl, hnames⟩ := h
        refine .ok ⟨⟨hgrown, hspells.bindings, ?_, ?_, hentries, rfl⟩, rfl⟩
        · simpa using (congrArg length hnames).symm
        · rw [Lowered.function, Naming.bindings_self hnames.symm]

/-! ## Programs -/

section Programs

variable [LawfulNaming σ π]

/-- The functions that lowered bodies come to, in a pool that knows their names. -/
structure Lowered.AllSpell (p : π) (fs : List (Lowered σ)) (fs' : List (FunctId × Function)) :
    Prop where
  known : ∀ f ∈ fs, Knows p f.bindings ∧ f.bindings.length = f.funct.bindings.length
  spell : fs' = fs.map fun f => (f.id, f.function p)

theorem lowerBodies_follows (strict : Bool) {table : Table σ} (ht : table.Known p)
    {pendings : List (PendingFunct σ)} {pendings' : List Semcheck.PendingFunct} {pool : π}
    (hpool : Within p pool)
    (hpendings : Forall₂ (PendingFunct.Spells pool .identity) pendings pendings')
    (report : Report) :
    Alike (fun out out' => Lowered.AllSpell out.2.1 out.1 out'.1 ∧ Within pool out.2.1 ∧
        out'.2 = (out.2.2.1, out.2.2.2))
      (lowerBodies strict table pendings pool report)
      (Semcheck.lowerBodies strict (table.spell p) pendings' report) := by
  induction pendings generalizing pendings' pool report with
  | nil =>
    cases hpendings
    exact .ok ⟨⟨(fun _ h => by cases h), rfl⟩, .refl _, rfl⟩
  | cons pending rest ih =>
    cases hpendings with
    | @cons _ pending' _ rest' hpending hrest =>
      rw [lowerBodies, Semcheck.lowerBodies, hpending.decl]
      cases pending.decl.body with
      | none => exact ih hpool hrest report
      | some body =>
        refine .bind (lowerBody_follows ht.spells (fun _ => rfl) Renaming.identity_faithful
          hpool hpending (forall₂_same.2 fun _ _ => rfl) strict body) ?_
        rintro ⟨f, pool1, report1, gaveUp1⟩ ⟨f', report1', gaveUp1'⟩ ⟨h, hid⟩
        obtain rfl : report1 = report1' := congrArg Report.mk (forall₂_eq_eq_eq ▸ h.report)
        obtain rfl : gaveUp1' = gaveUp1 := h.gaveUp
        refine .bind (ih (hpool.trans h.pool) (hrest.imp fun _ _ => .grow h.pool) report1) ?_
        rintro ⟨others, pool2, report2, gaveUp2⟩ ⟨others', _⟩ ⟨hothers, hpool2, heq⟩
        cases heq
        have hgrown : Within pool1 pool2 := hpool2
        refine .ok ⟨⟨forall_mem_cons.2 ⟨⟨hgrown.knows h.bindings, h.count⟩, hothers.known⟩, ?_⟩,
          h.pool.trans hgrown, rfl⟩
        have hfunct : f' = f.function pool2 := by
          rw [Lowered.function, hgrown.bindings h.bindings]
          exact h.funct.trans (congrFun Function.rename_identity _)
        have hhead : (pending'.id, f') = (f.id, f.function pool2) :=
          Prod.ext (hpending.id.trans hid.symm) hfunct
        exact congrArg₂ cons hhead hothers.spell

omit [DecidableEq σ] [LawfulNaming σ π] in
theorem setFuncts_spell {t : Table σ} (ht : t.Known p) {fs : List (Lowered σ)}
    {fs' : List (FunctId × Function)} (h : Lowered.AllSpell p fs fs') :
    Alike (fun t t' => t.Known p ∧ t' = t.spell p) (t.setFuncts fs) ((t.spell p).setFuncts fs') := by
  obtain ⟨hknown, rfl⟩ := h
  induction fs generalizing t with
  | nil => exact .ok ⟨ht, rfl⟩
  | cons f rest ih =>
    obtain ⟨⟨hf, hcount⟩, hrest⟩ := forall_mem_cons.1 hknown
    refine Alike.bind (Table.setFunct_spell ht f.id hf hcount) ?_
    rintro t1 _ ⟨ht1, rfl⟩
    exact ih ht1 hrest

/-- **A program under texts is what the program under pooled names spells**, whatever the
    pool held before. -/
theorem lowerFiles_spells (strict : Bool) (files : List SourceFile) (pool : π) :
    Alike (fun P P' => P.table.Known P.pool ∧ P' = P.spell)
      (lowerFiles strict files pool) (Semcheck.lowerFiles strict files) := by
  obtain ⟨ho, -⟩ := Outline.ofFiles_follows pool files
  have hstart : (⟨(Semcheck.Outline.ofFiles files).table, (Semcheck.Outline.ofFiles files).report,
      false⟩ : Semcheck.Program) = (⟨(.ofFiles pool files : Outline σ π).pool,
        (Outline.ofFiles pool files).table, (Outline.ofFiles pool files).report, false⟩ :
          Program σ π).spell := by
    rw [ho.table, ho.report]
    rfl
  rw [lowerFiles, Semcheck.lowerFiles]
  dsimp only
  rw [hstart]
  refine .bind (lowerSignatures_follows (P := ⟨_, _, _, false⟩) ho.known ho.structs ho.functs) ?_
  rintro ⟨_, P⟩ ⟨_, _⟩ ⟨-, hP, hpool, rfl⟩
  refine .bind (lowerBodies_follows strict hP (.refl _)
    (ho.functs.imp fun _ _ => .grow hpool) P.report) ?_
  rintro ⟨bodies, pool1, report, gaveUp⟩ ⟨bodies', _⟩ ⟨hbodies, hpool1, heq⟩
  cases heq
  have hset := setFuncts_spell (hP.within hpool1) hbodies
  rw [Table.spell_within hP hpool1] at hset
  have htable : P.spell.table = P.table.spell P.pool := rfl
  dsimp only
  rw [htable]
  generalize P.table.setFuncts bodies = x at hset ⊢
  generalize (P.table.spell P.pool).setFuncts bodies' = y at hset ⊢
  cases hset with
  | error e e' => exact .error _ _
  | ok h =>
    obtain ⟨hknown, rfl⟩ := h
    exact .ok ⟨hknown, rfl⟩

end Programs

end Pooled

end Semcheck
