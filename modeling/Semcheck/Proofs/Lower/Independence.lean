/-
  What the body of a function matters to.

  Every body is lowered against the signatures alone.  So another body for a
  function changes this function and its diagnostics, and nothing else.

  * `Rebodied`, `FilesRebodied`: programs that differ in the body of one function;
  * `Outline.Rebodied`: they declare the same, and the same is left to do for the
    other functions;
  * `lowerFiles_rebodied`: the programs have the same structs, the same signatures
    and the same functions but for this one, and their diagnostics differ in the
    block that comes from its body.
-/
import Semcheck.Proofs.Lower.Convention
import Semcheck.Proofs.Lower.Declared
import Semcheck.Proofs.Soundness

namespace Semcheck

open List Table Outline

variable {strict : Bool} {pending : PendingFunct} {body body' : Expr} {o o' : Outline}
  {out out' : LoweredBody} {id : FunctId} {g : Name}

/-! ## Texts -/

def Table.functText? (t : Table) (id : FunctId) : Option String := do
  let name ← t.name? (.funct id)
  let f ← t.funct? id
  return f.text t.names name.text

theorem Table.SameNames.names {t t' : Table} (h : t.SameNames t') : t'.names = t.names := by
  simp only [Table.names, h.name?]

theorem Table.SameNames.functText? {t t' : Table} (h : t.SameNames t')
    (hf : t'.funct? id = t.funct? id) : t'.functText? id = t.functText? id := by
  simp only [Table.functText?, h.name?, h.names, hf]

/-! ## Another body -/

def PendingFunct.withBody (pending : PendingFunct) (body : Expr) : PendingFunct :=
  { pending with decl := { pending.decl with body := some body } }

section Syntax

variable (g : Name) (body body' : Expr)

/-- The items of the namespace `space` differ in the body of the function `g`. -/
inductive Rebodied : Name → List Item → List Item → Prop where
  | here {space : Name} {decl : FunctDecl} (rest : List Item) (hname : space.child decl.name.text = g)
      (hbody : decl.body = some body) :
      Rebodied space (.funct decl :: rest) (.funct { decl with body := some body' } :: rest)
  | there {space : Name} (item : Item) {rest rest' : List Item} (h : Rebodied space rest rest') :
      Rebodied space (item :: rest) (item :: rest')
  | space {space : Name} (path : Path) {items items' : List Item} (span : Location)
      (rest : List Item) (h : Rebodied (Outline.innerSpace space path) items items') :
      Rebodied space (.space path items span :: rest) (.space path items' span :: rest)
  | useBlock {space : Name} (path : Path) {items items' : List Item} (span : Location)
      (rest : List Item) (h : Rebodied space items items') :
      Rebodied space (.useBlock path items span :: rest) (.useBlock path items' span :: rest)

/-- The files differ in the body of the function `g`. -/
inductive FilesRebodied : List SourceFile → List SourceFile → Prop where
  | here {file : SourceFile} {items' : List Item} (rest : List SourceFile)
      (h : Rebodied g body body' .root file.items items') :
      FilesRebodied (file :: rest) ({ file with items := items' } :: rest)
  | there (file : SourceFile) {rest rest' : List SourceFile} (h : FilesRebodied rest rest') :
      FilesRebodied (file :: rest) (file :: rest')

end Syntax

/-! ## Outlines -/

namespace Outline

/-- The outlines declare the same, and one function, called `g`, has another body. -/
structure Rebodied (g : Name) (body body' : Expr) (o o' : Outline) : Prop where
  table : o'.table = o.table
  report : o'.report = o.report
  structs : o'.structs = o.structs
  functs : ∃ before pending after, o.functs = before ++ pending :: after ∧
    o'.functs = before ++ pending.withBody body' :: after ∧ pending.decl.body = some body ∧
    o.table.name? (.funct pending.id) = some g

variable {g name space : Name} {body body' : Expr} {o o' : Outline} {span : Location}

theorem Rebodied.declare (h : o.Rebodied g body body' o') (d : Declared) :
    (o.declare d).Rebodied g body body' (o'.declare d) := by
  obtain ⟨htable, hreport, hstructs, before, pending, after, hfuncts, hfuncts', hbody, hname⟩ := h
  cases d with
  | struct d =>
    rw [Outline.declare, Outline.declare, htable]
    cases hget : o.table.get? d.name with
    | none =>
      rw [addStruct_of_none hget]
      exact ⟨rfl, hreport, by rw [hstructs], before, pending, after, hfuncts, hfuncts', hbody,
        (declares_struct hget d.decl.span).named hname⟩
    | some e =>
      simp only [Table.addStruct, hget]
      exact ⟨rfl, by rw [hreport], hstructs, before, pending, after, hfuncts, hfuncts', hbody, hname⟩
  | funct d =>
    rw [Outline.declare, Outline.declare, htable]
    cases hget : o.table.get? d.name with
    | none =>
      rw [addFunct_of_none hget]
      refine ⟨rfl, hreport, hstructs, before, pending,
        after ++ [⟨⟨o.table.functs.length⟩, d.decl, d.scope⟩], ?_, ?_, hbody,
        (declares_funct hget d.decl.span).named hname⟩
      · simp [hfuncts]
      · simp [hfuncts']
    | some e =>
      simp only [Table.addFunct, hget]
      exact ⟨rfl, by rw [hreport], hstructs, before, pending, after, hfuncts, hfuncts', hbody, hname⟩

/-- What differs in one body still does when the same is declared. -/
theorem Rebodied.foldl (h : o.Rebodied g body body' o') (ds : List Declared) :
    (ds.foldl Outline.declare o).Rebodied g body body' (ds.foldl Outline.declare o') := by
  induction ds generalizing o o' with
  | nil => exact h
  | cons d ds ih => exact ih (h.declare d)

/-- The function with another body is dropped if its name is taken. -/
def RebodiedOrSame (g : Name) (body body' : Expr) (o o' : Outline) : Prop :=
  o' = o ∨ o.Rebodied g body body' o'

theorem RebodiedOrSame.addItems (h : o.RebodiedOrSame g body body' o') (space : Name)
    (scope : UseScope) (items : List Item) :
    (o.addItems space scope items).RebodiedOrSame g body body' (o'.addItems space scope items) := by
  rcases h with rfl | h
  · exact .inl rfl
  · rw [addItems_eq, addItems_eq]
    exact .inr (h.foldl _)

theorem rebodied_addFunct {decl : FunctDecl} (hname : space.child decl.name.text = g)
    (hbody : decl.body = some body) (o : Outline) (scope : UseScope) :
    (o.addFunct space scope decl).RebodiedOrSame g body body'
      (o.addFunct space scope { decl with body := some body' }) := by
  rw [addFunct, addFunct]
  cases hget : o.table.get? (space.child decl.name.text) with
  | none =>
    rw [addFunct_of_none hget]
    refine .inr ⟨rfl, rfl, rfl, o.functs, ⟨_, decl, scope⟩, [], rfl, rfl, hbody, ?_⟩
    rw [(declares_funct hget decl.span).name?, if_pos rfl, hname]
  | some e =>
    simp only [Table.addFunct, hget]
    exact .inl rfl

theorem addItems_rebodied {items items' : List Item}
    (h : Semcheck.Rebodied g body body' space items items') (o : Outline) (scope : UseScope) :
    (o.addItems space scope items).RebodiedOrSame g body body' (o.addItems space scope items') := by
  induction h generalizing o scope with
  | here rest hname hbody => exact (rebodied_addFunct hname hbody o scope).addItems _ _ rest
  | there item h ih =>
    cases item with
    | use path span => exact ih o _
    | space path items span => exact ih _ scope
    | useBlock path items span => exact ih _ scope
    | struct decl => exact ih _ scope
    | funct decl => exact ih _ scope
  | space path span rest h ih => exact (ih o _).addItems _ _ rest
  | useBlock path span rest h ih => exact (ih o _).addItems _ _ rest

theorem ofFiles_rebodied {files files' : List SourceFile}
    (h : FilesRebodied g body body' files files') :
    (ofFiles files).RebodiedOrSame g body body' (ofFiles files') := by
  have hsame : ∀ (rest : List SourceFile) {o o' : Outline}, o.RebodiedOrSame g body body' o' →
      (rest.foldl (fun o file => o.addItems .root .empty file.items) o).RebodiedOrSame g body body'
        (rest.foldl (fun o file => o.addItems .root .empty file.items) o') := by
    intro rest
    induction rest with
    | nil => exact fun h => h
    | cons file rest ih => exact fun h => ih (h.addItems .root .empty file.items)
  rw [ofFiles, ofFiles]
  generalize empty = o
  induction h generalizing o with
  | here rest h => exact hsame rest (addItems_rebodied h o .empty)
  | there file h ih => exact ih _

end Outline

/-! ## Programs -/

theorem PendingFunct.Lowers.unique {table : Table} (h : pending.Lowers strict table out)
    (h' : pending.Lowers strict table out') : out = out' := by
  obtain ⟨hid, body, hbody, hrun⟩ := h
  obtain ⟨hid', body', hbody', hrun'⟩ := h'
  cases hbody.symm.trans hbody'
  have heq := hrun.symm.trans hrun'
  simp only [Except.ok.injEq, Prod.mk.injEq] at heq
  cases out
  cases out'
  simp_all

theorem forall₂_append_cons {α β : Type} {R : α → β → Prop} {xs ys : List α} {x : α} {zs : List β}
    (h : Forall₂ R (xs ++ x :: ys) zs) : ∃ zs1 z zs2, zs = zs1 ++ z :: zs2 ∧
      Forall₂ R xs zs1 ∧ R x z ∧ Forall₂ R ys zs2 := by
  induction xs generalizing zs with
  | nil =>
    cases h with
    | cons hx hys => exact ⟨[], _, _, rfl, .nil, hx, hys⟩
  | cons y xs ih =>
    cases h with
    | cons hy hrest =>
      obtain ⟨zs1, z, zs2, rfl, h1, hx, h2⟩ := ih hrest
      exact ⟨_ :: zs1, z, zs2, rfl, .cons hy h1, hx, h2⟩

theorem lowerSignature_withBody (h : pending.decl.body = some body) (body' : Expr) :
    lowerSignature (pending.withBody body') = lowerSignature pending := by
  simp only [lowerSignature, PendingFunct.withBody, h, Option.isNone_some]

/-- The pass over the signatures does not see the bodies. -/
theorem Outline.Rebodied.lowerSignatures (h : o.Rebodied g body body' o') :
    lowerSignatures o' = Semcheck.lowerSignatures o := by
  obtain ⟨-, -, hstructs, before, pending, after, hfuncts, hfuncts', hbody, -⟩ := h
  simp only [Semcheck.lowerSignatures, hstructs, hfuncts, hfuncts', forM_eq_forM,
    forM_append, forM_cons, lowerSignature_withBody hbody]

/-- The programs are the same, but for the function `g`, which has the same signature in
    both. -/
structure Program.SameBut (g : Name) (p p' : Program) : Prop where
  names : p.table.SameNames p'.table
  structs : p'.table.structs = p.table.structs
  functs : ∀ id, p.table.name? (.funct id) ≠ some g → p'.table.funct? id = p.table.funct? id
  texts : ∀ id, p.table.name? (.funct id) ≠ some g → p'.table.functText? id = p.table.functText? id
  signature : ∀ id, (p'.table.funct? id).map Function.signature =
    (p.table.funct? id).map Function.signature

theorem Program.SameBut.refl (g : Name) (p : Program) : p.SameBut g p :=
  ⟨.refl _, rfl, fun _ _ => rfl, fun _ _ => rfl, fun _ => rfl⟩

variable {p p' signed : Program}

theorem Outline.Rebodied.lowers {outs outs' : List LoweredBody} (h : o.Rebodied g body body' o')
    (hl : o.Lowers strict signed outs p) (hl' : o'.Lowers strict signed outs' p') :
    ∃ before out out' after pending, outs = before ++ out :: after ∧
      outs' = before ++ out' :: after ∧ pending ∈ o.functs ∧
      pending.withBody body' ∈ o'.functs ∧ pending.decl.body = some body ∧
      o.table.name? (.funct pending.id) = some g ∧
      pending.Lowers strict signed.table out ∧
      (pending.withBody body').Lowers strict signed.table out' := by
  obtain ⟨-, -, -, before, pending, after, hfuncts, hfuncts', hbody, hname⟩ := h
  have hbodies := hl.bodies
  have hbodies' := hl'.bodies
  rw [hfuncts, filter_append, filter_cons_of_pos (by simp [PendingFunct.hasBody, hbody])] at hbodies
  rw [hfuncts', filter_append, filter_cons_of_pos (by rfl)] at hbodies'
  obtain ⟨outs1, out, outs2, rfl, h1, hout, h2⟩ := forall₂_append_cons hbodies
  obtain ⟨outs1', out', outs2', rfl, h1', hout', h2'⟩ := forall₂_append_cons hbodies'
  have hunique : Relator.RightUnique (PendingFunct.Lowers strict signed.table) :=
    fun _ _ _ hx hy => hx.unique hy
  cases right_unique_forall₂' hunique h1 h1'
  cases right_unique_forall₂' hunique h2 h2'
  exact ⟨outs1, out, out', outs2, pending, rfl, rfl, by simp [hfuncts], by simp [hfuncts'], hbody,
    hname, hout, hout'⟩

/-- Functions other than the one with another body come out the same. -/
theorem Outline.Lowers.funct?_eq {before after : List LoweredBody}
    (hl : o.Lowers strict signed (before ++ out :: after) p)
    (hl' : o'.Lowers strict signed (before ++ out' :: after) p') (hid : out'.id = out.id)
    (hne : id ≠ out.id) : p'.table.funct? id = p.table.funct? id := by
  by_cases hmem : ∃ other ∈ before ++ after, other.id = id
  · obtain ⟨other, hother, rfl⟩ := hmem
    rw [hl.functs other (by simp at hother ⊢; tauto), hl'.functs other (by simp at hother ⊢; tauto)]
  · have hnot : ∀ last : LoweredBody, last.id = out.id →
        id ∉ (before ++ last :: after).map LoweredBody.id := by
      intro last hlast hin
      obtain ⟨other, hother, rfl⟩ := mem_map.1 hin
      rcases mem_append.1 hother with hother | hother
      · exact hmem ⟨other, by simp [hother], rfl⟩
      · rcases mem_cons.1 hother with rfl | hother
        · exact hne hlast
        · exact hmem ⟨other, by simp [hother], rfl⟩
    rw [hl.others id (hnot out rfl), hl'.others id (hnot out' hid)]

theorem lowerBody_from {gaveUp : Bool} {table : Table} {f : Function} {report : Report}
    (h : lowerBody strict table pending body .empty = .ok (f, report, gaveUp))
    (before : List Diagnostic) :
    lowerBody strict table pending body ⟨before⟩ = .ok (f, ⟨before ++ report.entries⟩, gaveUp) := by
  obtain ⟨more, hmore, hframe⟩ := lowerBody_framed h
  rw [Report.empty_append] at hmore
  rw [hmore]
  exact hframe ⟨before⟩

/-- **Bodies are independent.**  With another body for the function `g`, everything else is
    lowered as before, and the diagnostics are the same but for one block: what is reported
    while the body of `g` is lowered. -/
theorem lowerFiles_rebodied (strict : Bool) {g : Name} {body body' : Expr}
    {files files' : List SourceFile} (h : FilesRebodied g body body' files files') :
    ∃ p p' before block block' after,
      lowerFiles strict files = .ok p ∧ lowerFiles strict files' = .ok p' ∧ p.SameBut g p' ∧
      p.report.entries = before ++ block ++ after ∧
      p'.report.entries = before ++ block' ++ after ∧
      ((p' = p ∧ block = [] ∧ block' = []) ∨ ∃ signed pending f f' gaveUp gaveUp',
        (lowerSignatures (Outline.ofFiles files)).run
          ⟨(Outline.ofFiles files).table, (Outline.ofFiles files).report, false⟩ =
            .ok ((), signed) ∧
        pending ∈ (Outline.ofFiles files).functs ∧
        p.table.name? (.funct pending.id) = some g ∧
        lowerBody strict signed.table pending body ⟨before⟩ = .ok (f, ⟨before ++ block⟩, gaveUp) ∧
        lowerBody strict signed.table (pending.withBody body') body' ⟨before⟩ =
          .ok (f', ⟨before ++ block'⟩, gaveUp')) := by
  obtain ⟨signed, outs, p, hp, hsigned, hl⟩ := lowerFiles_run strict files
  rcases Outline.ofFiles_rebodied h with heq | hr
  · have hp' : lowerFiles strict files' = .ok p := by
      rw [← hp]
      simp only [lowerFiles, heq]
    exact ⟨p, p, p.report.entries, [], [], [], hp, hp', .refl g p, by simp, by simp,
      .inl ⟨rfl, rfl, rfl⟩⟩
  obtain ⟨signed', outs', p', hp', hsigned', hl'⟩ := lowerFiles_run strict files'
  rw [hr.lowerSignatures, hr.table, hr.report, hsigned] at hsigned'
  cases hsigned'
  obtain ⟨before, out, out', after, pending, rfl, rfl, hmem, hmem', hbody, hname, hout, hout'⟩ :=
    hr.lowers hl hl'
  have hnames : p.table.SameNames p'.table := hl.names.symm.trans hl'.names
  have hname' : p.table.name? (.funct pending.id) = some g := by
    rw [hl.names.name?, hl.signs.names.name?, hname]
  have hid : out'.id = out.id := hout'.id.trans hout.id.symm
  have hfuncts : ∀ id, p.table.name? (.funct id) ≠ some g →
      p'.table.funct? id = p.table.funct? id := by
    intro id hne
    refine hl.funct?_eq hl' hid fun heq => hne ?_
    rw [heq, hout.id, hname']
  refine ⟨p, p', signed.report.entries ++ before.flatMap fun out => out.report.entries,
    out.report.entries, out'.report.entries, after.flatMap fun out => out.report.entries, hp, hp',
    ⟨hnames, hl'.structs.trans hl.structs.symm, hfuncts,
      fun id hne => hnames.functText? (hfuncts id hne), fun id => ?_⟩, ?_, ?_, .inr ?_⟩
  · by_cases heq : id = out.id
    · obtain ⟨hheader, hbegins⟩ := hl.begins hmem hout
      obtain ⟨hheader', hbegins'⟩ := hl'.begins hmem' hout'
      have hsame : (pending.withBody body').signature (Outline.ofFiles files').table =
          pending.signature (Outline.ofFiles files).table := by
        rw [hr.table]
        simp only [PendingFunct.signature, PendingFunct.withBody, hbody, Option.isNone_some]
      rw [heq, hl.functs out (by simp), ← hid, hl'.functs out' (by simp), Option.map_some,
        Option.map_some, hbegins.signature_eq hheader, hbegins'.signature_eq hheader', hsame]
    · rw [hl.funct?_eq hl' hid heq]
  · rw [hl.report]
    simp
  · rw [hl'.report]
    simp
  · obtain ⟨body₁, hbody₁, hrun⟩ := hout.body
    cases hbody.symm.trans hbody₁
    obtain ⟨body₂, hbody₂, hrun'⟩ := hout'.body
    cases hbody₂
    exact ⟨signed, pending, out.funct, out'.funct, out.gaveUp, out'.gaveUp, hsigned, hmem, hname',
      lowerBody_from hrun _, lowerBody_from hrun' _⟩

/-- `namespace a { fn id(x: int) -> int { .. } }` with the given body, and
    `fn main() -> int { a::id(1) }`. -/
def Sample.calls (body : Expr) : List SourceFile := [⟨⟨0⟩, [
  .space (path "a") [.funct ⟨name "id", [⟨name "x", false, type "int", .nowhere⟩],
    some (type "int"), some body, .nowhere⟩] .nowhere,
  .funct ⟨name "main", [], some (type "int"),
    some (.call (.name ⟨[name "a", name "id"], false, .nowhere⟩ .nowhere) [.int 1 .nowhere] .nowhere),
    .nowhere⟩], .nowhere⟩]

/-- A body with an unknown name. -/
theorem sample_rebodied :
    FilesRebodied ⟨["a", "id"]⟩ (Sample.var "x") (Sample.var "y") (Sample.calls (Sample.var "x"))
      (Sample.calls (Sample.var "y")) ∧
    ∃ p p', lowerFiles true (Sample.calls (Sample.var "x")) = .ok p ∧
      lowerFiles true (Sample.calls (Sample.var "y")) = .ok p' ∧ p.SameBut ⟨["a", "id"]⟩ p' ∧
      p.report.entries.length = 0 ∧ p'.report.entries.length = 1 := by
  have h : FilesRebodied ⟨["a", "id"]⟩ (Sample.var "x") (Sample.var "y")
      (Sample.calls (Sample.var "x")) (Sample.calls (Sample.var "y")) :=
    .here [] (.space _ _ _ (.here [] rfl rfl))
  obtain ⟨p, p', -, -, -, -, hp, hp', hsame, -⟩ := lowerFiles_rebodied true h
  have hx : ∃ p ∈ (lowerFiles true (Sample.calls (Sample.var "x"))).toOption,
      p.report.entries.length = 0 := by decide +kernel
  have hy : ∃ p ∈ (lowerFiles true (Sample.calls (Sample.var "y"))).toOption,
      p.report.entries.length = 1 := by decide +kernel
  obtain ⟨q, hq, hnone⟩ := hx
  obtain ⟨q', hq', hone⟩ := hy
  cases hp.symm.trans (ok_of_toOption hq)
  cases hp'.symm.trans (ok_of_toOption hq')
  exact ⟨h, p, p', hp, hp', hsame, hnone, hone⟩

end Semcheck
