/-
  The declared names, under pooled names and under texts.

  The outline of a program under texts is what its outline under pooled names spells
  (`Outline.ofFiles_follows`), by induction on the items.
-/
import Semcheck.Proofs.Pooled.Signature

namespace Semcheck

open List LawfulNaming Outline

namespace Pooled

open Naming

variable {σ π : Type} [Naming σ π] {p : π}

theorem Table.Known.addStruct {t : Table σ} (ht : t.Known p) {n : List σ} (hn : Knows p n)
    (span : Location) : (t.addStruct n span).2.Known p where
  index := forall_mem_append.2 ⟨ht.index, forall_mem_singleton.2 hn⟩
  structs := forall_mem_append.2 ⟨ht.structs, forall_mem_singleton.2 ⟨hn, fun _ hf => by cases hf⟩⟩
  functs := ht.functs

theorem Table.Known.addFunct {t : Table σ} (ht : t.Known p) {n : List σ} (hn : Knows p n)
    (span : Location) : (t.addFunct n span).2.Known p where
  index := forall_mem_append.2 ⟨ht.index, forall_mem_singleton.2 hn⟩
  structs := ht.structs
  functs := forall_mem_append.2
    ⟨ht.functs, forall_mem_singleton.2 ⟨hn, (fun _ hs => by cases hs), rfl⟩⟩

section Outlines

variable [LawfulNaming σ π] {o : Outline σ π} {o' : Semcheck.Outline}

/-- The outline has its symbols in its pool, and the other is what it spells. -/
structure Outline.Spells (o : Outline σ π) (o' : Semcheck.Outline) : Prop where
  known : o.table.Known o.pool
  table : o'.table = o.table.spell o.pool
  report : o'.report = o.report
  structs : List.Forall₂ (PendingStruct.Spells o.pool) o.structs o'.structs
  functs : List.Forall₂ (PendingFunct.Spells o.pool .identity) o.functs o'.functs

theorem Outline.Spells.grow (h : o.Spells o') {q : π} (hq : Within o.pool q) :
    ({ o with pool := q } : Outline σ π).Spells o' where
  known := h.known.within hq
  table := h.table.trans (Table.spell_within h.known hq).symm
  report := h.report
  structs := h.structs.imp fun _ _ => .grow hq
  functs := h.functs.imp fun _ _ => .grow hq

omit [LawfulNaming σ π] in
theorem name_child (p : π) (space : List σ) (symbol : σ) :
    name p (space ++ [symbol]) = (name p space).child (text p symbol) := by
  simp [name, Name.child]

namespace Outline.Spells

theorem internPath (h : o.Spells o') (path : Path) :
    (o.internPath path).2.Spells o' ∧ Within o.pool (o.internPath path).2.pool ∧
      Knows (o.internPath path).2.pool (o.internPath path).1 ∧
      name (o.internPath path).2.pool (o.internPath path).1 = path.toName :=
  ⟨h.grow (within_internAll _ _), within_internAll _ _, knows_internAll _ _, name_internAll _ _⟩

variable [DecidableEq σ] {space : List σ} {scope : List (List σ)}

/-- The name of a declaration is found where its text is found. -/
theorem internName (h : o.Spells o') (hspace : Knows o.pool space) (hscope : KnowsAll o.pool scope)
    (word : Ident) : ∃ n o1, o.internName space word = (n, o1) ∧ o1.Spells o' ∧
      Within o.pool o1.pool ∧ Knows o1.pool n ∧
      (name o.pool space).child word.text = name o1.pool n ∧ KnowsAll o1.pool scope ∧
      Naming.scope o.pool scope = Naming.scope o1.pool scope ∧
      o'.table.get? (name o1.pool n) = o1.table.get? n := by
  have hgrown := within_intern o.pool word.text
  have hsymbol := get?_intern o.pool word.text
  have hn : Knows (intern o.pool word.text).2 (space ++ [(intern o.pool word.text).1]) :=
    (hgrown.knows hspace).append fun s hs => mem_singleton.1 hs ▸ known_of_get? hsymbol
  refine ⟨_, _, rfl, h.grow hgrown, hgrown, hn, ?_, hgrown.knowsAll hscope,
    (hgrown.scope hscope).symm, ?_⟩
  · rw [name_child]
    exact congrArg₂ Name.child (hgrown.name hspace).symm (text_eq hsymbol).symm
  · exact (h.grow hgrown).table ▸ Table.get?_spell (h.known.within hgrown) hn

theorem addStruct (h : o.Spells o') (hspace : Knows o.pool space) (hscope : KnowsAll o.pool scope)
    (decl : StructDecl) :
    (o.addStruct space scope decl).Spells
        (o'.addStruct (name o.pool space) (Naming.scope o.pool scope) decl) ∧
      Within o.pool (o.addStruct space scope decl).pool := by
  obtain ⟨n, o1, hn, ho, hgrown, hknown, hname, hscope, hspell, hget⟩ :=
    h.internName hspace hscope decl.name
  rw [Outline.addStruct, Semcheck.Outline.addStruct, Semcheck.Table.addStruct, hn, hname, hspell, hget]
  cases hfound : o1.table.get? n with
  | some d =>
    simp only [hfound]
    refine ⟨⟨ho.known, ho.table, ?_, ho.structs, ho.functs⟩, hgrown⟩
    simp only [duplicate, ho.report, ho.table]
  | none =>
    simp only [hfound]
    have hlength : o'.table.structs.length = o1.table.structs.length := by simp [ho.table, Table.spell]
    refine ⟨⟨ho.known.addStruct hknown decl.span, ?_, ho.report, ?_, ho.functs⟩, hgrown⟩
    · simp [Table.addStruct, Table.spell, StructEntry.spell, ho.table]
    · exact rel_append ho.structs (.cons ⟨congrArg StructId.mk hlength, rfl, hscope, rfl⟩ .nil)

theorem addFunct (h : o.Spells o') (hspace : Knows o.pool space) (hscope : KnowsAll o.pool scope)
    (decl : FunctDecl) :
    (o.addFunct space scope decl).Spells
        (o'.addFunct (name o.pool space) (Naming.scope o.pool scope) decl) ∧
      Within o.pool (o.addFunct space scope decl).pool := by
  obtain ⟨n, o1, hn, ho, hgrown, hknown, hname, hscope, hspell, hget⟩ :=
    h.internName hspace hscope decl.name
  rw [Outline.addFunct, Semcheck.Outline.addFunct, Semcheck.Table.addFunct, hn, hname, hspell, hget]
  cases hfound : o1.table.get? n with
  | some d =>
    simp only [hfound]
    refine ⟨⟨ho.known, ho.table, ?_, ho.structs, ho.functs⟩, hgrown⟩
    simp only [duplicate, ho.report, ho.table]
  | none =>
    simp only [hfound]
    have hlength : o'.table.functs.length = o1.table.functs.length := by simp [ho.table, Table.spell]
    refine ⟨⟨ho.known.addFunct hknown decl.span, ?_, ho.report, ho.structs, ?_⟩, hgrown⟩
    · simp [Table.addFunct, Table.spell, FunctEntry.spell, FunctEntry.function, ho.table,
        Function.declared, Naming.bindings]
    · exact rel_append ho.functs (.cons ⟨congrArg FunctId.mk hlength, rfl, hscope, rfl⟩ .nil)

omit [DecidableEq σ] in
theorem innerSpace {q : π} {path : Path} {symbols : List σ} (hq : Within o.pool q)
    (hspace : Knows o.pool space) (hsymbols : Knows q symbols)
    (hname : name q symbols = path.toName) :
    Knows q (innerSpace space path symbols) ∧
      name q (innerSpace space path symbols) =
        Semcheck.Outline.innerSpace (name o.pool space) path := by
  rw [Outline.innerSpace, Semcheck.Outline.innerSpace]
  cases path.absolute with
  | true => exact ⟨hsymbols, hname⟩
  | false =>
    refine ⟨(hq.knows hspace).append hsymbols, ?_⟩
    show name q (space ++ symbols) = (name o.pool space).join path.toName
    rw [name_append, hq.name hspace, hname]

omit [LawfulNaming σ π] [DecidableEq σ] in
theorem knowsAll_cons {p : π} {n : List σ} {ns : List (List σ)} (hn : Knows p n)
    (hns : KnowsAll p ns) : KnowsAll p (n :: ns) :=
  fun m hm => (mem_cons.1 hm).elim (· ▸ hn) (hns m)

omit [LawfulNaming σ π] [DecidableEq σ] in
theorem scope_cons (p : π) (n : List σ) (ns : List (List σ)) :
    Naming.scope p (n :: ns) = (Naming.scope p ns).extend (name p n) :=
  rfl

mutual

theorem addItem {o : Outline σ π} {o' : Semcheck.Outline} {space : List σ}
    {scope : List (List σ)} (h : o.Spells o') (hspace : Knows o.pool space)
    (hscope : KnowsAll o.pool scope) (item : Item) :
    (o.addItem space scope item).Spells
        (o'.addItem (name o.pool space) (Naming.scope o.pool scope) item) ∧
      Within o.pool (o.addItem space scope item).pool := by
  cases item with
  | space path items span =>
    obtain ⟨ho, hgrown, hknown, hname⟩ := h.internPath path
    obtain ⟨hinner, hspell⟩ := innerSpace hgrown hspace hknown hname
    obtain ⟨hitems, hgrown1⟩ := addItems ho hinner
      (knowsAll_cons hinner (hgrown.knowsAll hscope)) items
    rw [hspell, scope_cons, hspell, hgrown.scope hscope] at hitems
    exact ⟨hitems, hgrown.trans hgrown1⟩
  | use path span => exact ⟨h, .refl _⟩
  | useBlock path items span =>
    obtain ⟨ho, hgrown, hknown, hname⟩ := h.internPath path
    obtain ⟨hitems, hgrown1⟩ := addItems ho (hgrown.knows hspace)
      (knowsAll_cons hknown (hgrown.knowsAll hscope)) items
    rw [hgrown.name hspace, scope_cons, hname, hgrown.scope hscope] at hitems
    exact ⟨hitems, hgrown.trans hgrown1⟩
  | struct decl => exact h.addStruct hspace hscope decl
  | funct decl => exact h.addFunct hspace hscope decl

theorem addItems {o : Outline σ π} {o' : Semcheck.Outline} {space : List σ}
    {scope : List (List σ)} (h : o.Spells o') (hspace : Knows o.pool space)
    (hscope : KnowsAll o.pool scope) (items : List Item) :
    (o.addItems space scope items).Spells
        (o'.addItems (name o.pool space) (Naming.scope o.pool scope) items) ∧
      Within o.pool (o.addItems space scope items).pool := by
  cases items with
  | nil => exact ⟨h, .refl _⟩
  | cons item rest =>
    have next : ∀ (o1 : Outline σ π) (o1' : Semcheck.Outline), o1.Spells o1' ∧ Within o.pool o1.pool →
        (o1.addItems space scope rest).Spells
            (o1'.addItems (name o.pool space) (Naming.scope o.pool scope) rest) ∧
          Within o.pool (o1.addItems space scope rest).pool := by
      rintro o1 o1' ⟨ho, hgrown⟩
      obtain ⟨hrest, hgrown1⟩ := addItems ho (hgrown.knows hspace) (hgrown.knowsAll hscope) rest
      rw [hgrown.name hspace, hgrown.scope hscope] at hrest
      exact ⟨hrest, hgrown.trans hgrown1⟩
    cases item with
    | use path span =>
      obtain ⟨ho, hgrown, hknown, hname⟩ := h.internPath path
      obtain ⟨hrest, hgrown1⟩ := addItems ho (hgrown.knows hspace)
        (knowsAll_cons hknown (hgrown.knowsAll hscope)) rest
      rw [hgrown.name hspace, scope_cons, hname, hgrown.scope hscope] at hrest
      exact ⟨hrest, hgrown.trans hgrown1⟩
    | _ => exact next _ _ (addItem h hspace hscope _)

end

end Outline.Spells

theorem Outline.start_follows [DecidableEq σ] (pool : π) :
    (.start pool : Outline σ π).Spells .empty ∧ Within pool (.start pool : Outline σ π).pool := by
  have hint := get?_intern pool "int"
  have hbool := get?_intern (intern pool "int").2 "bool"
  have hgrown := within_intern (intern pool "int").2 "bool"
  have hint1 := hgrown _ _ hint
  have knows_one : ∀ {s : σ}, Naming.Known (intern (intern pool "int").2 "bool").2 s →
      Knows (intern (intern pool "int").2 "bool").2 [s] :=
    fun hs s hs' => mem_singleton.1 hs' ▸ hs
  refine ⟨⟨⟨?_, ?_, fun _ h => by cases h⟩, ?_, rfl, .nil, .nil⟩,
    (within_intern pool "int").trans hgrown⟩
  · exact forall_mem_cons.2 ⟨knows_one (known_of_get? hint1),
      forall_mem_singleton.2 (knows_one (known_of_get? hbool))⟩
  · exact forall_mem_cons.2 ⟨⟨knows_one (known_of_get? hint1), fun _ h => by cases h⟩,
      forall_mem_singleton.2 ⟨knows_one (known_of_get? hbool), fun _ h => by cases h⟩⟩
  · simp [Outline.start, Table.builtin, Table.spell, StructEntry.spell, name,
      text_eq hint1, text_eq hbool, Semcheck.Outline.empty,
      Semcheck.Table.builtin]

theorem Outline.ofFiles_follows [DecidableEq σ] (pool : π) (files : List SourceFile) :
    (Outline.ofFiles pool files).Spells (Semcheck.Outline.ofFiles files) ∧
      Within pool (.ofFiles pool files : Outline σ π).pool := by
  have hfiles : ∀ (o : Outline σ π) (o' : Semcheck.Outline), o.Spells o' ∧ Within pool o.pool →
      (files.foldl (fun o file => o.addItems [] [] file.items) o).Spells
          (files.foldl (fun o file => o.addItems .root .empty file.items) o') ∧
        Within pool (files.foldl (fun o file => o.addItems [] [] file.items) o).pool := by
    induction files with
    | nil => exact fun o o' ho => ho
    | cons file rest ih =>
      rintro o o' ⟨ho, hpool⟩
      have hroot : Knows o.pool [] := fun _ h => by cases h
      have hnone : KnowsAll o.pool [] := fun _ h => by cases h
      obtain ⟨hitems, hgrown⟩ := ho.addItems hroot hnone file.items
      exact ih _ _ ⟨hitems, hpool.trans hgrown⟩
  exact hfiles _ _ (start_follows pool)

end Outlines

end Pooled

end Semcheck
