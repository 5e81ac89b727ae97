/-
  Functions are found by the names they are shown with.

  If the identifiers of a program can stand between separators, then so can the segments of all
  names that it declares (`declaredIn_proper`), and a name of this kind can be read off its
  text.  In the table of a program a name leads to what has it (`Outline.Lowers.indexed`), so
  that the text of a name leads back to its function (`Session.compile_finds`).
-/
import Semcheck.Proofs.Lower.First
import Semcheck.Proofs.Name.Segments
import Semcheck.Proofs.Session

namespace Semcheck

open List

/-! ## Names of declarations -/

/-- Every identifier of the tree can stand between separators. -/
def Node.Proper (n : Node) : Prop :=
  ∀ m ∈ n.preorder, ∀ i ∈ m.idents, Semcheck.Proper i.text

namespace Node.Proper

variable {n : Node}

theorem child (h : n.Proper) {c : Node} (hc : c ∈ n.children) : c.Proper :=
  (forall_preorder_iff.1 h).2 c hc

theorem ident (h : n.Proper) {i : Ident} (hi : i ∈ n.idents) : Semcheck.Proper i.text :=
  (forall_preorder_iff.1 h).1 i hi

end Node.Proper

theorem Name.Proper.child {n : Name} (h : n.Proper) {segment : String}
    (hs : Semcheck.Proper segment) : (n.child segment).Proper :=
  forall_mem_append.2 ⟨h, forall_mem_singleton.2 hs⟩

theorem Name.Proper.innerSpace {space : Name} (h : space.Proper) {path : Path} {items : List Item}
    {span : Location} (hitem : (Node.item (.space path items span)).Proper) :
    (Outline.innerSpace space path).Proper := by
  have hpath : path.toName.Proper :=
    forall_mem_map.2 fun i hi => hitem.ident (by simp [Node.idents, Node.names, Node.paths, hi])
  unfold Outline.innerSpace
  split
  · exact hpath
  · exact forall_mem_append.2 ⟨h, hpath⟩

mutual

theorem declaredBy_proper {space : Name} (hspace : space.Proper) (scope : UseScope) (item : Item)
    (h : (Node.item item).Proper) : ∀ d ∈ declaredBy space scope item, d.name.Proper := by
  cases item with
  | space path items span =>
    exact declaredIn_proper (hspace.innerSpace h) _ items fun _ hi => h.child (mem_map_of_mem hi)
  | use path span => exact forall_mem_nil _
  | useBlock path items span =>
    exact declaredIn_proper hspace _ items fun _ hi => h.child (mem_map_of_mem hi)
  | struct decl => exact forall_mem_singleton.2 (hspace.child (h.ident mem_cons_self))
  | funct decl => exact forall_mem_singleton.2 (hspace.child (h.ident mem_cons_self))

theorem declaredIn_proper {space : Name} (hspace : space.Proper) (scope : UseScope)
    (items : List Item) (h : ∀ item ∈ items, (Node.item item).Proper) :
    ∀ d ∈ declaredIn space scope items, d.name.Proper := by
  cases items with
  | nil => exact forall_mem_nil _
  | cons item rest =>
    rw [forall_mem_cons] at h
    rcases item.isUse_cases with ⟨path, span, rfl⟩ | hitem
    · exact declaredIn_proper hspace _ rest h.2
    · rw [declaredIn_cons hitem, forall_mem_append]
      exact ⟨declaredBy_proper hspace scope item h.1, declaredIn_proper hspace scope rest h.2⟩

end

theorem declarations_proper {files : List SourceFile} (h : ∀ file ∈ files, (Node.file file).Proper)
    {d : Declared} (hd : d ∈ declarations files) : d.name.Proper := by
  obtain ⟨file, hfile, hd⟩ := mem_flatMap.1 hd
  exact declaredIn_proper (forall_mem_nil _) _ file.items
    (fun _ hi => (h file hfile).child (mem_map_of_mem hi)) d hd

/-! ## Tables -/

namespace Table.Indexed

variable {t : Table} (h : t.Indexed)
include h

/-- No two functions have the same name. -/
theorem nodup_functs : (t.functs.map FunctEntry.name).Nodup := by
  have hname (i : Nat) : (t.functs.map FunctEntry.name)[i]? = t.name? (.funct ⟨i⟩) :=
    getElem?_map
  rw [nodup_iff_getElem?_ne_getElem?]
  intro i j hij hj heq
  obtain ⟨name, hj⟩ : ∃ name, t.name? (.funct ⟨j⟩) = some name :=
    ⟨_, (hname j).symm.trans (getElem?_eq_getElem hj)⟩
  rw [hname, hname, hj] at heq
  have hget := (h name _).2 heq
  rw [(h name _).2 hj] at hget
  cases hget
  exact Nat.lt_irrefl _ hij

/-- A name leads to a function if a function has it. -/
theorem exists_funct {name : Name} {g : Function} :
    (∃ id, t.get? name = some (.funct id) ∧ t.funct? id = some g) ↔
      ∃ f ∈ t.functs, f.name = name ∧ f.funct = g := by
  simp only [h name _, Table.name?, Table.funct?, Option.map_eq_some_iff]
  constructor
  · rintro ⟨id, ⟨f, hf, rfl⟩, f', hf', rfl⟩
    cases hf.symm.trans hf'
    exact ⟨f, mem_of_getElem? hf, rfl, rfl⟩
  · rintro ⟨f, hf, rfl, rfl⟩
    obtain ⟨i, hi⟩ := mem_iff_getElem?.1 hf
    exact ⟨⟨i⟩, ⟨f, hi, rfl⟩, f, hi, rfl⟩

end Table.Indexed

/-- Looking up a text finds the function with the name it reads as. -/
theorem Compilation.funct?_eq_some {c : Compilation} (h : c.table.Indexed) {text : String}
    {g : Function} : c.funct? text = some g ↔
      ∃ f ∈ c.functs, f.name = Name.parse text ∧ f.funct = g := by
  rw [Compilation.functs, ← h.exists_funct, Compilation.funct?]
  constructor
  · intro hfind
    obtain ⟨d, hd, hg⟩ := Option.bind_eq_some_iff.1 hfind
    cases d with
    | struct id => cases hg
    | funct id => exact ⟨id, hd, hg⟩
  · rintro ⟨id, hd, hg⟩
    rw [hd]
    exact hg

/-! ## Outputs -/

section Outputs

variable {σ π : Type} [DecidableEq σ] [Naming σ π] [LawfulNaming σ π]

/-- **Functions are found by the names they are shown with.**  The names are distinct, each
    leads to its function, and a text leads to no function unless it reads as the name of one. -/
theorem Session.compile_finds (s : Session π) {files : List SourceFile}
    (hfiles : ∀ file ∈ files, (Node.file file).Proper) :
    ∃ (out : Output σ π) (s' : Session π), s.compile files = .ok (out, s') ∧
      (out.spell.functs.map fun f => f.name.text).Nodup ∧
      (∀ f ∈ out.spell.functs, out.funct? f.name.text = some f.funct) ∧
      ∀ text, out.funct? text = none ↔ ∀ f ∈ out.spell.functs, f.name ≠ Name.parse text := by
  obtain ⟨out, s', hcompile, -, hknown, hspell⟩ := s.compile_spells files
  obtain ⟨p, c, hp, hc, htable, -⟩ := compile_finished s.config files
  obtain ⟨signed, outs, p', hp', -, hl⟩ := lowerFiles_run s.config.strict files
  cases hp.symm.trans hp'
  cases hc.symm.trans hspell
  have hk := Outline.ofFiles_keeps files
  have hindexed : out.spell.table.Indexed := htable ▸ hl.indexed hk
  have hparse : ∀ f ∈ out.spell.functs, Name.parse f.name.text = f.name := by
    intro f hf
    rw [Compilation.functs, htable] at hf
    obtain ⟨d, hd, hname⟩ := hl.funct_declared hk hf
    exact Name.parse_text (hname ▸ declarations_proper hfiles hd)
  have hfunct (text : String) (g : Function) : out.funct? text = some g ↔
      ∃ f ∈ out.spell.functs, f.name = Name.parse text ∧ f.funct = g := by
    rw [Output.funct?_spell hknown, Compilation.funct?_eq_some hindexed]
  refine ⟨out, s', hcompile, ?_, fun f hf => ?_, fun text => ?_⟩
  · -- the names can be read off their texts, so that equal texts are those of equal names
    refine Nodup.of_map Name.parse ?_
    rw [map_map, Function.comp_def, map_congr_left hparse]
    exact hindexed.nodup_functs
  · exact (hfunct _ _).2 ⟨f, hf, (hparse f hf).symm, rfl⟩
  · simp only [Option.eq_none_iff_forall_ne_some, Ne, hfunct]
    exact ⟨fun h f hf hname => h _ ⟨f, hf, hname, rfl⟩,
      fun h g ⟨f, hf, hname, _⟩ => h f hf hname⟩

end Outputs

/-- The function of a namespace is found by its full name only. -/
theorem sample_finds :
    (∀ file ∈ Sample.calls (Sample.var "x"), (Node.file file).Proper) ∧
    ∃ (out : Output Symbol Interner) (s : Session Interner),
      (Session.new .default : Session Interner).compile (Sample.calls (Sample.var "x")) =
        .ok (out, s) ∧
      (out.spell.functs.map fun f => f.name.text) = ["a::id", "main"] ∧
      (∀ f ∈ out.spell.functs, out.funct? f.name.text = some f.funct) ∧
      out.funct? "id" = none := by
  have hproper : ∀ file ∈ Sample.calls (Sample.var "x"), (Node.file file).Proper := by
    simp only [Node.Proper, Node.preorder_eq, Node.walk_children]
    decide +kernel
  obtain ⟨out, s, hcompile, -, hfound, hnone⟩ :=
    Session.compile_finds (Session.new .default : Session Interner) hproper
  have hnames : ∃ one ∈ ((Session.new .default : Session Interner).compile
      (Sample.calls (Sample.var "x"))).toOption,
      (one.1.spell.functs.map fun f => f.name.text) = ["a::id", "main"] ∧
        ∀ f ∈ one.1.spell.functs, f.name ≠ Name.parse "id" := by decide +kernel
  rw [hcompile] at hnames
  obtain ⟨_, ⟨⟩, hnames, hid⟩ := hnames
  exact ⟨hproper, out, s, hcompile, hnames, hfound, (hnone "id").2 hid⟩

end Semcheck
