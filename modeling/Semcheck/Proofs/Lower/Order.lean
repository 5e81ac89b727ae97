/-
  The order of the declarations does not matter.

  * `Diagnostic.Agrees`: diagnostics that differ in nothing but suggestions;
  * `Outline.Renumbers`: outlines with the same declarations under other numbers;
  * `lowerFiles_reordered`: files and items in another order come to the same texts and to
    the same diagnostics, in some order.

  Other numbers for the declarations do not show in the texts, and every pass works on the
  declarations one by one.  What is left to see is the order in which they are visited.
-/
import Semcheck.Proofs.Lower.Mirror

namespace Semcheck

open List Table

/-! ## Diagnostics -/

/-- The diagnostic without the names it suggests in place of an undeclared one. -/
def Diagnostic.withoutSuggestions (d : Diagnostic) : Diagnostic :=
  if d.code = .undeclared then { d with note := none } else d

/-- The diagnostics are the same but for suggestions. -/
def Diagnostic.Agrees (d d' : Diagnostic) : Prop :=
  d'.withoutSuggestions = d.withoutSuggestions

theorem agrees_undeclared (name : String) (span : Location) (words words' : List String) :
    Diagnostic.Agrees (LookupError.undeclared name span words).toDiagnostic
      (LookupError.undeclared name span words').toDiagnostic := by
  cases words <;> cases words' <;> rfl

theorem map_withoutSuggestions {ds ds' : List Diagnostic}
    (h : Forall₂ Diagnostic.Agrees ds ds') :
    ds'.map Diagnostic.withoutSuggestions = ds.map Diagnostic.withoutSuggestions := by
  induction h with
  | nil => rfl
  | cons hd _ ih => rw [map_cons, map_cons, ih, hd]

/-! ## Lists in another order -/

section Lists

variable {α β γ : Type} {xs xs' : List α} {ys : List β} {R : α → β → Prop} {S : α → γ → Prop}
  {zs : List γ}

/-- Lists that belong to the same things in another order are related in another order. -/
theorem forall₂_perm {T : β → γ → Prop} (h : Forall₂ R xs ys) (h' : Forall₂ S xs' zs)
    (hp : xs.Perm xs') (hT : ∀ x y z, R x y → S x z → T y z) :
    ∃ zs', zs'.Perm zs ∧ Forall₂ T ys zs' := by
  obtain ⟨zs', hzs', hperm⟩ := perm_comp_forall₂ hp h'
  exact ⟨zs', hperm, forall₂_join h hzs' hT⟩

theorem map_perm {f : β → γ} (h : Forall₂ R xs ys) (h' : Forall₂ S xs' zs)
    (hp : xs.Perm xs') (hf : ∀ x y z, R x y → S x z → f y = z) : zs.Perm (ys.map f) := by
  obtain ⟨zs', hperm, hall⟩ := forall₂_perm h h' hp hf
  have heq : ys.map f = zs' := forall₂_eq_eq_eq ▸ forall₂_map_left_iff.2 hall
  exact heq ▸ hperm.symm

/-- What is reported on related things, visited in another order. -/
theorem flatMap_perm {F : α → List Diagnostic} {G : β → List Diagnostic} {ys' : List β}
    (hp : ys'.Perm ys)
    (h : Forall₂ (fun x y => Forall₂ Diagnostic.Agrees (F x) (G y)) xs ys) :
    ((ys'.flatMap G).map Diagnostic.withoutSuggestions).Perm
      ((xs.flatMap F).map Diagnostic.withoutSuggestions) := by
  rw [← map_withoutSuggestions (rel_flatMap h fun _ _ hxy => hxy)]
  exact (hp.flatMap_right G).map _

end Lists

/-! ## Outlines -/

/-- The outline `o'` has the declarations of `o` under the numbers `ρ` gives them, and there
    is nothing to report. -/
structure Outline.Renumbers (ρ : Renaming) (o o' : Outline) : Prop where
  faithful : ρ.Faithful
  mirrors : o.table.Mirrors ρ Diagnostic.Agrees o'.table
  report : o.report = .empty
  report' : o'.report = .empty
  structs : o'.structs.Perm (o.structs.map (PendingStruct.rename ρ))
  functs : o'.functs.Perm (o.functs.map (PendingFunct.rename ρ))

section Outlines

variable {o o' : Outline} {ds ds' : List Declared}

theorem Outline.Lists.permutes (h : o.Lists ds) (h' : o'.Lists ds') (hp : ds.Perm ds') :
    o.table.Permutes o'.table where
  indexed := h.indexed
  indexed' := h'.indexed
  structs := by
    rw [h.structEntries, h'.structEntries]
    exact ((hp.filterMap _).map _).append_left _
  functs := by
    rw [h.functEntries, h'.functEntries]
    exact (hp.filterMap _).map _
  builtins id hid := by
    have hlt : id.index < builtin.structs.length := hid
    rw [struct?, struct?, h.structEntries, h'.structEntries,
      getElem?_append_left hlt, getElem?_append_left hlt]

/-- **Another order of the declarations is another numbering of them.** -/
theorem Outline.Lists.renumbers (h : o.Lists ds) (h' : o'.Lists ds') (hp : ds.Perm ds') :
    ∃ ρ, o.Renumbers ρ o' := by
  have ht := h.permutes h' hp
  refine ⟨.between o.table o'.table, ht.faithful, ht.mirrors agrees_undeclared ?_ ?_, h.report,
    h'.report, ?_, ?_⟩
  · intro entry he
    have hbuiltin : ∀ entry ∈ builtin.structs, entry.fields = [] := by decide
    rw [h.structEntries] at he
    rcases mem_append.1 he with he | he
    · exact hbuiltin entry he
    · obtain ⟨d, -, rfl⟩ := mem_map.1 he
      rfl
  · intro entry he
    rw [h.functEntries] at he
    obtain ⟨d, -, rfl⟩ := mem_map.1 he
    exact ⟨_, rfl⟩
  · refine map_perm h.structs.flip h'.structs.flip (hp.filterMap _) ?_
    rintro d ⟨id, _, _⟩ ⟨id', _, _⟩ ⟨hget, rfl, rfl⟩ ⟨hget', rfl, rfl⟩
    rw [ht.get?, hget] at hget'
    cases hget'
    rfl
  · refine map_perm h.functs.flip h'.functs.flip (hp.filterMap _) ?_
    rintro d ⟨id, _, _⟩ ⟨id', _, _⟩ ⟨hget, rfl, rfl⟩ ⟨hget', rfl, rfl⟩
    rw [ht.get?, hget] at hget'
    cases hget'
    rfl

end Outlines

/-! ## Programs -/

namespace Outline.Renumbers

variable {ρ : Renaming} {o o' : Outline} (h : o.Renumbers ρ o')
include h

theorem mem_structs {pending : PendingStruct} (hp : pending ∈ o.structs) :
    pending.rename ρ ∈ o'.structs :=
  h.structs.mem_iff.2 (mem_map_of_mem hp)

theorem mem_functs {pending : PendingFunct} (hp : pending ∈ o.functs) :
    pending.rename ρ ∈ o'.functs :=
  h.functs.mem_iff.2 (mem_map_of_mem hp)

theorem funct?_cases (ho : o.Valid) {t t' : Table} (ht : o.table.SameNames t)
    (ht' : o'.table.SameNames t') (id : FunctId) :
    (t.funct? id = none ∧ t'.funct? (ρ.funct id) = none) ∨
      ∃ pending ∈ o.functs, pending.id = id := by
  have hnone : ∀ {t : Table} {id : FunctId}, t.name? (.funct id) = none → t.funct? id = none :=
    fun hname => by simpa [name?, funct?] using hname
  cases hname : o.table.name? (.funct id) with
  | none =>
    refine .inl ⟨hnone ?_, hnone ?_⟩
    · rw [ht.name?, hname]
    · rw [ht'.name?, h.mirrors.functName, hname]
  | some name =>
    obtain ⟨entry, hentry, -⟩ := Option.map_eq_some_iff.1 hname
    exact .inr (ho.exists_id id (List.getElem?_eq_some_iff.1 hentry).1)

theorem signed (ho : o.Valid) {p p' : Program} (hs : o.Signs p) (hs' : o'.Signs p') :
    p.table.Mirrors ρ Diagnostic.Agrees p'.table := by
  refine h.mirrors.later hs.names hs'.names (fun id => ?_) (fun id => ?_)
  · by_cases hid : id ∈ o.structs.map PendingStruct.id
    · obtain ⟨pending, hp, rfl⟩ := mem_map.1 hid
      have hfields := (pending.resolved_mirrored h.mirrors (fun _ => rfl) h.faithful).1
      have hother := hs'.structs _ (h.mem_structs hp)
      rw [hfields] at hother
      rw [hs.structs pending hp]
      refine hother.trans ?_
      rw [PendingStruct.rename, h.mirrors.struct?, Option.map_map, Option.map_map]
      rfl
    · -- a builtin struct, or none at all: neither is the struct it is renamed to declared
      have hid' : ρ.struct id ∉ o'.structs.map PendingStruct.id := by
        intro hmem
        obtain ⟨other, hother, heq⟩ := mem_map.1 hmem
        obtain ⟨pending, hp, rfl⟩ := mem_map.1 (h.structs.mem_iff.1 hother)
        exact hid (mem_map.2 ⟨pending, hp, h.faithful.struct heq⟩)
      rw [hs.builtins id hid, hs'.builtins _ hid', h.mirrors.struct?]
  · rcases h.funct?_cases ho hs.names hs'.names id with ⟨hnone, hnone'⟩ | ⟨pending, hp, rfl⟩
    · rw [hnone, hnone']
      rfl
    · rw [hs.functs pending hp, Option.map_some,
        ← pending.signature_mirrored h.mirrors (fun _ => rfl) h.faithful]
      exact hs'.functs _ (h.mem_functs hp)

/-- The signatures are complained about as before. -/
theorem signed_report {p p' : Program} (hs : o.Signs p) (hs' : o'.Signs p') :
    (p'.report.entries.map Diagnostic.withoutSuggestions).Perm
      (p.report.entries.map Diagnostic.withoutSuggestions) := by
  rw [hs.report, hs'.report, h.report, h.report']
  simp only [Report.entries_empty, nil_append, map_append]
  refine (flatMap_perm h.structs ?_).append (flatMap_perm h.functs ?_)
  · exact forall₂_map_right_iff.2 (forall₂_same.2 fun pending _ =>
      (pending.resolved_mirrored h.mirrors (fun _ => rfl) h.faithful).2)
  · exact forall₂_map_right_iff.2 (forall₂_same.2 fun pending _ =>
      pending.complaints_mirrored h.mirrors (fun _ => rfl) h.faithful)

variable {strict : Bool} {signed signed' p p' : Program} {outs outs' : List LoweredBody}
  (hl : o.Lowers strict signed outs p) (hl' : o'.Lowers strict signed' outs' p')
include hl hl'

theorem lowered (ho : o.Valid) (ho' : o'.Valid) : p.table.Mirrors ρ Diagnostic.Agrees p'.table := by
  have hsigned := h.signed ho hl.signs hl'.signs
  refine hsigned.later hl.names hl'.names (fun id => ?_) (fun id => ?_)
  · rw [struct?, struct?, hl.structs, hl'.structs]
    exact hsigned.struct? id
  · rcases h.funct?_cases ho (hl.signs.names.trans hl.names) (hl'.signs.names.trans hl'.names) id
      with ⟨hnone, hnone'⟩ | ⟨pending, hp, rfl⟩
    · rw [hnone, hnone']
      rfl
    · cases hbody : pending.decl.body with
      | none =>
        rw [hl.funct_of_none ho hp hbody, Option.map_some,
          ← pending.signature_mirrored h.mirrors (fun _ => rfl) h.faithful]
        exact hl'.funct_of_none ho' (h.mem_functs hp) hbody
      | some body =>
        obtain ⟨out, -, hout, hfunct⟩ := hl.funct_of_body hp hbody
        obtain ⟨out', -, hout', hfunct'⟩ := hl'.funct_of_body (h.mem_functs hp) hbody
        obtain ⟨heq, -⟩ := hout.mirrored hsigned (fun _ => rfl) h.faithful hout'
        rw [hfunct, Option.map_some, ← heq]
        exact hfunct'

/-- The bodies are complained about as before. -/
theorem lowered_report (ho : o.Valid) :
    (p'.report.entries.map Diagnostic.withoutSuggestions).Perm
      (p.report.entries.map Diagnostic.withoutSuggestions) := by
  have hsigned := h.signed ho hl.signs hl'.signs
  have hbodies : (o'.functs.filter PendingFunct.hasBody).Perm
      ((o.functs.filter PendingFunct.hasBody).map (.rename ρ)) := by
    have hfilter := h.functs.filter PendingFunct.hasBody
    rwa [filter_map] at hfilter
  have hrenamed : Forall₂ (fun renamed out => ∃ pending : PendingFunct,
      pending.rename ρ = renamed ∧ pending.Lowers strict signed.table out)
        ((o.functs.filter PendingFunct.hasBody).map (.rename ρ)) outs :=
    forall₂_map_left_iff.2 (hl.bodies.imp fun pending _ hout => ⟨pending, rfl, hout⟩)
  have hagree : ∀ renamed out out', (∃ pending : PendingFunct, pending.rename ρ = renamed ∧
      pending.Lowers strict signed.table out) → renamed.Lowers strict signed'.table out' →
        Forall₂ Diagnostic.Agrees out.report.entries out'.report.entries := by
    rintro _ out out' ⟨pending, rfl, hout⟩ hout'
    exact (hout.mirrored hsigned (fun _ => rfl) h.faithful hout').2
  -- the lowered bodies of `o'`, in the order in which `o` has them
  obtain ⟨outs1, hperm, hall⟩ := forall₂_perm hrenamed hl'.bodies hbodies.symm hagree
  rw [hl.report, hl'.report, map_append, map_append]
  exact (h.signed_report hl.signs hl'.signs).append (flatMap_perm hperm.symm hall)

end Outline.Renumbers

/-- **The order of the declarations does not matter.**  If no name is declared twice, files
    and items in another order come to the same texts, and to the same diagnostics in some
    order, but for the names they suggest. -/
theorem lowerFiles_reordered (strict : Bool) {files files' : List SourceFile}
    (h : FilesReordered files files') (hd : Distinct (declarations files)) :
    ∃ p p', lowerFiles strict files = .ok p ∧ lowerFiles strict files' = .ok p' ∧
      (∀ name, p'.table.declText? name = p.table.declText? name) ∧
      (p'.report.entries.map Diagnostic.withoutSuggestions).Perm
        (p.report.entries.map Diagnostic.withoutSuggestions) := by
  obtain ⟨signed, outs, p, hp, -, hl⟩ := lowerFiles_run strict files
  obtain ⟨signed', outs', p', hp', -, hl'⟩ := lowerFiles_run strict files'
  have ho := Outline.ofFiles_valid files
  have ho' := Outline.ofFiles_valid files'
  obtain ⟨ρ, hrenumbers⟩ := (Outline.ofFiles_lists hd).renumbers
    (Outline.ofFiles_lists (hd.perm h.perm)) h.perm
  exact ⟨p, p', hp, hp', (hrenumbers.lowered hl hl' ho ho').declText?,
    hrenumbers.lowered_report hl hl' ho⟩

namespace Sample

/-- `struct Inner { n: int }` -/
def inner : Item := .struct ⟨name "Inner", [⟨name "n", type "int", .nowhere⟩], .nowhere⟩

/-- `struct Outer { inner: Inner, other: Iner }` -/
def outer : Item := .struct ⟨name "Outer", [⟨name "inner", type "Inner", .nowhere⟩,
  ⟨name "other", type "Iner", .nowhere⟩], .nowhere⟩

/-- `fn peek(o: Outer) -> int { o.inner.n }` -/
def peek : Item := .funct ⟨name "peek", [⟨name "o", false, type "Outer", .nowhere⟩],
  some (type "int"), some (.field (.field (var "o") (name "inner") .nowhere) (name "n") .nowhere),
  .nowhere⟩

/-- `fn poke(o: Outer) { x }`, where `x` is unknown. -/
def poke : Item := .funct ⟨name "poke", [⟨name "o", false, type "Outer", .nowhere⟩], none,
  some (var "x"), .nowhere⟩

/-- `namespace a { .. } use a::*; ..` and `fn main() { y }`, in two files. -/
def files (inside after : List Item) : List SourceFile := [
  ⟨⟨0⟩, .space (path "a") inside .nowhere :: .use (path "a") .nowhere :: after, .nowhere⟩,
  ⟨⟨1⟩, [.funct ⟨name "main", [], none, some (var "y"), .nowhere⟩], .nowhere⟩]

end Sample

open Sample in
/-- The declarations have other numbers, and the diagnostics come in another order. -/
theorem sample_reordered :
    FilesReordered (files [outer, inner] [peek, poke]) (files [inner, outer] [poke, peek]).reverse ∧
    Distinct (declarations (files [outer, inner] [peek, poke])) ∧
    ∃ p p', lowerFiles true (files [outer, inner] [peek, poke]) = .ok p ∧
      lowerFiles true (files [inner, outer] [poke, peek]).reverse = .ok p' ∧
      p.table.index ≠ p'.table.index ∧ p.report ≠ p'.report ∧ p.report.entries.length = 3 ∧
      (∀ name, p'.table.declText? name = p.table.declText? name) ∧
      (p'.report.entries.map Diagnostic.withoutSuggestions).Perm
        (p.report.entries.map Diagnostic.withoutSuggestions) := by
  have h : FilesReordered (files [outer, inner] [peek, poke])
      (files [inner, outer] [poke, peek]).reverse := by
    refine .trans (.items _ _ ?_) (.swap _ _ [])
    exact .trans (.space _ _ _ (.swap outer inner [] rfl rfl))
      (.cons _ (.cons _ (.swap peek poke [] rfl rfl)))
  have hd : Distinct (declarations (files [outer, inner] [peek, poke])) := by decide
  have hrun : ∃ p ∈ (lowerFiles true (files [outer, inner] [peek, poke])).toOption,
      ∃ p' ∈ (lowerFiles true (files [inner, outer] [poke, peek]).reverse).toOption,
        p.table.index ≠ p'.table.index ∧ p.report ≠ p'.report ∧ p.report.entries.length = 3 := by
    decide +kernel
  obtain ⟨p, p', hp, hp', htexts, hreport⟩ := lowerFiles_reordered true h hd
  rw [hp, hp'] at hrun
  obtain ⟨_, ⟨⟩, _, ⟨⟩, hindex, hne, hlength⟩ := hrun
  exact ⟨h, hd, p, p', hp, hp', hindex, hne, hlength, htexts, hreport⟩

end Semcheck
