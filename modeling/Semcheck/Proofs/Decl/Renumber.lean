/-
  Tables with the same entries in another order.

  In an indexed table (`Table.Indexed`) a name leads to the declaration that has it.
  Declaring a new name keeps a table indexed (`Table.Declares`).

  If two indexed tables have the same entries in another order (`Table.Permutes`), a
  declaration of the one is the declaration of the other that has its name
  (`Renaming.between`), and the one table mirrors the other under this renaming.
-/
import Mathlib.Data.List.Perm.Basic
import Semcheck.Proofs.Decl.Rename

namespace Semcheck

open List Table Name

/-! ## Names and numbers -/

/-- A name leads to the declaration that has it, and to no other. -/
def Table.Indexed (t : Table) : Prop :=
  ∀ name d, t.get? name = some d ↔ t.name? d = some name

/-- The table `t'` has the declaration `d` with a new name, and those of `t`. -/
structure Table.Declares (t : Table) (name : Name) (d : Decl) (t' : Table) : Prop where
  unused : t.get? name = none
  unnamed : t.name? d = none
  get? : ∀ other, t'.get? other = if other = name then some d else t.get? other
  name? : ∀ e, t'.name? e = if e = d then some name else t.name? e

namespace Table

variable {t t' : Table} {name : Name} {d : Decl} {span : Location}

theorem Declares.indexed (h : t.Declares name d t') (ht : t.Indexed) : t'.Indexed := by
  intro other e
  rw [h.get?, h.name?]
  by_cases hother : other = name <;> by_cases he : e = d
  · simp [hother, he]
  · subst hother
    have hne : t.name? e ≠ some other := fun hname => by
      simpa [h.unused] using (ht other e).2 hname
    simp [he, Ne.symm he, hne]
  · subst he
    have hne : t.get? other ≠ some e := fun hget => by
      simpa [h.unnamed] using (ht other e).1 hget
    simp [hother, Ne.symm hother, hne]
  · simp only [hother, he, if_false]
    exact ht other e

theorem Declares.kept (h : t.Declares name d t') {other : Name} {e : Decl}
    (he : t.get? other = some e) : t'.get? other = some e := by
  have hne : other ≠ name := fun heq => by simp [heq, h.unused] at he
  rw [h.get?, if_neg hne, he]

theorem Declares.named (h : t.Declares name d t') {other : Name} {e : Decl}
    (he : t.name? e = some other) : t'.name? e = some other := by
  have hne : e ≠ d := fun heq => by simp [heq, h.unnamed] at he
  rw [h.name?, if_neg hne, he]

theorem get?_append_index (h : t.get? name = none) (structs : List StructEntry)
    (functs : List FunctEntry) (other : Name) :
    (⟨t.index ++ [(name, d)], structs, functs⟩ : Table).get? other =
      if other = name then some d else t.get? other := by
  have hnone : t.index.find? (fun entry => entry.1 = name) = none := by simpa [get?] using h
  rw [get?, get?, find?_append]
  by_cases hother : other = name
  · subst hother
    simp [hnone]
  · simp [hother, Ne.symm hother]

theorem addStruct_of_none (h : t.get? name = none) (span : Location) :
    t.addStruct name span = .ok (⟨t.structs.length⟩, ⟨t.index ++ [(name, .struct ⟨t.structs.length⟩)],
      t.structs ++ [⟨name, [], span⟩], t.functs⟩) := by
  simp only [addStruct, h]

theorem addFunct_of_none (h : t.get? name = none) (span : Location) :
    t.addFunct name span = .ok (⟨t.functs.length⟩, ⟨t.index ++ [(name, .funct ⟨t.functs.length⟩)],
      t.structs, t.functs ++ [⟨name, .declared span⟩]⟩) := by
  simp only [addFunct, h]

theorem getElem?_concat_of_ne {α : Type} {xs : List α} {i : Nat} (h : i ≠ xs.length) (x : α) :
    (xs ++ [x])[i]? = xs[i]? := by
  rcases Nat.lt_or_gt_of_ne h with hlt | hgt
  · exact getElem?_append_left hlt
  · rw [getElem?_eq_none (by simp; omega), getElem?_eq_none (by omega)]

theorem declares_struct (h : t.get? name = none) (span : Location) :
    t.Declares name (.struct ⟨t.structs.length⟩) ⟨t.index ++ [(name, .struct ⟨t.structs.length⟩)],
      t.structs ++ [⟨name, [], span⟩], t.functs⟩ where
  unused := h
  unnamed := by simp [name?]
  get? := get?_append_index h _ _
  name? e := by
    cases e with
    | funct id => simp [name?]
    | struct id =>
      by_cases hid : id = ⟨t.structs.length⟩
      · simp [name?, hid]
      · have hne : id.index ≠ t.structs.length := fun heq => hid (by cases id; cases heq; rfl)
        simp [name?, hid, getElem?_concat_of_ne hne]

theorem declares_funct (h : t.get? name = none) (span : Location) :
    t.Declares name (.funct ⟨t.functs.length⟩) ⟨t.index ++ [(name, .funct ⟨t.functs.length⟩)],
      t.structs, t.functs ++ [⟨name, .declared span⟩]⟩ where
  unused := h
  unnamed := by simp [name?]
  get? := get?_append_index h _ _
  name? e := by
    cases e with
    | struct id => simp [name?]
    | funct id =>
      by_cases hid : id = ⟨t.functs.length⟩
      · simp [name?, hid]
      · have hne : id.index ≠ t.functs.length := fun heq => hid (by cases id; cases heq; rfl)
        simp [name?, hid, getElem?_concat_of_ne hne]

theorem indexed_builtin : builtin.Indexed := by
  have hempty : (⟨[], [], []⟩ : Table).Indexed := by
    intro name d
    cases d <;> simp [get?, name?]
  have hint : (⟨[], [], []⟩ : Table).get? ⟨["int"]⟩ = none := rfl
  have hbool : (⟨[(⟨["int"]⟩, .struct .int)], [⟨⟨["int"]⟩, [], .nowhere⟩], []⟩ : Table).get?
      ⟨["bool"]⟩ = none := rfl
  exact (declares_struct hbool .nowhere).indexed ((declares_struct hint .nowhere).indexed hempty)

end Table

/-! ## Renumbering -/

/-- The place that `find` has for the name at the place `i`. -/
def renumber (names : List Name) (find : Name → Option Nat) (i : Nat) : Nat :=
  (names[i]?.bind find).getD i

section Lists

variable {α : Type} {name : α → Name} {xs ys : List α} {find find' : Name → Option Nat}

/-- The entry with the same name is the same entry. -/
theorem getElem?_renumber (hp : xs.Perm ys)
    (hfind : ∀ i e, ys[i]? = some e → find (name e) = some i) (i : Nat) :
    ys[renumber (xs.map name) find i]? = xs[i]? := by
  cases hx : xs[i]? with
  | none =>
    have hi : renumber (xs.map name) find i = i := by simp [renumber, hx]
    rw [hi, getElem?_eq_none_iff, ← hp.length_eq]
    exact getElem?_eq_none_iff.1 hx
  | some e =>
    obtain ⟨j, hj⟩ := mem_iff_getElem?.1 (hp.mem_iff.1 (mem_of_getElem? hx))
    have hi : renumber (xs.map name) find i = j := by simp [renumber, hx, hfind j e hj]
    rw [hi, hj]

/-- An entry that both lists have at the same place stays there. -/
theorem renumber_eq_self (hfind : ∀ i e, ys[i]? = some e → find (name e) = some i) {i : Nat}
    (h : ys[i]? = xs[i]?) : renumber (xs.map name) find i = i := by
  cases hx : xs[i]? with
  | none => simp [renumber, hx]
  | some e => simp [renumber, hx, hfind i e (h.trans hx)]

theorem renumber_injective (hp : xs.Perm ys)
    (hfind : ∀ i e, ys[i]? = some e → find (name e) = some i)
    (hfind' : ∀ i e, xs[i]? = some e → find' (name e) = some i) :
    Function.Injective (renumber (xs.map name) find) := by
  intro i j hij
  have hentries : xs[i]? = xs[j]? := by
    rw [← getElem?_renumber hp hfind i, ← getElem?_renumber hp hfind j, hij]
  cases hx : xs[i]? with
  | none =>
    have hy : xs[j]? = none := hentries ▸ hx
    simpa [renumber, hx, hy] using hij
  | some e => exact Option.some.inj ((hfind' i e hx).symm.trans (hfind' j e (hentries ▸ hx)))

end Lists

def Table.structPlace? (t : Table) (name : Name) : Option Nat :=
  ((t.get? name).bind Decl.struct?).map StructId.index

def Table.functPlace? (t : Table) (name : Name) : Option Nat :=
  ((t.get? name).bind Decl.funct?).map FunctId.index

/-- A declaration of `t` becomes the declaration of `t'` that has its name. -/
def Renaming.between (t t' : Table) : Renaming where
  struct id := ⟨renumber (t.structs.map StructEntry.name) t'.structPlace? id.index⟩
  funct id := ⟨renumber (t.functs.map FunctEntry.name) t'.functPlace? id.index⟩

/-- Two indexed tables have the same entries in another order, and the same builtins. -/
structure Table.Permutes (t t' : Table) : Prop where
  indexed : t.Indexed
  indexed' : t'.Indexed
  structs : t.structs.Perm t'.structs
  functs : t.functs.Perm t'.functs
  builtins : ∀ id : StructId, id.index < Table.builtinCount → t'.struct? id = t.struct? id

namespace Table

variable {t t' : Table}

theorem Indexed.structPlace? (h : t.Indexed) (i : Nat) (entry : StructEntry)
    (hi : t.structs[i]? = some entry) : t.structPlace? entry.name = some i := by
  have hget : t.get? entry.name = some (.struct ⟨i⟩) := (h _ _).2 (by rw [name?, hi]; rfl)
  rw [Table.structPlace?, hget]
  rfl

theorem Indexed.functPlace? (h : t.Indexed) (i : Nat) (entry : FunctEntry)
    (hi : t.functs[i]? = some entry) : t.functPlace? entry.name = some i := by
  have hget : t.get? entry.name = some (.funct ⟨i⟩) := (h _ _).2 (by rw [name?, hi]; rfl)
  rw [Table.functPlace?, hget]
  rfl

end Table

namespace Table.Permutes

open Renaming

variable {t t' : Table}

variable (h : t.Permutes t')
include h

theorem symm : t'.Permutes t :=
  ⟨h.indexed', h.indexed, h.structs.symm, h.functs.symm, fun id hid => (h.builtins id hid).symm⟩

theorem struct? (id : StructId) : t'.struct? ((between t t').struct id) = t.struct? id :=
  getElem?_renumber h.structs h.indexed'.structPlace? id.index

theorem functEntry? (id : FunctId) :
    t'.functs[((between t t').funct id).index]? = t.functs[id.index]? :=
  getElem?_renumber h.functs h.indexed'.functPlace? id.index

theorem name? (d : Decl) : t'.name? ((between t t').decl d) = t.name? d := by
  cases d with
  | struct id => exact congrArg (Option.map StructEntry.name) (h.struct? id)
  | funct id => exact congrArg (Option.map FunctEntry.name) (h.functEntry? id)

/-- Declarations are found under their new numbers. -/
theorem get? (name : Name) : t'.get? name = (t.get? name).map (between t t').decl := by
  cases hget : t.get? name with
  | some d => exact (h.indexed' _ _).2 ((h.name? d).trans ((h.indexed _ _).1 hget))
  | none =>
    cases hget' : t'.get? name with
    | none => rfl
    | some d =>
      have hd := (h.indexed _ _).2 ((h.symm.name? d).trans ((h.indexed' _ _).1 hget'))
      cases hget.symm.trans hd

theorem struct_builtin {id : StructId} (hid : id.index < builtinCount) :
    (between t t').struct id = id :=
  congrArg StructId.mk (renumber_eq_self h.indexed'.structPlace? (h.builtins id hid))

theorem faithful : (between t t').Faithful where
  struct id id' heq := by
    have hindex := renumber_injective h.structs h.indexed'.structPlace? h.indexed.structPlace?
      (congrArg StructId.index heq)
    cases id
    cases id'
    exact congrArg StructId.mk hindex
  funct id id' heq := by
    have hindex := renumber_injective h.functs h.indexed'.functPlace? h.indexed.functPlace?
      (congrArg FunctId.index heq)
    cases id
    cases id'
    exact congrArg FunctId.mk hindex
  int := h.struct_builtin (by decide)
  bool := h.struct_builtin (by decide)

theorem names : t.names.Follows (between t t') t'.names where
  struct id := by
    show ((t'.name? ((between t t').decl (.struct id))).map text).getD
      ((between t t').struct id).text = ((t.name? (.struct id)).map text).getD id.text
    rw [h.name?]
    cases hs : t.structs[id.index]? with
    | none => simp [between, renumber, hs]
    | some entry => simp [Table.name?, hs]
  funct id := by
    show ((t'.name? ((between t t').decl (.funct id))).map text).getD
      ((between t t').funct id).text = ((t.name? (.funct id)).map text).getD id.text
    rw [h.name?]
    cases hf : t.functs[id.index]? with
    | none => simp [between, renumber, hf]
    | some entry => simp [Table.name?, hf]

/-- Declarations about which nothing is known yet are the same under their new numbers. -/
theorem mirrors {D : Diagnostic → Diagnostic → Prop}
    (hD : ∀ name span words words', D (LookupError.undeclared name span words).toDiagnostic
      (LookupError.undeclared name span words').toDiagnostic)
    (hstructs : ∀ entry ∈ t.structs, entry.fields = [])
    (hfuncts : ∀ entry ∈ t.functs, ∃ span, entry.funct = .declared span) :
    t.Mirrors (between t t') D t' where
  get? := h.get?
  struct? id := by
    rw [h.struct?]
    cases hs : t.struct? id with
    | none => rfl
    | some entry =>
      have hfields := hstructs entry (mem_of_getElem? hs)
      cases entry
      cases hfields
      rfl
  funct? id := by
    rw [funct?, funct?, h.functEntry?]
    cases hf : t.functs[id.index]? with
    | none => rfl
    | some entry =>
      obtain ⟨span, hspan⟩ := hfuncts entry (mem_of_getElem? hf)
      simp [hspan, Function.rename, Function.declared]
  functName id := h.name? (.funct id)
  names := h.names
  undeclared _ _ := hD ..

end Table.Permutes

end Semcheck
