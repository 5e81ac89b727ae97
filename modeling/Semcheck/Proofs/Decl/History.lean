/-
  Tables after any history of declarations.

  A `Registration` asks for a struct or a function of a given name, and
  `Table.history` is the table after a list of registrations, of which some may
  be rejected.  What such a table says can be read off the list
  (`Table.Records`): names and declarations correspond one to one, the declared
  names are those of the list and of the builtin types, and a declaration stands
  where its name was registered first.

  One registration keeps this (`Table.Records.after`), and so every history has
  it (`Table.history_records`).
-/
import Mathlib.Data.List.Nodup
import Semcheck.Proofs.Decl.Renumber
import Semcheck.Proofs.Decl.Table

namespace Semcheck

open List Option Table

/-! ## Registrations -/

/-- A name to be declared, and where it is written. -/
inductive Registration where
  | struct (name : Name) (span : Location)
  | funct (name : Name) (span : Location)

namespace Registration

def name : Registration → Name
  | .struct name _ | .funct name _ => name

def span : Registration → Location
  | .struct _ span | .funct _ span => span

end Registration

namespace Table

def register (t : Table) : Registration → Except LookupError (Decl × Table)
  | .struct name span => (t.addStruct name span).map fun out => (.struct out.1, out.2)
  | .funct name span => (t.addFunct name span).map fun out => (.funct out.1, out.2)

/-- The table after a registration; a rejected one leaves it as it is. -/
def after (t : Table) (r : Registration) : Table :=
  match t.register r with
  | .ok (_, t') => t'
  | .error _ => t

def history (rs : List Registration) : Table :=
  rs.foldl after builtin

variable {t t' : Table} {r : Registration} {rs : List Registration} {d : Decl} {name : Name}

/-! ## One registration -/

theorem register_of_some (h : t.get? r.name = some d) :
    t.register r = .error (t.duplicate r.name d r.span) := by
  cases r with
  | struct name span => rw [register, addStruct, show t.get? name = some d from h]; rfl
  | funct name span => rw [register, addFunct, show t.get? name = some d from h]; rfl

/-- What an accepted registration does to a table. -/
structure Registers (t : Table) (r : Registration) (d : Decl) (t' : Table) : Prop
    extends t.Declares r.name d t' where
  index : t'.index = t.index ++ [(r.name, d)]
  placed : t'.span d = .ok (some r.span)
  kept : ∀ e, t.name? e ≠ none → t'.span e = t.span e
  grows : t.structs.length ≤ t'.structs.length

/-- What a table declares stands in a longer one where it stood. -/
theorem span_of_append {structs : List StructEntry} {functs : List FunctEntry} {e : Decl}
    (hstructs : t'.structs = t.structs ++ structs) (hfuncts : t'.functs = t.functs ++ functs)
    (h : t.name? e ≠ none) : t'.span e = t.span e := by
  cases e with
  | struct id =>
    have hlt : id.index < t.structs.length := by
      by_contra hge
      exact h (by simp [name?, getElem?_eq_none (Nat.not_lt.1 hge)])
    simp only [span, hstructs, getElem?_append_left hlt]
  | funct id =>
    have hlt : id.index < t.functs.length := by
      by_contra hge
      exact h (by simp [name?, getElem?_eq_none (Nat.not_lt.1 hge)])
    simp only [span, hfuncts, getElem?_append_left hlt]

theorem register_of_none (hbuiltins : builtinCount ≤ t.structs.length)
    (h : t.get? r.name = none) : ∃ d t', t.register r = .ok (d, t') ∧ t.Registers r d t' := by
  cases r with
  | struct name span =>
    change t.get? name = none at h
    refine ⟨_, _, by rw [register, addStruct_of_none h]; rfl, declares_struct h span, rfl, ?_,
      fun e => span_of_append rfl (append_nil _).symm, ?_⟩
    · simp [Table.span, Nat.not_lt.2 hbuiltins, Registration.span]
    · simp
  | funct name span =>
    change t.get? name = none at h
    refine ⟨_, _, by rw [register, addFunct_of_none h]; rfl, declares_funct h span, rfl, ?_,
      fun e => span_of_append (append_nil _).symm rfl, ?_⟩
    · simp [Table.span, Function.declared, Registration.span]
    · exact Nat.le_refl _

/-- A name that is taken stays with its declaration. -/
theorem get?_after (hbuiltins : builtinCount ≤ t.structs.length) (h : t.get? name = some d)
    (r : Registration) : (t.after r).get? name = some d := by
  cases hr : t.get? r.name with
  | some e => rw [after, register_of_some hr]; exact h
  | none =>
    obtain ⟨e, t', hrun, hregisters⟩ := register_of_none hbuiltins hr
    rw [after, hrun]
    exact hregisters.toDeclares.kept h

/-! ## Histories -/

/-- Where a name was registered first; a builtin name was never registered. -/
def firstSpan (rs : List Registration) (name : Name) : Option Location :=
  if (builtin.get? name).isSome then none
  else (rs.find? fun r => r.name = name).map Registration.span

/-- What the table says about names is what the registrations say. -/
structure Records (t : Table) (rs : List Registration) : Prop where
  builtins : builtinCount ≤ t.structs.length
  indexed : t.Indexed
  keys : (t.index.map Prod.fst).Nodup
  declared : ∀ name, (t.get? name).isSome ↔
    (builtin.get? name).isSome ∨ ∃ r ∈ rs, r.name = name
  spans : ∀ name d, t.get? name = some d → t.span d = .ok (firstSpan rs name)

theorem records_builtin : builtin.Records [] where
  builtins := by decide
  indexed := indexed_builtin
  keys := by decide
  declared name := by simp
  spans name d h := by
    have hspan : firstSpan [] name = none := by simp [firstSpan]
    rw [hspan]
    obtain ⟨entry, hentry, rfl⟩ := map_eq_some_iff.1 h
    have hmem := mem_of_find?_eq_some hentry
    simp only [builtin, mem_cons, not_mem_nil, or_false] at hmem
    rcases hmem with rfl | rfl <;> rfl

theorem exists_find?_eq_some (h : r ∈ rs) (hname : r.name = name) :
    ∃ p, rs.find? (fun p => p.name = name) = some p :=
  isSome_iff_exists.1 (find?_isSome.2 ⟨r, h, by simpa using hname⟩)

theorem firstSpan_append_of_ne (h : r.name ≠ name) :
    firstSpan (rs ++ [r]) name = firstSpan rs name := by
  simp [firstSpan, find?_append, h]

namespace Records

variable (h : t.Records rs)
include h

theorem reject (hr : t.get? r.name = some d) : t.Records (rs ++ [r]) where
  builtins := h.builtins
  indexed := h.indexed
  keys := h.keys
  declared name := by
    have htaken := (h.declared r.name).1 (by rw [hr]; rfl)
    simp only [h.declared, mem_append, mem_singleton, or_and_right, exists_or, exists_eq_left]
    constructor
    · exact .imp_right .inl
    · rintro (hname | hname | rfl)
      · exact .inl hname
      · exact .inr hname
      · exact htaken
  spans name e he := by
    rw [h.spans name e he]
    congr 1
    by_cases hname : r.name = name
    · -- the name is a builtin one or was registered before
      subst hname
      rcases (h.declared r.name).1 (by rw [hr]; rfl) with hbuiltin | ⟨p, hp, hpname⟩
      · simp [firstSpan, hbuiltin]
      · obtain ⟨q, hq⟩ := exists_find?_eq_some hp hpname
        simp [firstSpan, find?_append, hq]
    · exact (firstSpan_append_of_ne hname).symm

theorem accept (hr : t.Registers r d t') : t'.Records (rs ++ [r]) where
  builtins := Nat.le_trans h.builtins hr.grows
  indexed := hr.toDeclares.indexed h.indexed
  keys := by
    rw [hr.index, map_append]
    refine nodup_append'.2 ⟨h.keys, by simp, fun name hname hnew => ?_⟩
    obtain ⟨entry, hentry, rfl⟩ := mem_map.1 hname
    have hfree : t.get? entry.1 = none := (mem_singleton.1 hnew) ▸ hr.unused
    simp only [get?, map_eq_none_iff, find?_eq_none] at hfree
    exact hfree entry hentry (by simp)
  declared name := by
    rw [hr.get?]
    simp only [mem_append, mem_singleton, or_and_right, exists_or, exists_eq_left]
    by_cases hname : name = r.name
    · simp [hname]
    · simp only [if_neg hname, h.declared, Ne.symm hname, or_false]
  spans name e he := by
    have hnew : ¬ ((builtin.get? r.name).isSome ∨ ∃ p ∈ rs, p.name = r.name) := by
      rw [← h.declared, hr.unused]
      simp
    rw [hr.get?] at he
    by_cases hname : name = r.name
    · rw [if_pos hname] at he
      cases he
      subst hname
      have hnone : rs.find? (fun p => p.name = r.name) = none :=
        find?_eq_none.2 fun p hp heq => hnew (.inr ⟨p, hp, by simpa using heq⟩)
      rw [hr.placed]
      simp [firstSpan, find?_append, hnone, not_or.1 hnew]
    · rw [if_neg hname] at he
      rw [firstSpan_append_of_ne (Ne.symm hname), ← h.spans name e he]
      exact hr.kept e (by simp [(h.indexed name e).1 he])

theorem after (r : Registration) : (t.after r).Records (rs ++ [r]) := by
  cases hr : t.get? r.name with
  | some d => rw [Table.after, register_of_some hr]; exact h.reject hr
  | none =>
    obtain ⟨d, t', hrun, hregisters⟩ := register_of_none h.builtins hr
    rw [Table.after, hrun]
    exact h.accept hregisters

theorem foldl (more : List Registration) : (more.foldl Table.after t).Records (rs ++ more) := by
  induction more generalizing t rs with
  | nil => simpa using h
  | cons r more ih => simpa using ih (h.after r)

/-- A name keeps its declaration whatever is registered later. -/
theorem get?_foldl {name : Name} (hd : t.get? name = some d) (more : List Registration) :
    (more.foldl Table.after t).get? name = some d := by
  induction more generalizing t rs with
  | nil => exact hd
  | cons r more ih => exact ih (h.after r) (get?_after h.builtins hd r)

end Records

theorem history_records (rs : List Registration) : (history rs).Records rs :=
  records_builtin.foldl rs

/-- The index lists every declared name once. -/
theorem Records.mem_index (h : t.Records rs) : (name, d) ∈ t.index ↔ t.get? name = some d := by
  constructor
  · intro hmem
    cases hget : t.index.find? (fun entry => entry.1 = name) with
    | none => exact absurd (find?_eq_none.1 hget _ hmem) (by simp)
    | some entry =>
      have hname : entry.1 = name := by simpa using find?_some hget
      have hsame := inj_on_of_nodup_map h.keys (mem_of_find?_eq_some hget) hmem hname
      rw [get?, hget, hsame]
      rfl
  · intro hget
    obtain ⟨entry, hfind, rfl⟩ := map_eq_some_iff.1 hget
    have hname : entry.1 = name := by simpa using find?_some hfind
    exact hname ▸ mem_of_find?_eq_some hfind

theorem isSome_get?_builtin :
    (builtin.get? name).isSome ↔ name = ⟨["int"]⟩ ∨ name = ⟨["bool"]⟩ := by
  simp only [get?, isSome_map, find?_isSome, builtin, mem_cons, not_mem_nil,
    or_false, exists_eq_or_imp, exists_eq_left, decide_eq_true_eq]
  exact or_congr eq_comm eq_comm

theorem isSome_name? : (t.name? d).isSome ↔ d.Within t.structs.length t.functs.length := by
  cases d <;> simp [name?, Decl.Within]

/-- A table rejects what its history took, and says where. -/
theorem Records.register_eq_error (h : t.Records rs) {e : LookupError} :
    t.register r = .error e ↔ (t.get? r.name).isSome ∧
      e = .duplicate r.name.text (firstSpan rs r.name) r.span := by
  cases hr : t.get? r.name with
  | some d =>
    rw [register_of_some hr, duplicate, h.spans _ _ hr]
    simp [eq_comm]
  | none =>
    obtain ⟨d, t', hrun, -⟩ := register_of_none h.builtins hr
    simp [hrun]

/-- **A table is what its history says.**  Names and declarations correspond one to one, and
    for good; a registration is rejected exactly if its name is taken, which changes nothing
    and is reported with the place where the name was taken. -/
theorem history_faithful (rs : List Registration) :
    ((history rs).index.map Prod.fst).Nodup ∧
    (∀ name d, (name, d) ∈ (history rs).index ↔ (history rs).get? name = some d) ∧
    (∀ name d, (history rs).get? name = some d ↔ (history rs).name? d = some name) ∧
    (∀ d, (∃ name, (history rs).get? name = some d) ↔
      d.Within (history rs).structs.length (history rs).functs.length) ∧
    (∀ more d name, (history rs).name? d = some name →
      (history (rs ++ more)).name? d = some name) ∧
    (∀ r d t, (history rs).register r = .ok (d, t) → history (rs ++ [r]) = t ∧
      (history rs).name? d = none ∧ t.name? d = some r.name) ∧
    (∀ r, (∃ e, (history rs).register r = .error e) ↔ ((history rs).get? r.name).isSome) ∧
    ∀ r e, (history rs).register r = .error e → history (rs ++ [r]) = history rs ∧
      ((r.name = ⟨["int"]⟩ ∨ r.name = ⟨["bool"]⟩) ∧ e = .duplicate r.name.text none r.span ∨
        ¬ (r.name = ⟨["int"]⟩ ∨ r.name = ⟨["bool"]⟩) ∧
          ∃ p, rs.find? (fun p => p.name = r.name) = some p ∧
            e = .duplicate r.name.text (some p.span) r.span) := by
  have h := history_records rs
  have hsnoc : ∀ r, history (rs ++ [r]) = (history rs).after r := fun r => by
    simp [history, List.foldl_append]
  refine ⟨h.keys, fun name d => h.mem_index, h.indexed, fun d => ?_, fun more d name hname => ?_,
    fun r d t hrun => ?_, fun r => ?_, fun r e hrun => ⟨?_, ?_⟩⟩
  · simp only [h.indexed _ d, ← Option.isSome_iff_exists, isSome_name?]
  · have hmore := history_records (rs ++ more)
    refine (hmore.indexed name d).1 ?_
    rw [history, List.foldl_append]
    exact h.get?_foldl ((h.indexed name d).2 hname) more
  · rw [hsnoc, after, hrun]
    cases hr : (history rs).get? r.name with
    | some d' => rw [register_of_some hr] at hrun; cases hrun
    | none =>
      obtain ⟨d', t', hrun', hregisters⟩ := register_of_none h.builtins hr
      cases hrun.symm.trans hrun'
      exact ⟨rfl, hregisters.unnamed, by rw [hregisters.name?, if_pos rfl]⟩
  · simp [h.register_eq_error]
  · rw [hsnoc, after, hrun]
  · obtain ⟨htaken, rfl⟩ := h.register_eq_error.1 hrun
    rw [← isSome_get?_builtin]
    by_cases hbuiltin : (builtin.get? r.name).isSome
    · exact .inl ⟨hbuiltin, by rw [firstSpan, if_pos hbuiltin]⟩
    · obtain ⟨p, hp, hname⟩ := ((h.declared r.name).1 htaken).resolve_left hbuiltin
      obtain ⟨q, hq⟩ := exists_find?_eq_some hp hname
      exact .inr ⟨hbuiltin, q, hq, by rw [firstSpan, if_neg hbuiltin, hq]; rfl⟩

end Table

end Semcheck
