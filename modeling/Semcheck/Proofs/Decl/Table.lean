/-
  Declaration tables in which every reference leads somewhere.

  `Table.Valid` says so, `Table.Plain` that no declared type is erroneous.  In
  a valid table looking a name up meets no fault, and what it finds exists.
  Type syntax becomes a type of declared structs, and a plain one unless a
  diagnostic is reported (`lowerType_spec`).
-/
import Semcheck.Lower.Signature
import Semcheck.Proofs.Infer.Engine

namespace Semcheck

open List Ty Option

def Decl.Within (structs functs : Nat) : Decl → Prop
  | .struct id => id.index < structs
  | .funct id => id.index < functs

/-- The types of a function's signature mention only the first `k` structs, and
    its parameters have registers. -/
structure Function.Signed (k : Nat) (f : Function) : Prop where
  registers : ∀ r ∈ f.registers, r.type.Within 0 k
  returnType : f.returnType.Within 0 k
  params : f.paramCount ≤ f.registers.length
  bindings : ∀ b ∈ f.bindings, b.register.index < f.registers.length

structure Function.Plain (f : Function) : Prop where
  registers : ∀ r ∈ f.registers, r.type.Plain
  returnType : f.returnType.Plain

theorem Function.Signed.signature {k : Nat} {f : Function} (h : f.Signed k) :
    f.signature.Within 0 k := by
  refine within_funct.2 ⟨h.returnType, fun t ht => ?_⟩
  obtain ⟨r, hr, rfl⟩ := mem_map.1 ht
  exact h.registers r (mem_of_mem_take hr)

theorem Function.Plain.signature {f : Function} (h : f.Plain) : f.signature.Plain := by
  refine all_funct.2 ⟨trivial, h.returnType, fun t ht => ?_⟩
  obtain ⟨r, hr, rfl⟩ := mem_map.1 ht
  exact h.registers r (mem_of_mem_take hr)

theorem findField_some {name : String} {fields : List Field} {i : Nat} {field : Field}
    (h : findField name fields = some (i, field)) : fields[i]? = some field := by
  obtain ⟨⟨field', i'⟩, hfind, heq⟩ := map_eq_some_iff.1 h
  cases heq
  exact mem_zipIdx_iff_getElem?.1 (mem_of_find?_eq_some hfind)

namespace Table

/-- Every reference in the table leads to a declaration. -/
structure Valid (t : Table) : Prop where
  builtins : builtinCount ≤ t.structs.length
  index : ∀ entry ∈ t.index, entry.2.Within t.structs.length t.functs.length
  fields : ∀ entry ∈ t.structs, ∀ field ∈ entry.fields, field.type.Within 0 t.structs.length
  functs : ∀ entry ∈ t.functs, entry.funct.Signed t.structs.length

structure Plain (t : Table) : Prop where
  fields : ∀ entry ∈ t.structs, ∀ field ∈ entry.fields, field.type.Plain
  functs : ∀ entry ∈ t.functs, entry.funct.Plain

variable {t : Table}

theorem Valid.int (h : t.Valid) {n : Nat} : (Ty.struct .int).Within n t.structs.length :=
  within_struct.2 (Nat.lt_of_lt_of_le (by decide) h.builtins)

theorem Valid.bool (h : t.Valid) {n : Nat} : (Ty.struct .bool).Within n t.structs.length :=
  within_struct.2 (Nat.lt_of_lt_of_le (by decide) h.builtins)

/-! ## Looking up by number -/

theorem struct?_of_lt {id : StructId} (h : id.index < t.structs.length) :
    ∃ entry ∈ t.structs, t.struct? id = some entry :=
  ⟨_, getElem_mem h, getElem?_eq_getElem h⟩

theorem funct?_of_lt {id : FunctId} (h : id.index < t.functs.length) :
    ∃ entry ∈ t.functs, t.funct? id = some entry.funct :=
  ⟨_, getElem_mem h, by rw [funct?, getElem?_eq_getElem h]; rfl⟩

theorem mem_of_funct? {id : FunctId} {f : Function} (h : t.funct? id = some f) :
    ∃ entry ∈ t.functs, entry.funct = f := by
  obtain ⟨entry, hentry, rfl⟩ := map_eq_some_iff.1 h
  exact ⟨entry, mem_of_getElem? hentry, rfl⟩

theorem fields_eq {id : StructId} {entry : StructEntry} (h : t.struct? id = some entry) :
    t.fields id = .ok entry.fields := by
  rw [fields, h]

theorem funct_eq {id : FunctId} {f : Function} (h : t.funct? id = some f) : t.funct id = .ok f := by
  rw [funct, h]

theorem displayName_ok {d : Decl} (h : d.Within t.structs.length t.functs.length) :
    ∃ name, t.displayName d = .ok name := by
  cases d with
  | struct id =>
    exact ⟨_, by rw [displayName, name?, getElem?_eq_getElem (show id.index < _ from h)]; rfl⟩
  | funct id =>
    exact ⟨_, by rw [displayName, name?, getElem?_eq_getElem (show id.index < _ from h)]; rfl⟩

theorem typeText_ok {n : Nat} {type : Ty} (h : type.Within n t.structs.length) :
    ∃ text, t.typeText type = .ok text := by
  have hall : t.checkStructs type.structs = .ok () := by
    refine forM_eq_ok fun id hid => ?_
    obtain ⟨name, hname⟩ := displayName_ok (t := t) (d := .struct id) (h.struct hid)
    rw [hname]; rfl
  exact ⟨_, by rw [typeText, hall]; rfl⟩

/-! ## Looking up by name -/

theorem Valid.lookup (h : t.Valid) {name : Name} {absolute : Bool} {scope : UseScope} {d : Decl}
    (hd : d ∈ t.lookup name absolute scope) : d.Within t.structs.length t.functs.length := by
  rw [Table.lookup, mem_eraseDups, mem_filterMap] at hd
  obtain ⟨reading, -, hget⟩ := hd
  obtain ⟨entry, hfind, rfl⟩ := map_eq_some_iff.1 hget
  exact h.index _ (mem_of_find?_eq_some hfind)

theorem displayNames_ok {ds : List Decl}
    (h : ∀ d ∈ ds, d.Within t.structs.length t.functs.length) :
    ∃ names, t.displayNames ds = .ok names := by
  induction ds with
  | nil => exact ⟨_, rfl⟩
  | cons d ds ih =>
    obtain ⟨name, hname⟩ := displayName_ok (h d (by simp))
    obtain ⟨names, hnames⟩ := ih fun d hd => h d (mem_cons_of_mem _ hd)
    exact ⟨_, by rw [displayNames, hname, hnames]; rfl⟩

/-- A name is resolved without a fault, and to a declaration that exists. -/
theorem Valid.resolve (h : t.Valid) (name : Name) (absolute : Bool) (scope : UseScope)
    (span : Location) : ∃ r, t.resolve name absolute scope span = .ok r ∧
      ∀ d, r = .ok d → d.Within t.structs.length t.functs.length := by
  have hall : ∀ d ∈ t.lookup name absolute scope, d.Within t.structs.length t.functs.length :=
    fun d hd => h.lookup hd
  rw [Table.resolve]
  match hcs : t.lookup name absolute scope with
  | [] => exact ⟨_, rfl, by rintro d ⟨⟩⟩
  | [only] =>
    refine ⟨_, rfl, ?_⟩
    rintro _ ⟨⟩
    exact hall only (by simp [hcs])
  | c1 :: c2 :: rest =>
    obtain ⟨names, hnames⟩ := displayNames_ok (hcs ▸ hall)
    exact ⟨_, by rw [onlyDecl, hnames]; rfl; simp; simp, by rintro d ⟨⟩⟩

theorem Valid.resolveType (h : t.Valid) (name : Name) (absolute : Bool) (scope : UseScope)
    (span : Location) : ∃ r, t.resolveType name absolute scope span = .ok r ∧
      ∀ id : StructId, r = .ok id → id.index < t.structs.length := by
  obtain ⟨r, hr, hd⟩ := h.resolve name absolute scope span
  rw [Table.resolveType, hr]
  cases r with
  | error e => exact ⟨_, rfl, by rintro id ⟨⟩⟩
  | ok d =>
    refine ⟨_, rfl, fun id hid => ?_⟩
    have := hd d rfl
    cases d with
    | struct id' => cases hid; exact this
    | funct id' => cases hid

end Table

/-! ## Type syntax -/

/-- What a step that may add to the report leaves behind. -/
structure Report.Typed {α : Type} (report : Report) (within plain : α → Prop) (a : α)
    (report' : Report) : Prop where
  within : within a
  grows : report.entries <+: report'.entries
  plain : report'.entries = [] → plain a

section LowerType

variable {table : Table} (scope : UseScope)

mutual

/-- Type syntax stands for a type of declared structs, which is plain unless a
    diagnostic is reported. -/
theorem lowerType_spec (ht : table.Valid) (type : TypeExpr) (report : Report) :
    ∃ t report', (lowerType table scope type).run report = .ok (t, report') ∧
      report.Typed (Ty.Within 0 table.structs.length) Ty.Plain t report' := by
  match type with
  | .path path span =>
    obtain ⟨r, hr, hid⟩ := ht.resolveType path.toName path.absolute scope path.span
    have hrun : (liftM (table.resolveType path.toName path.absolute scope path.span) :
        ReportM _).run report = .ok (r, report) := by rw [hr]; rfl
    rw [lowerType, run_bind hrun]
    cases r with
    | ok id =>
      exact ⟨_, _, rfl, within_struct.2 (hid id rfl), prefix_rfl, fun _ => by
        simp [Ty.Plain, Ty.All, Ty.IsPlain]⟩
    | error e =>
      exact ⟨_, _, rfl, within_error, prefix_append _ _, fun h => by simp at h⟩
  | .pointer mutable lifetime pointee span =>
    obtain ⟨t, report', hrun, hspec⟩ := lowerType_spec ht pointee report
    rw [lowerType, run_bind hrun]
    exact ⟨_, _, rfl, within_pointer.2 hspec.within, hspec.grows,
      fun h => all_pointer.2 ⟨trivial, hspec.plain h⟩⟩
  | .tuple elements span =>
    obtain ⟨ts, report', hrun, hspec⟩ := lowerTypes_spec ht elements report
    rw [lowerType, run_bind hrun]
    exact ⟨_, _, rfl, within_tuple.2 hspec.within, hspec.grows,
      fun h => all_tuple.2 ⟨trivial, hspec.plain h⟩⟩
  | .funct params none span =>
    obtain ⟨ts, report', hrun, hspec⟩ := lowerTypes_spec ht params report
    rw [lowerType, run_bind hrun]
    exact ⟨_, _, rfl, within_funct.2 ⟨within_unit, hspec.within⟩, hspec.grows,
      fun h => all_funct.2 ⟨trivial, plain_unit, hspec.plain h⟩⟩
  | .funct params (some returns) span =>
    obtain ⟨ts, report1, hrun1, h1⟩ := lowerTypes_spec ht params report
    obtain ⟨t, report2, hrun2, h2⟩ := lowerType_spec ht returns report1
    rw [lowerType, run_bind hrun1, run_bind hrun2]
    refine ⟨_, _, rfl, within_funct.2 ⟨h2.within, h1.within⟩, h1.grows.trans h2.grows,
      fun h => all_funct.2 ⟨trivial, h2.plain h, h1.plain ?_⟩⟩
    exact prefix_nil.1 (h ▸ h2.grows)

theorem lowerTypes_spec (ht : table.Valid) (types : List TypeExpr) (report : Report) :
    ∃ ts report', (lowerTypes table scope types).run report = .ok (ts, report') ∧
      report.Typed (fun ts => ∀ t ∈ ts, Ty.Within 0 table.structs.length t)
        (fun ts => ∀ t ∈ ts, Ty.Plain t) ts report' := by
  match types with
  | [] => exact ⟨_, _, rfl, by simp, prefix_rfl, by simp⟩
  | type :: rest =>
    obtain ⟨t, report1, hrun1, h1⟩ := lowerType_spec ht type report
    obtain ⟨ts, report2, hrun2, h2⟩ := lowerTypes_spec ht rest report1
    rw [lowerTypes, run_bind hrun1, run_bind hrun2]
    refine ⟨_, _, rfl, ?_, h1.grows.trans h2.grows, fun h => ?_⟩
    · exact forall_mem_cons.2 ⟨h1.within, h2.within⟩
    · exact forall_mem_cons.2 ⟨h1.plain (prefix_nil.1 (h ▸ h2.grows)), h2.plain h⟩

end

end LowerType

end Semcheck
