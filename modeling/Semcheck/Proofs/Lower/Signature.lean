/-
  The passes that declare names and resolve signatures.

  * `Program.Valid`: every declaration refers to declarations that exist, and no
    function has a body yet; while nothing is reported no type is erroneous;
  * `Program.Later`: what a step of these passes does to a program;
  * `Outline.Valid`: what is left to do is about what is declared, and there is
    one entry for every function.

  `Outline.ofFiles_valid`, `lowerSignatures_spec`: both passes go through without
  fault or defect.
-/
import Semcheck.Proofs.Lower.Function
import Semcheck.Proofs.Tree.Marks

namespace Semcheck

open List Outline Draft

/-! ## Changing the table -/

theorem mem_modify {α : Type} {f : α → α} {xs : List α} {i : Nat} {y : α}
    (h : y ∈ xs.modify i f) : y ∈ xs ∨ ∃ x ∈ xs, y = f x := by
  obtain ⟨j, hj⟩ := mem_iff_getElem?.1 h
  rw [getElem?_modify] at hj
  obtain ⟨x, hx, rfl⟩ := Option.map_eq_some_iff.1 hj
  split
  · exact .inr ⟨x, mem_of_getElem? hx, rfl⟩
  · exact .inl (mem_of_getElem? hx)

theorem Decl.Within.mono {n n' m m' : Nat} {d : Decl} (h : d.Within n m) (hn : n ≤ n')
    (hm : m ≤ m') : d.Within n' m' := by
  cases d with
  | struct id => exact Nat.lt_of_lt_of_le h hn
  | funct id => exact Nat.lt_of_lt_of_le h hm

namespace Function

variable {f : Function} {k k' : Nat}

theorem Signed.mono (h : f.Signed k) (hk : k ≤ k') : f.Signed k' where
  registers r hr := (h.registers r hr).mono (Nat.le_refl _) hk
  returnType := h.returnType.mono (Nat.le_refl _) hk
  params := h.params
  bindings := h.bindings

theorem signed_declared (span : Location) : (declared span).Signed k :=
  ⟨by simp [declared], Ty.within_unit, Nat.le_refl _, by simp [declared]⟩

theorem plain_declared (span : Location) : (declared span).Plain :=
  ⟨by simp [declared], Ty.plain_unit⟩

theorem header_declared (span : Location) : (declared span).Header :=
  ⟨rfl, rfl, rfl⟩

end Function

namespace Table

variable {t t' : Table} {id : FunctId} {f : Function} {span : Location} {name : Name}

/-- No function has a body. -/
def Headed (t : Table) : Prop :=
  ∀ entry ∈ t.functs, entry.funct.Header

theorem Valid.addStruct (h : t.Valid) {id : StructId}
    (hadd : t.addStruct name span = .ok (id, t')) :
    t'.Valid ∧ (t.Plain → t'.Plain) ∧ t'.functs = t.functs ∧ id.index < t'.structs.length ∧
      t.structs.length ≤ t'.structs.length := by
  rw [Table.addStruct] at hadd
  split at hadd
  · cases hadd
  · cases hadd
    have hlt : t.structs.length ≤ (t.structs ++ [(⟨name, [], span⟩ : StructEntry)]).length := by simp
    refine ⟨⟨Nat.le_trans h.builtins hlt, ?_, ?_, fun entry he => (h.functs entry he).mono hlt⟩,
      fun hp => ⟨?_, hp.functs⟩, rfl, by simp, hlt⟩
    · refine forall_mem_append.2 ⟨fun entry he => (h.index entry he).mono hlt (Nat.le_refl _), ?_⟩
      simp [Decl.Within]
    · refine forall_mem_append.2 ⟨fun entry he field hf => ?_, by simp⟩
      exact (h.fields entry he field hf).mono (Nat.le_refl _) hlt
    · exact forall_mem_append.2 ⟨hp.fields, by simp⟩

theorem Valid.addFunct (h : t.Valid) (hadd : t.addFunct name span = .ok (id, t')) :
    t'.Valid ∧ (t.Plain → t'.Plain) ∧ (t.Headed → t'.Headed) ∧ t'.structs = t.structs ∧
      id = ⟨t.functs.length⟩ ∧ t'.functs.length = t.functs.length + 1 := by
  rw [Table.addFunct] at hadd
  split at hadd
  · cases hadd
  · cases hadd
    refine ⟨⟨h.builtins, ?_, h.fields, ?_⟩, fun hp => ⟨hp.fields, ?_⟩, fun hh => ?_, rfl, rfl,
      by simp⟩
    · refine forall_mem_append.2 ⟨fun entry he => ?_, by simp [Decl.Within]⟩
      exact (h.index entry he).mono (Nat.le_refl _) (by simp)
    · exact forall_mem_append.2 ⟨h.functs, by simp [Function.signed_declared]⟩
    · exact forall_mem_append.2 ⟨hp.functs, by simp [Function.plain_declared]⟩
    · exact forall_mem_append.2 ⟨hh, by simp [Function.header_declared]⟩

theorem Valid.addField (h : t.Valid) {id : StructId} (hid : id.index < t.structs.length)
    (field : Field) (hf : field.type.Within 0 t.structs.length) :
    ∃ t', t.addField id field = .ok t' ∧ t'.Valid ∧ (t.Plain → field.type.Plain → t'.Plain) ∧
      t'.functs = t.functs ∧ t'.structs.length = t.structs.length := by
  have hold : ∀ P : Field → Prop, (∀ entry ∈ t.structs, ∀ f ∈ entry.fields, P f) → P field →
      ∀ entry ∈ t.structs.modify id.index fun entry =>
        { entry with fields := entry.fields ++ [field] }, ∀ f ∈ entry.fields, P f := by
    intro P hall hfield entry he
    rcases mem_modify he with he | ⟨old, hold, rfl⟩
    · exact hall entry he
    · exact forall_mem_append.2 ⟨hall old hold, by simpa using hfield⟩
  refine ⟨_, if_pos hid, ⟨?_, ?_, ?_, ?_⟩, fun hp hplain => ⟨?_, hp.functs⟩, rfl, by simp⟩
  · simpa using h.builtins
  · simpa using h.index
  · simpa using hold _ h.fields hf
  · simpa using h.functs
  · exact hold _ hp.fields hplain

/-- What is known about a function is replaced. -/
def withFunct (t : Table) (id : FunctId) (f : Function) : Table :=
  { t with functs := t.functs.modify id.index fun entry => { entry with funct := f } }

theorem setFunct_eq (hid : id.index < t.functs.length) (f : Function) :
    t.setFunct id f = .ok (t.withFunct id f) :=
  if_pos hid

@[simp] theorem length_withFunct (id : FunctId) (f : Function) :
    (t.withFunct id f).functs.length = t.functs.length := by
  simp [withFunct]

theorem forall_withFunct {P : Function → Prop} (h : ∀ entry ∈ t.functs, P entry.funct) (hf : P f)
    (id : FunctId) : ∀ entry ∈ (t.withFunct id f).functs, P entry.funct := by
  intro entry he
  rcases mem_modify he with he | ⟨old, -, rfl⟩
  · exact h entry he
  · exact hf

theorem Valid.withFunct (h : t.Valid) (hf : f.Signed t.structs.length) (id : FunctId) :
    (t.withFunct id f).Valid :=
  ⟨h.builtins, by simpa [Table.withFunct] using h.index, h.fields, forall_withFunct h.functs hf id⟩

theorem funct?_withFunct {id' : FunctId} (hid : id.index < t.functs.length) :
    (t.withFunct id f).funct? id' = if id' = id then some f else t.funct? id' := by
  simp only [funct?, Table.withFunct, getElem?_modify]
  by_cases h : id' = id
  · subst h
    simp [getElem?_eq_getElem hid]
  · have hne : id.index ≠ id'.index := fun heq => h (by cases id; cases id'; simp_all)
    simp [h, hne]

end Table

/-! ## Steps -/

namespace Program

/-- Every declaration refers to declarations that exist, no function has a body,
    and while nothing is reported no type is erroneous. -/
structure Valid (p : Program) : Prop where
  table : p.table.Valid
  headed : p.table.Headed
  plain : p.report.entries = [] → p.table.Plain

/-- What resolving signatures does to a program. -/
structure Later (p p' : Program) : Prop where
  valid : p'.Valid
  structs : p'.table.structs.length = p.table.structs.length
  functs : p'.table.functs.length = p.table.functs.length
  report : p.report.entries <+: p'.report.entries

variable {p p1 p2 : Program}

theorem Later.refl (h : p.Valid) : p.Later p := ⟨h, rfl, rfl, prefix_rfl⟩

theorem Later.trans (h1 : p.Later p1) (h2 : p1.Later p2) : p.Later p2 :=
  ⟨h2.valid, h2.structs.trans h1.structs, h2.functs.trans h1.functs, h1.report.trans h2.report⟩

theorem Later.reported (h : p.Valid) {report : Report} (hr : p.report.entries <+: report.entries) :
    p.Later { p with report := report } :=
  ⟨⟨h.table, h.headed, fun hq => h.plain (prefix_nil.1 (hq ▸ hr))⟩, rfl, rfl, hr⟩

end Program

namespace ProgramM

variable {α β : Type} {p : Program} {Q : α → Program → Prop} {R : β → Program → Prop}
  {f : α → ProgramM β} {x : ProgramM α} {a : α}

/-- The step meets neither a fault nor a defect, and its result satisfies the
    postcondition. -/
def Spec (p : Program) (step : ProgramM α) (Q : α → Program → Prop) : Prop :=
  ∃ a p', step.run p = .ok (a, p') ∧ p.Later p' ∧ Q a p'

theorem Spec.bind (hx : Spec p x Q) (hf : ∀ a p', p.Later p' → Q a p' → Spec p' (f a) R) :
    Spec p (x >>= f) R := by
  obtain ⟨a, p1, hrun1, hl1, hq⟩ := hx
  obtain ⟨b, p2, hrun2, hl2, hr⟩ := hf a p1 hl1 hq
  exact ⟨b, p2, (run_bind hrun1).trans hrun2, hl1.trans hl2, hr⟩

theorem Spec.look (hx : x.run p = .ok (a, p)) (hf : Spec p (f a) R) : Spec p (x >>= f) R := by
  obtain ⟨b, p', hrun, h⟩ := hf
  exact ⟨b, p', (run_bind hx).trans hrun, h⟩

theorem Spec.pure (hp : p.Valid) (h : Q a p) : Spec p (pure a) Q :=
  ⟨a, p, rfl, .refl hp, h⟩

theorem Spec.forM {f : α → ProgramM Unit} {xs : List α} (hp : p.Valid)
    (h : ∀ x ∈ xs, ∀ p', p.Later p' → Spec p' (f x) fun _ _ => True) :
    Spec p (xs.forM f) fun _ _ => True := by
  induction xs generalizing p with
  | nil => exact .pure hp trivial
  | cons x xs ih =>
    refine (h x (by simp) p (.refl hp)).bind fun _ p1 hl1 _ => ih hl1.valid fun y hy p' hl => ?_
    exact h y (mem_cons_of_mem _ hy) p' (hl1.trans hl)

theorem get_run (p : Program) : (get : ProgramM Program).run p = .ok (p, p) := rfl

theorem orFault_run {x : Except Fault α} (h : x = .ok a) : (orFault x).run p = .ok (a, p) := by
  rw [h]
  rfl

theorem reporting_spec (hp : p.Valid) {step : Table → ReportM α} {within plain : α → Prop}
    {report : Report} (hrun : (step p.table).run p.report = .ok (a, report))
    (ht : p.report.Typed within plain a report) :
    Spec p (reporting step) fun a p' => p'.table = p.table ∧ within a ∧
      (p'.report.entries = [] → plain a) := by
  refine ⟨a, { p with report := report }, ?_, .reported hp ht.grows, rfl, ht.within, ht.plain⟩
  rw [reporting, run_bind (get_run p), run_bind (orFault_run hrun)]
  rfl

theorem updating_spec {change : Table → Except Fault Table} {t : Table}
    (h : change p.table = .ok t) (hl : p.Later { p with table := t }) :
    Spec p (updating change) fun _ _ => True := by
  refine ⟨(), _, ?_, hl, trivial⟩
  rw [updating, run_bind (get_run p), run_bind (orFault_run h)]
  rfl

end ProgramM

/-! ## Signatures -/

section Signatures

open ProgramM

variable {p : Program}

theorem lowerField_spec (hp : p.Valid) {id : StructId} (hid : id.index < p.table.structs.length)
    (scope : UseScope) (field : FieldDecl) :
    Spec p (lowerField id scope field) fun _ _ => True := by
  obtain ⟨t, report, hrun, htyped⟩ := lowerType_spec scope hp.table field.type p.report
  refine (reporting_spec hp hrun htyped).bind fun type p1 hl1 ⟨htable, hwithin, hplain⟩ => ?_
  rw [← hl1.structs] at hid
  rw [← htable] at hwithin
  obtain ⟨entry, -, hentry⟩ := Table.struct?_of_lt hid
  refine Spec.look (ProgramM.get_run p1) (Spec.look (orFault_run (Table.fields_eq hentry)) ?_)
  cases findField field.name.text entry.fields with
  | some found => exact ⟨(), _, rfl, .reported hl1.valid (prefix_append _ _), trivial⟩
  | none =>
    obtain ⟨t', hadd, hvalid, hplain', hfuncts, hlength⟩ := hl1.valid.table.addField hid
      ⟨field.name.text, type, field.span⟩ hwithin
    refine updating_spec hadd ⟨⟨hvalid, ?_, fun hq => ?_⟩, hlength, ?_, prefix_rfl⟩
    · rw [Table.Headed, hfuncts]
      exact hl1.valid.headed
    · exact hplain' (hl1.valid.plain hq) (hplain hq)
    · rw [hfuncts]

theorem lowerStruct_spec (hp : p.Valid) {pending : PendingStruct}
    (hid : pending.id.index < p.table.structs.length) :
    Spec p (lowerStruct pending) fun _ _ => True :=
  Spec.forM hp fun field _ _ hl =>
    lowerField_spec hl.valid (hl.structs ▸ hid) pending.scope field

/-- The draft has parameters only, the types of which mention the first `k`
    structs. -/
structure Draft.Params (k : Nat) (d : Draft) : Prop where
  registers : d.registers.length = d.paramCount
  bindings : d.bindings.map Binding.register = (List.range d.paramCount).map RegisterId.mk
  types : ∀ r ∈ d.registers, r.type.Within 0 k

theorem Draft.Params.addParam {k : Nat} {d : Draft} (h : d.Params k) (name : String) {type : Ty}
    (ht : type.Within 0 k) (mutable : Bool) (span : Location) :
    ∃ r d', d.addParam name type mutable span = .ok (r, d') ∧ d'.Params k ∧
      d'.registers = d.registers ++ [⟨type, span⟩] := by
  refine ⟨_, _, if_neg (not_not.2 h.registers), ⟨?_, ?_, ?_⟩, rfl⟩
  · simp [bind, h.registers]
  · simp [bind, h.bindings, h.registers, range_succ]
  · exact forall_mem_append.2 ⟨h.types, by simpa using ht⟩

theorem lowerParams_spec (hp : p.Valid) (scope : UseScope) (params : List ParamDecl) {d : Draft}
    (hd : d.Params p.table.structs.length) :
    Spec p (lowerParams scope params d) fun d' p' => d'.Params p.table.structs.length ∧
      (p'.report.entries = [] → (∀ r ∈ d.registers, r.type.Plain) →
        ∀ r ∈ d'.registers, r.type.Plain) := by
  induction params generalizing p d with
  | nil => exact .pure hp ⟨hd, fun _ h => h⟩
  | cons param rest ih =>
    obtain ⟨t, report, hrun, htyped⟩ := lowerType_spec scope hp.table param.type p.report
    refine (reporting_spec hp hrun htyped).bind fun type p1 hl1 ⟨htable, hwithin, hplain⟩ => ?_
    obtain ⟨r, d1, hadd, hd1, hregisters⟩ :=
      hd.addParam param.name.text hwithin param.mutable param.span
    have hdefect : (orDefect (d.addParam param.name.text type param.mutable param.span)).run p1 =
        .ok ((r, d1), p1) := by
      rw [hadd]
      rfl
    refine .look hdefect ?_
    obtain ⟨d', p', hrun', hl', hd', hplain'⟩ := ih hl1.valid (hl1.structs ▸ hd1)
    refine ⟨d', p', hrun', hl', hl1.structs ▸ hd', fun hq hold => hplain' hq ?_⟩
    rw [hregisters]
    refine forall_mem_append.2 ⟨hold, ?_⟩
    simpa using hplain (prefix_nil.1 (hq ▸ hl'.report))

theorem lowerReturns_spec {table : Table} (ht : table.Valid) (scope : UseScope)
    (returns : Option TypeExpr) (report : Report) :
    ∃ t report', (lowerReturns table scope returns).run report = .ok (t, report') ∧
      report.Typed (Ty.Within 0 table.structs.length) Ty.Plain t report' := by
  cases returns with
  | none => exact ⟨_, _, rfl, Ty.within_unit, prefix_rfl, fun _ => Ty.plain_unit⟩
  | some type => exact lowerType_spec scope ht type report

theorem lowerSignature_spec (hp : p.Valid) {pending : PendingFunct}
    (hid : pending.id.index < p.table.functs.length) :
    Spec p (lowerSignature pending) fun _ _ => True := by
  have hnew : (new pending.id.index).Params p.table.structs.length :=
    ⟨rfl, rfl, by simp [new]⟩
  refine (lowerParams_spec hp pending.scope pending.decl.params hnew).bind
    fun d p1 hl1 ⟨hd, hplain1⟩ => ?_
  obtain ⟨t, report, hrun, htyped⟩ :=
    lowerReturns_spec hl1.valid.table pending.scope pending.decl.returns p1.report
  refine (reporting_spec hl1.valid hrun htyped).bind
    fun returns p2 hl2 ⟨htable, hwithin, hplain2⟩ => ?_
  have hl := hl1.trans hl2
  rw [← hl.structs] at hd
  rw [← hl2.structs] at hwithin
  rw [← hl.functs] at hid
  let signature : Function := { d.toSignature returns pending.decl.span with
    external := pending.decl.body.isNone }
  have hheader : signature.Header := ⟨hd.registers, hd.bindings, rfl⟩
  have hsigned : signature.Signed p2.table.structs.length :=
    ⟨hd.types, hwithin, Nat.le_of_eq hd.registers.symm,
      fun x hx => Nat.lt_of_lt_of_le (hheader.lt hx) (Nat.le_of_eq hd.registers.symm)⟩
  refine updating_spec (Table.setFunct_eq hid signature) ⟨⟨hl2.valid.table.withFunct hsigned _,
    Table.forall_withFunct hl2.valid.headed hheader _, fun hq => ?_⟩, rfl,
    Table.length_withFunct _ _, prefix_rfl⟩
  have hplain := hl2.valid.plain hq
  have hquiet : p1.report.entries = [] := prefix_nil.1 (hq ▸ hl2.report)
  refine ⟨hplain.fields, Table.forall_withFunct hplain.functs ⟨?_, hplain2 hq⟩ _⟩
  exact hplain1 hquiet (by simp [new])

end Signatures

/-! ## Outlines -/

namespace Outline

/-- What is left to do is about what is declared, and there is one entry for every
    function, in the order of their numbers. -/
structure Valid (o : Outline) : Prop where
  table : o.table.Valid
  plain : o.table.Plain
  headed : o.table.Headed
  structs : ∀ pending ∈ o.structs, pending.id.index < o.table.structs.length
  functs : o.functs.map PendingFunct.id = (List.range o.table.functs.length).map FunctId.mk

variable {o : Outline}

theorem Valid.program (h : o.Valid) : (⟨o.table, o.report, false⟩ : Program).Valid :=
  ⟨h.table, h.headed, fun _ => h.plain⟩

theorem Valid.lt (h : o.Valid) {pending : PendingFunct} (hp : pending ∈ o.functs) :
    pending.id.index < o.table.functs.length := by
  have hmem := mem_map_of_mem (f := PendingFunct.id) hp
  rw [h.functs] at hmem
  obtain ⟨n, hn, heq⟩ := mem_map.1 hmem
  rw [← heq]
  exact mem_range.1 hn

theorem valid_empty : empty.Valid where
  table := {
    builtins := Nat.le_refl _
    index := by simp [empty, Table.builtin, Decl.Within, StructId.int, StructId.bool]
    fields := by simp [empty, Table.builtin]
    functs := by simp [empty, Table.builtin] }
  plain := ⟨by simp [empty, Table.builtin], by simp [empty, Table.builtin]⟩
  headed := by simp [empty, Table.builtin, Table.Headed]
  structs := by simp [empty]
  functs := rfl

theorem Valid.addStruct (h : o.Valid) (space : Name) (scope : UseScope) (decl : StructDecl) :
    (o.addStruct space scope decl).Valid := by
  rw [Outline.addStruct]
  split
  · rename_i id table hadd
    obtain ⟨hvalid, hplain, hfuncts, hid, hle⟩ := h.table.addStruct hadd
    refine ⟨hvalid, hplain h.plain, ?_, forall_mem_append.2 ⟨fun pending hp => ?_, by simpa⟩, ?_⟩
    · rw [Table.Headed, hfuncts]
      exact h.headed
    · exact Nat.lt_of_lt_of_le (h.structs pending hp) hle
    · rw [hfuncts]
      exact h.functs
  · exact ⟨h.table, h.plain, h.headed, h.structs, h.functs⟩

theorem Valid.addFunct (h : o.Valid) (space : Name) (scope : UseScope) (decl : FunctDecl) :
    (o.addFunct space scope decl).Valid := by
  rw [Outline.addFunct]
  split
  · rename_i id table hadd
    obtain ⟨hvalid, hplain, hheaded, hstructs, rfl, hlength⟩ := h.table.addFunct hadd
    refine ⟨hvalid, hplain h.plain, hheaded h.headed, ?_, ?_⟩
    · rw [hstructs]
      exact h.structs
    · simp [hlength, range_succ, h.functs]
  · exact ⟨h.table, h.plain, h.headed, h.structs, h.functs⟩

/-- What is declared within `S` keeps `P`. -/
structure Keeping (P : Outline → Prop) (S : Location → Prop) : Prop where
  struct {o : Outline} (space : Name) (scope : UseScope) (decl : StructDecl) :
    (Node.item (.struct decl)).Within S → P o → P (o.addStruct space scope decl)
  funct {o : Outline} (space : Name) (scope : UseScope) (decl : FunctDecl) :
    (Node.item (.funct decl)).Within S → P o → P (o.addFunct space scope decl)

namespace Keeping

variable {P : Outline → Prop} {S : Location → Prop}

mutual

theorem addItem (hP : Keeping P S) {o : Outline} (h : P o) (space : Name) (scope : UseScope)
    (item : Item) (hitem : (Node.item item).Within S) : P (o.addItem space scope item) := by
  match item with
  | .space path items span | .useBlock path items span =>
    exact hP.addItems h _ _ items fun _ hi => hitem.child (mem_map_of_mem hi)
  | .use path span => exact h
  | .struct decl => exact hP.struct space scope decl hitem h
  | .funct decl => exact hP.funct space scope decl hitem h

theorem addItems (hP : Keeping P S) {o : Outline} (h : P o) (space : Name) (scope : UseScope)
    (items : List Item) (hitems : ∀ item ∈ items, (Node.item item).Within S) :
    P (o.addItems space scope items) := by
  match items with
  | [] => exact h
  | .use path span :: rest =>
    exact hP.addItems h space _ rest (forall_mem_cons.1 hitems).2
  | .space path inner span :: rest | .useBlock path inner span :: rest =>
    rw [forall_mem_cons] at hitems
    exact hP.addItems (hP.addItem h space scope _ hitems.1) space scope rest hitems.2
  | .struct decl :: rest | .funct decl :: rest =>
    rw [forall_mem_cons] at hitems
    exact hP.addItems (hP.addItem h space scope _ hitems.1) space scope rest hitems.2

end

/-- What every declaration keeps holds of what the files declare. -/
theorem ofFiles (hP : Keeping P S) (hempty : P .empty) {files : List SourceFile}
    (hfiles : ∀ file ∈ files, (Node.file file).Within S) : P (ofFiles files) :=
  foldlRecOn files _ hempty fun _ h file hfile =>
    hP.addItems h .root .empty file.items fun _ hi =>
      (hfiles file hfile).child (mem_map_of_mem hi)

end Keeping

theorem ofFiles_valid (files : List SourceFile) : (ofFiles files).Valid :=
  Keeping.ofFiles ⟨fun space scope decl _ h => h.addStruct space scope decl,
    fun space scope decl _ h => h.addFunct space scope decl⟩ valid_empty
    fun _ _ => Node.within_true _

end Outline

/-- **Signatures are resolved** without fault or defect. -/
theorem lowerSignatures_spec {o : Outline} (ho : o.Valid) :
    ∃ p, (lowerSignatures o).run ⟨o.table, o.report, false⟩ = .ok ((), p) ∧
      Program.Later ⟨o.table, o.report, false⟩ p := by
  have hstructs := ProgramM.Spec.forM (f := lowerStruct) ho.program fun pending hp p' hl =>
    lowerStruct_spec hl.valid (hl.structs ▸ ho.structs pending hp)
  obtain ⟨⟨⟩, p, hrun, hl, -⟩ := hstructs.bind (f := fun _ => o.functs.forM lowerSignature)
    (R := fun _ _ => True) fun _ p1 hl1 _ => .forM hl1.valid fun pending hp p' hl =>
      lowerSignature_spec hl.valid ((hl1.trans hl).functs ▸ ho.lt hp)
  exact ⟨p, hrun, hl⟩

end Semcheck
