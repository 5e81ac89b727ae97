/-
  The primitive steps of lowering.

  * one growth lemma for every kind of change to a body (`Grown.report`,
    `Grown.addSlot`, `Grown.push`, ...);
  * steps that only look have a `*_run` lemma that gives their result;
  * `unifyAt_spec`, `assign_spec`: making types agree, with what the types are
    afterwards;
  * `Spec.settling`: a step with a destination, whether it gives up or not.
-/
import Semcheck.Proofs.Lower.Spec

namespace Semcheck

open List Ty Table Access Report

/-! ## Code -/

def Draft.withGraph (d : Draft) (g : Graph) : Draft :=
  { d with segments := g.segments, current := g.current }

namespace Draft

variable {d : Draft} {s : OpenSegment}

theorem currentSegment_eq (h : d.graph.seg d.current.index = some s) :
    d.currentSegment = .ok s := by
  rw [currentSegment, show d.segments[d.current.index]? = some s from h]

theorem setCurrent_eq {f : OpenSegment → OpenSegment} (h : d.graph.seg d.current.index = some s) :
    d.setCurrent (f s) = d.withGraph (d.graph.update f) := by
  have hs : d.segments[d.current.index]? = some s := h
  simp [setCurrent, withGraph, Graph.update, graph, modify_eq_set_getElem?, hs]

theorem push_eq (h : d.graph.Open) (i : Instruction) :
    d.push i = .ok (d.withGraph (d.graph.push i)) := by
  obtain ⟨s, hs, -⟩ := h
  rw [push, currentSegment_eq hs]
  exact congrArg Except.ok
    (setCurrent_eq (f := fun s => { s with instructions := s.instructions ++ [i] }) hs)

theorem terminate_eq (h : d.graph.Open) (t : Terminator) :
    d.terminate t = .ok (d.withGraph (d.graph.close t)) := by
  obtain ⟨s, hs, ht⟩ := h
  rw [terminate, currentSegment_eq hs]
  simp only [ht]
  exact congrArg Except.ok (setCurrent_eq (f := fun s => { s with terminator := some t }) hs)

end Draft

/-! ## Growth -/

namespace Body

variable {cx : Context} {b b' : Body} {ls : List Local} {sh : Shape}

/-- The body with other segments. -/
def withGraph (b : Body) (g : Graph) : Body :=
  { b with draft := b.draft.withGraph g }

@[simp] theorem graph_withGraph (g : Graph) : (b.withGraph g).draft.graph = g := rfl

theorem Intact.withGraph (h : b.Intact cx) {g : Graph} (hg : g.Open) : (b.withGraph g).Intact cx :=
  { h with opened := hg, plain := fun hc => h.plain ⟨hc.quiet, hc.strict⟩ }

/-- The types of the body mention what exists. -/
structure Grounded (cx : Context) (b : Body) : Prop where
  context : cx.Valid
  engine : b.engine.Valid cx.table.structs.length
  registers : ∀ r ∈ b.draft.registers,
    r.type.Within b.engine.slots.length cx.table.structs.length

theorem Intact.grounded (h : b.Intact cx) : b.Grounded cx :=
  ⟨h.context, h.engine, h.registers⟩

theorem Grounded.register (h : b.Grounded cx) {r : RegisterId}
    (hr : r.index < b.draft.registers.length) :
    ∃ register, b.draft.registers[r.index]? = some register ∧ register.type.Legal cx b :=
  ⟨_, getElem?_eq_getElem hr, h.registers _ (getElem_mem hr)⟩

theorem Intact.register (h : b.Intact cx) {r : RegisterId}
    (hr : r.index < b.draft.registers.length) :
    ∃ register, b.draft.registers[r.index]? = some register ∧ register.type.Legal cx b :=
  h.grounded.register hr

theorem Grown.code' (h : b.Intact cx)
    (hs : sh.All (Event.InRange cx.table b.draft.registers.length))
    (he : sh.All (Event.LeavesWith cx.result)) :
    b.Grown cx sh (b.withGraph (sh.build b.draft.graph)) where
  intact := h.withGraph (sh.frame h.opened).opened
  code := rfl
  steps := hs
  exits := he
  toProgress := { Progress.refl b with draft := ⟨prefix_rfl, rfl, prefix_rfl⟩ }

theorem Grown.report' (h : b.Intact cx) {report : Report}
    (hr : b.report.entries <+: report.entries) : b.Grown cx .skip { b with report := report } where
  intact :=
    { h with
      plain := fun hc => h.plain ⟨prefix_nil.1 (hc.quiet ▸ hr), hc.strict⟩
      whole := fun hs hq => h.whole hs (prefix_nil.1 (hq ▸ hr)) }
  code := rfl
  steps := trivial
  exits := trivial
  toProgress := { Progress.refl b with report := hr }

theorem Grown.reported (hb : b.Intact cx) (d : Diagnostic) :
    b.Grown cx .skip { b with report := b.report.push d } :=
  .report' hb (prefix_append _ _)

theorem not_clean_reported {d : Diagnostic} :
    ¬ ({ b with report := b.report.push d } : Body).Clean := by
  rintro ⟨hquiet, -⟩
  simp [push] at hquiet

theorem Grown.engine' (h : b.Intact cx) {e : Engine} (hg : b.engine.Grows e)
    (hv : e.Valid cx.table.structs.length) (hp : b.Clean → e.Plain) :
    b.Grown cx .skip { b with engine := e } where
  intact :=
    { h with
      engine := hv
      registers := fun r hr => (h.registers r hr).mono hg.slots (Nat.le_refl _)
      plain := fun hc => by
        have hc' : b.Clean := ⟨hc.quiet, hg.strict ▸ hc.strict⟩
        exact ⟨⟨hp hc', (h.plain hc').1.registers⟩, (h.plain hc').2⟩
      whole := fun hs => h.whole (hg.strict ▸ hs) }
  code := rfl
  steps := trivial
  exits := trivial
  toProgress := { Progress.refl b with engine := hg }

theorem Grown.addSlot (h : b.Intact cx) (origin : Location) :
    b.Grown cx .skip { b with engine := (b.engine.addSlot origin).2 } := by
  have hle : b.engine.slots.length ≤ (b.engine.addSlot origin).2.slots.length := by
    simp [Engine.addSlot]
  refine .engine' h ⟨rfl, hle, fun _ => prefix_rfl⟩ (h.engine.setSlots hle) fun hc => ?_
  have hplain := (h.plain hc).1.engine
  exact ⟨hplain.bindings, hplain.rules⟩

theorem ResultIn.mono {registers registers' : List Register} (h : ResultIn cx registers)
    (hp : registers <+: registers') : ResultIn cx registers' := by
  refine h.imp id ?_
  rintro ⟨r, register, hr, hreg, ht⟩
  obtain ⟨more, rfl⟩ := hp
  have hlt := (List.getElem?_eq_some_iff.1 hreg).1
  exact ⟨r, register, hr, by rw [getElem?_append_left hlt]; exact hreg, ht⟩

theorem Grown.addRegister (h : b.Intact cx) {type : Ty} (span : Location) (ht : type.Legal cx b)
    (hp : b.Clean → type.Plain) :
    b.Grown cx .skip { b with draft := (b.draft.addRegister type span).2 } := by
  have hle : b.draft.registers.length ≤ (b.draft.addRegister type span).2.registers.length := by
    simp [Draft.addRegister]
  have hpre : b.draft.registers <+: (b.draft.addRegister type span).2.registers :=
    prefix_append _ _
  refine ⟨{ Progress.refl b with draft := ⟨hpre, rfl, prefix_rfl⟩ }, { h with
    registers := ?_
    locals := fun l hl => Nat.lt_of_lt_of_le (h.locals l hl) hle
    bindings := fun x hx => Nat.lt_of_lt_of_le (h.bindings x hx) hle
    params := Nat.le_trans h.params hle
    result := h.result.mono hpre
    plain := fun hc => ?_ }, rfl, trivial, trivial⟩
  · intro r hr
    rcases mem_append.1 hr with hm | hm
    · exact h.registers r hm
    · obtain rfl := mem_singleton.1 hm; exact ht
  · have hc' : b.Clean := ⟨hc.quiet, hc.strict⟩
    refine ⟨⟨(h.plain hc').1.engine, fun r hr => ?_⟩, (h.plain hc').2⟩
    rcases mem_append.1 hr with hm | hm
    · exact (h.plain hc').1.registers r hm
    · obtain rfl := mem_singleton.1 hm; exact hp hc'

theorem map_register_of_fixed {ls' : List Local} (h : ls'.map Local.fixed = ls.map Local.fixed) :
    ls'.map Local.register = ls.map Local.register := by
  have hf : Local.register = Local.register ∘ Local.fixed := rfl
  rw [hf, ← map_map, h, map_map]

/-- Only what is known about the assignments changes, or the scope. -/
theorem Grown.flags (h : b.Intact cx) (scope : UseScope)
    (hl : ls.map Local.fixed = b.locals.map Local.fixed) :
    b.Grown cx .skip { b with locals := ls, scope := scope } := by
  have hr := map_register_of_fixed hl
  have older : ∀ l ∈ ls, ∃ l' ∈ b.locals, l'.register = l.register ∧ l'.mutable = l.mutable := by
    intro l hl'
    obtain ⟨l', hmem, heq⟩ := mem_map.1
      (hl ▸ mem_map_of_mem hl' : l.fixed ∈ b.locals.map Local.fixed)
    exact ⟨l', hmem, (Local.fixed_eq heq).1, (Local.fixed_eq heq).2.1⟩
  refine ⟨{ Progress.refl b with locals := .of_eq hl }, { h with
    locals := fun l hl' => ?_
    distinct := by rw [hr]; exact h.distinct
    apart := fun l hl' => ?_
    bound := fun l hl' => ?_
    plain := fun hc => h.plain ⟨hc.quiet, hc.strict⟩ }, rfl, trivial, trivial⟩
  · obtain ⟨l', hl'', he, -⟩ := older l hl'
    exact he ▸ h.locals l' hl''
  · obtain ⟨l', hl'', he, -⟩ := older l hl'
    exact he ▸ h.apart l' hl''
  · obtain ⟨l', hl'', he, hm⟩ := older l hl'
    exact he ▸ hm ▸ h.bound l' hl''

theorem Grown.gaveUp (h : b.Grown cx sh b') (hc : ¬ b'.Clean) :
    b.Grown cx sh { b' with gaveUp := true } where
  toProgress := { h.toProgress with whole := nofun }
  intact :=
    { h.intact with
      plain := fun hc' => absurd ⟨hc'.quiet, hc'.strict⟩ hc
      whole := fun hs hq => absurd ⟨hq, hs⟩ hc }
  code := h.code
  steps := h.steps
  exits := h.exits

end Body

/-! ## Steps that only look -/

namespace Lower

open Body

variable {cx : Context} {b b' : Body} {α : Type} {t : Ty} {a : α}

theorem onEngine_run {step : EngineM α} {e : Engine} (h : step.run b.engine = .ok (a, e)) :
    (onEngine step).run b = .ok (some a, { b with engine := e }) := by
  rw [onEngine, run_bind_some (get_run b), h]
  rfl

theorem look_run {question : Engine → Except Fault α} (h : question b.engine = .ok a) :
    (onEngine (.ask question)).run b = .ok (some a, b) :=
  onEngine_run (EngineM.run_ask h)

theorem shallow_run (he : b.engine.Valid cx.table.structs.length) (ht : t.Legal cx b) :
    (shallow t).run b = .ok (some (b.engine.bindings.head t), b) :=
  look_run (he.shallow ht)

theorem orFault_run {x : Except Fault α} (h : x = .ok a) : (orFault x).run b = .ok (some a, b) := by
  rw [h]
  rfl

theorem typeName_run (he : b.engine.Valid cx.table.structs.length) (ht : t.Legal cx b) :
    ∃ text, (typeName cx t).run b = .ok (some text, b) := by
  obtain ⟨text, htext⟩ := typeText_ok (t := cx.table) (he.apply ht)
  exact ⟨text, (run_bind_some (look_run (he.resolve ht))).trans (orFault_run htext)⟩

theorem registerType_run {r : RegisterId} {register : Register}
    (h : b.draft.registers[r.index]? = some register) :
    (registerType r).run b = .ok (some register.type, b) := by
  rw [registerType, run_bind_some (get_run b)]
  exact orFault_run (by rw [Draft.registerType, h])

/-- The part of a type at the end of a chain of fields. -/
theorem fieldsType_run (hb : b.Grounded cx) (fields : List Nat) (ht : t.Legal cx b) :
    ∃ t', (fieldsType cx fields t).run b = .ok (some t', b) ∧ t'.Legal cx b ∧
      ∀ u, cx.table.project? b.engine.bindings.head fields t = some u → t' = u := by
  induction fields generalizing t with
  | nil => exact ⟨t, rfl, ht, fun u hu => by cases hu; rfl⟩
  | cons index rest ih =>
    have hhead := hb.engine.head ht
    simp only [fieldsType, run_bind_some (shallow_run hb.engine ht)]
    cases hv : b.engine.bindings.head t with
    | struct id =>
      rw [hv] at hhead
      obtain ⟨entry, hmem, hentry⟩ := struct?_of_lt (within_struct.1 hhead)
      dsimp only
      rw [run_bind_some (orFault_run (fields_eq hentry))]
      have hmember : ((entry.fields[index]?.map Field.type).getD .error).Within
          b.engine.slots.length cx.table.structs.length := by
        cases hf : entry.fields[index]? with
        | none => exact within_error
        | some field =>
          exact (hb.context.table.fields entry hmem field (mem_of_getElem? hf)).mono
            (Nat.zero_le _) (Nat.le_refl _)
      obtain ⟨t', hrun, hw, hu⟩ := ih hmember
      refine ⟨t', hrun, hw, fun u hproj => hu u ?_⟩
      simp only [project?, hv, member?, hentry, Option.bind_some] at hproj
      obtain ⟨member, hm, hrest⟩ := Option.bind_eq_some_iff.1 hproj
      rw [hm]
      exact hrest
    | tuple elements =>
      rw [hv] at hhead
      have hmember : (elements[index]?.getD .error).Within b.engine.slots.length
          cx.table.structs.length := by
        cases he : elements[index]? with
        | none => exact within_error
        | some element => exact within_tuple.1 hhead element (mem_of_getElem? he)
      obtain ⟨t', hrun, hw, hu⟩ := ih hmember
      refine ⟨t', hrun, hw, fun u hproj => hu u ?_⟩
      simp only [project?, hv, member?] at hproj
      obtain ⟨member, hm, hrest⟩ := Option.bind_eq_some_iff.1 hproj
      rw [hm]
      exact hrest
    | _ =>
      obtain ⟨t', hrun, hw, -⟩ := ih (t := .error) within_error
      refine ⟨t', hrun, hw, fun u hproj => ?_⟩
      simp [project?, hv, member?] at hproj

end Lower

/-- The type of what an access reaches, as far as it is known. -/
def Body.accessType? (cx : Context) (b : Body) (a : Access) : Option Ty :=
  a.type? cx.table b.engine.bindings.head b.draft.registers

/-- A value can go to the destination. -/
def Body.Accepts (cx : Context) (b : Body) (dest : Access) : Prop :=
  dest = .discard ∨ ∃ u, b.accessType? cx dest = some u

/-- The destination exists, and its type can be told. -/
structure Body.Takes (cx : Context) (b : Body) (dest : Access) : Prop where
  inRange : dest.InRange b.draft.registers.length
  accepts : b.Clean → b.Accepts cx dest

theorem Body.Takes.withGraph {cx : Context} {b : Body} {dest : Access} (h : b.Takes cx dest)
    (g : Graph) : (b.withGraph g).Takes cx dest :=
  ⟨h.inRange, fun hc => h.accepts ⟨hc.quiet, hc.strict⟩⟩

namespace Lower

open Body

variable {cx : Context} {b b' : Body} {a : Access}

/-- The type of what an access reaches; where it cannot be told, it is erroneous. -/
theorem accessType_run (hb : b.Grounded cx) (ha : a.InRange b.draft.registers.length) :
    ∃ o, (accessType cx a).run b = .ok (some o, b) ∧ ((a = .discard ∧ o = none) ∨ ∃ t, o = some t ∧
      t.Legal cx b ∧
      ∀ u, b.accessType? cx a = some u → t = u) := by
  cases a with
  | discard => exact ⟨none, rfl, .inl ⟨rfl, rfl⟩⟩
  | place r fields deref =>
    obtain ⟨register, hr, hw⟩ := hb.register (ha r rfl)
    simp only [accessType, accessType?, type?, run_bind_some (registerType_run hr)]
    cases deref with
    | false =>
      obtain ⟨t, hrun, ht, hu⟩ := fieldsType_run hb fields hw
      refine ⟨some t, (run_bind_some hrun).trans rfl, .inr ⟨t, rfl, ht, fun u h => hu u ?_⟩⟩
      simpa [hr] using h
    | true =>
      have hhead := hb.engine.head hw
      simp only [if_true, run_bind_some (shallow_run hb.engine hw)]
      cases hv : b.engine.bindings.head register.type with
      | pointer mutable pointee =>
        rw [hv] at hhead
        obtain ⟨t, hrun, ht, hu⟩ := fieldsType_run hb fields (within_pointer.1 hhead)
        refine ⟨some t, (run_bind_some hrun).trans rfl, .inr ⟨t, rfl, ht, fun u h => hu u ?_⟩⟩
        simpa [hr, hv, pointee?] using h
      | _ =>
        obtain ⟨t, hrun, ht, -⟩ := fieldsType_run hb fields (t := .error) within_error
        refine ⟨some t, (run_bind_some hrun).trans rfl, .inr ⟨t, rfl, ht, fun u h => ?_⟩⟩
        simp [hr, hv, pointee?] at h

/-- The unbound slot that the type of a destination is. -/
theorem openSlot?_run (hb : b.Intact cx) (ha : a.InRange b.draft.registers.length) :
    ∃ o, (openSlot? cx a).run b = .ok (some o, b) ∧
      ∀ s, o = some s → s.index < b.engine.slots.length := by
  obtain ⟨o, hrun, h⟩ := accessType_run hb.grounded ha
  rw [openSlot?, run_bind_some hrun]
  rcases h with ⟨-, rfl⟩ | ⟨t, rfl, ht, -⟩
  · exact ⟨none, rfl, by rintro s ⟨⟩⟩
  · refine ⟨_, (run_bind_some (shallow_run hb.engine ht)).trans rfl, fun s hs => ?_⟩
    have hhead := hb.engine.head ht
    cases hv : b.engine.bindings.head t with
    | slot root =>
      rw [hv] at hs hhead
      cases hs
      exact within_slot.1 hhead
    | _ => rw [hv] at hs; cases hs

/-! ## Reports -/

theorem complain_run (code : Code) (message : String) (span : Location) :
    (complain code message span).run b =
      .ok (some (), { b with report := b.report.push (.error code message span) }) :=
  rfl

section Reports

variable {α : Type} {P : α → Body → Prop} {Q : α → Shape → Body → Prop}

variable (hb : b.Intact cx)
include hb

theorem fail_spec (code : Code) (message : String) (span : Location) :
    Spec cx b (fail code message span) P Q :=
  Spec.gaveUp ((run_bind_some (complain_run code message span)).trans rfl) (.reported hb _)
    not_clean_reported

theorem giveUp_spec (h : ¬ b.Clean) : Spec cx b giveUp P Q :=
  Spec.gaveUp rfl (.refl hb) h

theorem failNaming_spec {t : Ty} (ht : t.Legal cx b)
    (code : Code) (message : String → String) (span : Location) :
    Spec cx b (do let name ← typeName cx t; fail code (message name) span) P Q := by
  obtain ⟨name, hname⟩ := typeName_run hb.engine ht
  exact .look hname (fail_spec hb code _ span)

/-- What a name refers to, unless there is an error to report. -/
theorem orReport_spec {found : Except Fault (Except LookupError α)} {r : Except LookupError α}
    (hfound : found = .ok r) (hP : ∀ a, r = .ok a → P a b)
    (hQ : ∀ a, r = .ok a → Q a .skip b) : Spec cx b (orReport found) P Q := by
  refine .look (orFault_run hfound) ?_
  cases r with
  | ok a => exact .pure hb (hP a rfl) fun _ => hQ a rfl
  | error e => exact .gaveUp rfl (.reported hb e.toDiagnostic) not_clean_reported

end Reports

/-- An error of inference is reported, unless an erroneous type is part of it. -/
theorem reportInfer_run (hv : b.engine.Valid cx.table.structs.length) {e : InferError}
    (he : e.Within b.engine.slots.length cx.table.structs.length) (span : Location) :
    ∃ report, (reportInfer cx e span).run b = .ok (some (), { b with report := report }) ∧
      b.report.entries <+: report.entries ∧ (e.Plain → report.entries ≠ []) := by
  have hpush : ∀ d : Diagnostic, b.report.entries <+: (b.report.push d).entries ∧
      (e.Plain → (b.report.push d).entries ≠ []) :=
    fun d => ⟨prefix_append _ _, fun _ => by simp⟩
  cases e with
  | mismatch expected found =>
    rw [reportInfer]
    by_cases hc : (expected.containsError || found.containsError) = true
    · refine ⟨b.report, by rw [if_pos hc]; rfl, prefix_rfl, fun hp => ?_⟩
      simp [hp.1.containsError, hp.2.containsError] at hc
    · obtain ⟨name, hname⟩ := typeName_run hv he.1
      obtain ⟨name', hname'⟩ := typeName_run hv he.2
      rw [if_neg hc]
      exact ⟨_, (run_bind_some hname).trans ((run_bind_some hname').trans (complain_run _ _ _)),
        hpush _⟩
  | notFunct found =>
    obtain ⟨name, hname⟩ := typeName_run hv he
    exact ⟨_, (run_bind_some hname).trans (complain_run _ _ _), hpush _⟩
  | argumentCount expected found => exact ⟨_, complain_run _ _ _, hpush _⟩
  | recursive slot type =>
    obtain ⟨name, hname⟩ := typeName_run hv he
    exact ⟨_, (run_bind_some hname).trans (complain_run _ _ _), hpush _⟩

end Lower

/-! ## Types that agree -/

theorem Table.project?_plain {table : Table} (ht : table.Plain) {view : Ty → Ty}
    (hv : ∀ t, t.Plain → (view t).Plain) {fields : List Nat} {t u : Ty} (hp : t.Plain)
    (h : table.project? view fields t = some u) : u.Plain := by
  induction fields generalizing t with
  | nil => cases h; exact hp
  | cons index rest ih =>
    obtain ⟨member, hm, hrest⟩ := Option.bind_eq_some_iff.1 h
    refine ih ?_ hrest
    have hview := hv t hp
    cases hvt : view t with
    | struct id =>
      rw [hvt] at hm
      obtain ⟨entry, hentry, hfield⟩ := Option.bind_eq_some_iff.1 hm
      obtain ⟨field, hf, rfl⟩ := Option.map_eq_some_iff.1 hfield
      exact ht.fields entry (mem_of_getElem? hentry) field (mem_of_getElem? hf)
    | tuple elements =>
      rw [hvt] at hm hview
      exact (all_tuple.1 hview).2 member (mem_of_getElem? hm)
    | _ => rw [hvt] at hm; cases hm

namespace Body

variable {cx : Context} {b b1 b2 b' : Body}

theorem accessType?_plain (hb : b.Intact cx) (hc : b.Clean) {a : Access} {u : Ty}
    (h : b.accessType? cx a = some u) : u.Plain := by
  obtain ⟨hp, hx⟩ := hb.plain hc
  cases a with
  | discard => cases h
  | place r fields deref =>
    obtain ⟨register, hr, hrest⟩ := Option.bind_eq_some_iff.1 h
    obtain ⟨base, hbase, hproj⟩ := Option.bind_eq_some_iff.1 hrest
    have hreg := hp.registers register (mem_of_getElem? hr)
    refine project?_plain hx.table (fun t ht => hp.engine.head ht) ?_ hproj
    cases deref with
    | false => cases hbase; exact hreg
    | true =>
      have hhead := hp.engine.head hreg
      cases hv : b.engine.bindings.head register.type with
      | pointer mutable pointee =>
        rw [hv] at hhead
        simp only [if_true, hv, pointee?] at hbase
        cases hbase
        exact (all_pointer.1 hhead).2
      | _ => simp [hv, pointee?] at hbase

/-- The names in scope, and what is known about them, stay. -/
structure Steady (b b' : Body) : Prop where
  locals : b'.locals = b.locals
  named : b'.draft.bindings = b.draft.bindings

theorem Steady.refl (b : Body) : b.Steady b := ⟨rfl, rfl⟩

theorem Steady.trans (h1 : b.Steady b1) (h2 : b1.Steady b2) : b.Steady b2 :=
  ⟨h2.locals.trans h1.locals, h2.named.trans h1.named⟩

end Body

namespace Lower

open Body

variable {cx : Context} {b b' : Body} {expected found : Ty} {dest : Access}

/-- The two types agree, as far as `found` is known. -/
theorem unifyAt_spec (hb : b.Intact cx) (hx : expected.Legal cx b)
    (hf : found.Legal cx b)
    (hpx : b.Clean → expected.Plain) (hpf : b.Clean → found.Plain) (span : Location) :
    Spec cx b (unifyAt cx expected found span) (fun _ _ => True) fun _ sh b' =>
      sh = .skip ∧ b.Steady b' ∧ (b'.Clean → (b.engine.bindings.apply found).Closed →
        b'.engine.bindings.apply expected = b.engine.bindings.apply found) := by
  obtain ⟨r, e, hrun, hu⟩ := unify_spec hb.engine hx hf
  have clean : b.Clean → b.engine.Clean expected found := fun hc =>
    ⟨hc.strict, (hb.plain hc).1.engine, hpx hc, hpf hc⟩
  have hg : b.Grown cx .skip { b with engine := e } :=
    .engine' hb hu.keeps.toGrows hu.keeps.valid fun hc => (hu.plain (clean hc)).1
  refine .after (run_bind_some (onEngine_run hrun)) hg ?_
  cases r with
  | ok _ =>
    refine .pure hg.intact trivial fun _ => ⟨rfl, ⟨rfl, rfl⟩, fun hc hclosed => ?_⟩
    exact hu.agree (clean (hg.clean hc)) rfl hclosed
  | error err =>
    have herr : err.Within e.slots.length cx.table.structs.length := by
      rw [hu.keeps.slots]
      exact hu.error err rfl
    obtain ⟨report, hreport, hpre, hplain⟩ := reportInfer_run hg.intact.engine herr span
    refine .gaveUp (run_bind_some hreport) (.report' hg.intact hpre) fun hc => ?_
    have hg' := hg.trans (.report' hg.intact hpre)
    exact hplain ((hu.plain (clean (hg'.clean hc))).2 err rfl) hc.quiet

/-- A value of type `found` goes to the destination. -/
theorem assign_spec (hb : b.Intact cx) (hd : b.Takes cx dest) (hf : found.Legal cx b)
    (hpf : b.Clean → found.Plain) (span : Location) :
    Spec cx b (assign cx dest found span) (fun _ _ => True) fun _ sh b' =>
      sh = .skip ∧ b.Steady b' ∧ (b'.Clean → ∀ u, b.accessType? cx dest = some u →
        (b.engine.bindings.apply found).Closed →
          b'.engine.bindings.apply u = b.engine.bindings.apply found) := by
  obtain ⟨o, hrun, h⟩ := accessType_run hb.grounded hd.inRange
  refine .look hrun ?_
  rcases h with ⟨rfl, rfl⟩ | ⟨t, rfl, ht, hu⟩
  · exact .pure hb trivial fun _ => ⟨rfl, .refl b, fun _ u h => by cases h⟩
  · refine (unifyAt_spec hb ht hf (fun hc => ?_) hpf span).imp
      fun _ sh b' _ _ ⟨hsh, hsteady, hagree⟩ => ⟨hsh, hsteady, fun hc u h => hu u h ▸ hagree hc⟩
    rcases hd.accepts hc with rfl | ⟨u, h⟩
    · cases hrun
    · exact hu u h ▸ accessType?_plain hb hc h

/-! ## Registers and code -/

end Lower

/-- The register `r` of the given type is new. -/
structure Body.Allocates (cx : Context) (b : Body) (type : Ty) (r : RegisterId) (b' : Body) :
    Prop where
  grown : b.Grown cx .skip b'
  index : r.index = b.draft.registers.length
  registers : ∃ span, b'.draft.registers = b.draft.registers ++ [⟨type, span⟩]
  steady : b.Steady b'

namespace Body.Allocates

variable {cx : Context} {b b' : Body} {type : Ty} {r : RegisterId}

variable (h : b.Allocates cx type r b')
include h

theorem getElem? :
    ∃ register, b'.draft.registers[r.index]? = some register ∧ register.type = type := by
  obtain ⟨span, hspan⟩ := h.registers
  exact ⟨⟨type, span⟩, by rw [hspan, h.index, getElem?_concat_length], rfl⟩

theorem length : b'.draft.registers.length = b.draft.registers.length + 1 := by
  obtain ⟨span, hspan⟩ := h.registers
  rw [hspan, length_append]
  rfl

theorem lt : r.index < b'.draft.registers.length := by
  rw [h.index, h.length]
  exact Nat.lt_succ_self _

theorem ne {r' : RegisterId} (hr : r'.index < b.draft.registers.length) : r' ≠ r := by
  rintro rfl
  exact Nat.ne_of_lt hr h.index

theorem inRange : (register r).InRange b'.draft.registers.length :=
  inRange_register h.lt

theorem accessType? : b'.accessType? cx (.register r) = some type := by
  obtain ⟨register, hr, ht⟩ := h.getElem?
  rw [Body.accessType?, type?_register, hr, ← ht]
  rfl

theorem takes : b'.Takes cx (.register r) :=
  ⟨h.inRange, fun _ => .inr ⟨_, h.accessType?⟩⟩

end Body.Allocates

namespace Lower

open Body

variable {cx : Context} {b b' : Body} {found type : Ty} {dest : Access}

theorem newRegister_run (hb : b.Intact cx) (ht : type.Legal cx b) (hp : b.Clean → type.Plain)
    (span : Location) :
    ∃ r b', (newRegister type span).run b = .ok (some r, b') ∧ b.Allocates cx type r b' :=
  ⟨_, _, rfl, .addRegister hb span ht hp, rfl, ⟨span, rfl⟩, ⟨rfl, rfl⟩⟩

theorem newSlot_run (span : Location) :
    (newSlot span).run b = .ok (some (b.engine.addSlot span).1,
      { b with engine := (b.engine.addSlot span).2 }) := by
  have hrun : (modifyGet fun e => e.addSlot span : EngineM Slot).run b.engine =
      .ok (b.engine.addSlot span) := rfl
  exact onEngine_run hrun

theorem newTemp_run (hb : b.Intact cx) (span : Location) :
    ∃ r b' s, (newTemp span).run b = .ok (some r, b') ∧ b.Allocates cx (.slot s) r b' := by
  have hg := Grown.addSlot hb span
  have hs : (Ty.slot (b.engine.addSlot span).1).Within (b.engine.addSlot span).2.slots.length
      cx.table.structs.length := within_slot.2 (by simp [Engine.addSlot])
  obtain ⟨r, b', hrun, hr⟩ := newRegister_run hg.intact hs (fun _ => plain_slot _) span
  exact ⟨r, b', _, (run_bind_some (newSlot_run span)).trans hrun, hg.trans hr.grown, hr.index,
    hr.registers, ⟨hr.steady.locals, hr.steady.named⟩⟩

theorem Spec.allocate {α β : Type} {x : Lower α} {f : α → Lower β} {P : β → Body → Prop}
    {Q : β → Shape → Body → Prop} {a : α} {r : RegisterId} {b1 : Body}
    (hrun : x.run b = .ok (some a, b1)) (hr : b.Allocates cx type r b1)
    (hf : Spec cx b1 (f a) P Q) : Spec cx b (x >>= f) P Q :=
  Spec.after (run_bind_some hrun) hr.grown hf

theorem push_run (h : b.draft.graph.Open) (i : Instruction) :
    (push i).run b = .ok (some (), b.withGraph (b.draft.graph.push i)) := by
  rw [push, run_bind_some (get_run b), Draft.push_eq h]
  rfl

/-- The instruction writes a value of type `found` to the destination. -/
theorem deliver_spec (hb : b.Intact cx) {i : Instruction}
    (hi : (Event.run i).InRange cx.table b.draft.registers.length) (hd : b.Takes cx dest)
    (hf : found.Legal cx b) (hpf : b.Clean → found.Plain) (span : Location) :
    Spec cx b (do push i; assign cx dest found span) (fun _ _ => True) fun _ sh b' =>
      sh = .emit i ∧ b.Steady b' ∧ (b'.Clean → ∀ u, b.accessType? cx dest = some u →
        (b.engine.bindings.apply found).Closed →
          b'.engine.bindings.apply u = b.engine.bindings.apply found) := by
  have hg : b.Grown cx (.emit i) (b.withGraph (b.draft.graph.push i)) := .code' hb hi
    (Event.leavesWith_run _ _)
  refine .after (run_bind_some (push_run hb.opened i)) hg ?_
  refine (assign_spec hg.intact (hd.withGraph _) hf (fun hc => hpf (hg.clean hc)) span).imp ?_
  rintro _ sh b' - - ⟨rfl, hsteady, hagree⟩
  exact ⟨rfl, ⟨hsteady.locals, hsteady.named⟩, hagree⟩

/-! ## Steps that may give up -/

section Recover

variable {P : Unit → Body → Prop} {Q : Unit → Shape → Body → Prop} {step : Lower Unit}

theorem recover_some (h : step.run b = .ok (some (), b')) :
    (recover step).run b = .ok (some true, b') := by
  show (step.run b >>= _) = _
  rw [h]
  rfl

theorem recover_none (h : step.run b = .ok (none, b')) :
    (recover step).run b = .ok (some false, { b' with gaveUp := true }) := by
  show (step.run b >>= _) = _
  rw [h]
  rfl

theorem Spec.recovered (h : Spec cx b step P Q) :
    ∃ done sh b', (Lower.recover step).run b = .ok (some done, b') ∧ b.Grown cx sh b' ∧
      (done = true → P () b') ∧ (b'.gaveUp = false → done = true ∧ Q () sh b') := by
  obtain ⟨r, sh, b', hrun, hg, hsome, h⟩ := h
  cases r with
  | some a =>
    exact ⟨true, sh, b', recover_some hrun, hg, fun _ => (h a rfl).1,
      fun hw => ⟨rfl, (h a rfl).2 hw⟩⟩
  | none =>
    exact ⟨false, sh, _, recover_none hrun, hg.gaveUp (nomatch hsome ·), nofun, nofun⟩

theorem Spec.attempted (h : Spec cx b step P Q) :
    ∃ sh b', (Lower.attempt step).run b = .ok (some (), b') ∧ b.Grown cx sh b' ∧
      (b'.gaveUp = false → Q () sh b') := by
  obtain ⟨done, sh, b', hrun, hg, -, hq⟩ := h.recovered
  exact ⟨sh, b', (run_bind_some hrun).trans rfl, hg, fun hw => (hq hw).2⟩

theorem Spec.recover (h : Spec cx b step P Q) :
    Spec cx b (.recover step) (fun done b' => done = true → P () b')
      fun done sh b' => done = true ∧ Q () sh b' := by
  obtain ⟨done, sh, b', hrun, hg, hp, hq⟩ := h.recovered
  exact .intro hrun hg hp hq

theorem Spec.attempt (h : Spec cx b step P Q) : Spec cx b (.attempt step) (fun _ _ => True) Q := by
  obtain ⟨sh, b', hrun, hg, hq⟩ := h.attempted
  exact .intro hrun hg trivial hq

/-- If lowering into a destination gives up, the destination may become
    erroneous; that was reported. -/
theorem Spec.settling {step : Access → Lower Unit} (h : Spec cx b (step dest) P Q)
    (hd : dest.InRange b.draft.registers.length) : Spec cx b (settling cx dest step) P Q := by
  obtain ⟨done, sh, b1, hrun, hg, hp, hq⟩ := h.recovered
  refine .after (run_bind_some hrun) hg ?_
  cases done with
  | true => exact .pure hg.intact (hp rfl) fun hw => by simpa using (hq hw).2
  | false =>
    have hdirty : ¬ b1.Clean := fun hc => nomatch (hq (hc.whole hg.intact)).1
    simp only [Bool.false_eq_true, if_false]
    obtain ⟨o, hopen, ho⟩ := openSlot?_run hg.intact (hg.inRange hd)
    refine .look hopen ?_
    cases o with
    | none => exact giveUp_spec hg.intact hdirty
    | some slot =>
      have herror : Ty.error.Legal cx b1 := within_error
      obtain ⟨r, e, hunify, hu⟩ := unify_spec hg.intact.engine (within_slot.2 (ho slot rfl)) herror
      have hg' : b1.Grown cx .skip { b1 with engine := e } :=
        .engine' hg.intact hu.keeps.toGrows hu.keeps.valid fun hc => absurd hc hdirty
      exact .after (run_bind_some (onEngine_run hunify)) hg'
        (giveUp_spec hg'.intact fun hc => hdirty (hg'.clean hc))

end Recover

end Lower

end Semcheck
