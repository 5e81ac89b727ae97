/-
  Whole programs.

  The bodies are lowered against the table of signatures, and then put into it.
  The resulting table agrees with the signatures (`Table.Agrees`), so what is
  fine with respect to the signatures is fine in the end.

  `lowerFiles_spec`: lowering the files of a program meets neither a fault nor a
  defect, and every function is what it should be (`PendingFunct.Realized`).
-/
import Mathlib.Data.List.Nodup
import Semcheck.Proofs.Lower.Signature

namespace Semcheck

open List Table Outline

/-! ## Tables with the same signatures -/

structure Table.Agrees (t t' : Table) : Prop where
  structs : t'.structs = t.structs
  functs : t'.functs.length = t.functs.length
  signature : ∀ id f, t.funct? id = some f → ∃ f', t'.funct? id = some f' ∧
    f'.signature = f.signature

section Agrees

variable {t t' : Table} {f : Function} {has : Access → Ty → Prop} {ev : Event} {type : Ty}

theorem Event.InRange.agrees (h : t.Agrees t') {n : Nat} (hev : ev.InRange t n) :
    ev.InRange t' n := by
  cases ev with
  | test a | exit a => exact hev
  | run i =>
    refine ⟨hev.1, fun value dest hi => ?_⟩
    have hv := hev.2 value dest hi
    cases value with
    | struct id fields => exact Nat.lt_of_lt_of_eq hv (by rw [h.structs])
    | funct id => exact Nat.lt_of_lt_of_eq hv h.functs.symm
    | _ => trivial

theorem Function.WellFormed.agrees (h : t.Agrees t') (hf : f.WellFormed t) : f.WellFormed t' where
  signed := h.structs ▸ hf.signed
  steps segment hs := ⟨fun i hi => ((hf.steps segment hs).1 i hi).agrees h,
    (hf.steps segment hs).2.mono fun _ hev => hev.agrees h⟩

theorem Table.member?_eq_of_structs (h : t'.structs = t.structs) (index : Nat) (type : Ty) :
    t'.member? index type = t.member? index type := by
  cases type <;> simp only [member?, struct?, h]

theorem Table.project?_eq_of_structs (h : t'.structs = t.structs) (view : Ty → Ty)
    (fields : List Nat) (type : Ty) :
    t'.project? view fields type = t.project? view fields type := by
  induction fields generalizing type with
  | nil => rfl
  | cons index rest ih =>
    rw [project?, project?, member?_eq_of_structs h]
    exact congrArg _ (funext ih)

theorem Function.Has.of_structs (h : t'.structs = t.structs) {a : Access} (ha : f.Has t a type) :
    f.Has t' a type := by
  have hproject : ∀ fields, t'.project? id fields = t.project? id fields :=
    fun fields => funext (project?_eq_of_structs h id fields)
  rw [Function.Has, Function.accessType?] at ha ⊢
  cases a with
  | discard => exact ha
  | place r fields deref =>
    rw [Access.type?] at ha ⊢
    rwa [hproject]

theorem Literal.Typed.agrees (h : t.Agrees t') {value : Literal} (hv : value.Typed t has type) :
    value.Typed t' has type := by
  cases value with
  | int | bool | tuple => exact hv
  | struct id operands =>
    obtain ⟨htype, entry, hentry, hfields⟩ := hv
    refine ⟨htype, entry, ?_, hfields⟩
    rw [struct?, h.structs]
    exact hentry
  | funct id =>
    obtain ⟨f, hf, rfl⟩ := hv
    obtain ⟨f', hf', hsig⟩ := h.signature id f hf
    exact ⟨f', hf', hsig.symm⟩

theorem Event.Typed.agrees (h : t.Agrees t') {returns : Ty} (hev : ev.Typed t has returns) :
    ev.Typed t' has returns := by
  cases ev with
  | test a | exit a => exact hev
  | run i =>
    cases i with
    | literal value dest =>
      obtain ⟨type, hv, hd⟩ := hev
      exact ⟨type, hv.agrees h, hd⟩
    | _ => exact hev

theorem Function.Fine.agrees (h : t.Agrees t') {past : History} (hf : f.Fine t past ev) :
    f.Fine t' past ev :=
  ⟨hf.reads, (hf.typed.agrees h).mono fun _ _ ha => ha.of_structs h.structs⟩

end Agrees

/-! ## Bodies -/

section

variable (table : Table) (strict : Bool) (report : Report) (gaveUp : Bool)

/-- The function is what was to be lowered. -/
structure PendingFunct.Realized (pending : PendingFunct) (f : Function) : Prop where
  wellFormed : f.WellFormed table
  resolved : strict = true → report.entries = [] → f.Resolved
  fine : strict = true → report.entries = [] → ∀ past ev, f.Meets past ev → f.Fine table past ev
  permitted : strict = true → report.entries = [] → ∀ past ev, f.Meets past ev →
    ev.Permitted f.Points f.Binds
  lets : gaveUp = false → ∀ body, pending.decl.body = some body →
    List.Forall₂ f.Assigns (f.bindings.drop f.paramCount) body.effect.lets

/-- The function is what was to be lowered, and has the signature of the table. -/
structure PendingFunct.Fills (pending : PendingFunct) (f : Function) : Prop extends
    pending.Realized table strict report gaveUp f where
  signature : ∀ s, table.funct? pending.id = some s → f.signature = s.signature

/-- The bodies are those of the functions that have one. -/
structure LoweredBodies (pendings : List PendingFunct) (bodies : List (FunctId × Function)) :
    Prop where
  ids : bodies.map Prod.fst =
    (pendings.filter fun pending => pending.decl.body.isSome).map PendingFunct.id
  fills : ∀ pending ∈ pendings, pending.decl.body.isSome = true → ∃ f,
    (pending.id, f) ∈ bodies ∧ pending.Fills table strict report gaveUp f

end

namespace PendingFunct.Realized

variable {table table' : Table} {strict gaveUp : Bool} {report : Report} {pending : PendingFunct}
  {f : Function}

theorem agrees (h : pending.Realized table strict report gaveUp f) (ha : table.Agrees table') :
    pending.Realized table' strict report gaveUp f :=
  ⟨h.wellFormed.agrees ha, h.resolved, fun hs hq past ev hm => (h.fine hs hq past ev hm).agrees ha,
    h.permitted, h.lets⟩

theorem ofHeader (hs : f.Signed table.structs.length) (hh : f.Header)
    (hp : report.entries = [] → f.Plain) (hbody : pending.decl.body = none) :
    pending.Realized table strict report gaveUp f := by
  have hnone : ∀ past ev, ¬ f.Meets past ev := by
    have hsegment : ∀ s, f.segment? s = none := fun s => by simp [Function.segment?, hh.segments]
    intro past ev hm
    cases hm with
    | run _ hseg _ => simp [hsegment] at hseg
    | leave _ hseg _ => simp [hsegment] at hseg
  refine ⟨⟨hs, by simp [hh.segments]⟩, fun _ hq => ⟨fun r hr => ?_, ?_⟩,
    fun _ _ past ev hm => absurd hm (hnone past ev),
    fun _ _ past ev hm => absurd hm (hnone past ev), fun _ body hb => ?_⟩
  · exact ((hp hq).registers r hr).isResolved (.of_within (hs.registers r hr))
  · exact (hp hq).returnType.isResolved (.of_within hs.returnType)
  · rw [hbody] at hb
    cases hb

end PendingFunct.Realized

section Bodies

variable {table : Table} {strict gaveUp : Bool} {bodies : List (FunctId × Function)}
  {report : Report}

theorem lowerBodies_spec (strict : Bool) (ht : table.Valid) (hh : table.Headed)
    {pendings : List PendingFunct}
    (hid : ∀ pending ∈ pendings, pending.id.index < table.functs.length)
    (hp : report.entries = [] → table.Plain) :
    ∃ bodies report' gaveUp,
      lowerBodies strict table pendings report = .ok (bodies, report', gaveUp) ∧
      report.entries <+: report'.entries ∧
      (strict = true → report'.entries = [] → gaveUp = false) ∧
      LoweredBodies table strict report' gaveUp pendings bodies := by
  induction pendings generalizing report with
  | nil => exact ⟨[], report, false, rfl, prefix_rfl, fun _ _ => rfl, rfl, by simp⟩
  | cons pending rest ih =>
    rw [forall_mem_cons] at hid
    cases hbody : pending.decl.body with
    | none =>
      obtain ⟨bodies, report', gaveUp, hrun, hpre, hwhole, hids, hall⟩ := ih hid.2 hp
      refine ⟨bodies, report', gaveUp, ?_, hpre, hwhole, ?_,
        forall_mem_cons.2 ⟨by simp [hbody], hall⟩⟩
      · rw [lowerBodies, hbody]
        exact hrun
      · rw [filter_cons_of_neg (by simp [hbody])]
        exact hids
    | some body =>
      obtain ⟨entry, hmem, hsig⟩ := funct?_of_lt hid.1
      obtain ⟨f, report1, gaveUp1, hrun1, hpre1, hwf, hsignature, hchecked, hlets⟩ :=
        lowerBody_spec ht hp hsig (hh entry hmem) strict body
      obtain ⟨bodies, report', gaveUp, hrun, hpre, hwhole, hids, hall⟩ :=
        ih hid.2 fun hq => hp (prefix_nil.1 (hq ▸ hpre1))
      have hquiet : report'.entries = [] → report1.entries = [] :=
        fun hq => prefix_nil.1 (hq ▸ hpre)
      refine ⟨(pending.id, f) :: bodies, report', gaveUp1 || gaveUp, ?_, hpre1.trans hpre,
        fun hs hq => ?_, ?_, forall_mem_cons.2
          ⟨fun _ => ⟨f, by simp, ⟨hwf, ?_, ?_, ?_, ?_⟩, ?_⟩, fun other ho hs => ?_⟩⟩
      · rw [lowerBodies, hbody]
        simp only [hrun1, hrun, bind, Except.bind, pure, Except.pure]
      · rw [(hchecked hs (hquiet hq)).1, hwhole hs hq]
        rfl
      · rw [filter_cons_of_pos (by simp [hbody]), map_cons, map_cons, hids]
      · exact fun hs hq => (hchecked hs (hquiet hq)).2.resolved
      · exact fun hs hq => (hchecked hs (hquiet hq)).2.fine
      · exact fun hs hq => (hchecked hs (hquiet hq)).2.permitted
      · intro hw body' hbody'
        rw [hbody] at hbody'
        cases hbody'
        exact hlets (Bool.or_eq_false_iff.1 hw).1
      · intro s hs
        rw [hsig] at hs
        cases hs
        exact hsignature
      · obtain ⟨f', hf', h'⟩ := hall other ho hs
        exact ⟨f', mem_cons_of_mem _ hf',
          { h' with lets := fun hw => h'.lets (Bool.or_eq_false_iff.1 hw).2 }⟩

/-- Every function that is set is found afterwards; the others stay. -/
theorem Table.setFuncts_spec {t : Table} (hid : ∀ x ∈ bodies, x.1.index < t.functs.length)
    (hnodup : (bodies.map Prod.fst).Nodup) :
    ∃ t', t.setFuncts bodies = .ok t' ∧ t'.index = t.index ∧ t'.structs = t.structs ∧
      t'.functs.length = t.functs.length ∧ (∀ x ∈ bodies, t'.funct? x.1 = some x.2) ∧
      ∀ id, id ∉ bodies.map Prod.fst → t'.funct? id = t.funct? id := by
  induction bodies generalizing t with
  | nil => exact ⟨t, rfl, rfl, rfl, rfl, by simp, fun _ _ => rfl⟩
  | cons x rest ih =>
    obtain ⟨id, f⟩ := x
    rw [forall_mem_cons] at hid
    rw [map_cons, nodup_cons] at hnodup
    obtain ⟨t', hrun, hindex, hstructs, hlength, hset, hrest⟩ := ih (t := t.withFunct id f)
      (fun x hx => by simpa using hid.2 x hx) hnodup.2
    refine ⟨t', ?_, hindex, hstructs, hlength.trans (t.length_withFunct id f),
      forall_mem_cons.2 ⟨?_, hset⟩, fun id' hne => ?_⟩
    · rw [setFuncts, setFunct_eq hid.1]
      exact hrun
    · rw [hrest id hnodup.1, funct?_withFunct hid.1, if_pos rfl]
    · rw [map_cons, mem_cons, not_or] at hne
      rw [hrest id' hne.2, funct?_withFunct hid.1, if_neg hne.1]

/-- A function is one that was lowered, or has no body. -/
theorem LoweredBodies.fills_all {pendings : List PendingFunct} {t : Table}
    (h : LoweredBodies table strict report gaveUp pendings bodies) (ht : table.Valid)
    (hh : table.Headed) (hp : report.entries = [] → table.Plain)
    (hid : ∀ pending ∈ pendings, pending.id.index < table.functs.length)
    (hnodup : (pendings.map PendingFunct.id).Nodup) (hnew : ∀ x ∈ bodies, t.funct? x.1 = some x.2)
    (hold : ∀ id, id ∉ bodies.map Prod.fst → t.funct? id = table.funct? id) :
    ∀ pending ∈ pendings, ∃ f, t.funct? pending.id = some f ∧
      pending.Fills table strict report gaveUp f := by
  intro pending hpending
  by_cases hbody : pending.decl.body.isSome = true
  · obtain ⟨f, hf, hfills⟩ := h.fills pending hpending hbody
    exact ⟨f, hnew _ hf, hfills⟩
  · have hnot : pending.id ∉ bodies.map Prod.fst := by
      rw [h.ids]
      intro hmem
      obtain ⟨other, hother, heq⟩ := mem_map.1 hmem
      obtain ⟨ho, hb⟩ := mem_filter.1 hother
      cases inj_on_of_nodup_map hnodup ho hpending heq
      exact hbody hb
    obtain ⟨entry, hmem, hsig⟩ := funct?_of_lt (hid pending hpending)
    refine ⟨entry.funct, (hold _ hnot).trans hsig, .ofHeader (ht.functs entry hmem)
      (hh entry hmem) (fun hq => (hp hq).functs entry hmem) (by simpa using hbody), fun s hs => ?_⟩
    rw [hsig] at hs
    cases hs
    rfl

end Bodies

/-! ## Programs -/

/-- The program has the declarations of the outline, and its functions are what
    was to be lowered. -/
structure Program.Realizes (strict : Bool) (o : Outline) (p : Program) : Prop where
  index : ∀ entry ∈ p.table.index, entry.2.Within p.table.structs.length p.table.functs.length
  fields : ∀ entry ∈ p.table.structs, ∀ field ∈ entry.fields,
    field.type.Within 0 p.table.structs.length
  resolved : p.report.entries = [] → ∀ entry ∈ p.table.structs, ∀ field ∈ entry.fields,
    field.type.isResolved = true
  whole : strict = true → p.report.entries = [] → p.gaveUp = false
  functs : ∀ pending ∈ o.functs, ∃ f, p.table.funct? pending.id = some f ∧
    pending.Realized p.table strict p.report p.gaveUp f
  all : ∀ entry ∈ p.table.functs, ∃ pending ∈ o.functs,
    p.table.funct? pending.id = some entry.funct

variable {o : Outline} {strict : Bool}

theorem Outline.Valid.nodup (h : o.Valid) : (o.functs.map PendingFunct.id).Nodup := by
  rw [h.functs, List.Nodup, pairwise_map]
  exact nodup_range.imp fun hne heq => hne (by cases heq; rfl)

theorem Outline.Valid.exists_id (h : o.Valid) (id : FunctId)
    (hid : id.index < o.table.functs.length) : ∃ pending ∈ o.functs, pending.id = id := by
  have hmem : id ∈ o.functs.map PendingFunct.id := by
    rw [h.functs]
    exact mem_map_of_mem (mem_range.2 hid)
  exact mem_map.1 hmem

theorem LoweredBodies.set {table : Table} {report : Report} {gaveUp : Bool}
    {bodies : List (FunctId × Function)}
    (h : LoweredBodies table strict report gaveUp o.functs bodies) (ho : o.Valid)
    (hlength : table.functs.length = o.table.functs.length) :
    ∃ t', table.setFuncts bodies = .ok t' ∧ t'.index = table.index ∧ t'.structs = table.structs ∧
      t'.functs.length = table.functs.length ∧ (∀ x ∈ bodies, t'.funct? x.1 = some x.2) ∧
      ∀ id, id ∉ bodies.map Prod.fst → t'.funct? id = table.funct? id := by
  have hsub : (bodies.map Prod.fst).Sublist (o.functs.map PendingFunct.id) :=
    h.ids ▸ (filter_sublist).map _
  refine setFuncts_spec (fun x hx => ?_) (ho.nodup.sublist hsub)
  obtain ⟨pending, hp, heq⟩ := mem_map.1 (hsub.subset (mem_map_of_mem hx))
  exact heq ▸ hlength ▸ ho.lt hp

/-- The three passes. -/
theorem lowerFiles_eq_ok {files : List SourceFile} {p : Program} :
    lowerFiles strict files = .ok p ↔ ∃ program bodies,
      (lowerSignatures (ofFiles files)).run
        ⟨(ofFiles files).table, (ofFiles files).report, false⟩ = .ok ((), program) ∧
      lowerBodies strict program.table (ofFiles files).functs program.report =
        .ok (bodies, p.report, p.gaveUp) ∧
      program.table.setFuncts bodies = .ok p.table := by
  constructor
  · intro h
    obtain ⟨⟨⟨⟩, program⟩, hsignatures, h⟩ := bind_eq_ok.1 h
    obtain ⟨⟨bodies, report, gaveUp⟩, hbodies, h⟩ := bind_eq_ok.1 h
    dsimp only at h
    split at h
    · rename_i hset
      cases h
      exact ⟨program, bodies, hsignatures, hbodies, hset⟩
    · cases h
  · rintro ⟨program, bodies, hsignatures, hbodies, hset⟩
    rw [lowerFiles]
    simp only [hsignatures, hbodies, bind, Except.bind, hset]
    rfl

/-- **Programs are lowered without fault or defect.** -/
theorem lowerFiles_spec (strict : Bool) (files : List SourceFile) :
    ∃ program, lowerFiles strict files = .ok program ∧ program.Realizes strict (ofFiles files) := by
  have ho := ofFiles_valid files
  obtain ⟨p, hsignatures, hl⟩ := lowerSignatures_spec ho
  have hlength : p.table.functs.length = (ofFiles files).table.functs.length := hl.functs
  have hid : ∀ pending ∈ (ofFiles files).functs,
      pending.id.index < p.table.functs.length := fun pending hp => hlength ▸ ho.lt hp
  obtain ⟨bodies, report, gaveUp, hbodies, hpre, hwhole, hlowered⟩ :=
    lowerBodies_spec strict hl.valid.table hl.valid.headed hid hl.valid.plain
  obtain ⟨t, hset, hindex, hstructs, hcount, hnew, hold⟩ := hlowered.set ho hlength
  have hplain : report.entries = [] → p.table.Plain :=
    fun hq => hl.valid.plain (prefix_nil.1 (hq ▸ hpre))
  have hfills := hlowered.fills_all hl.valid.table hl.valid.headed hplain hid ho.nodup hnew hold
  have hagrees : p.table.Agrees t := by
    refine ⟨hstructs, hcount, fun id f hf => ?_⟩
    have hlt : id.index < p.table.functs.length := by
      obtain ⟨entry, hentry, -⟩ := Option.map_eq_some_iff.1 hf
      exact (List.getElem?_eq_some_iff.1 hentry).1
    obtain ⟨pending, hp, rfl⟩ := ho.exists_id id (hlength ▸ hlt)
    obtain ⟨f', hf', h⟩ := hfills pending hp
    exact ⟨f', hf', h.signature f hf⟩
  refine ⟨⟨t, report, gaveUp⟩, ?_, ?_, ?_, fun hq => ?_, hwhole, fun pending hp => ?_,
    fun entry he => ?_⟩
  · exact lowerFiles_eq_ok.2 ⟨p, bodies, hsignatures, hbodies, hset⟩
  · show ∀ entry ∈ t.index, entry.2.Within t.structs.length t.functs.length
    rw [hindex, hstructs, hcount]
    exact hl.valid.table.index
  · show ∀ entry ∈ t.structs, ∀ field ∈ entry.fields, field.type.Within 0 t.structs.length
    rw [hstructs]
    exact hl.valid.table.fields
  · show ∀ entry ∈ t.structs, ∀ field ∈ entry.fields, field.type.isResolved = true
    rw [hstructs]
    exact fun entry he field hf => ((hplain hq).fields entry he field hf).isResolved
      (.of_within (hl.valid.table.fields entry he field hf))
  · obtain ⟨f, hf, h⟩ := hfills pending hp
    exact ⟨f, hf, h.toRealized.agrees hagrees⟩
  · obtain ⟨j, hj⟩ := mem_iff_getElem?.1 he
    obtain ⟨pending, hp, hid⟩ := ho.exists_id ⟨j⟩
      (hlength ▸ hcount ▸ (List.getElem?_eq_some_iff.1 hj).1)
    exact ⟨pending, hp, by rw [hid, funct?, show t.functs[j]? = _ from hj]; rfl⟩

end Semcheck
