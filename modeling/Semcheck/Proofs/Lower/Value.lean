/-
  Values that are made from other values: functions, tuples, calls and structs.

  The parts are lowered into registers of their own first, which stay live
  (`Operands`, `Fields.live`).  A call of a value of unknown type is never
  reached with a value: on a path on which the callee is live its type is known.
-/
import Semcheck.Proofs.Lower.Place

namespace Semcheck

open Lower Body List Ty Bindings Table Access Engine

namespace Lower

variable {cx : Context} {b b' : Body} {dest : Access}

theorem lowerDeclValue_lowers (path : Path) (span : Location) :
    Lowers cx (fun dest => lowerDeclValue cx path dest span) .none := by
  intro b dest hb hd hdt
  obtain ⟨r, hr, hdecl⟩ := hb.context.table.resolve path.toName path.absolute b.scope path.span
  refine .look (get_run b) ((orReport_spec (P := fun d _ => r = .ok d)
    (Q := fun _ sh b' => sh = .skip ∧ b' = b) hb hr (fun d h => h) fun d _ => ⟨rfl, rfl⟩).bind
    fun d sh1 b1 hg1 hd1 hq1 => ?_)
  have hwithin := hdecl d hd1
  cases d with
  | funct id =>
    obtain ⟨entry, hmem, hentry⟩ := funct?_of_lt (t := cx.table) hwithin
    refine .look (orFault_run (funct_eq hentry)) ?_
    refine (moveLiteral_spec hg1.intact (.funct id) rfl hwithin (.grown ⟨hd, hdt⟩ hg1)
      (hb.context.table.functs entry hmem).signature
      (fun hc => ((hg1.intact.plain hc).2.table.functs entry hmem).signature) span
      fun has => ⟨_, hentry, rfl⟩).imp fun _ sh2 b2 hg2 hw ht => ?_
    obtain ⟨rfl, rfl⟩ := hq1 (hg2.whole hw)
    exact ht
  | struct id =>
    obtain ⟨name, hname⟩ := displayName_ok (t := cx.table) hwithin
    exact .look (orFault_run hname) (fail_spec hg1.intact _ _ _)

end Lower

/-! ## Operands -/

namespace Lower.Operand

/-- Everything the operand mentions exists. -/
structure InRange (cx : Context) (b : Body) (o : Operand) : Prop where
  access : o.access.InRange b.draft.registers.length
  type : o.type.Within b.engine.slots.length cx.table.structs.length

/-- The operand has the type that is said. -/
def Typed (cx : Context) (b : Body) (o : Operand) : Prop :=
  b.accessType? cx o.access = some o.type

end Lower.Operand

/-- The registers that some accesses start from. -/
def bases (accesses : List Access) : List RegisterId :=
  accesses.filterMap Access.base?

/-- `step` lowers operands by code with the effect `E`. -/
def LowersOperands (cx : Context) (step : Lower (List Operand)) (E : Effect) : Prop :=
  ∀ b, b.Intact cx → Spec cx b step (fun os b' => ∀ o ∈ os, o.InRange cx b') fun os sh b' =>
    (b'.Clean → ∀ o ∈ os, o.Typed cx b') ∧
      Traced cx b [] .discard E sh b' (bases (os.map Operand.access))

namespace Lower

variable {cx : Context} {b b' : Body} {dest : Access} {os args : List Operand}

theorem Operand.InRange.grown {sh : Shape} {o : Operand} (h : o.InRange cx b)
    (hg : b.Grown cx sh b') : o.InRange cx b' :=
  ⟨hg.inRange h.access, hg.within h.type⟩

theorem lowerOperand_spec {value : Access → Lower Unit} {E : Effect} (hvalue : Lowers cx value E)
    (hb : b.Intact cx) (span : Location) :
    Spec cx b (lowerOperand cx span value) (fun o b' => o.InRange cx b') fun o sh b' =>
      o.Typed cx b' ∧ Traced cx b [] .discard E sh b' o.access.base?.toList := by
  obtain ⟨r, b1, s, hrun, hr⟩ := newTemp_run hb span
  refine .allocate hrun hr ((settling_temp hvalue hb hr).bind fun _ sh2 b2 hg2 _ hq2 => ?_)
  have hlt : r.index < b2.draft.registers.length := Nat.lt_of_lt_of_le hr.lt hg2.registers_le
  obtain ⟨register, hreg, hw⟩ := hg2.intact.register hlt
  refine .look (registerType_run hreg) (.pure hg2.intact ?_ fun hwhole => ?_)
  · exact ⟨inRange_register hlt, hw⟩
  · refine ⟨?_, by simpa [Access.register, Access.base?] using hq2 hwhole⟩
    rw [Operand.Typed, accessType?, type?_register, hreg]
    rfl

theorem lowerOperands_nil : LowersOperands cx (pure []) .none := by
  intro b hb
  exact .pure hb (by simp) fun _ => ⟨by simp, .skip hb (fun _ => .refl b) (.refl b)⟩

theorem lowerOperands_cons {value : Access → Lower Unit} {rest : Lower (List Operand)}
    {E F : Effect} (hvalue : Lowers cx value E) (hrest : LowersOperands cx rest F)
    (span : Location) :
    LowersOperands cx (do
      let first ← lowerOperand cx span value
      return first :: (← rest)) (E.seq F) := by
  intro b hb
  refine (lowerOperand_spec hvalue hb span).bind fun o sh1 b1 hg1 hp1 hq1 => ?_
  refine (hrest b1 hg1.intact).bind fun os sh2 b2 hg2 hp2 hq2 => ?_
  refine .pure hg2.intact (forall_mem_cons.2 ⟨hp1.grown hg2, hp2⟩) fun hw => ?_
  obtain ⟨ht1, htraced1⟩ := hq1 (hg2.whole hw)
  obtain ⟨ht2, htraced2⟩ := hq2 hw
  refine ⟨fun hc => forall_mem_cons.2 ⟨(hg2.extends hc).accessType? ht1, ht2 hc⟩, ?_⟩
  rw [Shape.append_skip]
  refine htraced1.seq hb hg1 htraced2 hg2 inRange_discard (by simp) ?_
  cases hbase : o.access.base? <;> simp [bases, hbase]

theorem operands_has {h : History} (hb : b.Intact cx) (ht : ∀ o ∈ os, o.Typed cx b)
    (hlive : ∀ r ∈ bases (os.map Operand.access), b.Live h r) :
    ∀ o ∈ os, b.Has cx o.access (b.engine.bindings.apply o.type) := by
  intro o ho
  obtain ⟨r, hbase⟩ := base_of_accessType? (ht o ho)
  have hr : r ∈ bases (os.map Operand.access) :=
    mem_filterMap.2 ⟨o.access, mem_map_of_mem ho, hbase⟩
  exact (hlive r hr).known.has hb hbase (ht o ho)

theorem forall₂_operands {has : Access → Ty → Prop} {f : Ty → Ty}
    (h : ∀ o ∈ os, has o.access (f o.type)) :
    Forall₂ has (os.map Operand.access) ((os.map Operand.type).map f) := by
  rw [map_map, forall₂_map_left_iff, forall₂_map_right_iff, forall₂_same]
  exact h

theorem makeTuple_spec (hb : b.Intact cx) (hos : ∀ o ∈ os, o.InRange cx b)
    (ht : b.Clean → ∀ o ∈ os, o.Typed cx b) (hd : b.Takes cx dest) (span : Location) :
    b.Fills cx (bases (os.map Operand.access) ++ dest.needs) dest .none
      (makeTuple cx os dest span) := by
  refine deliver_traced hb (.refl hb) (fun _ => .refl b)
    (i := .literal (.tuple (os.map Operand.access)) dest) ⟨fun a ha => ?_, ?_⟩ rfl hd
    (within_tuple.2 fun t ht => ?_) (fun hc => all_tuple.2 ⟨trivial, fun t ht' => ?_⟩)
    span (subset_append_right _ _) (fun hc h hlive => ?_) (by rintro _ _ _ _ ⟨⟩)
  · rcases mem_append.1 ha with ha | ha
    · obtain ⟨o, ho, rfl⟩ := mem_map.1 ha
      exact (hos o ho).access
    · obtain rfl := mem_singleton.1 ha
      exact hd.inRange
  · rintro _ _ ⟨⟩
    trivial
  · obtain ⟨o, ho, rfl⟩ := mem_map.1 ht
    exact (hos o ho).type
  · obtain ⟨o, ho, rfl⟩ := mem_map.1 ht'
    exact accessType?_plain hb hc (ht hc o ho)
  · have hhas := operands_has hb (ht hc) fun r hr => hlive r (mem_append_left _ hr)
    rw [apply_tuple, closed_tuple]
    refine ⟨fun t ht' => ?_, fun r hr => (hlive r (mem_append_left _ hr)).defined,
      fun has hhas' htakes => ⟨_, ⟨_, ?_, rfl⟩, htakes⟩⟩
    · rw [map_map] at ht'
      obtain ⟨o, ho, rfl⟩ := mem_map.1 ht'
      exact (hhas o ho).closed
    · exact forall₂_operands fun o ho => hhas' _ _ (hhas o ho)

/-! ## Calls -/

/-- The parameters agree with the arguments, as far as these are known. -/
theorem unifyOperands_spec {params : List Ty} (hb : b.Intact cx)
    (hparams : ∀ p ∈ params, p.Legal cx b)
    (hargs : ∀ o ∈ args, o.InRange cx b) (hplain : b.Clean → ∀ p ∈ params, p.Plain)
    (ht : b.Clean → ∀ o ∈ args, o.Typed cx b) :
    Spec cx b (unifyOperands cx params args) (fun _ _ => True) fun _ sh b' =>
      sh = .skip ∧ b.Steady b' ∧ (b'.Clean → params.length = args.length →
        (∀ o ∈ args, (b.engine.bindings.apply o.type).Closed) →
        params.map b'.engine.bindings.apply =
          (args.map Operand.type).map b.engine.bindings.apply) := by
  induction params generalizing args b with
  | nil =>
    refine .pure hb trivial fun _ => ⟨rfl, .refl b, fun _ hlen _ => ?_⟩
    obtain rfl := eq_nil_of_length_eq_zero hlen.symm
    rfl
  | cons param params ih =>
    cases args with
    | nil => exact .pure hb trivial fun _ => ⟨rfl, .refl b, fun _ hlen => by simp at hlen⟩
    | cons arg args =>
      rw [forall_mem_cons] at hparams hargs
      refine (unifyAt_spec hb hparams.1 hargs.1.type (fun hc => (hplain hc) _ (by simp))
        (fun hc => accessType?_plain hb hc (ht hc _ (by simp))) arg.span).bind
        fun _ sh1 b1 hg1 _ hq1 => ?_
      refine (ih hg1.intact (fun p hp => hg1.within (hparams.2 p hp))
        (fun o ho => (hargs.2 o ho).grown hg1)
        (fun hc p hp => hplain (hg1.clean hc) p (mem_cons_of_mem _ hp))
        fun hc o ho => (hg1.extends hc).accessType?
          (ht (hg1.clean hc) o (mem_cons_of_mem _ ho))).imp ?_
      rintro _ sh2 b2 hg2 hw ⟨rfl, hsteady2, hagree2⟩
      obtain ⟨rfl, hsteady1, hagree1⟩ := hq1 (hg2.whole hw)
      refine ⟨rfl, hsteady1.trans hsteady2, fun hc hlen hclosed => ?_⟩
      rw [forall_mem_cons] at hclosed
      have hx1 := hg1.extends (hg2.clean hc)
      -- what is known stays as it is while the other arguments are unified
      have hsame : ∀ o ∈ args, b1.engine.bindings.apply o.type = b.engine.bindings.apply o.type :=
        fun o ho => hx1.apply (hclosed.2 o ho)
      have hfirst := hagree1 (hg2.clean hc) hclosed.1
      have hrest := hagree2 hc (by simpa using hlen) fun o ho => hsame o ho ▸ hclosed.2 o ho
      simp only [map_cons, cons.injEq]
      refine ⟨?_, hrest.trans ?_⟩
      · rw [← hfirst]
        exact (hg2.extends hc).apply (hfirst ▸ hclosed.1)
      · rw [map_map, map_map]
        exact map_congr_left hsame

/-- The type of the result of a call; if the types of the callee and the
    arguments are known, they agree. -/
theorem callType_spec {callee : Ty} (hb : b.Intact cx) (hcallee : callee.Legal cx b)
    (hplain : b.Clean → callee.Plain) (hargs : ∀ o ∈ args, o.InRange cx b)
    (ht : b.Clean → ∀ o ∈ args, o.Typed cx b) (calleeSpan span : Location) :
    Spec cx b (callType cx callee args calleeSpan span)
      (fun t b' => t.Legal cx b') fun returns sh b' =>
      sh = .skip ∧ b.Steady b' ∧ (b'.Clean → returns.Plain ∧
        ((b.engine.bindings.apply callee).Closed →
        (∀ o ∈ args, (b.engine.bindings.apply o.type).Closed) →
        ∃ params, b.engine.bindings.apply callee = b.engine.bindings.apply (.funct params returns) ∧
          params.map b'.engine.bindings.apply =
            (args.map Operand.type).map b.engine.bindings.apply)) := by
  have hhead := hb.engine.head hcallee
  have hhplain : b.Clean → (b.engine.bindings.head callee).Plain := fun hc =>
    (hb.plain hc).1.engine.head (hplain hc)
  have happly := apply_head hb.engine.ordered callee
  refine .look (shallow_run hb.engine hcallee) ?_
  cases hv : b.engine.bindings.head callee with
  | funct params returns =>
    rw [hv] at hhead hhplain happly
    dsimp only
    split
    · exact fail_bind_spec hb _ _ _ _
    · rename_i hlen
      have hp : b.Clean → returns.Plain ∧ ∀ p ∈ params, p.Plain := fun hc =>
        (all_funct.1 (hhplain hc)).2
      obtain ⟨hr, hps⟩ := within_funct.1 hhead
      refine (unifyOperands_spec hb hps hargs (fun hc => (hp hc).2) ht).bind
        fun _ sh1 b1 hg1 _ hq1 => .pure hg1.intact (hg1.within hr) fun hw => ?_
      obtain ⟨rfl, hsteady, hagree⟩ := hq1 hw
      refine ⟨rfl, hsteady, fun hc => ⟨(hp (hg1.clean hc)).1, fun _ hargs =>
        ⟨params, happly.symm, ?_⟩⟩⟩
      exact hagree hc (Decidable.of_not_not hlen) hargs
  | functAny returns =>
    rw [hv] at hhead hhplain
    refine .pure hb (within_functAny.1 hhead) fun _ => ⟨rfl, .refl b, fun hc => ?_⟩
    exact absurd (hhplain hc) not_plain_functAny
  | slot s =>
    rw [hv] at hhead
    have hg := Grown.addSlot hb span
    refine .after (run_bind_some (newSlot_run span)) hg ?_
    have hrule : (Rule.call s (args.map Operand.type) (b.engine.addSlot span).1 span).Within
        (b.engine.addSlot span).2.slots.length cx.table.structs.length :=
      ⟨within_slot.1 (hg.within hhead),
        forall_mem_map.2 fun o ho => hg.within (hargs o ho).type, by simp [addSlot]⟩
    have hkeeps := Engine.Keeps.addRule hg.intact.engine hrule
    have hg' := Grown.engine' hg.intact hkeeps.toGrows hkeeps.valid fun hc =>
      (hg.intact.plain hc).1.engine.addRule (forall_mem_map.2 fun o ho =>
        accessType?_plain hb (hg.clean hc) (ht (hg.clean hc) o ho))
    have hrun : (modify fun e => e.addRule (.call s (args.map Operand.type)
        (b.engine.addSlot span).1 span) : EngineM Unit).run (b.engine.addSlot span).2 =
        .ok ((), (b.engine.addSlot span).2.addRule (.call s (args.map Operand.type)
          (b.engine.addSlot span).1 span)) := rfl
    refine .after (run_bind_some (onEngine_run hrun)) hg' (.pure hg'.intact ?_ fun _ => ?_)
    · exact within_slot.2 (by simp [addSlot, addRule])
    · -- the type of the callee is not known
      refine ⟨rfl, ⟨rfl, rfl⟩, fun _ => ⟨plain_slot _, fun hclosed => ?_⟩⟩
      rw [← happly, hv, apply_unbound (head_ne_bound hb.engine.ordered hv)] at hclosed
      exact absurd hclosed Ty.Closed.not_slot
  | error =>
    rw [hv] at hhplain
    exact giveUp_spec hb fun hc => hhplain hc _ (mem_parts_self _)
  | _ =>
    rw [hv] at hhead
    exact failNaming_spec hb hhead _ _ _

/-- The callee and the arguments are live, so that their types are known. -/
theorem makeCall_spec {callee : Place} (hb : b.Intact cx) (hp : callee.InRange cx b)
    (hargs : ∀ o ∈ args, o.InRange cx b) (ht : b.Clean → ∀ o ∈ args, o.Typed cx b)
    (hd : b.Takes cx dest) (calleeSpan span : Location) :
    b.Fills cx (callee.access.base?.toList ++ bases (args.map Operand.access) ++ dest.needs) dest
      .none (makeCall cx callee args dest calleeSpan span) := by
  refine (callType_spec hb hp.type (hp.plain hb) hargs ht calleeSpan span).bind
    fun returns sh1 b1 hg1 hreturns hq1 => ?_
  have htyped := fun hc : b1.Clean => (hq1 (hc.whole hg1.intact)).2.2 hc
  have hspec := deliver_traced hb hg1 (fun hw => (hq1 hw).2.1)
    (i := .call callee.access (args.map Operand.access) dest) ⟨fun a ha => ?_, by rintro _ _ ⟨⟩⟩ rfl
    (hd.grown hg1) hreturns (fun hc => (htyped hc).1) span (subset_append_right
      (callee.access.base?.toList ++ bases (args.map Operand.access)) _) (fun hc h hlive => ?_)
    (by rintro _ _ _ _ ⟨⟩)
  · refine hspec.imp fun _ sh2 b2 hg2 hw htraced => ?_
    rw [(hq1 (hg2.whole hw)).1]
    exact htraced
  · simp only [Instruction.accesses, Instruction.sources, Instruction.dest, cons_append,
      mem_cons, mem_append, not_mem_nil, or_false] at ha
    rcases ha with rfl | ha | rfl
    · exact hg1.inRange hp.access
    · obtain ⟨o, ho, rfl⟩ := mem_map.1 ha
      exact hg1.inRange (hargs o ho).access
    · exact hg1.inRange hd.inRange
  · have hx1 := hg1.extends hc
    have hc0 := hg1.clean hc
    obtain ⟨hcallee, hdef⟩ := (hp.typed hc0.strict).has hb fun r hr =>
      hlive r (mem_append_left _ (mem_append_left _ hr))
    have hoperands := operands_has hb (ht hc0) fun r hr =>
      hlive r (mem_append_left _ (mem_append_right _ hr))
    obtain ⟨params, htype, hparams⟩ :=
      (htyped hc).2 hcallee.closed fun o ho => (hoperands o ho).closed
    rw [htype, apply_funct] at hcallee
    -- the parts of the known type of the callee are known, and stay
    have hclosed : ∀ t, t = b.engine.bindings.apply returns ∨
        t ∈ params.map b.engine.bindings.apply → t.Closed := by
      intro t ht
      refine hcallee.closed.part (mem_parts_funct.2 ?_)
      rcases ht with rfl | ht
      · exact .inr (.inl (mem_parts_self _))
      · exact .inr (.inr ⟨t, ht, mem_parts_self t⟩)
    have hreturns' := hx1.apply (hclosed _ (.inl rfl))
    have hparams' : params.map b1.engine.bindings.apply = params.map b.engine.bindings.apply :=
      map_congr_left fun t ht => hx1.apply (hclosed _ (.inr (mem_map_of_mem ht)))
    rw [hreturns']
    refine ⟨hclosed _ (.inl rfl), ?_, fun has hhas htakes => ⟨_, _, hhas _ _ (hx1.has hcallee), ?_,
      htakes⟩⟩
    · intro r hr
      rw [Instruction.sources, ← singleton_append, filterMap_append, mem_append] at hr
      refine hx1.defined prefix_rfl ?_
      rcases hr with hr | hr
      · exact hdef r hr
      · exact (hlive r (mem_append_left _ (mem_append_right _ hr))).defined
    · rw [← hparams', hparams]
      exact forall₂_operands fun o ho => hhas _ _ (hx1.has (hoperands o ho))

end Lower

/-! ## Struct values -/

namespace Lower.Fields

def written (f : Fields) : List Access :=
  f.values.filterMap fun value => value

/-- There is a place for the value of every field, and the values exist. -/
structure InRange (fields : List Field) (b : Body) (f : Fields) : Prop where
  same : f.fields = fields
  length : f.values.length = fields.length
  values : ∀ a ∈ f.written, a.InRange b.draft.registers.length

structure Typed (cx : Context) (b : Body) (f : Fields) : Prop where
  ok : f.failed = false
  values : ∀ (i : Nat) (a : Access), f.values[i]? = some (some a) →
    ∃ field, f.fields[i]? = some field ∧ b.accessType? cx a = some field.type

end Lower.Fields

/-- `step` writes fields of a struct value by code with the effect `E`, unless one of
    them failed. -/
def LowersFields (cx : Context) (step : Fields → Lower Fields) (E : Effect) : Prop :=
  ∀ b fields f, b.Intact cx → f.InRange fields b → (b.Clean → f.Typed cx b) →
    (∀ field ∈ fields, field.type.Within 0 cx.table.structs.length) →
    (b.Clean → ∀ field ∈ fields, field.type.Plain) →
    Spec cx b (step f) (fun f' b' => f'.InRange fields b') fun f' sh b' =>
      (b'.Clean → f'.Typed cx b') ∧ (f'.failed = false → f.failed = false ∧
        Traced cx b (bases f.written) .discard E sh b' (bases f'.written))

namespace Lower

variable {cx : Context} {b b' : Body} {dest : Access}

theorem lowerInit_lowers {value : Access → Lower Unit} {E : Effect} (hvalue : Lowers cx value E)
    (name : Ident) (span valueSpan : Location) :
    LowersFields cx (fun f => lowerInit cx f name span valueSpan value) E := by
  intro b fields f hb hf ht hw hplain
  dsimp only
  rw [lowerInit]
  cases hfind : findField name.text f.fields with
  | none =>
    have hg := Grown.reported hb (.error .undeclared ("struct " ++ ticked f.name ++
      " has no field named " ++ ticked name.text) name.span)
    exact .after (run_bind_some (complain_run _ _ _)) hg (.pure hg.intact
      ⟨hf.same, hf.length, hf.values⟩ fun _ => ⟨(absurd · not_clean_reported), nofun⟩)
  | some entry =>
    obtain ⟨index, field⟩ := entry
    have hfield := findField_some hfind
    have hmem : field ∈ fields := hf.same ▸ mem_of_getElem? hfield
    have hlt : index < f.values.length := by
      rw [hf.length, ← hf.same]
      exact (List.getElem?_eq_some_iff.1 hfield).1
    dsimp only
    split
    · have hg := Grown.reported hb (.error .incompatibleTypes ("field " ++ ticked name.text ++
        " is initialized more than once") span)
      exact .after (run_bind_some (complain_run _ _ _)) hg (.pure hg.intact
        ⟨hf.same, hf.length, hf.values⟩ fun _ => ⟨(absurd · not_clean_reported), nofun⟩)
    · obtain ⟨r, b1, hrun, hr⟩ := newRegister_run hb ((hw field hmem).mono (Nat.zero_le _)
        (Nat.le_refl _)) (fun hc => hplain hc field hmem) valueSpan
      have hg1 := hr.grown
      refine .allocate hrun hr ((settling_temp hvalue hb hr).recover.bind
        fun done sh2 b2 hg2 _ hq2 => ?_)
      have hwritten : ∀ a ∈ Fields.written { f with
            values := f.values.set index (some (.register r)), failed := f.failed || !done },
          a ∈ f.written ∨ a = .register r := by
        intro a ha
        obtain ⟨v, hv, rfl⟩ := mem_filterMap.1 ha
        rcases mem_or_eq_of_mem_set hv with hv | hv
        · exact .inl (mem_filterMap.2 ⟨_, hv, rfl⟩)
        · exact .inr (Option.some.inj hv)
      have hx := fun hc => (hg1.extends (hg2.clean hc)).trans (hg2.extends hc)
      refine .pure hg2.intact ⟨hf.same, ?_, fun a ha => ?_⟩ fun hw =>
        ⟨fun hc => ⟨?_, fun i a hi => ?_⟩, fun hfailed => ⟨(Bool.or_eq_false_iff.1 hfailed).1, ?_⟩⟩
      · rw [length_set]
        exact hf.length
      · rcases hwritten a ha with ha | rfl
        · exact hg2.inRange (hg1.inRange (hf.values a ha))
        · exact hg2.inRange hr.inRange
      · simp [(ht (hg1.clean (hg2.clean hc))).ok, (hq2 hw).1]
      · dsimp only at hi
        rw [getElem?_set] at hi
        split at hi
        · rename_i heq
          subst heq
          cases hi
          exact ⟨field, hfield, (hg2.extends hc).accessType? hr.accessType?⟩
        · obtain ⟨field', hfield', htype⟩ := (ht (hg1.clean (hg2.clean hc))).values i a hi
          exact ⟨field', hfield', (hx hc).accessType? htype⟩
      · rw [Shape.append_skip]
        refine ((hq2 hw).2.frame hx (bases f.written)).weaken (by simp) fun r' hr' => ?_
        obtain ⟨a, ha, hbase⟩ := mem_filterMap.1 hr'
        rcases hwritten a ha with ha | rfl
        · exact mem_append_right _ (mem_filterMap.2 ⟨a, ha, hbase⟩)
        · cases hbase
          simp

theorem lowerInits_nil : LowersFields cx (fun f => pure f) .none := by
  intro b fields f hb hf ht _ _
  exact .pure hb hf fun _ => ⟨ht, (⟨·, .skip hb (fun _ => .refl b) (.refl b)⟩)⟩

theorem lowerInits_cons {first rest : Fields → Lower Fields} {E F : Effect}
    (hfirst : LowersFields cx first E) (hrest : LowersFields cx rest F) :
    LowersFields cx (fun f => first f >>= rest) (E.seq F) := by
  intro b fields f hb hf ht hw hplain
  refine (hfirst b fields f hb hf ht hw hplain).bind fun f1 sh1 b1 hg1 hp1 hq1 => ?_
  refine (hrest b1 fields f1 hg1.intact hp1 (fun hc => (hq1 (hc.whole hg1.intact)).1 hc) hw
    fun hc => hplain (hg1.clean hc)).mono (fun f2 sh2 b2 _ hp2 => hp2) ?_
  rintro f2 sh2 b2 hg2 hwhole - ⟨ht2, hok2⟩
  refine ⟨ht2, fun hfailed => ?_⟩
  obtain ⟨hfailed1, htraced2⟩ := hok2 hfailed
  obtain ⟨hfailed0, htraced1⟩ := (hq1 (hg2.whole hwhole)).2 hfailed1
  refine ⟨hfailed0, htraced1.seq hb hg1 htraced2 hg2 inRange_discard ?_ ?_⟩
  · exact subset_append_right _ _
  · exact subset_append_right _ _

theorem map_some_filterMap {α : Type} {l : List (Option α)} (h : ∀ v ∈ l, v.isSome = true) :
    (l.filterMap fun v => v).map some = l := by
  induction l with
  | nil => rfl
  | cons v l ih =>
    rw [forall_mem_cons] at h
    obtain ⟨a, rfl⟩ := Option.isSome_iff_exists.1 h.1
    exact congrArg (some a :: ·) (ih h.2)

theorem Fields.complete {f : Fields} (hlen : f.values.length = f.fields.length)
    (hmissing : f.missing = []) : f.values = f.written.map some := by
  refine (map_some_filterMap fun v hv => ?_).symm
  obtain ⟨i, hi⟩ := mem_iff_getElem?.1 hv
  have hlt : i < f.fields.length := hlen ▸ (List.getElem?_eq_some_iff.1 hi).1
  have hzip : (f.fields.get ⟨i, hlt⟩, v) ∈ f.fields.zip f.values :=
    mem_of_getElem? (getElem?_zip_eq_some.2 ⟨getElem?_eq_getElem hlt, hi⟩)
  have hfilter := filter_eq_nil_iff.1 (map_eq_nil_iff.1 hmissing) _ hzip
  simpa [Option.isSome_iff_ne_none] using hfilter

theorem makeStruct_failed {P : Unit → Body → Prop} {Q : Unit → Shape → Body → Prop} {f : Fields}
    (hb : b.Intact cx) (hfailed : f.failed = true) (hc : ¬ b.Clean) (id : StructId)
    (span : Location) : Spec cx b (makeStruct cx id f dest span) P Q := by
  rw [makeStruct, hfailed]
  dsimp only
  split
  · exact fail_bind_spec hb _ _ _ _
  · exact .gaveUp rfl (.refl hb) hc

/-- A struct value has one operand for each field, of the type of the field. -/
theorem makeStruct_spec (hb : b.Intact cx) {id : StructId} {entry : StructEntry}
    (hid : id.index < cx.table.structs.length) (hentry : cx.table.struct? id = some entry)
    {f : Fields} (hf : f.InRange entry.fields b) (hok : f.failed = false)
    (ht : b.Clean → f.Typed cx b) (hd : b.Takes cx dest) (span : Location) :
    b.Fills cx (bases f.written ++ dest.needs) dest .none (makeStruct cx id f dest span) := by
  have hstruct : ∀ n, (Ty.struct id).Within n cx.table.structs.length := fun n =>
    within_struct.2 hid
  rw [makeStruct, hok]
  dsimp only
  split
  · exact fail_bind_spec hb _ _ _ _
  rename_i hmissing
  refine deliver_traced hb (.refl hb) (fun _ => .refl b) (i := .literal (.struct id f.written) dest)
    ⟨fun a ha => ?_, by rintro _ _ ⟨⟩; exact hid⟩ rfl hd (hstruct _)
    (fun _ => by simp [Ty.Plain, Ty.All, Ty.IsPlain]) span (subset_append_right _ _)
    (fun hc h hlive => ?_) (by rintro _ _ _ _ ⟨⟩)
  · rcases mem_append.1 ha with ha | ha
    · exact hf.values a ha
    · obtain rfl := mem_singleton.1 ha
      exact hd.inRange
  · rw [apply_struct]
    refine ⟨.of_within (hstruct 0), fun r hr => (hlive r (mem_append_left _ hr)).defined,
      fun has hhas htakes => ⟨_, ⟨rfl, entry, hentry, ?_⟩, htakes⟩⟩
    have hvalues := Fields.complete (hf.same ▸ hf.length) (by simpa using hmissing)
    have hlength : f.written.length = entry.fields.length := by
      rw [← hf.length, hvalues, length_map]
    refine forall₂_iff_get.2 ⟨by rw [hlength, length_map], fun i hi _ => hhas _ _ ?_⟩
    -- the value of a field is live, and has the type of its register
    have hi' : f.values[i]? = some (some f.written[i]) := by
      rw [hvalues, getElem?_map, getElem?_eq_getElem hi]
      rfl
    obtain ⟨field, hfield, htype⟩ := (ht hc).values i _ hi'
    obtain ⟨r, hbase⟩ := base_of_accessType? htype
    have hr : r ∈ bases f.written := mem_filterMap.2 ⟨_, getElem_mem hi, hbase⟩
    have hvalue := (hlive r (mem_append_left _ hr)).known.has hb hbase htype
    rw [hf.same] at hfield
    have hmem := mem_of_getElem? hfield
    rw [apply_closed (.of_within (hb.context.table.fields entry
      (mem_of_getElem? hentry) field hmem))] at hvalue
    have hget := (List.getElem?_eq_some_iff.1 hfield).2
    simpa [hget] using hvalue

end Lower

end Semcheck
