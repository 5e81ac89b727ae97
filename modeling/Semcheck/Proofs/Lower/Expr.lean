/-
  Statements, blocks and whole expressions.

  * `Opening`: what a statement does for the rest of its block.  The locals it
    declares are in scope there, so what is known about the rest is turned into
    what is known about both;
  * `lowerExpr_lowers`: **every expression can be lowered**: by code that keeps to
    single assignment, unless a step gives up, and that is well typed and reads only
    what has a value, unless something is reported.
-/
import Semcheck.Proofs.Lower.Control

namespace Semcheck

open Lower Body List

/-! ## Statements -/

/-- Code of the shape `sh` comes before the rest of a block; `F` turns the effect
    of the rest into the effect of both. -/
structure Opening (cx : Context) (b : Body) (F : Effect → Effect) (sh : Shape) (b₁ : Body) :
    Prop where
  flow : b₁.Clean → Flow cx b [] sh b₁ []
  permit : b₁.Clean → Permits b .discard sh b₁
  once : ∀ dest E sh₂ b₂, dest.InRange b.draft.registers.length → b₁.Grown cx sh₂ b₂ →
    Once cx b₁ dest E sh₂ b₂ → Once cx b dest (F E) (sh.append sh₂) b₂

/-- `step` is a statement without a value. -/
def Introduces (cx : Context) (step : Lower Unit) (F : Effect → Effect) : Prop :=
  ∀ b, b.Intact cx → Spec cx b step (fun _ _ => True) fun _ sh b' => Opening cx b F sh b'

/-- `step` writes the value of a block to any destination.  Behind it the locals
    of the block are still in scope. -/
def LowersBlock (cx : Context) (step : Access → Lower Unit) (E : Effect) : Prop :=
  ∀ b dest, b.Intact cx → dest.InRange b.draft.registers.length →
    (b.Clean → b.Accepts cx dest) →
    Spec cx b (step dest) (fun _ _ => True) fun _ sh b' =>
      Behaves cx b dest.needs dest E sh b' dest.plain?.toList

variable {cx : Context} {E : Effect} {sh : Shape}

/-- What follows a statement is written behind it. -/
theorem Opening.andThen {b b₁ b₂ : Body} {F : Effect → Effect} {dest : Access} {sh₂ : Shape}
    (h : Opening cx b F sh b₁) (hg₁ : b.Grown cx sh b₁) (hg₂ : b₁.Grown cx sh₂ b₂)
    (hd : dest.InRange b.draft.registers.length)
    (hrest : Behaves cx b₁ dest.needs dest E sh₂ b₂ dest.plain?.toList) :
    Behaves cx b dest.needs dest (F E) (sh.append sh₂) b₂ dest.plain?.toList := by
  refine ⟨fun hc => ?_, h.once _ _ _ _ hd hg₂ hrest.once, fun hc => ?_⟩
  all_goals
    have hc₁ := hg₂.clean hc
  · exact ((h.flow hc₁).weaken (nil_subset _) (.refl _)).seq (hg₁.extends hc₁) (hrest.flow hc)
      (hg₂.extends hc) (by simp) (by simp)
  · exact (h.permit hc₁).seq (hg₁.extends hc₁) (hrest.permit hc) (hg₂.extends hc)

theorem Lowers.block {value : Access → Lower Unit} (h : Lowers cx value E) :
    LowersBlock cx value E := fun b dest hb hd hdt =>
  (h b dest hb hd hdt).imp fun _ _ _ _ _ ht => ht.toBehaves

namespace Body

variable {cx : Context} {b b₁ : Body} {sh : Shape}

/-- The locals of a block go out of scope. -/
theorem Grown.leaveScope (hg : b.Grown cx sh b₁) :
    b.Grown cx sh { b₁ with locals := b₁.locals.take b.locals.length, scope := b.scope } := by
  obtain ⟨more, hmore, -⟩ := hg.locals
  have hsub : b₁.locals.take b.locals.length ⊆ b₁.locals := take_subset ..
  refine ⟨{ hg.toProgress with locals := .of_eq ?_ }, { hg.intact with
    locals := fun l hl => hg.intact.locals l (hsub hl)
    distinct := ?_
    apart := fun l hl => hg.intact.apart l (hsub hl)
    bound := fun l hl => hg.intact.bound l (hsub hl)
    plain := fun hc => hg.intact.plain ⟨hc.quiet, hc.strict⟩ }, hg.code, hg.steps, hg.exits⟩
  · rw [map_take, hmore, take_left' (length_map ..)]
  · rw [map_take]
    exact hg.intact.distinct.sublist (take_sublist ..)

end Body

namespace Lower

variable {cx : Context} {b b' : Body} {E E1 E2 : Effect} {F : Effect → Effect}

theorem inBlock_lowers {step : Access → Lower Unit} (h : LowersBlock cx step E) :
    Lowers cx (fun dest => inBlock (step dest)) E := by
  intro b dest hb hd hdt
  obtain ⟨r, sh, b₁, hrun, hg, hsome, h⟩ := h b dest hb hd hdt
  refine .look (get_run b) ?_
  cases r with
  | none => exact .gaveUp (run_bind_none hrun) hg (nomatch hsome ·)
  | some _ =>
    refine .intro ((run_bind_some hrun).trans rfl) hg.leaveScope trivial fun hw => ?_
    obtain ⟨hflow, honce, hpermit⟩ := (h _ rfl).2 hw
    have hx : b₁.Extends { b₁ with locals := b₁.locals.take b.locals.length, scope := b.scope } :=
      ⟨prefix_rfl, rfl, prefix_rfl, prefix_rfl⟩
    have hkept : ∀ (i : Nat) (l : Local), (b₁.locals.take b.locals.length)[i]? = some l →
        b₁.locals[i]? = some l := by
      intro i l hi
      rw [getElem?_take] at hi
      split at hi
      · exact hi
      · cases hi
    refine ⟨⟨fun hc => (hflow ⟨hc.quiet, hc.strict⟩).rename hx fun l hl hdef => .inl ?_,
      honce.after hkept rfl, fun hc => (hpermit ⟨hc.quiet, hc.strict⟩).rename hx
        fun hr l hl => hr l (take_subset _ _ hl)⟩, ?_⟩
    · exact ⟨l, take_subset _ _ hl, rfl, hdef⟩
    · obtain ⟨more, hmore, -⟩ := hg.locals
      rw [Level, map_take, hmore, take_left' (length_map ..)]

theorem exprStmt_introduces {value : Access → Lower Unit} (hvalue : Lowers cx value E)
    (span : Location) : Introduces cx (makeExprStmt cx value none span) (E.seq ·) := by
  intro b hb
  obtain ⟨r, b₁, s, hrun, hr⟩ := newTemp_run hb span
  rw [makeExprStmt]
  refine .allocate hrun hr ((settling_temp hvalue hb hr).imp fun _ sh b' hg _ htraced => ?_)
  exact ⟨fun hc => (htraced.flow hc).weaken (.refl _) (by simp), htraced.permit,
    fun dest E2 sh2 b2 hd _ honce =>
      .seq hb htraced.once (hr.grown.trans hg) htraced.level honce hd⟩

theorem stmts_lowers {first : Lower Unit} {rest : Access → Lower Unit}
    (hfirst : Introduces cx first F) (hrest : LowersBlock cx rest E) :
    LowersBlock cx (fun dest => do attempt first; rest dest) (F E) := by
  intro b dest hb hd hdt
  refine (hfirst b hb).attempt.bind fun _ sh1 b₁ hg1 _ hq1 => ?_
  have hd1 := Takes.grown ⟨hd, hdt⟩ hg1
  refine (hrest b₁ dest hg1.intact hd1.inRange hd1.accepts).imp fun _ sh2 b' hg2 hw hrest => ?_
  exact (hq1 (hg2.whole hw)).andThen hg1 hg2 hd hrest

end Lower

/-! ## Declarations of locals -/

/-- The body with one more local. -/
def Body.declare (b : Body) (new : Local) : Body :=
  { b with
    draft := b.draft.bind new.name new.register new.mutable
    locals := b.locals ++ [new] }

theorem Once.Opens.declare (b : Body) (new : Local) : Opens new b (b.declare new) :=
  ⟨rfl, rfl, rfl, rfl⟩

theorem Body.Grown.declare {b b₁ : Body} (hb : b.Intact cx) (hg : b.Grown cx sh b₁) {new : Local}
    (hnew : b.draft.registers.length ≤ new.register.index)
    (hlt : new.register.index < b₁.draft.registers.length)
    (hfresh : ∀ l ∈ b₁.locals, l.register ≠ new.register) : b.Grown cx sh (b₁.declare new) := by
  obtain ⟨more, hmore, hle⟩ := hg.locals
  refine ⟨{ hg.toProgress with
      draft := ⟨hg.draft.registers, hg.draft.paramCount,
        hg.draft.bindings.trans (prefix_append _ _)⟩
      locals := ⟨more ++ [new.fixed], ?_, ?_⟩ },
    { hg.intact with
      locals := ?_
      distinct := ?_
      apart := ?_
      bindings := ?_
      bound := ?_
      plain := fun hc => hg.intact.plain ⟨hc.quiet, hc.strict⟩ }, hg.code, hg.steps, hg.exits⟩
  · rw [Body.declare, map_append, hmore, append_assoc]
    rfl
  · simpa [or_imp, forall_and] using ⟨hle, hnew⟩
  · simpa [Body.declare, or_imp, forall_and] using ⟨hg.intact.locals, hlt⟩
  · rw [Body.declare, map_append, nodup_append]
    refine ⟨hg.intact.distinct, by simp, ?_⟩
    simpa using hfresh
  · simpa [Body.declare, or_imp, forall_and] using ⟨hg.intact.apart, hb.result_ne hnew⟩
  · simpa [Body.declare, Draft.bind, or_imp, forall_and] using ⟨hg.intact.bindings, hlt⟩
  · intro l hl
    rcases mem_append.1 hl with hl | hl
    · obtain ⟨x, hx, h⟩ := hg.intact.bound l hl
      exact ⟨x, mem_append_left _ hx, h⟩
    · obtain rfl := mem_singleton.1 hl
      exact ⟨_, mem_append_right _ (mem_singleton.2 rfl), rfl, rfl⟩

/-- The initializer of a local has the effect `E`. -/
def LowersInit (cx : Context) (E : Effect) : Option (Access → Lower Unit) → Prop
  | none => E = .none
  | some value => Lowers cx value E

namespace Lower

variable {cx : Context} {b b' : Body} {E : Effect} {init : Option (Access → Lower Unit)}

theorem reporting_run {α : Type} {step : ReportM α} {a : α} {report : Report}
    (h : step.run b.report = .ok (a, report)) :
    (reporting step).run b = .ok (some a, { b with report := report }) := by
  rw [reporting, run_bind_some (get_run b), h]
  rfl

theorem letType_run (hb : b.Intact cx) (name : Ident) (type : Option TypeExpr) :
    ∃ t b₁, (letType cx name type).run b = .ok (some t, b₁) ∧ b.Grown cx .skip b₁ ∧
      b.Steady b₁ ∧ t.Legal cx b₁ ∧ (b₁.Clean → t.Plain) := by
  cases type with
  | none =>
    refine ⟨.slot (b.engine.addSlot name.span).1, _, (run_bind_some (newSlot_run _)).trans rfl,
      Grown.addSlot hb _, ⟨rfl, rfl⟩, ?_, fun _ => Ty.plain_slot _⟩
    exact Ty.within_slot.2 (by simp [Engine.addSlot])
  | some type =>
    obtain ⟨t, report, hrun, ht⟩ :=
      lowerType_spec b.scope hb.context.table type b.report
    exact ⟨t, _, (run_bind_some (get_run b)).trans (reporting_run hrun), .report' hb ht.grows,
      ⟨rfl, rfl⟩, ht.within.mono (Nat.zero_le _) (Nat.le_refl _), fun hc => ht.plain hc.quiet⟩

theorem letInit_run (hinit : LowersInit cx E init) {type : Ty} {r : RegisterId} {b₁ : Body}
    (hb : b.Intact cx) (hr : b.Allocates cx type r b₁) :
    ∃ done sh b2, (match init with
        | some value => recover (settling cx (.register r) value)
        | none => pure true : Lower Bool).run b₁ = .ok (some done, b2) ∧ b₁.Grown cx sh b2 ∧
      (b2.gaveUp = false → done = true ∧
        Traced cx b₁ [] (.register r) E sh b2 (if init.isSome then [r] else []) ∧
        sh.Bounds r 0 (if init.isSome then 1 else 0)) := by
  cases init with
  | none =>
    obtain rfl : E = .none := hinit
    exact ⟨true, .skip, b₁, rfl, .refl hr.grown.intact, fun _ => ⟨rfl,
      .skip hr.grown.intact (fun _ => .refl b₁) (.refl b₁),
      Shape.avoids_skip.bounds (Nat.le_refl 0)⟩⟩
  | some value =>
    obtain ⟨done, sh, b2, hrun, hg, -, hq⟩ := ((hinit.fills hr.grown.intact
      hr.takes).settling hr.inRange).recovered
    refine ⟨done, sh, b2, hrun, hg, fun hw => ?_⟩
    obtain ⟨hdone, htraced⟩ := hq hw
    refine ⟨hdone, htraced, htraced.once.deliver r (hb.result_ne (Nat.le_of_eq hr.index.symm)) rfl ?_⟩
    -- the register belongs to no local yet
    intro ht
    obtain ⟨l, hl, hreg⟩ := ht.mem
    have hlt := hb.locals l (hr.steady.locals ▸ hl)
    rw [hreg, hr.index] at hlt
    exact Nat.lt_irrefl _ hlt

theorem makeLet_introduces (hinit : LowersInit cx E init) (name : Ident) (mutable : Bool)
    (type : Option TypeExpr) :
    Introduces cx (makeLet cx name mutable type init)
      fun rest => E.seq (.declare name.text mutable rest) := by
  intro b hb
  obtain ⟨t, b₁, hrun1, hg1, hs1, ht, hplain⟩ := letType_run hb name type
  obtain ⟨r, b2, hrun2, hr⟩ := newRegister_run hg1.intact ht hplain name.span
  obtain ⟨done, sh, b3, hrun3, hg3, hq3⟩ := letInit_run hinit hg1.intact hr
  let new : Local := ⟨name.text, r, mutable, if init.isSome then .assigned else .unassigned,
    b3.loopDepth⟩
  -- locals that are left in scope have older registers, or newer ones
  have hfresh : ∀ l ∈ b3.locals, l.register ≠ new.register := by
    rintro l hl rfl
    obtain ⟨more, hmore, hle⟩ := hg3.locals
    have hmem : l.fixed ∈ b2.locals.map Local.fixed ++ more := hmore ▸ mem_map_of_mem hl
    rcases mem_append.1 hmem with hl | hl
    · obtain ⟨l', hl', hfixed⟩ := mem_map.1 hl
      have hlt := hg1.intact.locals l' (hr.steady.locals ▸ hl')
      rw [(Local.fixed_eq hfixed).1, hr.index] at hlt
      exact Nat.lt_irrefl _ hlt
    · have hle := hle _ hl
      exact Nat.not_lt.2 hle hr.lt
  have hg : b.Grown cx sh (b3.declare new) := .declare hb
    ((hg1.trans hr.grown).trans hg3) (hr.index ▸ hg1.registers_le)
    (Nat.lt_of_lt_of_le hr.lt hg3.registers_le) hfresh
  have hrun : (makeLet cx name mutable type init).run b =
      (if !done then giveUp else pure () : Lower Unit).run (b3.declare new) := by
    refine (run_bind_some hrun1).trans ((run_bind_some hrun2).trans ?_)
    cases init <;> exact (run_bind_some hrun3).trans rfl
  cases done with
  | false => exact .gaveUp hrun hg fun hc => nomatch (hq3 (hc.whole hg.intact)).1
  | true =>
    refine .intro hrun hg trivial fun hw => ?_
    obtain ⟨-, htraced, hbounds⟩ := hq3 hw
    have hclean : (b3.declare new).Clean → b3.Clean := fun hc => ⟨hc.quiet, hc.strict⟩
    have hx : (b3.declare new).Clean → b.Extends b2 := fun hc =>
      (hg1.trans hr.grown).extends (hg3.clean (hclean hc))
    have hs : b.Steady b2 := hs1.trans hr.steady
    have hx3 : b3.Extends (b3.declare new) :=
      ⟨prefix_rfl, rfl, prefix_rfl, prefix_append _ _⟩
    refine ⟨fun hc => ?_, fun hc => ?_, fun dest E2 sh2 b' hd hg2 honce => ?_⟩
    · refine (((htraced.flow (hclean hc)).before (hx hc) hs.locals).rename hx3
        fun l hl hdef => ?_).weaken (.refl _) (nil_subset _)
      rcases mem_append.1 hl with hl | hl
      · exact .inl ⟨l, hl, rfl, hdef⟩
      · obtain rfl := mem_singleton.1 hl
        cases init with
        | none => cases hdef
        | some value => exact .inr (mem_singleton.2 rfl)
    · refine (((htraced.permit (hclean hc)).discard fun _ => Access.writable_register r).before
        (hx hc) hs.locals).rename hx3 fun hr l hl => ?_
      rcases mem_append.1 hl with hl | hl
      · exact hr l hl
      · obtain rfl := mem_singleton.1 hl
        cases init <;> rintro ⟨⟩
    · have hlimit : sh.Bounds new.register 0 new.limit := by
        cases init <;> exact hbounds
      exact (Once.declare hg1.intact hr (hg3.depth.trans hr.grown.depth) htraced.once hg3
        htraced.level hlimit (.declare b3 new) honce hg2 (hg1.inRange hd)).before hs1
        hg1.registers_le hg1.depth

/-! ## Values of statements -/

variable {F : Effect → Effect} {step : Lower Unit}

/-- A step that was tried, and what comes behind it in any case. -/
theorem recovered_spec {P : Unit → Body → Prop} {Q : Unit → Shape → Body → Prop} {done : Bool}
    (hdone : b.Clean → done = true) (h : Spec cx b step P Q) :
    Spec cx b (do step; if !done then giveUp) P Q := by
  refine h.bind fun a sh1 b₁ hg1 hp1 hq1 => ?_
  cases done with
  | false => exact giveUp_spec hg1.intact fun hc => by cases hdone (hg1.clean hc)
  | true => exact .pure hg1.intact hp1 fun hw => by rw [Shape.append_skip]; exact hq1 hw

theorem letStmt_introduces (h : Introduces cx step F) (span : Location) :
    Introduces cx (makeLetStmt cx step none span) F := by
  intro b hb
  refine (h b hb).recover.bind fun done sh1 b₁ hg1 _ hq1 => ?_
  refine recovered_spec (fun hc => (hq1 (hc.whole hg1.intact)).1)
    (.pure hg1.intact trivial fun hw => ?_)
  rw [Shape.append_skip]
  exact (hq1 hw).2

theorem letStmt_lowers (h : Introduces cx step F) (span : Location) :
    LowersBlock cx (fun dest => makeLetStmt cx step (some dest) span) (F .none) := by
  intro b dest hb hd hdt
  refine (h b hb).recover.bind fun done sh1 b₁ hg1 _ hq1 => ?_
  refine recovered_spec (fun hc => (hq1 (hc.whole hg1.intact)).1) ((moveUnit_spec hg1.intact
    (.grown ⟨hd, hdt⟩ hg1) span).imp fun _ sh2 b' hg2 hw hunit => ?_)
  exact (hq1 (hg2.whole hw)).2.andThen hg1 hg2 hd hunit.toBehaves

theorem use_introduces (scope : UseScope → UseScope) (span : Location) :
    Introduces cx (do
      modify fun b => { b with scope := scope b.scope }
      statementUnit cx none span) id := by
  intro b hb
  refine .intro (run_bind_some rfl) (.flags hb (scope b.scope) rfl) trivial fun _ => ?_
  exact ⟨fun _ => .skip ⟨prefix_rfl, rfl, prefix_rfl, prefix_rfl⟩ rfl, fun _ => .skip rfl,
    fun dest E sh2 b2 _ _ honce => honce.before ⟨rfl, rfl⟩ (Nat.le_refl _) rfl⟩

theorem use_lowers (scope : UseScope → UseScope) (span : Location) :
    LowersBlock cx (fun dest => do
      modify fun b => { b with scope := scope b.scope }
      statementUnit cx (some dest) span) .none := by
  intro b dest hb hd hdt
  have hg := Grown.flags hb (scope b.scope) rfl
  refine .after (run_bind_some rfl) hg ((moveUnit_spec hg.intact
    (.grown ⟨hd, hdt⟩ hg) span).imp fun _ sh2 b' _ _ hunit => ?_)
  exact (hunit.before (b := b) (fun _ => ⟨prefix_rfl, rfl, prefix_rfl, prefix_rfl⟩) (Nat.le_refl _)
    ⟨rfl, rfl⟩ rfl).toBehaves

end Lower

/-! ## Assignments -/

/-- The body in which a local has its value. -/
def Body.assigned (b : Body) (index : Nat) : Body :=
  { b with locals := b.locals.modify index fun l => { l with assigned := .assigned } }

theorem Body.level_assigned (b : Body) (index : Nat) : b.Level (b.assigned index) := by
  refine ext_getElem? fun i => ?_
  rw [getElem?_map, getElem?_map, assigned, getElem?_modify]
  cases b.locals[i]? with
  | none => rfl
  | some l =>
    by_cases h : index = i <;> simp [h, Local.fixed]

theorem Body.reached_assigned {b : Body} (index : Nat) (h : b.Reached) :
    (b.assigned index).Reached := by
  intro l hl
  obtain ⟨i, hi⟩ := mem_iff_getElem?.1 hl
  rw [assigned, getElem?_modify] at hi
  obtain ⟨l1, hi1, rfl⟩ := Option.map_eq_some_iff.1 hi
  by_cases hindex : index = i
  · simp [hindex, Assigned.assigned, Assigned.unreachable]
  · simpa [hindex] using h l1 (mem_of_getElem? hi1)

/-- The value of an assignment goes to the register of the local. -/
theorem Traced.assign {b b₁ : Body} {N : List RegisterId} (hb : b.Intact cx) {x : String} {i : Nat}
    {l : Local} (hfind : findLocal x b.locals = some (i, l))
    (hfree : l.mutable = false → l.assigned.possible = false ∧ l.loopDepth = b.loopDepth)
    (h : Traced cx b N (.register l.register) E sh b₁ [l.register]) :
    Traced cx b N .discard (.assign (some x) E) sh (b₁.assigned i) [] := by
  have hx : b₁.Extends (b₁.assigned i) := ⟨prefix_rfl, rfl, prefix_rfl, prefix_rfl⟩
  refine ⟨⟨fun hc => ((h.flow ⟨hc.quiet, hc.strict⟩).rename hx fun l' hl' hdef => ?_).weaken
      (.refl _) (nil_subset _), h.once.assign hb hfind hfree rfl rfl,
    fun hc => ((h.permit ⟨hc.quiet, hc.strict⟩).discard fun _ =>
      Access.writable_register _).rename hx (reached_assigned i)⟩,
    (level_assigned b₁ i).trans h.level⟩
  obtain ⟨j, hj⟩ := mem_iff_getElem?.1 hl'
  rw [assigned, getElem?_modify] at hj
  obtain ⟨l1, hj1, rfl⟩ := Option.map_eq_some_iff.1 hj
  by_cases hij : i = j
  · -- the local itself has been written
    subst hij
    obtain ⟨l2, hj2, hfixed⟩ := getElem?_of_fixed h.level (findLocal_some hfind).1
    rw [hj1] at hj2
    cases hj2
    exact .inr (by simpa using (Local.fixed_eq hfixed).1)
  · exact .inl ⟨l1, mem_of_getElem? hj1, by simp [hij], by simpa [hij] using hdef⟩

namespace Lower

variable {cx : Context} {b b' : Body} {dest : Access} {E E1 E2 : Effect} {name : Option String}
  {value condition thenValue : Access → Lower Unit} {step : Lower Place}

/-- The value is written to the place, and the local has its value then. -/
theorem store_spec (hvalue : Lowers cx value E) (hb : b.Intact cx) {p : Place}
    (hp : p.InRange cx b) (hplace : b.gaveUp = false → p.Denotes b name ∧ p.mutable = true)
    (hopen : b.Clean → name = none → b.Reached → p.access.Open b.Points b.Binds)
    (hd : b.Takes cx dest) (span : Location) :
    b.Fills cx (p.access.needs ++ dest.needs) dest (.assign name E) (do
      settling cx p.access value
      match p.localIndex with
      | some index => markAssigned index
      | none => pure ()
      moveUnit cx dest span) := by
  refine ((hvalue b p.access hb hp.access fun hc =>
    .inr ⟨_, (hp.typed hc.strict).access⟩).settling hp.access).bind fun _ sh1 b₁ hg1 _ hq1 => ?_
  have hend : ∀ b2, b₁.Grown cx .skip b2 →
      (b2.gaveUp = false → Traced cx b p.access.needs .discard (.assign name E) sh1 b2 []) →
      Spec cx b2 (moveUnit cx dest span) (fun _ _ => True) fun _ sh2 b' =>
        Traced cx b (p.access.needs ++ dest.needs) dest (.assign name E) (sh1.append sh2) b'
          dest.plain?.toList := by
    intro b2 hg2 hstored
    have hg : b.Grown cx sh1 b2 := Shape.append_skip sh1 ▸ hg1.trans hg2
    refine (moveUnit_spec hg.intact (hd.grown hg) span).imp ?_
    intro _ sh2 b' hg' hw hunit
    have hstored := (hstored (hg'.whole hw)).weaken (N := p.access.needs ++ dest.needs) (by simp)
      (.refl _)
    have h := hstored.seq (R := dest.plain?.toList) hb hg hunit hg' hd.inRange (by simp) (by simp)
    rwa [Effect.seq_none] at h
  cases hindex : p.localIndex with
  | none =>
    refine hend b₁ (.refl hg1.intact) fun hw => ?_
    obtain ⟨x, i, l, -, -, hi, -⟩ | ⟨rfl, -, hpart⟩ := (hplace (hg1.whole hw)).1
    · rw [hindex] at hi
      cases hi
    · exact ((hq1 hw).partly hb hpart fun hc hr => (hopen (hg1.clean hc) rfl hr).writable).weaken
        (.refl _) (nil_subset _)
  | some i =>
    have hg2 : b₁.Grown cx .skip (b₁.assigned i) :=
      Grown.flags hg1.intact b₁.scope (level_assigned b₁ i)
    refine .after (run_bind_some rfl) hg2 (hend _ hg2 fun hw => ?_)
    have hplace := hplace (hg1.whole hw)
    obtain ⟨x, i', l, rfl, hfind, hi, haccess, hfree⟩ | ⟨-, hi, -⟩ := hplace.1
    · rw [hindex] at hi
      cases hi
      have htraced := hq1 hw
      rw [haccess] at htraced ⊢
      exact htraced.assign hb hfind (hfree hplace.2)
    · rw [hindex] at hi
      cases hi

theorem assign_lowers {place : Purpose → Lower (Option Place)} (hplace : Places cx place E1 name)
    (hvalue : Lowers cx value E2) (targetSpan span : Location) :
    Lowers cx (fun dest => do
      let place ← place .assign
      let place ← assignedPlace place targetSpan
      settling cx place.access value
      match place.localIndex with
      | some index => markAssigned index
      | none => pure ()
      moveUnit cx dest span) (E1.seq (.assign name E2)) := by
  intro b dest hb hd hdt
  refine (hplace b .assign hb).bind fun o sh1 b₁ hg1 hp1 hq1 => ?_
  refine (assignedPlace_spec hg1.intact hp1 targetSpan).bind fun p sh2 b2 hg2 hp2 hq2 => ?_
  have hg : b.Grown cx (sh1.append sh2) b2 := hg1.trans hg2
  -- nothing happens between finding the place and writing to it
  have hfound : b2.gaveUp = false → sh2 = .skip ∧ p.Denotes b2 name ∧ p.mutable = true ∧
      (b2.Clean → name = none → b2.Reached → p.access.Open b2.Points b2.Binds) ∧
      Traced cx b [] .discard E1 sh1 b2 p.access.needs := by
    intro hw
    obtain ⟨rfl, rfl, hmut, htemp⟩ := hq2 hw
    subst hp2
    obtain ⟨⟨⟩, -⟩ | ⟨_, ⟨⟩, hden, hgrants, htraced⟩ := hq1 hw
    exact ⟨rfl, hden, hmut, fun hc hname hr => hgrants hc (fun _ => hname) hr hmut htemp,
      by simpa [Access.reach] using htraced⟩
  refine (store_spec hvalue hg.intact ((hp1 p hp2).grown hg2)
    (fun hw => ⟨(hfound hw).2.1, (hfound hw).2.2.1⟩)
    (fun hc => (hfound (hc.whole hg.intact)).2.2.2.1 hc) (.grown ⟨hd, hdt⟩ hg) span).imp ?_
  intro _ sh3 b' hg3 hw hstore
  obtain ⟨rfl, -, -, -, htraced⟩ := hfound (hg3.whole hw)
  rw [Shape.append_skip] at hg
  exact (htraced.weaken (N := dest.needs) (nil_subset _) (.refl _)).seq hb hg hstore
    hg3 hd (by simp) (by simp)

/-! ## Expressions -/

theorem name_lowers (path : Path) (span : Location) :
    Lowers cx (fun dest => do
      match ← namedPlace path .read span with
      | some place => copyPlace cx place dest span
      | none => lowerDeclValue cx path dest span) .none := by
  intro b dest hb hd hdt
  refine (namedPlace_places path span b .read hb).bind fun o sh1 b₁ hg1 hp1 hq1 => ?_
  have hd1 := Takes.grown ⟨hd, hdt⟩ hg1
  cases o with
  | none =>
    refine ((lowerDeclValue_lowers path span).fills hg1.intact hd1).imp
      fun _ sh2 b' hg2 hw htraced => ?_
    obtain ⟨-, rfl, rfl⟩ | ⟨p, ⟨⟩, -⟩ := hq1 (hg2.whole hw)
    exact htraced
  | some p =>
    have hfound : b₁.gaveUp = false →
        Traced cx b [] .discard .none sh1 b₁ p.access.base?.toList := by
      intro hw
      obtain ⟨⟨⟩, -⟩ | ⟨_, ⟨⟩, -, -, htraced⟩ := hq1 hw
      exact htraced
    exact (copyPlace_spec hg1.intact (hp1 p rfl) hd1 span).behind hb ⟨hd, hdt⟩ hg1 hfound (by simp)

/-- `step` finds a part of something by code with the effect `E`. -/
def Finds (cx : Context) (step : Lower Place) (E : Effect) : Prop :=
  ∀ b, b.Intact cx → Spec cx b step (fun p b' => p.InRange cx b') fun p sh b' =>
    p.Denotes b' none ∧ (b'.Clean → p.Grants b') ∧
      Traced cx b [] .discard E sh b' p.access.base?.toList

theorem Finds.places (h : Finds cx step E) :
    Places cx (fun _ => do return some (← step)) E none := by
  intro b purpose hb
  refine (h b hb).bind fun p sh1 b₁ hg1 hp1 hq1 => ?_
  refine .pure hg1.intact (by rintro _ ⟨⟩; exact hp1) fun hw => .inr ⟨p, rfl, ?_⟩
  obtain ⟨hden, hgrants, htraced⟩ := hq1 hw
  refine ⟨hden, fun hc _ => hgrants hc, ?_⟩
  rw [Shape.append_skip, Access.reach]
  split
  · exact htraced.weaken (.refl _) p.access.needs_subset
  · exact htraced

theorem Finds.copied (h : Finds cx step E) (span : Location) :
    Lowers cx (fun dest => do copyPlace cx (← step) dest span) E := by
  intro b dest hb hd hdt
  refine (h b hb).bind fun p sh1 b₁ hg1 hp1 hq1 => ?_
  have ht : b.Takes cx dest := ⟨hd, hdt⟩
  have hcopy := (copyPlace_spec hg1.intact hp1 (ht.grown hg1) span).behind (N := dest.needs) hb ht
    hg1 (fun hw => (hq1 hw).2.2) (by simp)
  rwa [Effect.seq_none] at hcopy

section Parts

variable {place : Purpose → Lower (Option Place)} {value : Access → Lower Unit}

theorem fieldPlace_finds (hplace : Places cx place E name) (hvalue : Lowers cx value E)
    (baseSpan : Location) (field : Ident) :
    Finds cx (do
      let record ← placeOrTemp cx baseSpan (place .read) value
      fieldPlace cx record baseSpan field) E := by
  intro b hb
  refine (placeOrTemp_spec hplace hvalue hb baseSpan).bind fun record sh1 b₁ hg1 hp1 hq1 => ?_
  refine (fieldPlace_spec hg1.intact hp1 (fun hc => (hq1 (hc.whole hg1.intact)).1 hc) baseSpan
    field).imp ?_
  rintro p sh2 b2 hg2 hw ⟨rfl, rfl, hden, hgrants, hbase⟩
  refine ⟨hden, hgrants, ?_⟩
  rw [hbase, Shape.append_skip]
  exact (hq1 hw).2

theorem targetPlace_finds (hplace : Places cx place E name) (hvalue : Lowers cx value E)
    (operandSpan : Location) :
    Finds cx (do
      let pointer ← placeOrTemp cx operandSpan (place .read) value
      targetPlace cx pointer operandSpan) E := by
  intro b hb
  refine (placeOrTemp_spec hplace hvalue hb operandSpan).bind fun pointer sh1 b₁ hg1 hp1 hq1 => ?_
  refine (targetPlace_spec hg1.intact hp1 operandSpan).imp ?_
  rintro p sh2 b2 hg2 hw ⟨hden, hgrants, htraced⟩
  have h := (hq1 (hg2.whole hw)).2.seq (R := p.access.base?.toList) hb hg1 htraced hg2
    Access.inRange_discard (by simp) (by simp)
  rw [Effect.seq_none] at h
  exact ⟨hden, hgrants, h⟩

theorem addressOf_lowers (hplace : Places cx place E name) (mutable : Bool)
    (operandSpan span : Location) :
    Lowers cx (fun dest => do
      takeAddress cx mutable (← place .address) dest operandSpan span) E := by
  intro b dest hb hd hdt
  refine (hplace b .address hb).bind fun o sh1 b₁ hg1 hp1 hq1 => ?_
  have hfound : b₁.gaveUp = false → ∀ p, o = some p → (b₁.Clean → p.Grants b₁) ∧
      Traced cx b [] .discard E sh1 b₁ p.access.base?.toList := by
    rintro hw p rfl
    obtain ⟨⟨⟩, -⟩ | ⟨_, ⟨⟩, -, hgrants, htraced⟩ := hq1 hw
    exact ⟨fun hc => hgrants hc (by rintro ⟨⟩), htraced⟩
  refine (takeAddress_spec hg1.intact mutable hp1
    (fun hc p hp => (hfound (hc.whole hg1.intact) p hp).1 hc) (.grown ⟨hd, hdt⟩ hg1) operandSpan
    span).imp ?_
  rintro _ sh2 b' hg2 hw ⟨p, hp, htraced⟩
  have hpart := ((hfound (hg2.whole hw) p hp).2).weaken (N := dest.needs) (nil_subset _) (.refl _)
  have h := hpart.seq (R := dest.plain?.toList) hb hg1 htraced hg2 hd (by simp) (by simp)
  rwa [Effect.seq_none] at h

theorem call_lowers {args : Lower (List Operand)} (hplace : Places cx place E1 name)
    (hvalue : Lowers cx value E1) (hargs : LowersOperands cx args E2) (calleeSpan span : Location) :
    Lowers cx (fun dest => do
      let place ← placeOrTemp cx calleeSpan (place .read) value
      let args ← args
      makeCall cx place args dest calleeSpan span) (E1.seq E2) := by
  intro b dest hb hd hdt
  refine (placeOrTemp_spec hplace hvalue hb calleeSpan).bind fun p sh1 b₁ hg1 hp1 hq1 => ?_
  have ht : b.Takes cx dest := ⟨hd, hdt⟩
  -- the callee stays in its place while the arguments are lowered
  have hcall : b₁.Fills cx (p.access.base?.toList ++ dest.needs) dest (E2.seq .none)
      (do makeCall cx p (← args) dest calleeSpan span) := by
    refine (hargs b₁ hg1.intact).bind fun os sh2 b2 hg2 hp2 hq2 => ?_
    exact (makeCall_spec hg2.intact (hp1.grown hg2) hp2
      (fun hc => (hq2 (hc.whole hg2.intact)).1 hc) ((ht.grown hg1).grown hg2) calleeSpan
      span).behind hg1.intact (ht.grown hg1) hg2 (fun hw => (hq2 hw).2) (by simp)
  rw [Effect.seq_none] at hcall
  exact hcall.behind hb ht hg1 (fun hw => (hq1 hw).2) (by simp)

end Parts

theorem tuple_lowers {elements : Lower (List Operand)} (helements : LowersOperands cx elements E)
    (span : Location) : Lowers cx (fun dest => do makeTuple cx (← elements) dest span) E := by
  intro b dest hb hd hdt
  refine (helements b hb).bind fun os sh1 b₁ hg1 hp1 hq1 => ?_
  have ht : b.Takes cx dest := ⟨hd, hdt⟩
  have h := (makeTuple_spec hg1.intact hp1 (fun hc => (hq1 (hc.whole hg1.intact)).1 hc)
    (ht.grown hg1) span).behind (N := dest.needs) hb ht hg1 (fun hw => (hq1 hw).2) (by simp)
  rwa [Effect.seq_none] at h

theorem written_unwritten (name : String) (fields : List Field) :
    (Fields.unwritten name fields).written = [] := by
  simp [Fields.unwritten, Fields.written]

theorem structLit_lowers {inits : Fields → Lower Fields} (hinits : LowersFields cx inits E)
    (path : Path) (span : Location) :
    Lowers cx (fun dest => do
      let scope := (← get).scope
      let id ← orReport (cx.table.resolveType path.toName path.absolute scope path.span)
      let fields ← orFault (cx.table.fields id)
      let name ← orFault (cx.table.displayName (.struct id))
      let written ← inits (.unwritten name fields)
      makeStruct cx id written dest span) E := by
  intro b dest hb hd hdt
  obtain ⟨r, hr, hid⟩ := hb.context.table.resolveType path.toName path.absolute b.scope path.span
  refine .look (get_run b) ((orReport_spec (P := fun id _ => r = .ok id)
    (Q := fun _ sh b' => sh = .skip ∧ b' = b) hb hr (fun _ h => h) fun _ _ => ⟨rfl, rfl⟩).bind
    fun id sh1 b₁ hg1 hr1 hq1 => ?_)
  have hlt := hid id hr1
  obtain ⟨entry, hmem, hentry⟩ := Table.struct?_of_lt (t := cx.table) hlt
  obtain ⟨name, hname⟩ := Table.displayName_ok (t := cx.table) (d := .struct id) hlt
  refine .look (orFault_run (Table.fields_eq hentry)) (.look (orFault_run hname) ?_)
  have hnone := written_unwritten name entry.fields
  have hd1 := Takes.grown ⟨hd, hdt⟩ hg1
  have hstruct : b₁.Fills cx dest.needs dest (E.seq .none)
      (do makeStruct cx id (← inits (.unwritten name entry.fields)) dest span) := by
    refine (hinits b₁ entry.fields _ hg1.intact ⟨rfl, by simp [Fields.unwritten], by simp [hnone]⟩
      (fun _ => ⟨rfl, fun i a h => by simp [Fields.unwritten, getElem?_replicate] at h⟩)
      (hb.context.table.fields entry hmem)
      fun hc => (hg1.intact.plain hc).2.table.fields entry hmem).bind
      fun f sh2 b2 hg2 hp2 hq2 => ?_
    have htyped : b2.Clean → f.Typed cx b2 := fun hc => (hq2 (hc.whole hg2.intact)).1 hc
    cases hfailed : f.failed with
    | true =>
      refine makeStruct_failed hg2.intact hfailed (fun hc => ?_) id span
      rw [(htyped hc).ok] at hfailed
      cases hfailed
    | false =>
      have hinits : b2.gaveUp = false → Traced cx b₁ [] .discard E sh2 b2 (bases f.written) := by
        intro hw
        have htraced := ((hq2 hw).2 hfailed).2
        rwa [hnone] at htraced
      exact (makeStruct_spec hg2.intact hlt hentry hp2 hfailed htyped (hd1.grown hg2)
        span).behind hg1.intact hd1 hg2 hinits (by simp)
  rw [Effect.seq_none] at hstruct
  refine hstruct.imp fun _ sh2 b' hg2 hw htraced => ?_
  obtain ⟨rfl, rfl⟩ := hq1 (hg2.whole hw)
  exact htraced

theorem when_lowers (hcondition : Lowers cx condition E1) (hthen : Lowers cx thenValue E2)
    (conditionSpan thenSpan span : Location) :
    Lowers cx (fun dest => do
      let test ← conditionRegister conditionSpan
      settling cx test condition
      makeWhen cx test thenSpan thenValue dest span) (E1.seq E2) := fun _ _ hb hd hdt =>
  condition_spec hcondition hb ⟨hd, hdt⟩ conditionSpan fun _ _ hb1 hr hd1 =>
    makeWhen_spec hthen hb1 hr hd1 thenSpan span

theorem ifElse_lowers {elseValue : Access → Lower Unit} {E3 : Effect}
    (hcondition : Lowers cx condition E1) (hthen : Lowers cx thenValue E2)
    (helse : Lowers cx elseValue E3) (conditionSpan : Location) :
    Lowers cx (fun dest => do
      let test ← conditionRegister conditionSpan
      settling cx test condition
      makeIfElse cx test thenValue elseValue dest) (E1.seq (E2.seq E3)) := fun _ _ hb hd hdt =>
  condition_spec hcondition hb ⟨hd, hdt⟩ conditionSpan fun _ _ hb1 hr hd1 =>
    makeIfElse_spec hthen helse hb1 hr hd1

theorem literal_lowers (value : Literal) (type : Ty) (hv : value.operands = [])
    (hrange : value.InRange cx.table)
    (htype : cx.Valid → type.Within 0 cx.table.structs.length) (hplain : type.Plain)
    (htyped : ∀ has, value.Typed cx.table has type) (span : Location) :
    Lowers cx (fun dest => moveLiteral cx value type dest span) .none := fun _ _ hb hd hdt =>
  moveLiteral_spec hb value hv hrange ⟨hd, hdt⟩ (htype hb.context) (fun _ => hplain) span htyped

theorem noPlace_places (E : Effect) (name : Option String) :
    Places cx (fun _ => pure none) E name := fun _ _ hb =>
  .pure hb (by rintro p ⟨⟩) fun _ => .inl ⟨rfl, rfl, rfl⟩

variable (cx)

mutual

/-- **Every expression can be lowered.** -/
theorem lowerExpr_lowers (e : Expr) : Lowers cx (lowerExpr cx e) e.effect := by
  match e with
  | .block stmts span => exact inBlock_lowers (lowerStmts_lowers span stmts)
  | .int value span =>
    exact literal_lowers (.int value) (.struct .int) rfl trivial (fun h => h.table.int)
      (by simp [Ty.Plain, Ty.All, Ty.IsPlain]) (fun _ => rfl) span
  | .bool value span =>
    exact literal_lowers (.bool value) (.struct .bool) rfl trivial (fun h => h.table.bool)
      (by simp [Ty.Plain, Ty.All, Ty.IsPlain]) (fun _ => rfl) span
  | .tuple elements span => exact tuple_lowers (lowerOperands_lowers elements) span
  | .structLit path inits span => exact structLit_lowers (lowerInits_lowers inits) path span
  | .name path span => exact name_lowers path span
  | .field base field span =>
    have hfinds := (fieldPlace_finds (lowerPlace_places base) (lowerExpr_lowers base) base.span
      field).copied span
    simp only [bind_assoc] at hfinds
    exact hfinds
  | .addressOf mutable operand span =>
    exact addressOf_lowers (lowerPlace_places operand) mutable operand.span span
  | .deref operand span =>
    have hfinds := (targetPlace_finds (lowerPlace_places operand) (lowerExpr_lowers operand)
      operand.span).copied span
    simp only [bind_assoc] at hfinds
    exact hfinds
  | .call callee args span =>
    exact call_lowers (lowerPlace_places callee) (lowerExpr_lowers callee)
      (lowerOperands_lowers args) callee.span span
  | .ifElse condition thenBranch none span =>
    exact when_lowers (lowerExpr_lowers condition) (lowerExpr_lowers thenBranch) condition.span
      thenBranch.span span
  | .ifElse condition thenBranch (some elseBranch) span =>
    exact ifElse_lowers (lowerExpr_lowers condition) (lowerExpr_lowers thenBranch)
      (lowerExpr_lowers elseBranch) condition.span
  | .loop condition body span =>
    exact makeLoop_lowers (lowerExpr_lowers condition) (lowerExpr_lowers body) condition.span
      body.span span
  | .assign target value span =>
    exact assign_lowers (lowerPlace_places target) (lowerExpr_lowers value) target.span span
  | .ret (some value) span => exact return_lowers (lowerExpr_lowers value) value.span
  | .ret none span => exact bareReturn_lowers span

theorem lowerPlace_places (e : Expr) : Places cx (lowerPlace cx e) e.effect e.localName? := by
  match e with
  | .name path span => exact namedPlace_places path span
  | .field base field span =>
    have hfinds := (fieldPlace_finds (lowerPlace_places base) (lowerExpr_lowers base) base.span
      field).places
    simp only [bind_assoc] at hfinds
    exact hfinds
  | .deref operand span =>
    have hfinds := (targetPlace_finds (lowerPlace_places operand) (lowerExpr_lowers operand)
      operand.span).places
    simp only [bind_assoc] at hfinds
    exact hfinds
  | .block .. | .int .. | .bool .. | .tuple .. | .structLit .. | .addressOf .. | .call ..
  | .ifElse .. | .loop .. | .assign .. | .ret .. => exact noPlace_places _ _

theorem lowerOperands_lowers (es : List Expr) :
    LowersOperands cx (lowerOperands cx es) (effectOfExprs es) := by
  match es with
  | [] => exact lowerOperands_nil
  | e :: rest => exact lowerOperands_cons (lowerExpr_lowers e) (lowerOperands_lowers rest) e.span

theorem lowerInits_lowers (inits : List FieldInit) :
    LowersFields cx (lowerInits cx inits) (effectOfInits inits) := by
  match inits with
  | [] => exact lowerInits_nil
  | ⟨name, value, span⟩ :: rest =>
    exact lowerInits_cons (lowerInit_lowers (lowerExpr_lowers value) name span value.span)
      (lowerInits_lowers rest)

theorem lowerStmt_lowers (s : Stmt) : Introduces cx (lowerStmt cx s none) s.effect ∧
    LowersBlock cx (fun dest => lowerStmt cx s (some dest)) (s.effect .none) := by
  match s with
  | .expr e span =>
    refine ⟨exprStmt_introduces (lowerExpr_lowers e) e.span, fun b dest hb hd hdt => ?_⟩
    rw [Stmt.effect, Effect.seq_none]
    exact ((lowerExpr_lowers e).block b dest hb hd hdt).settling hd
  | .binding name mutable type none span =>
    have hinit : LowersInit cx .none none := rfl
    have hlet := makeLet_introduces hinit name mutable type
    exact ⟨letStmt_introduces hlet span, letStmt_lowers hlet span⟩
  | .binding name mutable type (some init) span =>
    have hinit : LowersInit cx init.effect (some (lowerExpr cx init)) := lowerExpr_lowers init
    have hlet := makeLet_introduces hinit name mutable type
    exact ⟨letStmt_introduces hlet span, letStmt_lowers hlet span⟩
  | .use path span =>
    exact ⟨use_introduces (.extend · path.toName) span, use_lowers (.extend · path.toName) span⟩

theorem lowerStmts_lowers (span : Location) (stmts : List Stmt) :
    LowersBlock cx (lowerStmts cx span stmts) (effectOfStmts stmts) := by
  match stmts with
  | [] =>
    have hunit : Lowers cx (fun dest => moveUnit cx dest span) .none := fun _ _ hb hd hdt =>
      moveUnit_spec hb ⟨hd, hdt⟩ span
    exact hunit.block
  | [stmt] => exact fun b dest hb hd hdt => ((lowerStmt_lowers stmt).2 b dest hb hd hdt).attempt
  | stmt :: next :: rest =>
    exact stmts_lowers (lowerStmt_lowers stmt).1 (lowerStmts_lowers span (next :: rest))

end

end Lower

end Semcheck
