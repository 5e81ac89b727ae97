/-
  What lowering leaves alone.

  Lowering an expression adds to a body and takes nothing back, whether it goes
  through or gives up (`Body.Stays`): the locals and the scope are what they were,
  and the code that is added has a `Shape`.  What the code writes to is the
  destination, the result of the function, the places that are assigned to on the
  way, and registers that were made since (`Task.Confined`).

  This needs nothing of the body but an open segment.
-/
import Semcheck.Proofs.Lower.Walk
import Semcheck.Proofs.Soundness

namespace Semcheck

open Lower List Body

/-! ## Additions to a body -/

/-- The step writes to one of the destinations, or to a register behind the first `n`. -/
def Event.Lands (D : Access → Prop) (n : Nat) : Event → Prop
  | .run i => D i.dest ∨ ∃ r, i.dest = .register r ∧ n ≤ r.index
  | _ => True

theorem Event.Lands.mono {D D' : Access → Prop} {n m : Nat} (hle : n ≤ m)
    (hD : ∀ a, D' a → D a ∨ ∃ r, a = .register r ∧ n ≤ r.index) {ev : Event}
    (h : ev.Lands D' m) : ev.Lands D n := by
  cases ev with
  | run i =>
    rcases h with hdest | ⟨r, hdest, hr⟩
    · exact hD _ hdest
    · exact .inr ⟨r, hdest, Nat.le_trans hle hr⟩
  | test a | exit a => trivial

/-- A body is only added to. -/
structure Body.Adds (b b' : Body) : Prop where
  report : b.report.entries <+: b'.report.entries
  draft : b.draft.Grows b'.draft
  depth : b'.loopDepth = b.loopDepth

/-- Besides, the names mean what they meant. -/
structure Body.Kept (b b' : Body) : Prop extends Body.Adds b b' where
  scope : b'.scope = b.scope
  locals : b'.locals.map Local.fixed = b.locals.map Local.fixed

/-- There is more code, which writes to the destinations and to new registers. -/
def Body.Emits (D : Access → Prop) (b b' : Body) : Prop :=
  ∃ sh : Shape, b'.draft.graph = sh.build b.draft.graph ∧
    sh.All (Event.Lands D b.draft.registers.length)

/-- What lowering an expression does to a body. -/
structure Body.Stays (D : Access → Prop) (b b' : Body) : Prop extends Body.Kept b b' where
  code : b.Emits D b'

/-- What lowering a statement does to a body: names may be introduced. -/
structure Body.Spreads (D : Access → Prop) (b b' : Body) : Prop extends Body.Adds b b' where
  locals : Local.Adds b.draft.registers.length b.locals b'.locals
  code : b.Emits D b'

namespace Body

variable {D D' : Access → Prop} {b b₁ b₂ b' : Body}

theorem Adds.refl (b : Body) : b.Adds b :=
  ⟨prefix_rfl, .refl _, rfl⟩

theorem Adds.trans (h1 : b.Adds b₁) (h2 : b₁.Adds b₂) : b.Adds b₂ :=
  ⟨h1.report.trans h2.report, h1.draft.trans h2.draft, h2.depth.trans h1.depth⟩

theorem Kept.refl (b : Body) : b.Kept b :=
  ⟨.refl b, rfl, rfl⟩

theorem Kept.trans (h1 : b.Kept b₁) (h2 : b₁.Kept b₂) : b.Kept b₂ :=
  ⟨h1.toAdds.trans h2.toAdds, h2.scope.trans h1.scope, h2.locals.trans h1.locals⟩

theorem Kept.withGraph (b : Body) (g : Graph) : b.Kept (b.withGraph g) :=
  ⟨⟨prefix_rfl, ⟨prefix_rfl, rfl, prefix_rfl⟩, rfl⟩, rfl, rfl⟩

theorem Emits.refl (b : Body) : b.Emits D b :=
  ⟨.skip, rfl, trivial⟩

theorem Emits.opened (h : b.Emits D b') (ho : b.draft.graph.Open) : b'.draft.graph.Open := by
  obtain ⟨sh, hcode, -⟩ := h
  exact hcode ▸ (sh.frame ho).opened

/-- What comes second may also write to registers that were made before. -/
theorem Emits.trans (h1 : b.Emits D b₁) (h2 : b₁.Emits D' b₂)
    (hle : b.draft.registers.length ≤ b₁.draft.registers.length)
    (hD : ∀ a, D' a → D a ∨ ∃ r, a = .register r ∧ b.draft.registers.length ≤ r.index) :
    b.Emits D b₂ := by
  obtain ⟨sh1, hcode1, hall1⟩ := h1
  obtain ⟨sh2, hcode2, hall2⟩ := h2
  exact ⟨.seq sh1 sh2, by rw [hcode2, hcode1]; rfl, hall1, hall2.mono fun _ => .mono hle hD⟩

theorem Stays.refl (b : Body) : b.Stays D b :=
  ⟨.refl b, .refl b⟩

theorem Stays.trans (h1 : b.Stays D b₁) (h2 : b₁.Stays D b₂) : b.Stays D b₂ :=
  ⟨h1.toKept.trans h2.toKept, h1.code.trans h2.code h1.draft.registers.length_le fun _ => .inl⟩

/-- What follows may also write to a register that was made. -/
theorem Stays.made (h1 : b.Stays D b₁) {r : RegisterId}
    (h2 : b₁.Stays (fun a => D a ∨ a = .register r) b₂)
    (hr : b.draft.registers.length ≤ r.index) : b.Stays D b₂ :=
  ⟨h1.toKept.trans h2.toKept, h1.code.trans h2.code h1.draft.registers.length_le
    fun _ ha => ha.imp id fun h => ⟨r, h, hr⟩⟩

theorem Stays.spreads (h : b.Stays D b') : b.Spreads D b' :=
  ⟨h.toAdds, .of_eq h.locals, h.code⟩

theorem Spreads.trans (h1 : b.Spreads D b₁) (h2 : b₁.Spreads D b₂) : b.Spreads D b₂ :=
  ⟨h1.toAdds.trans h2.toAdds, h1.locals.trans h2.locals h1.draft.registers.length_le,
    h1.code.trans h2.code h1.draft.registers.length_le fun _ => .inl⟩

/-- Only the report, the engine and the mark of a step that gave up change. -/
theorem Stays.aside {report : Report} (engine : Engine) (gaveUp : Bool)
    (h : b.report.entries <+: report.entries) :
    b.Stays D { b with report := report, engine := engine, gaveUp := gaveUp } :=
  ⟨⟨⟨h, .refl _, rfl⟩, rfl, rfl⟩, .skip, rfl, trivial⟩

theorem Stays.makes (h : b.Makes b') : b.Stays D b' := by
  cases h <;> exact ⟨⟨⟨prefix_rfl, ⟨prefix_append _ _, rfl, prefix_rfl⟩, rfl⟩, rfl,
    rfl⟩, .skip, rfl, trivial⟩

theorem Stays.withRegister (type : Ty) (span : Location) : b.Stays D (b.withRegister type span) :=
  .makes (.register type span)

theorem Kept.emits (h : b.Kept b₁) {sh : Shape}
    (hall : sh.All (Event.Lands D b.draft.registers.length)) :
    b.Stays D (b₁.withGraph (sh.build b.draft.graph)) :=
  ⟨h.trans (.withGraph b₁ _), sh, rfl, hall⟩

theorem Stays.push {i : Instruction} (hdest : D i.dest) :
    b.Stays D (b.withGraph (b.draft.graph.push i)) :=
  ⟨.withGraph b _, .emit i, rfl, .inl hdest⟩

end Body

/-! ## Steps that add to a body -/

namespace Lower

variable {D : Access → Prop} {α β : Type} {b b' : Body} {step : Lower Unit}

/-- Whatever becomes of the step, it adds to the body and leaves the names alone. -/
def Keeps (D : Access → Prop) (b : Body) (x : Lower α) : Prop :=
  b.draft.graph.Open → ∀ {r b'}, x.run b = .ok (r, b') → b.Stays D b'

namespace Keeps

theorem pure (a : α) : Keeps D b (pure a : Lower α) := by
  rintro - r b' ⟨⟩
  exact .refl b

theorem bind {x : Lower α} {f : α → Lower β} (hx : Keeps D b x)
    (hf : ∀ a b₁, x.run b = .ok (some a, b₁) → Keeps D b₁ (f a)) : Keeps D b (x >>= f) := by
  intro ho r b' hrun
  rcases bind_eq_ok.1 hrun with ⟨a, b₁, hrun1, hrun2⟩ | ⟨hrun1, -⟩
  · have h1 := hx ho hrun1
    exact h1.trans (hf a b₁ hrun1 (h1.code.opened ho) hrun2)
  · exact hx ho hrun1

theorem allocate {x : Lower α} {f : α → Lower β} {a : α} {b₁ : Body} {r : RegisterId}
    (hrun : x.run b = .ok (some a, b₁)) (h1 : b.Stays D b₁)
    (hr : b.draft.registers.length ≤ r.index)
    (hf : Keeps (fun dest => D dest ∨ dest = .register r) b₁ (f a)) : Keeps D b (x >>= f) := by
  intro ho r' b' hrun'
  rw [run_bind_some hrun] at hrun'
  exact h1.made (hf (h1.code.opened ho) hrun') hr

theorem recover {step : Lower Unit} (h : Keeps D b step) : Keeps D b (recover step) := by
  intro ho r b' hrun
  rcases recover_eq_ok.1 hrun with ⟨hrun1, -⟩ | ⟨b₁, hrun1, -, rfl⟩
  · exact h ho hrun1
  · exact (h ho hrun1).trans (.aside _ true prefix_rfl)

theorem onEngine (step : EngineM α) : Keeps D b (onEngine step) := by
  intro _ r b' hrun
  obtain ⟨a, e, -, -, rfl⟩ := onEngine_eq_ok.1 hrun
  exact .aside e _ prefix_rfl

end Keeps

theorem agreeing_keeps : Agreeing (fun _ => True) fun α (x : Lower α) => ∀ b, Keeps D b x := by
  have haside : Aside (fun _ => True) fun α (x : Lower α) => ∀ b r b', x.run b = .ok (r, b') →
      b.draft.graph.Open → b.Stays D b' :=
    aside_of_related (fun _ => .refl _) .trans (fun ho h => h.code.opened ho)
      (fun _ => .aside _ true prefix_rfl) (fun _ _ => .aside _ _ (prefix_append _ _))
      fun _ _ _ => .aside _ _ prefix_rfl
  have heq : (fun α (x : Lower α) => ∀ b r b', x.run b = .ok (r, b') →
      b.draft.graph.Open → b.Stays D b') = fun α (x : Lower α) => ∀ b, Keeps D b x :=
    funext fun α => funext fun x => propext
      ⟨fun h b ho _ _ hrun => h _ _ _ hrun ho, fun h b _ _ hrun ho => h b ho hrun⟩
  exact (heq ▸ haside).agreeing fun _ _ _ => .onEngine _

theorem Keeps.push {i : Instruction} (hdest : D i.dest) : Keeps D b (push i) := by
  intro ho r b' hrun
  rw [push_run ho] at hrun
  cases hrun
  exact .push hdest

theorem direct_keeps : Direct (fun _ => True) D fun α (x : Lower α) => ∀ b, Keeps D b x where
  toAgreeing := agreeing_keeps
  newRegister type span b := by
    rintro - r b' ⟨⟩
    exact .withRegister type span
  push hdest b := .push hdest
  spill source type span b := by
    refine .allocate (r := b.nextRegister) rfl (.withRegister type span) (Nat.le_refl _) ?_
    exact .bind (.push (.inr rfl)) fun _ _ _ => .pure _

/-! ## Steps beside the code -/

theorem draft_eq_of_bare (h : b'.bare = b.bare) : b'.draft = b.draft :=
  show b'.bare.draft = b.bare.draft from congrArg draft h

theorem locals_eq_of_bare (h : b'.bare = b.bare) : b'.locals = b.locals :=
  show b'.bare.locals = b.bare.locals from congrArg locals h

/-- The step leaves the code and the locals alone. -/
def Beside (x : Lower α) : Prop :=
  ∀ {b r b'}, x.run b = .ok (r, b') → b'.bare = b.bare

theorem onEngine_beside (step : EngineM α) : Beside (onEngine step) := by
  intro b r b' hrun
  obtain ⟨a, e, -, -, rfl⟩ := onEngine_eq_ok.1 hrun
  rfl

theorem agreeing_beside : Agreeing (fun _ => True) fun α (x : Lower α) => Beside x := by
  have haside : Aside (fun _ => True) fun α (x : Lower α) => ∀ b r b', x.run b = .ok (r, b') →
      True → b'.bare = b.bare :=
    aside_of_related (fun _ => rfl) (fun h1 h2 => h2.trans h1) (fun _ _ => trivial) (fun _ => rfl)
      (fun _ _ => rfl) fun _ _ _ => rfl
  simp only [true_implies] at haside
  exact haside.agreeing fun _ _ _ _ _ => onEngine_beside _

/-! ## Steps that may give up -/

theorem attempt_eq_ok {r : Option Unit} :
    (attempt step).run b = .ok (r, b') ↔ r = some () ∧ (step.run b = .ok (some (), b') ∨
      ∃ b₁, step.run b = .ok (none, b₁) ∧ b' = { b₁ with gaveUp := true }) := by
  rw [attempt, bind_eq_ok]
  constructor
  · rintro (⟨done, b₁, hrun, h⟩ | ⟨hrun, -⟩)
    · cases h
      exact ⟨rfl, (recover_eq_ok.1 hrun).imp And.left fun ⟨b₁, h, _, heq⟩ => ⟨b₁, h, heq⟩⟩
    · rcases recover_eq_ok.1 hrun with ⟨-, ⟨⟩⟩ | ⟨-, -, ⟨⟩, -⟩
  · rintro ⟨rfl, h⟩
    rcases h with h | ⟨b₁, h, rfl⟩
    · exact .inl ⟨true, b', recover_eq_ok.2 (.inl ⟨h, rfl⟩), rfl⟩
    · exact .inl ⟨false, _, recover_eq_ok.2 (.inr ⟨b₁, h, rfl, rfl⟩), rfl⟩

/-- What is attempted is always behind one. -/
theorem attempt_bind_eq_ok {f : Unit → Lower α} {r : Option α}
    (hrun : (attempt step >>= f).run b = .ok (r, b')) :
    ∃ b₁, (attempt step).run b = .ok (some (), b₁) ∧ (f ()).run b₁ = .ok (r, b') := by
  rcases bind_eq_ok.1 hrun with ⟨_, b₁, hrun1, hrun2⟩ | ⟨hrun1, -⟩
  · exact ⟨b₁, hrun1, hrun2⟩
  · cases (attempt_eq_ok.1 hrun1).1

namespace Keeps

variable {cx : Context} {dest : Access} {value : Access → Lower Unit}

theorem attempt {step : Lower Unit} (h : Keeps D b step) : Keeps D b (attempt step) :=
  .bind h.recover fun _ _ _ => .pure ()

theorem settling (h : Keeps D b (value dest)) : Keeps D b (settling cx dest value) := by
  refine .bind h.recover fun done b₁ _ => ?_
  cases done with
  | true => exact .pure ()
  | false => exact direct_keeps.unsettle dest b₁

end Keeps

end Lower

/-! ## Control flow -/

namespace Body

/-- Another path meets the current one. -/
def joined (b : Body) (others : List Assigned) : Body :=
  { b with locals := updateAssignments.update Assigned.join b.locals others }

/-- The body behind a point where the function is left. -/
def left (b : Body) (result : Access) : Body :=
  { b.withGraph ((Shape.exit result).build b.draft.graph) with
    locals := b.locals.map fun l => { l with assigned := .unreachable } }

variable {D : Access → Prop} {b b₁ b₂ : Body} {test : Access}

theorem Stays.withTemp (span : Location) : b.Stays D (b.withTemp span) :=
  .makes (.temp span)

theorem Emits.frame (h : b.Emits D b') (ho : b.draft.graph.Open) :
    Graph.Frame b.draft.graph b'.draft.graph := by
  obtain ⟨sh, hcode, -⟩ := h
  exact hcode ▸ sh.frame ho

theorem Kept.joined (b : Body) (others : List Assigned) : b.Kept (b.joined others) :=
  ⟨⟨prefix_rfl, .refl _, rfl⟩, rfl, update_fixed _ _ _⟩

theorem Kept.restored (b : Body) (before : List Assigned) : b.Kept (b.restored before) :=
  ⟨⟨prefix_rfl, .refl _, rfl⟩, rfl, update_fixed _ _ _⟩

/-- Behind a branch that may not be taken. -/
abbrev behindWhen (b b₁ : Body) : Body :=
  (b₁.joined (b.locals.map Local.assigned)).withGraph (b₁.draft.graph.jump
    ⟨b.draft.graph.size + 1⟩ ⟨b.draft.graph.size + 1⟩)

/-- Behind two branches. -/
abbrev behindBoth (b₁ b₂ : Body) : Body :=
  (b₂.joined (b₁.locals.map Local.assigned)).withGraph
    (((b₂.draft.graph.add.goTo b₁.draft.graph.current).jump ⟨b₂.draft.graph.size⟩
      b₂.draft.graph.current).jump ⟨b₂.draft.graph.size⟩ ⟨b₂.draft.graph.size⟩)

theorem Stays.when (h : (b.taken test).Stays D b₁) : b.Stays D (b.behindWhen b₁) := by
  obtain ⟨sh, hcode, hall⟩ := h.code
  have hwhen : b.Stays D ((b₁.joined (b.locals.map Local.assigned)).withGraph
      ((Shape.when test sh).build b.draft.graph)) :=
    ((Kept.withGraph b _).trans (h.toKept.trans (.joined _ _))).emits ⟨trivial, hall⟩
  rwa [Shape.build_when hcode] at hwhen

theorem Stays.ifElse (h1 : (b.taken test).Stays D b₁) (h2 : (b.otherwise b₁).Stays D b₂) :
    b.Stays D (b₁.behindBoth b₂) := by
  obtain ⟨sh1, hcode1, hall1⟩ := h1.code
  obtain ⟨sh2, hcode2, hall2⟩ := h2.code
  have hkept : b.Kept (b₂.joined (b₁.locals.map Local.assigned)) :=
    (Kept.withGraph b _).trans (h1.toKept.trans ((Kept.restored b₁ _).trans
      ((Kept.withGraph _ _).trans (h2.toKept.trans (.joined b₂ _)))))
  have hall : (Shape.ifElse test sh1 sh2).All (Event.Lands D b.draft.registers.length) :=
    ⟨trivial, hall1, hall2.mono fun _ => .mono h1.draft.registers.length_le fun _ => .inl⟩
  have hboth := hkept.emits hall
  rwa [Shape.build_ifElse hcode1 hcode2] at hboth

end Body

namespace Lower

variable {D : Access → Prop} {α : Type} {b b' : Body} {cx : Context} {dest test : Access}
  {value thenValue elseValue body condition : Access → Lower Unit}
  {span bodySpan thenSpan conditionSpan : Location} {r : Option Unit} {step : Lower Unit}

/-- A conditional without `else`: the branch is lowered between the test and the other path. -/
theorem makeWhen_ok (ho : b.draft.graph.Open)
    (hrun : (makeWhen cx test thenSpan value dest span).run b = .ok (r, b')) :
    ∃ b₁, (attempt (settling cx (.register b.nextRegister) value)).run
        ((b.taken test).withTemp thenSpan) = .ok (some (), b₁) ∧
      (b₁.draft.graph.Open → (moveUnit cx dest span).run (b.behindWhen b₁) = .ok (r, b')) := by
  rw [makeWhen, branch_run ho, run_bind_some (newTemp_eq thenSpan)] at hrun
  obtain ⟨b₁, hvalue, hrun⟩ := attempt_bind_eq_ok hrun
  refine ⟨b₁, hvalue, fun hopen => ?_⟩
  rw [jump_run hopen] at hrun
  exact hrun

/-- A conditional with `else`: the second branch starts with what was known before the first. -/
theorem makeIfElse_ok (ho : b.draft.graph.Open)
    (hrun : (makeIfElse cx test thenValue elseValue dest).run b = .ok (r, b')) :
    ∃ b₁ b₂, (attempt (settling cx dest thenValue)).run (b.taken test) = .ok (some (), b₁) ∧
      (attempt (settling cx dest elseValue)).run (b.otherwise b₁) = .ok (some (), b₂) ∧
      (Graph.Frame (b.draft.graph.branch test) b₁.draft.graph →
        Graph.Frame (b₁.draft.graph.goTo ⟨b.draft.graph.size + 1⟩) b₂.draft.graph →
          b' = b₁.behindBoth b₂) := by
  rw [makeIfElse, branch_run ho] at hrun
  obtain ⟨b₁, hrun1, hrun⟩ := attempt_bind_eq_ok hrun
  obtain ⟨b₂, hrun2, hrun⟩ := attempt_bind_eq_ok (b := b.otherwise b₁) hrun
  refine ⟨b₁, b₂, hrun1, hrun2, fun hframe1 hframe2 => ?_⟩
  obtain ⟨hopen1, hopen2⟩ := Graph.Open.branchEnds hframe1 hframe2 ⟨b₂.draft.graph.size⟩
  have hjoin := joinBoth_run (b := b₂.joined (b₁.locals.map Local.assigned)) hopen1 hopen2
  have hboth := hrun.symm.trans hjoin
  cases hboth
  rfl

theorem makeWhen_keeps (hdest : D dest)
    (h : b.draft.graph.Open → Keeps (fun a => D a ∨ a = .register b.nextRegister)
      ((b.taken test).withTemp thenSpan) (value (.register b.nextRegister))) :
    Keeps D b (makeWhen cx test thenSpan value dest span) := by
  intro ho r b' hrun
  obtain ⟨b₁, hvalue, hunit⟩ := makeWhen_ok ho hrun
  have hbranch : (b.taken test).Stays D b₁ := (Body.Stays.withTemp thenSpan).made
    ((h ho).settling.attempt (ho.branch test) hvalue) (Nat.le_refl _)
  have hwhen := hbranch.when
  exact hwhen.trans (direct_keeps.moveUnit hdest trivial _ (hwhen.code.opened ho)
    (hunit (hbranch.code.opened (ho.branch test))))

theorem makeIfElse_keeps (hthen : b.draft.graph.Open → Keeps D (b.taken test) (thenValue dest))
    (helse : ∀ b₁, b.draft.graph.Open →
      (attempt (settling cx dest thenValue)).run (b.taken test) = .ok (some (), b₁) →
        Keeps D (b.otherwise b₁) (elseValue dest)) :
    Keeps D b (makeIfElse cx test thenValue elseValue dest) := by
  intro ho r b' hrun
  obtain ⟨b₁, b₂, hrun1, hrun2, hjoin⟩ := makeIfElse_ok ho hrun
  have h1 := (hthen ho).settling.attempt (ho.branch test) hrun1
  have hframe := h1.code.frame (ho.branch test)
  have hopen := ho.goElse hframe
  have h2 := (helse b₁ ho hrun1).settling.attempt hopen hrun2
  obtain rfl := hjoin hframe (h2.code.frame hopen)
  exact h1.ifElse h2

theorem inLoop_ok (hrun : (inLoop step).run b = .ok (r, b')) :
    r = some () ∧ ∃ b₁, (attempt step).run (b.atDepth (b.loopDepth + 1)) = .ok (some (), b₁) ∧
      b' = b₁.atDepth (b₁.loopDepth - 1) := by
  obtain ⟨b₁, hstep, hrun⟩ := attempt_bind_eq_ok (b := b.atDepth (b.loopDepth + 1)) hrun
  cases hrun
  exact ⟨rfl, b₁, hstep, rfl⟩

theorem inLoop_bind_eq_ok {f : Unit → Lower α} {r : Option α}
    (hrun : (inLoop step >>= f).run b = .ok (r, b')) :
    ∃ b₁, (inLoop step).run b = .ok (some (), b₁) ∧ (f ()).run b₁ = .ok (r, b') := by
  rcases bind_eq_ok.1 hrun with ⟨_, b₁, hrun1, hrun2⟩ | ⟨hrun1, -⟩
  · exact ⟨b₁, hrun1, hrun2⟩
  · cases (inLoop_ok hrun1).1

namespace Keeps

theorem inLoop (h : Keeps D (b.atDepth (b.loopDepth + 1)) step) : Keeps D b (inLoop step) := by
  intro ho r b' hrun
  obtain ⟨-, b₁, hstep, rfl⟩ := inLoop_ok hrun
  have h1 := h.attempt ho hstep
  have hdepth : b₁.loopDepth = b.loopDepth + 1 := h1.depth
  exact ⟨⟨⟨h1.report, h1.draft, by simp [atDepth, hdepth]⟩, h1.scope, h1.locals⟩, h1.code⟩

end Keeps

/-- A destination of unknown type gets no value. -/
def diverge (cx : Context) (dest : Access) : Lower Unit := do
  match ← openSlot? cx dest with
  | none => return
  | some slot => onEngine do
    set (← EngineM.ask fun e => e.markDiverging slot)

theorem leave_run (ho : b.draft.graph.Open) :
    (leave cx dest).run b = (diverge cx dest).run (b.left cx.result) := by
  rw [leave, cx.exit_eq, run_bind_some (terminate_run ho _), run_bind_some (newSegment_closed b _)]
  rfl

theorem leave_keeps : Keeps D b (leave cx dest) := by
  intro ho r b' hrun
  rw [leave_run ho] at hrun
  have hleft : b.Stays D (b.left cx.result) :=
    ⟨⟨⟨prefix_rfl, ⟨prefix_rfl, rfl, prefix_rfl⟩, rfl⟩, rfl, by
      rw [left, map_map]; rfl⟩, .exit cx.result, rfl, trivial⟩
  refine hleft.trans ?_
  refine agreeing_keeps.bind (agreeing_keeps.openSlot? dest) (fun found => ?_) _ (hleft.code.opened ho)
    hrun
  cases found with
  | none => exact agreeing_keeps.pure ()
  | some slot => exact fun _ => .onEngine _

/-- A loop: the condition is lowered behind its head, and the body where the test succeeds. -/
theorem makeLoop_ok (ho : b.draft.graph.Open)
    (hrun : (makeLoop cx conditionSpan bodySpan condition body dest span).run b = .ok (r, b')) :
    ∃ b₁, (inLoop (settling cx (.register b.nextRegister) condition)).run
        (b.atHead conditionSpan) = .ok (some (), b₁) ∧ (b₁.draft.graph.Open →
      ∃ b₂, (inLoop (settling cx (.register b₁.nextRegister) body)).run
        ((b₁.taken (.register b.nextRegister)).withTemp bodySpan) = .ok (some (), b₂) ∧
          (b₂.draft.graph.Open → (moveUnit cx dest span).run
            ((b₂.withGraph (b₂.draft.graph.jump ⟨b.draft.graph.size⟩
              ⟨b₁.draft.graph.size + 1⟩)).joined (b₁.locals.map Local.assigned)) = .ok (r, b'))) := by
  have hregister : (conditionRegister conditionSpan).run (b.withGraph (b.draft.graph.add.jump
      ⟨b.draft.graph.size⟩ ⟨b.draft.graph.size⟩)) =
        .ok (some (.register b.nextRegister), b.atHead conditionSpan) := rfl
  rw [makeLoop, loopHead_run ho, run_bind_some hregister] at hrun
  obtain ⟨b₁, hrun1, hrun⟩ := inLoop_bind_eq_ok hrun
  refine ⟨b₁, hrun1, fun ho1 => ?_⟩
  rw [loopBody_run ho1, run_bind_some (newTemp_eq bodySpan)] at hrun
  obtain ⟨b₂, hrun2, hrun⟩ := inLoop_bind_eq_ok hrun
  refine ⟨b₂, hrun2, fun ho2 => ?_⟩
  rw [loopEnd_run ho2] at hrun
  exact hrun

theorem makeLoop_keeps (hdest : D dest)
    (hcondition : b.draft.graph.Open → Keeps (fun a => D a ∨ a = .register b.nextRegister)
      ((b.atHead conditionSpan).atDepth (b.loopDepth + 1)) (condition (.register b.nextRegister)))
    (hbody : ∀ b₁ : Body, b.draft.graph.Open → b₁.draft.graph.Open →
      (inLoop (settling cx (.register b.nextRegister) condition)).run
        (b.atHead conditionSpan) = .ok (some (), b₁) →
      Keeps (fun a => D a ∨ a = .register b₁.nextRegister)
        (((b₁.taken (.register b.nextRegister)).withTemp bodySpan).atDepth (b₁.loopDepth + 1))
          (body (.register b₁.nextRegister))) :
    Keeps D b (makeLoop cx conditionSpan bodySpan condition body dest span) := by
  intro ho r b' hrun
  obtain ⟨b₁, hrun1, hrest⟩ := makeLoop_ok ho hrun
  have h1 : (b.withGraph (b.draft.graph.add.jump ⟨b.draft.graph.size⟩
      ⟨b.draft.graph.size⟩)).Stays D b₁ := (Body.Stays.withRegister _ _).made
    ((hcondition ho).settling.inLoop ho.loopHead hrun1) (Nat.le_refl _)
  have ho1 := h1.code.opened ho.loopHead
  obtain ⟨b₂, hrun2, hunit⟩ := hrest ho1
  have h2 : (b₁.taken (.register b.nextRegister)).Stays D b₂ := (Body.Stays.withTemp bodySpan).made
    ((hbody b₁ ho ho1 hrun1).settling.inLoop (ho1.branch _) hrun2) (Nat.le_refl _)
  obtain ⟨sh1, hcode1, hall1⟩ := h1.code
  obtain ⟨sh2, hcode2, hall2⟩ := h2.code
  have hkept : b.Kept (b₂.joined (b₁.locals.map Local.assigned)) :=
    (Body.Kept.withGraph b _).trans (h1.toKept.trans ((Body.Kept.withGraph b₁ _).trans
      (h2.toKept.trans (.joined b₂ _))))
  have hall : (Shape.loop sh1 (.register b.nextRegister) sh2).All
      (Event.Lands D b.draft.registers.length) :=
    ⟨hall1, trivial, hall2.mono fun _ => .mono h1.draft.registers.length_le fun _ => .inl⟩
  have hloop := hkept.emits hall
  rw [Shape.build_loop hcode1 hcode2] at hloop
  exact hloop.trans (direct_keeps.moveUnit hdest trivial _ (hloop.code.opened ho)
    (hunit (h2.code.opened (ho1.branch _))))

/-! ## Blocks -/

theorem inBlock_keeps (hstep : b.draft.graph.Open → ∀ {r b'}, step.run b = .ok (r, b') →
      b.Spreads D b' ∧ (r = none → b.Stays D b')) : Keeps D b (inBlock step) := by
  intro ho r b' hrun
  rcases bind_eq_ok.1 (show (step >>= fun _ => _).run b = _ from hrun) with
    ⟨_, b₁, hrun1, hrun2⟩ | ⟨hrun1, -⟩
  · obtain ⟨hspreads, -⟩ := hstep ho hrun1
    cases hrun2
    obtain ⟨more, hlocals, -⟩ := hspreads.locals
    refine ⟨⟨⟨hspreads.report, hspreads.draft, hspreads.depth⟩, rfl, ?_⟩, hspreads.code⟩
    have hlength : b.locals.length = (b.locals.map Local.fixed).length := by simp
    rw [map_take, hlocals, hlength, take_left]
  · exact (hstep ho hrun1).2 rfl

end Lower

/-! ## Expressions -/

/-- The destinations contain the result of the function, and every place that the task comes to
    assign to. -/
structure Task.Confined (cx : Context) (D : Access → Prop) (t : Task) (b : Body) : Prop where
  result : D cx.result
  assigns : ∀ {target value span dest c p c'},
    Reaches cx t b (.expr (.assign target value span) dest) c →
    (lowerTarget cx target).run c = .ok (some p, c') → D p.access

namespace Task.Confined

variable {cx : Context} {D : Access → Prop} {t t' : Task} {b c : Body}

theorem call (h : Confined cx D t b) (hcall : Calls cx t b t' c) : Confined cx D t' c :=
  ⟨h.result, fun hreach => h.assigns (.there hcall hreach)⟩

theorem mono (h : Confined cx D t b) {D' : Access → Prop} (hD : ∀ a, D a → D' a) :
    Confined cx D' t b :=
  ⟨hD _ h.result, fun hreach hrun => hD _ (h.assigns hreach hrun)⟩

theorem also (h : Confined cx D t b) (dest : Access) : Confined cx (fun a => D a ∨ a = dest) t b :=
  h.mono fun _ => .inl

end Task.Confined

theorem Task.confined_true {cx : Context} {t : Task} {b : Body} : t.Confined cx (fun _ => True) b :=
  ⟨trivial, fun _ _ => trivial⟩

namespace Lower

variable {D : Access → Prop} {α β : Type} {b b' : Body} {cx : Context} {dest : Access}
  {name : Ident} {type : Option TypeExpr} {span : Location} {r : Option Unit} {mutable : Bool}

theorem markAssigned_keeps (index : Nat) : Keeps D b (markAssigned index) := by
  rintro - r b' ⟨⟩
  refine ⟨⟨⟨prefix_rfl, .refl _, rfl⟩, rfl, ext_getElem? fun i => ?_⟩, .skip, rfl, trivial⟩
  simp only [getElem?_map, getElem?_modify]
  cases b.locals[i]? with
  | none => rfl
  | some l => split <;> rfl

/-- The value of a `return` goes to the result, or to a register of its own. -/
theorem return_keeps {value : Access → Lower Unit} {rest : Lower α} (hresult : D cx.result)
    (hvalue : ∀ {D' : Access → Prop} {target b₁}, (∀ a, D a → D' a) →
      (returnTarget cx span).run b = .ok (some target, b₁) → D' target → Keeps D' b₁ (value target))
    (hrest : ∀ {D b₁}, Keeps D b₁ rest) :
    Keeps D b (do
      let target ← returnTarget cx span
      settling cx target value
      rest) := by
  by_cases hdiscard : cx.result.isDiscard = true
  · have hrun : (returnTarget cx span).run b =
        .ok (some (.register b.nextRegister), b.withRegister .unit span) := by
      rw [returnTarget, if_pos hdiscard]
      rfl
    refine .allocate hrun (.withRegister .unit span) (Nat.le_refl _) ?_
    exact .bind (.settling (hvalue (fun _ => .inl) hrun (.inr rfl))) fun _ _ _ => hrest
  · have hrun : (returnTarget cx span).run b = .ok (some cx.result, b) := by
      rw [returnTarget, if_neg hdiscard]
      rfl
    intro ho r b' h
    rw [run_bind_some hrun] at h
    exact Keeps.bind (Keeps.settling (hvalue (fun _ => id) hrun hresult)) (fun _ _ _ => hrest) ho h

/-! ## Statements -/

/-- Whatever becomes of the step, it adds to the body, and the locals are still there. -/
def Widens (D : Access → Prop) (b : Body) (x : Lower α) : Prop :=
  b.draft.graph.Open → ∀ {r b'}, x.run b = .ok (r, b') → b.Spreads D b'

theorem Keeps.widens {x : Lower α} (h : Keeps D b x) : Widens D b x :=
  fun ho _ _ hrun => (h ho hrun).spreads

namespace Widens

theorem bind {x : Lower α} {f : α → Lower β} (hx : Widens D b x)
    (hf : ∀ a b₁, x.run b = .ok (some a, b₁) → Widens D b₁ (f a)) : Widens D b (x >>= f) := by
  intro ho r b' hrun
  rcases bind_eq_ok.1 hrun with ⟨a, b₁, hrun1, hrun2⟩ | ⟨hrun1, -⟩
  · have h1 := hx ho hrun1
    exact h1.trans (hf a b₁ hrun1 (h1.code.opened ho) hrun2)
  · exact hx ho hrun1

theorem recover {step : Lower Unit} (h : Widens D b step) : Widens D b (recover step) := by
  intro ho r b' hrun
  rcases recover_eq_ok.1 hrun with ⟨hrun1, -⟩ | ⟨b₁, hrun1, -, rfl⟩
  · exact h ho hrun1
  · exact (h ho hrun1).trans (Body.Stays.aside _ true prefix_rfl).spreads

theorem attempt {step : Lower Unit} (h : Widens D b step) : Widens D b (attempt step) :=
  .bind h.recover fun _ _ _ => (Keeps.pure ()).widens

end Widens

theorem letType_keeps : Keeps D b (letType cx name type) :=
  direct_keeps.letType trivial (fun _ _ => Node.within_true _) b

theorem declareRegister_keeps {r : Option RegisterId} (ho : b.draft.graph.Open)
    (hrun : (declareRegister cx name type).run b = .ok (r, b')) :
    b.Stays D b' ∧ ∀ register, r = some register → b.draft.registers.length ≤ register.index := by
  rcases bind_eq_ok.1 hrun with ⟨t, b₁, hrun1, hrun2⟩ | ⟨hrun1, rfl⟩
  · have h1 := letType_keeps (D := D) ho hrun1
    cases hrun2
    refine ⟨h1.trans (.withRegister t name.span), ?_⟩
    rintro register ⟨⟩
    exact h1.draft.registers.length_le
  · exact ⟨letType_keeps ho hrun1, nofun⟩

/-- The register of the local was made before. -/
theorem introduce_spreads {register : RegisterId} {state : Assigned} {b₁ : Body} (h : b.Stays D b₁)
    (hr : b.draft.registers.length ≤ register.index)
    (hrun : (introduce name register mutable state).run b₁ = .ok (r, b')) : b.Spreads D b' := by
  cases hrun
  refine ⟨⟨h.report, h.draft.trans ⟨prefix_rfl, rfl, prefix_append _ _⟩, h.depth⟩,
    ⟨[⟨name.text, register, mutable, .unassigned, b₁.loopDepth⟩], ?_, ?_⟩, h.code⟩
  · rw [map_append, h.locals]
    rfl
  · exact forall_mem_singleton.2 hr

/-- A local comes into scope behind its initializer. -/
theorem makeLet_widens {init : Option (Access → Lower Unit)}
    (hinit : ∀ value register b₁, init = some value →
      (declareRegister cx name type).run b = .ok (some register, b₁) →
      Keeps (fun a => D a ∨ a = .register register) b₁ (value (.register register))) :
    Widens D b (makeLet cx name mutable type init) := by
  intro ho r b' hrun
  cases init with
  | none =>
    rw [makeLet_none] at hrun
    rcases bind_eq_ok.1 hrun with ⟨register, b₁, hregister, hrun⟩ | ⟨hregister, -⟩
    · obtain ⟨h1, hfresh⟩ := declareRegister_keeps (D := D) ho hregister
      exact introduce_spreads h1 (hfresh register rfl) hrun
    · exact (declareRegister_keeps ho hregister).1.spreads
  | some value =>
    rw [makeLet_some] at hrun
    rcases bind_eq_ok.1 hrun with ⟨register, b₁, hregister, hrun⟩ | ⟨hregister, -⟩
    · obtain ⟨h1, hfresh⟩ := declareRegister_keeps (D := D) ho hregister
      have hvalue : Keeps _ b₁ (recover (settling cx (.register register) value)) :=
        (hinit value register b₁ rfl hregister).settling.recover
      have ho1 := h1.code.opened ho
      rcases bind_eq_ok.1 hrun with ⟨done, b₂, hrun2, hrun⟩ | ⟨hrun2, -⟩
      · have h2 := h1.made (hvalue ho1 hrun2) (hfresh register rfl)
        rcases bind_eq_ok.1 hrun with ⟨_, b3, hrun3, hrun⟩ | ⟨hrun3, -⟩
        · have h3 := introduce_spreads h2 (hfresh register rfl) hrun3
          cases done <;> cases hrun <;> exact h3
        · exact introduce_spreads h2 (hfresh register rfl) hrun3
      · exact (h1.made (hvalue ho1 hrun2) (hfresh register rfl)).spreads
    · exact (declareRegister_keeps ho hregister).1.spreads

theorem lowerStmts_some {s : Stmt} {rest : List Stmt}
    (hrun : (lowerStmts cx span (s :: rest) dest).run b = .ok (r, b')) : r = some () := by
  induction rest generalizing s b with
  | nil => exact (attempt_eq_ok.1 hrun).1
  | cons next rest ih =>
    obtain ⟨b₁, -, hrun⟩ := attempt_bind_eq_ok hrun
    exact ih hrun

/-! ## Expressions -/

/-- **Lowering adds code that writes to the destinations.** -/
theorem walk_keeps : Walk cx (fun D D' => ∀ a, D a → D' a) (fun D => D)
    (fun D t b => t.Confined cx D b) (fun D b {_} s => Keeps D b s)
    fun D b {_} s => Widens D b s where
  dest hle := hle _
  fits hle h := h.mono hle
  call h := h.call
  direct _ := direct_keeps
  bind := .bind
  recover := .recover
  allocate hrun hmakes hf :=
    .allocate hrun (.makes hmakes) (Nat.le_refl _) (hf _ (fun _ => .inl) (.inr rfl))
  when hdest h := makeWhen_keeps hdest fun ho => h ho _ (fun _ => .inl) (.inr rfl)
  ifElse := makeIfElse_keeps
  loop hdest _ hcondition hbody :=
    makeLoop_keeps hdest (fun ho => hcondition ho _ (fun _ => .inl) (.inr rfl))
      fun c ho ho' hrun => hbody c ho ho' hrun _ (fun _ => .inl) (.inr rfl)
  assign hdest hc htarget hvalue := by
    rw [lowerExpr_assign]
    refine .bind htarget fun place c hrun => ?_
    refine .bind (hvalue place c hrun (hc.assigns .here hrun)).settling fun _ c' _ => ?_
    cases place.localIndex with
    | some index =>
      exact .bind (markAssigned_keeps index) fun _ _ _ => direct_keeps.moveUnit hdest trivial _
    | none => exact direct_keeps.moveUnit hdest trivial c'
  ret hc hvalue :=
    return_keeps hc.result (fun hD hrun ht => hvalue _ _ hrun _ hD ht) leave_keeps
  leave := leave_keeps
  block {_ _ _ _ stmts} hdest h := inBlock_keeps fun ho r b' hrun => ⟨h ho hrun, fun hnone => by
    cases stmts with
    | nil => exact direct_keeps.moveUnit hdest trivial _ ho hrun
    | cons => cases (lowerStmts_some hrun).symm.trans hnone⟩
  wide h := h.widens
  wideBind := .bind
  wideRecover := .recover
  binding _ h := makeLet_widens fun value r c hvalue hrun => by
    obtain ⟨e, he, rfl⟩ := Option.map_eq_some_iff.1 hvalue
    exact h e he r c hrun _ (fun _ => .inl) (.inr rfl)
  use path := by
    rintro - r b' ⟨⟩
    exact ⟨⟨prefix_rfl, .refl _, rfl⟩, .of_eq rfl, .skip, rfl, trivial⟩

end Lower

/-! ## The frame of an expression -/

/-- What lowering an expression leaves alone.  The locals are the same up to what is known about
    their assignments; of the segments, only the current one and new ones are written. -/
structure Body.Frames (b b' : Body) : Prop where
  scope : b'.scope = b.scope
  depth : b'.loopDepth = b.loopDepth
  locals : b'.locals.map Local.fixed = b.locals.map Local.fixed
  registers : b.draft.registers <+: b'.draft.registers
  bindings : b.draft.bindings <+: b'.draft.bindings
  report : b.report.entries <+: b'.report.entries
  others : ∀ j < b.draft.graph.size, j ≠ b.draft.current.index →
    b'.draft.graph.seg j = b.draft.graph.seg j
  current : ∀ s, b.draft.graph.seg b.draft.current.index = some s →
    ∃ s', b'.draft.graph.seg b.draft.current.index = some s' ∧ s.instructions <+: s'.instructions
  opened : b'.draft.graph.Open
  closed : ∀ j s, b'.draft.graph.seg j = some s → j ≠ b'.draft.current.index →
    j = b.draft.current.index ∨ b.draft.graph.size ≤ j → s.terminator.isSome = true

/-- **The frame of lowering.**  Whether it goes through or gives up, lowering an expression in any
    body whose current segment is open leaves everything alone that it does not add to. -/
theorem lowerExpr_frames {cx : Context} {e : Expr} {dest : Access} {b b' : Body} {r : Option Unit}
    (ho : b.draft.graph.Open) (hrun : (lowerExpr cx e dest).run b = .ok (r, b')) : b.Frames b' := by
  have hstays : b.Stays (fun _ => True) b' :=
    walk_keeps.lowerExpr e trivial Task.confined_true ho hrun
  obtain ⟨sh, hcode, -⟩ := hstays.code
  have hframe := hstays.code.frame ho
  have happends : b.draft.graph.Appends b'.draft.graph := hcode ▸ sh.appends _
  exact {
    scope := hstays.scope
    depth := hstays.depth
    locals := hstays.locals
    registers := hstays.draft.registers
    bindings := hstays.draft.bindings
    report := hstays.report
    others := hframe.others
    current := happends _
    opened := hframe.opened
    closed := hframe.closed }

namespace Sample

/-- A function that returns `()`. -/
def unitContext : Context := ⟨(Outline.ofFiles []).table, .discard, .unit⟩

/-- An empty body, in which the local `x` has no value yet. -/
def unitBody : Body where
  report := .empty
  engine := .empty true
  draft := ((Draft.new 0).addRegister (.struct .int) .nowhere).2
  scope := .empty
  locals := [⟨"x", ⟨0⟩, true, .unassigned, 0⟩]
  loopDepth := 0
  gaveUp := false

/-- `while true { let y = 1; x = y; return }` -/
def leavingLoop : Expr :=
  .loop (.bool true .nowhere) (.block [
    .binding (name "y") false none (some (.int 1 .nowhere)) .nowhere,
    step (.assign (var "x") (var "y") .nowhere),
    step (.ret none .nowhere)] .nowhere) .nowhere

end Sample

/-- Four segments come behind the entry: the head, the body, what follows, and what follows the
    `return`. -/
theorem leavingLoop_frames : ∃ b', (lowerExpr Sample.unitContext Sample.leavingLoop .discard).run
    Sample.unitBody = .ok (some (), b') ∧ b'.draft.graph.size = 5 ∧ Sample.unitBody.Frames b' := by
  have hrun : ∃ out ∈ ((lowerExpr Sample.unitContext Sample.leavingLoop .discard).run
      Sample.unitBody).toOption, out.1 = some () ∧ out.2.draft.graph.size = 5 := by
    decide +kernel
  obtain ⟨⟨r, b'⟩, hmem, rfl, hsize⟩ := hrun
  exact ⟨b', ok_of_toOption hmem, hsize, lowerExpr_frames ⟨_, rfl, rfl⟩ (ok_of_toOption hmem)⟩

end Semcheck
