/-
  Control flow: conditionals, loops and returns.

  The code of a branch is lowered between the steps that make the segments; a
  `Shape` puts them together again.  Where paths meet, a local is assigned for
  certain if it is on both, and possibly if it is on one (`Joined`).
-/
import Semcheck.Proofs.Lower.Value

namespace Semcheck

open Lower Body List Access Bindings

theorem Context.exit_eq (cx : Context) : cx.exit = .leave cx.result := by
  rw [Context.exit]
  cases cx.result <;> rfl

namespace Lower

variable {cx : Context} {b b' : Body} {α : Type}

theorem terminate_run (h : b.draft.graph.Open) (t : Terminator) :
    (terminate t).run b = .ok (some (), b.withGraph (b.draft.graph.close t)) := by
  rw [terminate, run_bind_some (get_run b), Draft.terminate_eq h]
  rfl

theorem newSegment_closed (b : Body) (t : Terminator) :
    newSegment.run (b.withGraph (b.draft.graph.close t)) =
      .ok (some ⟨b.draft.graph.size⟩, b.withGraph (b.draft.graph.close t).add) := by
  rw [← Graph.size_close b.draft.graph t]
  rfl

theorem branch_run (h : b.draft.graph.Open) (test : Access)
    (f : SegmentId → List Assigned → SegmentId → Lower α) :
    (do
      let first ← newSegment
      let before ← assignments
      let second ← newSegment
      terminate (.branch test first second)
      switchTo first
      f first before second).run b =
      (f ⟨b.draft.graph.size⟩ (b.locals.map Local.assigned) ⟨b.draft.graph.size + 1⟩).run
        (b.withGraph (b.draft.graph.branch test)) := by
  have hopen : (b.withGraph b.draft.graph.add.add).draft.graph.Open := h.add.add
  have hsize : (b.withGraph b.draft.graph.add).draft.graph.size = b.draft.graph.size + 1 := by simp
  have hfirst : newSegment.run b = .ok (some ⟨b.draft.graph.size⟩, b.withGraph b.draft.graph.add) :=
    rfl
  have hbefore : assignments.run (b.withGraph b.draft.graph.add) =
      .ok (some (b.locals.map Local.assigned), b.withGraph b.draft.graph.add) := rfl
  have hsecond : newSegment.run (b.withGraph b.draft.graph.add) =
      .ok (some ⟨(b.withGraph b.draft.graph.add).draft.graph.size⟩,
        b.withGraph b.draft.graph.add.add) := rfl
  rw [run_bind_some hfirst, run_bind_some hbefore, run_bind_some hsecond, hsize,
    run_bind_some (terminate_run hopen _)]
  rfl

theorem jump_run (h : b.draft.graph.Open) (target next : SegmentId) (f : Lower α) :
    (do
      terminate (.goto target)
      switchTo next
      f).run b = f.run (b.withGraph (b.draft.graph.jump target next)) := by
  rw [run_bind_some (terminate_run h _)]
  rfl

theorem joinBoth_run {first second : SegmentId} (h1 : (b.draft.graph.add.goTo first).Open)
    (h2 : ((b.draft.graph.add.goTo first).jump ⟨b.draft.graph.size⟩ second).Open) :
    (do
      let join ← newSegment
      switchTo first
      terminate (.goto join)
      switchTo second
      terminate (.goto join)
      switchTo join : Lower Unit).run b = .ok (some (), b.withGraph
        (((b.draft.graph.add.goTo first).jump ⟨b.draft.graph.size⟩ second).jump
          ⟨b.draft.graph.size⟩ ⟨b.draft.graph.size⟩)) := by
  have hnew : newSegment.run b = .ok (some ⟨b.draft.graph.size⟩, b.withGraph b.draft.graph.add) :=
    rfl
  have hfirst : (switchTo first).run (b.withGraph b.draft.graph.add) =
      .ok (some (), b.withGraph (b.draft.graph.add.goTo first)) := rfl
  have h1' : (b.withGraph (b.draft.graph.add.goTo first)).draft.graph.Open := h1
  have h2' : (b.withGraph ((b.draft.graph.add.goTo first).jump ⟨b.draft.graph.size⟩
    second)).draft.graph.Open := h2
  rw [run_bind_some hnew, run_bind_some hfirst, jump_run h1']
  exact (run_bind_some (terminate_run h2' _)).trans rfl

end Lower

namespace Body

variable {cx : Context} {b b1 b' : Body} {g : Graph}

theorem Progress.ofGraph (h : (b.withGraph g).Progress b') : b.Progress b' :=
  { h with draft := ⟨h.draft.registers, h.draft.paramCount, h.draft.bindings⟩ }

theorem Progress.toGraph (h : b.Progress b') (g : Graph) : b.Progress (b'.withGraph g) :=
  { h with draft := ⟨h.draft.registers, h.draft.paramCount, h.draft.bindings⟩ }

theorem Progress.grown (hp : b.Progress b1) (hb : b.Intact cx) (h1 : b1.Intact cx) {sh : Shape}
    (hs : sh.All (Event.InRange cx.table b1.draft.registers.length))
    (he : sh.All (Event.LeavesWith cx.result)) (hg : g = sh.build b.draft.graph) :
    b.Grown cx sh (b1.withGraph g) where
  toProgress := hp.toGraph g
  intact := h1.withGraph (hg ▸ (sh.frame hb.opened).opened)
  code := hg
  steps := hs
  exits := he

theorem extends_withGraph (b : Body) (g : Graph) : b.Extends (b.withGraph g) :=
  ⟨prefix_rfl, rfl, prefix_rfl, prefix_rfl⟩

end Body

/-! ## Where paths meet -/

theorem Assigned.join_unreachable {a b : Assigned} (h : a.join b = .unreachable) :
    a = .unreachable ∧ b = .unreachable := by
  simp only [join, unreachable, mk.injEq, Bool.and_eq_true, Bool.or_eq_false_iff] at h
  cases a
  cases b
  simpa [unreachable] using ⟨⟨h.1.1, h.2.1⟩, h.1.2, h.2.2⟩

/-- The locals behind two paths. -/
def Joined (ls₁ ls₂ ls' : List Local) : Prop :=
  ∀ (i : Nat) (l' : Local), ls'[i]? = some l' → ∃ l₁ l₂, ls₁[i]? = some l₁ ∧ ls₂[i]? = some l₂ ∧
    l'.fixed = l₁.fixed ∧ l'.fixed = l₂.fixed ∧ l'.assigned = l₁.assigned.join l₂.assigned

namespace Lower

theorem update_fixed (change : Assigned → Assigned → Assigned) (ls : List Local)
    (others : List Assigned) :
    (updateAssignments.update change ls others).map Local.fixed = ls.map Local.fixed := by
  induction ls generalizing others with
  | nil => cases others <;> rfl
  | cons l ls ih =>
    cases others with
    | nil => rfl
    | cons o others => simpa [updateAssignments.update, Local.fixed] using ih others

theorem restore_eq {ls ls0 : List Local} (h : ls.map Local.fixed = ls0.map Local.fixed) :
    updateAssignments.update (fun _ other => other) ls (ls0.map Local.assigned) = ls0 := by
  induction ls generalizing ls0 with
  | nil =>
    obtain rfl : ls0 = [] := by simpa using h.symm
    rfl
  | cons l ls ih =>
    cases ls0 with
    | nil => cases h
    | cons l0 ls0 =>
      simp only [map_cons, cons.injEq] at h
      rw [map_cons, updateAssignments.update, ih h.2]
      obtain ⟨hname, hreg, hmut, hdepth⟩ : l.name = l0.name ∧ l.register = l0.register ∧
          l.mutable = l0.mutable ∧ l.loopDepth = l0.loopDepth := by
        simpa [Local.fixed] using h.1
      rw [hname, hreg, hmut, hdepth]

theorem join_joined {ls₁ ls₂ : List Local} (h : ls₁.map Local.fixed = ls₂.map Local.fixed) :
    Joined ls₁ ls₂ (updateAssignments.update Assigned.join ls₁ (ls₂.map Local.assigned)) := by
  induction ls₁ generalizing ls₂ with
  | nil =>
    intro i l' hi
    simp [updateAssignments.update] at hi
  | cons l1 ls₁ ih =>
    cases ls₂ with
    | nil => cases h
    | cons l2 ls₂ =>
      simp only [map_cons, cons.injEq] at h
      rintro (_ | i) l' hi
      · cases hi
        exact ⟨l1, l2, rfl, rfl, rfl, h.1, rfl⟩
      · exact ih h.2 i l' hi

end Lower

namespace Joined

variable {ls₁ ls₂ ls' : List Local} {b1 b2 b' : Body}

theorem backs (h : Joined b1.locals b2.locals b'.locals) : b1.Backs b' ∧ b2.Backs b' := by
  refine ⟨fun l' hl hd => ?_, fun l' hl hd => ?_⟩
  all_goals
    obtain ⟨i, hi⟩ := mem_iff_getElem?.1 hl
    obtain ⟨l1, l2, hi1, hi2, hf1, hf2, ha⟩ := h i l' hi
    rw [ha, Assigned.join, Bool.and_eq_true] at hd
  · exact ⟨l1, mem_of_getElem? hi1, (Local.fixed_eq hf1).1.symm, hd.1⟩
  · exact ⟨l2, mem_of_getElem? hi2, (Local.fixed_eq hf2).1.symm, hd.2⟩

theorem under (h : Joined b1.locals b2.locals b'.locals) : b1.Under b' ∧ b2.Under b' := by
  refine ⟨fun i l' hi => ?_, fun i l' hi => ?_⟩
  all_goals
    obtain ⟨l1, l2, hi1, hi2, -, -, ha⟩ := h i l' hi
    first | refine ⟨l1, hi1, ?_⟩ | refine ⟨l2, hi2, ?_⟩
    simp only [Local.limit, ha, Assigned.join]
    cases l1.assigned.possible <;> cases l2.assigned.possible <;> decide

/-- If one of the paths leads there then so does the joined one. -/
theorem reached (h : Joined ls₁ ls₂ ls')
    (hr : (∀ l ∈ ls₁, l.assigned ≠ .unreachable) ∨ ∀ l ∈ ls₂, l.assigned ≠ .unreachable) :
    ∀ l ∈ ls', l.assigned ≠ .unreachable := by
  intro l' hl hdead
  obtain ⟨i, hi⟩ := mem_iff_getElem?.1 hl
  obtain ⟨l1, l2, hi1, hi2, -, -, ha⟩ := h i l' hi
  obtain ⟨hdead1, hdead2⟩ := Assigned.join_unreachable (ha.symm.trans hdead)
  rcases hr with hr | hr
  · exact hr l1 (mem_of_getElem? hi1) hdead1
  · exact hr l2 (mem_of_getElem? hi2) hdead2

end Joined

/-- Only what is known about the assignments changed: another path joins. -/
structure Body.Meets (cx : Context) (b : Body) (others : List Local) (b' : Body) : Prop where
  grown : b.Grown cx .skip b'
  reaches : b.Extends b'
  level : b.Level b'
  named : b'.draft.bindings = b.draft.bindings
  joined : b.locals.map Local.fixed = others.map Local.fixed → Joined b.locals others b'.locals

theorem Lower.joinAssignments_run {cx : Context} {b : Body} (hb : b.Intact cx)
    (others : List Local) :
    ∃ b', (joinAssignments (others.map Local.assigned)).run b = .ok (some (), b') ∧
      b.Meets cx others b' :=
  ⟨_, rfl, .flags hb b.scope (update_fixed _ _ _),
    ⟨prefix_rfl, rfl, prefix_rfl, prefix_rfl⟩, update_fixed _ _ _, rfl, join_joined⟩

/-! ## Conditionals -/

namespace Traced

variable {cx : Context} {b b1 b2 b3 b' : Body} {N R : List RegisterId} {dest : Access}
  {E E1 E2 : Effect} {sh sh1 sh2 : Shape} {r : RegisterId} {g : Graph}

theorem ofGraph (h : Traced cx (b.withGraph g) N dest E sh b' R) : Traced cx b N dest E sh b' R :=
  h.before (fun _ => extends_withGraph b g) (Nat.le_refl _) ⟨rfl, rfl⟩ rfl

theorem toGraph (h : Traced cx b N dest E sh b' R) (g : Graph) :
    Traced cx b N dest E sh (b'.withGraph g) R where
  flow hc := (h.flow ⟨hc.quiet, hc.strict⟩).after (extends_withGraph b' g) rfl
  once := h.once.steady ⟨rfl, rfl⟩
  level := h.level
  permit hc := (h.permit ⟨hc.quiet, hc.strict⟩).after (extends_withGraph b' g) rfl

theorem when (h : Traced cx b N .discard E sh b1 R) (hg1 : b.Grown cx sh1 b1) (hr : r ∈ N)
    (hbool : b.Clean → b.Has cx (.register r) (.struct .bool)) (hm : b1.Meets cx b.locals b') :
    Traced cx b N .discard E (.when (.register r) sh) b' [] := by
  have hjoin := hm.joined h.level
  refine ⟨⟨fun hc => ?_, h.once.when _ hjoin.under.2 hjoin.under.1 hm.named,
    fun hc => (h.permit (hm.grown.clean hc)).when _ hm.reaches hjoin.reached⟩,
    hm.level.trans h.level⟩
  have hc1 := hm.grown.clean hc
  exact .when (h.flow hc1) hr (hbool (hg1.clean hc1)) (hg1.extends hc1) hm.reaches hjoin.backs.2
    hjoin.backs.1

/-- The second branch starts with what was known before the first one. -/
theorem ifElse (hb : b.Intact cx) (h1 : Traced cx b N dest E1 sh1 b1 R) (hg1 : b.Grown cx sh1 b1)
    (h2 : Traced cx ({ b1 with locals := b.locals }.withGraph g) N dest E2 sh2 b2 R)
    (hg2 : ({ b1 with locals := b.locals }.withGraph g).Grown cx sh2 b2) (hr : r ∈ N)
    (hbool : b.Clean → b.Has cx (.register r) (.struct .bool))
    (hd : dest.InRange b.draft.registers.length) (hm : b2.Meets cx b1.locals b') :
    Traced cx b N dest (E1.seq E2) (.ifElse (.register r) sh1 sh2) b' R := by
  have hjoin := hm.joined (h2.level.trans h1.level.symm)
  have hsame : b1.Extends ({ b1 with locals := b.locals }.withGraph g) :=
    ⟨prefix_rfl, rfl, prefix_rfl, prefix_rfl⟩
  have hc1 : b2.Clean → b1.Clean := fun hc => ⟨(hg2.clean hc).quiet, (hg2.clean hc).strict⟩
  refine ⟨⟨fun hc => ?_,
    .ifElse hb h1.once hg1 h2.once rfl rfl rfl rfl hd _ hjoin.under.2 hjoin.under.1 hm.named,
    fun hc => ?_⟩, hm.level.trans h2.level⟩
  all_goals
    have hc2 := hm.grown.clean hc
    have hx1 := hg1.extends (hc1 hc2)
    have hx2 := hg2.extends hc2
  · exact .ifElse (h1.flow (hc1 hc2)) (h2.flow hc2) hr (hbool (hg1.clean (hc1 hc2))) hx1 hsame rfl
      hx2 hm.reaches hjoin.backs.2 hjoin.backs.1
  · exact .ifElse (h1.permit (hc1 hc2)) (h2.permit hc2) _ (hsame.trans (hx2.trans hm.reaches))
      (hx1.trans hsame) rfl hm.reaches hjoin.reached

end Traced

namespace Lower

variable {cx : Context} {b b' : Body} {dest : Access} {E E1 E2 : Effect} {r : RegisterId}
  {thenValue : Access → Lower Unit}

/-- The register holds a truth value. -/
def Tests (cx : Context) (b : Body) (r : RegisterId) : Prop :=
  r.index < b.draft.registers.length ∧ (b.Clean → b.Has cx (.register r) (.struct .bool))

theorem conditionRegister_run (hb : b.Intact cx) (span : Location) :
    ∃ r b1, (conditionRegister span).run b = .ok (some (.register r), b1) ∧
      b.Allocates cx (.struct .bool) r b1 ∧ b1.Has cx (.register r) (.struct .bool) := by
  have hbool : (Ty.struct .bool).Closed := .of_within hb.context.table.bool
  obtain ⟨r, b1, hrun, hr⟩ := newRegister_run hb hb.context.table.bool
    (fun _ => by simp [Ty.Plain, Ty.All, Ty.IsPlain]) span
  exact ⟨r, b1, (run_bind_some hrun).trans rfl, hr, _, hr.accessType?, apply_closed hbool, hbool⟩

/-- A condition comes before what depends on it. -/
theorem condition_spec {condition : Access → Lower Unit} {rest : Access → Lower Unit}
    (hcondition : Lowers cx condition E1) (hb : b.Intact cx) (hd : b.Takes cx dest)
    (span : Location) (hrest : ∀ b1 r, b1.Intact cx → Tests cx b1 r → b1.Takes cx dest →
      b1.Fills cx (r :: dest.needs) dest E2 (rest (.register r))) :
    b.Fills cx dest.needs dest (E1.seq E2) (do
      let test ← conditionRegister span
      settling cx test condition
      rest test) := by
  obtain ⟨r, b1, hrun, hr, hbool⟩ := conditionRegister_run hb span
  refine .allocate hrun hr ((settling_temp hcondition hb hr).bind fun _ sh2 b2 hg2 _ hq2 => ?_)
  have hg : b.Grown cx sh2 b2 := hr.grown.trans hg2
  exact (hrest b2 r hg2.intact ⟨Nat.lt_of_lt_of_le hr.lt hg2.registers_le,
    fun hc => (hg2.extends hc).has hbool⟩ (hd.grown hg)).behind hb hd hg hq2 (by simp)

theorem makeWhen_spec (hthen : Lowers cx thenValue E) (hb : b.Intact cx) (hr : Tests cx b r)
    (hd : b.Takes cx dest) (thenSpan span : Location) :
    b.Fills cx (r :: dest.needs) dest E
      (makeWhen cx (.register r) thenSpan thenValue dest span) := by
  have hb1 : (b.withGraph (b.draft.graph.branch (.register r))).Intact cx :=
    hb.withGraph (hb.opened.branch _)
  obtain ⟨temp, b2, s, hrun2, htemp⟩ := newTemp_run hb1 thenSpan
  obtain ⟨sh, b3, hrun3, hg3, hq3⟩ := (settling_temp hthen hb1 htemp).attempted
  have hg : (b.withGraph (b.draft.graph.branch (.register r))).Grown cx sh b3 :=
    htemp.grown.trans hg3
  have hall : (Shape.when (.register r) sh).All
      (Event.InRange cx.table b3.draft.registers.length) :=
    ⟨inRange_register (Nat.lt_of_lt_of_le hr.1 hg.registers_le), hg.steps⟩
  have hg4 := hg.toProgress.ofGraph.grown hb hg.intact hall ⟨Event.leavesWith_test _ _, hg.exits⟩
    (g := b3.draft.graph.jump ⟨b.draft.graph.size + 1⟩ ⟨b.draft.graph.size + 1⟩)
    (by rw [hg.code]; rfl)
  -- behind the branch the other path joins
  obtain ⟨b5, hrun5, hm⟩ := joinAssignments_run hg4.intact b.locals
  have hg5 := hg4.trans hm.grown
  rw [Shape.append_skip] at hg5
  refine .after ?_ hg5 ((moveUnit_spec hg5.intact (hd.grown hg5) span).imp
    fun _ sh' b' hg' hw hunit => ?_)
  · rw [makeWhen, branch_run hb.opened, run_bind_some hrun2, run_bind_some hrun3,
      jump_run hg3.intact.opened, run_bind_some hrun5]
  · have hbody := (hq3 (hm.grown.whole (hg'.whole hw))).ofGraph.weaken (N := r :: dest.needs)
      (R := []) (by simp) (by simp)
    have hwhen := (hbody.toGraph _).when hg4 (by simp) hr.2 hm
    have h := hwhen.seq (R := dest.plain?.toList) hb hg5 hunit hg' hd.inRange (by simp) (by simp)
    rwa [Effect.seq_none] at h

theorem makeIfElse_spec {elseValue : Access → Lower Unit} (hthen : Lowers cx thenValue E1)
    (helse : Lowers cx elseValue E2) (hb : b.Intact cx) (hr : Tests cx b r) (hd : b.Takes cx dest) :
    b.Fills cx (r :: dest.needs) dest (E1.seq E2)
      (makeIfElse cx (.register r) thenValue elseValue dest) := by
  have hb1 : (b.withGraph (b.draft.graph.branch (.register r))).Intact cx :=
    hb.withGraph (hb.opened.branch _)
  have hd1 := hd.withGraph (b.draft.graph.branch (.register r))
  obtain ⟨sh1, b2, hrun1, hg1, hq1⟩ := ((hthen.fills hb1 hd1).settling hd.inRange).attempted
  -- the other branch starts with what was known before the first one
  have hg2 := Grown.flags hg1.intact b2.scope
    (update_fixed (fun _ other => other) b2.locals (b.locals.map Local.assigned))
  generalize hls : updateAssignments.update (fun _ other => other) b2.locals
    (b.locals.map Local.assigned) = ls at hg2
  have hopen : (b2.draft.graph.goTo ⟨b.draft.graph.size + 1⟩).Open := by
    rw [hg1.code]
    exact hb.opened.goElse (sh1.frame (hb.opened.branch _))
  have hb3 := hg2.intact.withGraph hopen
  have hd3 := ((hd1.grown hg1).grown hg2).withGraph (b2.draft.graph.goTo ⟨b.draft.graph.size + 1⟩)
  obtain ⟨sh2, b4, hrun2, hg4, hq2⟩ := ((helse.fills hb3 hd3).settling hd3.inRange).attempted
  obtain ⟨b5, hrun5, hm⟩ := joinAssignments_run hg4.intact b2.locals
  have hcode : b5.draft.graph = sh2.build (b2.draft.graph.goTo ⟨b.draft.graph.size + 1⟩) :=
    hm.grown.code.trans hg4.code
  have hframe : Graph.Frame (b2.draft.graph.goTo ⟨b.draft.graph.size + 1⟩) b5.draft.graph :=
    hcode ▸ sh2.frame hopen
  obtain ⟨hopen1, hopen2⟩ := Graph.Open.branchEnds
    (hg1.code ▸ sh1.frame (hb.opened.branch _)) hframe ⟨b5.draft.graph.size⟩
  have hall : (Shape.ifElse (.register r) sh1 sh2).All
      (Event.InRange cx.table b5.draft.registers.length) := by
    have hle4 : b2.draft.registers.length ≤ b4.draft.registers.length := hg4.registers_le
    have hle5 := hm.grown.registers_le
    exact ⟨inRange_register (Nat.lt_of_lt_of_le hr.1 (by
      have : b.draft.registers.length ≤ b2.draft.registers.length := hg1.registers_le
      omega)), hg1.steps.mono fun _ hev => hev.mono (by omega),
      hg4.steps.mono fun _ hev => hev.mono hle5⟩
  have hprogress : b.Progress b5 :=
    ((hg1.toProgress.ofGraph.trans hg2.toProgress).trans hg4.toProgress.ofGraph).trans
      hm.grown.toProgress
  have hcurrent : b4.draft.current = b5.draft.graph.current := congrArg Graph.current
    hm.grown.code.symm
  have hg := hprogress.grown hb hm.grown.intact hall
    ⟨Event.leavesWith_test _ _, hg1.exits, hg4.exits⟩
    (g := ((b5.draft.graph.add.goTo b2.draft.current).jump ⟨b5.draft.graph.size⟩
      b5.draft.graph.current).jump ⟨b5.draft.graph.size⟩ ⟨b5.draft.graph.size⟩)
    (by rw [hcode, show b2.draft.current = b2.draft.graph.current from rfl, hg1.code]; rfl)
  refine .intro (a := ()) ?_ hg trivial fun hw => ?_
  · have hafter : assignments.run b2 = .ok (some (b2.locals.map Local.assigned), b2) := rfl
    rw [makeIfElse, branch_run hb.opened, run_bind_some hrun1]
    refine (run_bind_some rfl).trans ?_
    refine (run_bind_some hafter).trans ?_
    refine (run_bind_some rfl).trans ?_
    refine (run_bind_some rfl).trans ?_
    subst hls
    refine (run_bind_some hrun2).trans ?_
    refine (run_bind_some rfl).trans ((run_bind_some hrun5).trans ?_)
    rw [hcurrent]
    exact joinBoth_run hopen1 hopen2
  · have hw4 := hm.grown.whole hw
    have h1 := hq1 (hg4.whole hw4)
    obtain rfl : ls = b.locals := hls.symm.trans (restore_eq h1.level)
    have hN : dest.needs ⊆ r :: dest.needs := by simp
    have h := (h1.weaken hN (.refl _)).ifElse hb1 hg1 ((hq2 hw4).weaken hN (.refl _)) hg4 (by simp)
      (fun hc => hr.2 ⟨hc.quiet, hc.strict⟩) hd.inRange hm
    exact h.ofGraph.toGraph _

end Lower

/-! ## Loops -/

/-- The body with another number of loops around the current point. -/
def Body.atDepth (b : Body) (n : Nat) : Body :=
  { b with loopDepth := n }

namespace Body

variable {cx : Context} {b b' : Body}

theorem Intact.atDepth (h : b.Intact cx) (n : Nat) : (b.atDepth n).Intact cx :=
  { h with plain := fun hc => h.plain ⟨hc.quiet, hc.strict⟩ }

theorem extends_atDepth (b : Body) (n : Nat) : b.Extends (b.atDepth n) :=
  ⟨prefix_rfl, rfl, prefix_rfl, prefix_rfl⟩

theorem Allocates.atDepth {type : Ty} {r : RegisterId} (h : b.Allocates cx type r b') (n : Nat) :
    (b.atDepth n).Allocates cx type r (b'.atDepth n) where
  grown := ⟨{ h.grown.toProgress with depth := rfl },
    h.grown.intact.atDepth n, h.grown.code, h.grown.steps, h.grown.exits⟩
  index := h.index
  registers := h.registers
  steady := ⟨h.steady.locals, h.steady.named⟩

theorem Progress.inLoop (h : (b.atDepth (b.loopDepth + 1)).Progress b') :
    b.Progress (b'.atDepth (b'.loopDepth - 1)) :=
  { h with depth := by simp [h.depth, atDepth] }

end Body

namespace Traced

variable {cx : Context} {b b1 b2 b3 b' : Body} {N R : List RegisterId} {E1 E2 : Effect}
  {sh1 sh2 : Shape} {r : RegisterId}

theorem loop {n : Nat} {g : Graph} (h1 : Traced cx b1 N .discard E1 sh1 b2 [r])
    (hg1 : b1.Grown cx sh1 b2) (hdeep : b1.loopDepth ≠ 0) (hx : b.Extends b1) (hs : b.Steady b1)
    (hbool : b2.Clean → b2.Has cx (.register r) (.struct .bool))
    (h2 : Traced cx b2 N .discard E2 sh2 b3 R) (hc2 : b3.Clean → b2.Clean)
    (hx2 : b3.Clean → b2.Extends b3) (hm : ((b3.atDepth n).withGraph g).Meets cx b2.locals b') :
    Traced cx b N .discard (E1.seq E2).inLoop (.loop sh1 (.register r) sh2) b' [] := by
  have hjoin := hm.joined h2.level
  have hx3 : b3.Extends b' :=
    ⟨hm.reaches.registers, hm.reaches.paramCount, hm.reaches.bindings, hm.reaches.names⟩
  have hc3 : b'.Clean → b3.Clean := fun hc =>
    ⟨(hm.grown.clean hc).quiet, (hm.grown.clean hc).strict⟩
  refine ⟨⟨fun hc => ?_, .loop hdeep hs.locals hx.registers.length_le hs.named h1.once hg1 h1.level
      h2.once _ hjoin.under.2 hm.named, fun hc => ?_⟩,
    hm.level.trans (h2.level.trans (h1.level.trans hs.level))⟩
  all_goals
    have hc3 := hc3 hc
    have hc2 := hc2 hc3
    have hx2 := hx2 hc3
  · exact .loop ((h1.flow hc2).before hx hs.locals) (h2.flow hc3) (hbool hc2)
      (hx.trans (hg1.extends hc2)) hx2 hx3 hjoin.backs.2
  · exact .loop ((h1.permit hc2).before hx hs.locals) (h2.permit hc3) _ (hx2.trans hx3) hx3
      fun hr => hjoin.reached (.inr hr)

end Traced

namespace Lower

variable {cx : Context} {b b' : Body} {dest : Access} {E1 E2 : Effect} {α : Type}

theorem inLoop_run {step : Lower Unit}
    (h : (attempt step).run (b.atDepth (b.loopDepth + 1)) = .ok (some (), b')) :
    (inLoop step).run b = .ok (some (), b'.atDepth (b'.loopDepth - 1)) := by
  refine (run_bind_some rfl).trans ((run_bind_some h).trans rfl)

theorem loopHead_run (h : b.draft.graph.Open) (f : SegmentId → Lower α) :
    (do
      let head ← newSegment
      terminate (.goto head)
      switchTo head
      f head).run b = (f ⟨b.draft.graph.size⟩).run
        (b.withGraph (b.draft.graph.add.jump ⟨b.draft.graph.size⟩ ⟨b.draft.graph.size⟩)) := by
  have hnew : newSegment.run b = .ok (some ⟨b.draft.graph.size⟩, b.withGraph b.draft.graph.add) :=
    rfl
  have hopen : (b.withGraph b.draft.graph.add).draft.graph.Open := h.add
  rw [run_bind_some hnew, jump_run hopen]
  rfl

theorem loopBody_run (h : b.draft.graph.Open) (test : Access)
    (f : List Assigned → SegmentId → Lower α) :
    (do
      let before ← assignments
      let start ← newSegment
      let after ← newSegment
      terminate (.branch test start after)
      switchTo start
      f before after).run b = (f (b.locals.map Local.assigned) ⟨b.draft.graph.size + 1⟩).run
        (b.withGraph (b.draft.graph.branch test)) := by
  have hbefore : assignments.run b = .ok (some (b.locals.map Local.assigned), b) := rfl
  exact (run_bind_some hbefore).trans
    (branch_run h test fun _ _ after => f (b.locals.map Local.assigned) after)

theorem loopEnd_run (h : b.draft.graph.Open) (head next : SegmentId) (before : List Assigned)
    (f : Lower α) :
    (do
      terminate (.goto head)
      joinAssignments before
      switchTo next
      f).run b = (do
      joinAssignments before
      f).run (b.withGraph (b.draft.graph.jump head next)) := by
  rw [run_bind_some (terminate_run h _)]
  rfl

theorem makeLoop_lowers {condition body : Access → Lower Unit}
    (hcondition : Lowers cx condition E1) (hbody : Lowers cx body E2)
    (conditionSpan bodySpan span : Location) :
    Lowers cx (fun dest => makeLoop cx conditionSpan bodySpan condition body dest span)
      (E1.seq E2).inLoop := by
  intro b dest hb hd hdt
  have hb1 := hb.withGraph hb.opened.loopHead
  obtain ⟨r, b2, hrun2, hr, hbool⟩ := conditionRegister_run hb1 conditionSpan
  -- the condition is in the loop
  obtain ⟨sh1, b3, hrun3, hg3, hq3⟩ :=
    (settling_temp hcondition (hb1.atDepth (b2.loopDepth + 1)) (hr.atDepth _)).attempted
  have hb3 := hg3.intact.atDepth (b3.loopDepth - 1)
  have hb4 := hb3.withGraph (hb3.opened.branch (.register r))
  obtain ⟨temp, b5, s, hrun5, htemp⟩ := newTemp_run hb4 bodySpan
  obtain ⟨sh2, b6, hrun6, hg6, hq6⟩ :=
    (settling_temp hbody (hb4.atDepth (b5.loopDepth + 1)) (htemp.atDepth _)).attempted
  have hcondition' := (hr.atDepth (b2.loopDepth + 1)).grown.trans hg3
  have hbody' := (htemp.atDepth (b5.loopDepth + 1)).grown.trans hg6
  rw [Shape.skip_append] at hcondition' hbody'
  have hcode1 : b3.draft.graph = sh1.build (b.draft.graph.add.jump _ _) := hcondition'.code
  have hcode2 : b6.draft.graph = sh2.build (b3.draft.graph.branch (.register r)) := hbody'.code
  have hprogress : b.Progress (b6.atDepth (b6.loopDepth - 1)) :=
    ((hr.grown.toProgress.ofGraph.trans hg3.toProgress.inLoop).trans
      htemp.grown.toProgress.ofGraph).trans hg6.toProgress.inLoop
  have hall : (Shape.loop sh1 (.register r) sh2).All
      (Event.InRange cx.table b6.draft.registers.length) := by
    have hle3 : b2.draft.registers.length ≤ b3.draft.registers.length := hg3.registers_le
    have hle6 : b3.draft.registers.length ≤ b6.draft.registers.length := hbody'.registers_le
    exact ⟨hg3.steps.mono fun _ hev => hev.mono hle6,
      inRange_register (Nat.lt_of_lt_of_le hr.lt (Nat.le_trans hle3 hle6)), hg6.steps⟩
  have hg7 := hprogress.grown hb (hg6.intact.atDepth _) hall
    ⟨hg3.exits, Event.leavesWith_test _ _, hg6.exits⟩
    (g := b6.draft.graph.jump ⟨b.draft.graph.size⟩ ⟨b3.draft.graph.size + 1⟩)
    (by rw [hcode2, hcode1]; rfl)
  -- the loop is left from its head
  obtain ⟨b8, hrun8, hm⟩ := joinAssignments_run hg7.intact b3.locals
  have hg8 := hg7.trans hm.grown
  rw [Shape.append_skip] at hg8
  refine .after ?_ hg8 ((moveUnit_spec hg8.intact (.grown ⟨hd, hdt⟩ hg8) span).imp
    fun _ sh' b' hg' hw hunit => ?_)
  · dsimp only
    rw [makeLoop, loopHead_run hb.opened, run_bind_some hrun2, run_bind_some (inLoop_run hrun3),
      loopBody_run hb3.opened, run_bind_some hrun5, run_bind_some (inLoop_run hrun6),
      loopEnd_run (hg6.intact.atDepth _).opened]
    exact run_bind_some hrun8
  · have hw6 : b6.gaveUp = false := hm.grown.whole (hg'.whole hw)
    have htested := hq3 (hbody'.whole hw6)
    -- a round starts where the condition ended
    have hdepth : b5.loopDepth + 1 = b3.loopDepth := by
      have h5 : b5.loopDepth = b3.loopDepth - 1 := htemp.grown.depth
      have h3 : b3.loopDepth = b2.loopDepth + 1 := hg3.depth
      omega
    have hx5 := ((extends_atDepth b3 (b3.loopDepth - 1)).trans
      (extends_withGraph _ (b3.draft.graph.branch (.register r)))).trans
      (extends_atDepth _ (b5.loopDepth + 1))
    have hround := (hq6 hw6).before (fun _ => hx5) (Nat.le_refl _) ⟨rfl, rfl⟩ hdepth
    have hloop := (htested.weaken (N := dest.needs) (by simp) (.refl _)).loop
      hcondition' (Nat.succ_ne_zero _) ((extends_withGraph b _).trans (extends_atDepth _ _))
      ⟨rfl, rfl⟩ (fun hc => (hg3.extends hc).has ((extends_atDepth b2 _).has hbool))
      (hround.weaken (by simp) (.refl _))
      (fun hc => ⟨(hbody'.clean hc).quiet, (hbody'.clean hc).strict⟩)
      (fun hc => hx5.trans (hbody'.extends hc)) hm
    have h := hloop.seq (R := dest.plain?.toList) hb hg8 hunit hg' hd (by simp) (by simp)
    rwa [Effect.seq_none] at h

end Lower

/-! ## Returns -/

theorem Ty.isUnit_iff {t : Ty} : t.isUnit = true ↔ t = .unit := by
  constructor
  · intro h
    unfold Ty.isUnit at h
    split at h
    · rfl
    · cases h
  · rintro rfl
    rfl

namespace Lower

variable {cx : Context} {b b' : Body} {dest : Access} {E : Effect}

section

variable (hb : b.Intact cx)
include hb

theorem exit_typed : (Event.exit cx.result).Typed cx.table (b.Has cx) cx.returnType := by
  rcases hb.result with ⟨hresult, hunit⟩ | ⟨r, register, hresult, hr, ht, -⟩
  · exact .inl ⟨hresult, hunit⟩
  · have hclosed : cx.returnType.Closed := .of_within hb.context.returnType
    refine .inr ⟨cx.returnType, ?_, apply_closed hclosed, hclosed⟩
    rw [hresult, accessType?, type?_register, hr, ← ht]
    rfl

theorem result_takes : b.Takes cx cx.result := by
  refine ⟨hb.result_inRange, fun _ => ?_⟩
  rcases hb.result with ⟨hresult, -⟩ | ⟨r, register, hresult, hr, -⟩
  · exact .inl hresult
  · refine .inr ⟨register.type, ?_⟩
    rw [hresult, accessType?, type?_register, hr]
    rfl

theorem exit_reads : (Event.exit cx.result).reads = cx.result.plain?.toList := by
  rcases hb.result with ⟨hresult, -⟩ | ⟨r, register, hresult, -⟩ <;> rw [hresult] <;> rfl

theorem markDiverging_spec {slot : Slot} (h : slot.index < b.engine.slots.length) :
    Spec cx b (onEngine do set (← EngineM.ask fun e => e.markDiverging slot)) (fun _ _ => True)
      fun _ sh b' => sh = .skip ∧ b.Steady b' := by
  have hle : b.engine.slots.length ≤
      (b.engine.slots.modify slot.index fun info => { info with diverging := true }).length := by
    simp
  refine .intro (onEngine_run (EngineM.markDiverging_run h)) (Grown.engine' hb ⟨rfl, hle,
    fun _ => prefix_rfl⟩ (hb.engine.setSlots hle) fun hc => ?_) trivial fun _ => ⟨rfl, rfl, rfl⟩
  have hplain := (hb.plain hc).1.engine
  exact ⟨hplain.bindings, hplain.rules⟩

/-- A destination of unknown type gets no value. -/
theorem diverge_spec (hd : dest.InRange b.draft.registers.length) :
    Spec cx b (do
      match ← openSlot? cx dest with
      | none => return
      | some slot => onEngine do
        set (← EngineM.ask fun e => e.markDiverging slot)) (fun _ _ => True)
      fun _ sh b' => sh = .skip ∧ b.Steady b' := by
  obtain ⟨o, hopen, ho⟩ := openSlot?_run hb hd
  refine .look hopen ?_
  cases o with
  | none => exact .pure hb trivial fun _ => ⟨rfl, .refl b⟩
  | some slot => exact markDiverging_spec hb (ho slot rfl)

/-- The result is live where the function is left, and nothing comes behind. -/
theorem leave_spec (hd : dest.InRange b.draft.registers.length) :
    b.Fills cx cx.result.plain?.toList dest .none (leave cx dest) := by
  have hall : (Shape.exit cx.result).All (Event.InRange cx.table b.draft.registers.length) :=
    hb.result_inRange
  have hg1 : b.Grown cx (.exit cx.result) (b.withGraph ((Shape.exit cx.result).build
    b.draft.graph)) := .code' hb hall
    (Event.leavesWith_exit _)
  have hfixed : (b.locals.map fun l => { l with assigned := .unreachable }).map Local.fixed =
      b.locals.map Local.fixed := by
    rw [map_map]
    rfl
  have hg2 := hg1.trans (.flags hg1.intact b.scope hfixed)
  rw [Shape.append_skip] at hg2
  refine .after ?_ hg2 ((diverge_spec hg2.intact (hg2.inRange hd)).imp ?_)
  · rw [leave, cx.exit_eq, run_bind_some (terminate_run hb.opened _),
      run_bind_some (newSegment_closed b _)]
    rfl
  · rintro _ _ b' hg' - ⟨rfl, hs⟩
    refine ⟨⟨fun hc => .exit fun h _ hlive => ((hg2.trans hg').extends hc).fine
      ⟨fun r hr => (hlive r ?_).defined, exit_typed hb⟩, .exit hs.named, fun _ => .exit⟩, ?_⟩
    · exact exit_reads hb ▸ hr
    · rw [Level, hs.locals, map_map]
      rfl

end

/-- The value of a `return` goes to the result, or to a register of its own. -/
theorem return_lowers {value : Access → Lower Unit} (hvalue : Lowers cx value E) (span : Location) :
    Lowers cx (fun dest => do
      let target ← returnTarget cx span
      settling cx target value
      leave cx dest) E := by
  intro b dest hb hd hdt
  rcases hb.result with ⟨hresult, -⟩ | ⟨r, register, hresult, hr, -⟩
  · -- the function returns `()`: the value has a register of its own
    obtain ⟨temp, b1, hrun, htemp⟩ := newRegister_run hb Ty.within_unit
      (fun _ => Ty.plain_unit) span
    have htarget : (returnTarget cx span).run b = .ok (some (.register temp), b1) := by
      rw [returnTarget, hresult]
      exact (run_bind_some hrun).trans rfl
    refine .allocate htarget htemp ((settling_temp hvalue hb htemp).bind
      fun _ sh2 b2 hg2 _ hq2 => ?_)
    have hg : b.Grown cx sh2 b2 := htemp.grown.trans hg2
    have h := (leave_spec hg.intact (hg.inRange hd)).behind (N := dest.needs) hb ⟨hd, hdt⟩ hg hq2
      (by simp [hresult, plain?])
    rwa [Effect.seq_none] at h
  · -- the value is the result
    have htarget : (returnTarget cx span).run b = .ok (some cx.result, b) := by
      rw [returnTarget, hresult]
      rfl
    refine .look htarget (((hvalue.fills hb (result_takes hb)).settling hb.result_inRange).bind
      fun _ sh1 b1 hg1 _ hq1 => ?_)
    have hneeds : cx.result.needs = [] := by simp [hresult, Access.register, Access.needs]
    have h := (leave_spec hg1.intact (hg1.inRange hd)).behind (N := dest.needs) hb ⟨hd, hdt⟩ hg1
      (fun hw => ((hneeds ▸ hq1 hw).result hb)) (by simp)
    rwa [Effect.seq_none] at h

/-- A function that returns `()` may be left without a value. -/
theorem bareReturn_lowers (span : Location) :
    Lowers cx (fun dest => do
      checkBareReturn cx span
      leave cx dest) .none := by
  intro b dest hb hd hdt
  have hcheck : Spec cx b (checkBareReturn cx span) (fun _ _ => True) fun _ sh b' =>
      sh = .skip ∧ b' = b ∧ (b.Clean → cx.result = .discard) := by
    rw [checkBareReturn]
    split
    · exact failNaming_spec hb (hb.context.returnType.mono (Nat.zero_le _) (Nat.le_refl _)) _ _ _
    · rename_i h
      refine .pure hb trivial fun _ => ⟨rfl, rfl, fun hc => ?_⟩
      rcases hb.result with ⟨hresult, -⟩ | ⟨r, register, -, -, -, hne⟩
      · exact hresult
      · refine absurd (Ty.isUnit_iff.1 ?_) hne
        simpa [(hb.plain hc).2.returnType.containsError] using h
  refine hcheck.bind fun _ sh1 b1 hg1 _ hq1 => ?_
  refine (leave_spec hg1.intact (hg1.inRange hd)).imp ?_
  intro _ sh2 b' hg2 hw hleave
  obtain ⟨rfl, rfl, hresult⟩ := hq1 (hg2.whole hw)
  refine { hleave with flow := fun hc => (hleave.flow hc).weaken ?_ (.refl _) }
  simp [hresult (hg2.clean hc), plain?]

end Lower

end Semcheck
