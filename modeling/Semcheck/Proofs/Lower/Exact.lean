/-
  What is known about a local where it is consulted.

  A function without loops is lowered.  Wherever a local is consulted, and no step has
  given up before, `definite` tells whether the local has a value on every path to that
  point, and `possible` whether it has one on some path (`consulted_exact`).

  There are two exceptions, and both come from code that no path leads to.  A local that
  is declared there without a value counts as unassigned, and one that is assigned there
  counts as possibly assigned.  The second one is still known where paths meet again:
  `rejoined_inexact` shows a local that is refused its only assignment.
-/
import Semcheck.Proofs.Lower.Watch

namespace Semcheck

open Lower Body List Option

/-! ## Exactness -/

/-- What is known about the local at the point of the body, up to two exceptions. -/
structure Local.Exact (l : Local) (b : Body) (assigned declared : Prop) : Prop where
  definite : (l.assigned.definite = true ↔ b.Always l.register) ∨ b.Dead ∧ declared
  sound : b.Sometimes l.register → l.assigned.possible = true
  possible : l.assigned.possible = true → b.Sometimes l.register ∨ assigned

namespace Task

variable (cx : Context) (t : Task) (start b : Body) (r : RegisterId)

/-- Before the body `b`, the task gives the register a value at a dead point. -/
def AssignsDead : Prop :=
  ∃ t' c c', Reaches cx t start t' c ∧ t'.Assigns cx r c c' ∧ c'.Dead ∧ c'.Later b

/-- Before the body `b`, the task declares a local with the register at a dead point, and gives it
    no value. -/
def DeclaresDead : Prop :=
  ∃ name mutable type span dest c c',
    Reaches cx t start (.stmt (.binding name mutable type none span) dest) c ∧
      (declareRegister cx name type).run c = .ok (some r, c') ∧ c'.Dead ∧ c'.Later b

end Task

/-! ## From a task to the tasks it calls -/

/-- The local is followed from one body to another. -/
structure Watch.Comes (w : Watch) (b c : Body) : Prop where
  sees : w.Sees c
  later : b.Later c
  dead : b.Dead → c.Dead
  carries : c.Later w.horizon → w.Carries b c

namespace Watch

variable {α : Type} {w : Watch} {b b1 b2 c : Body} {test : Access} {second : SegmentId}
  {cx : Context}

theorem Comes.refl (hs : w.Sees b) : w.Comes b b :=
  ⟨hs, .refl b, id, fun _ => .refl b⟩

theorem Comes.trans (h1 : w.Comes b b1) (h2 : w.Comes b1 c) : w.Comes b c :=
  ⟨h2.sees, h1.later.trans h2.later, h2.dead ∘ h1.dead,
    fun hlater => (h1.carries (h2.later.trans hlater)).trans (h2.carries hlater)⟩

theorem Sees.comes (hs : w.Sees b) {x : Lower α} {a : α} (hrun : x.run b = .ok (some a, c))
    (hx : Carrying w b x) : w.Comes b c := by
  have h := hx hs _ c hrun
  exact ⟨hs.spreads h.spreads, h.later, h.spreads.code.dead hs.wired, h.carries rfl⟩

theorem Sees.newTemp (hs : w.Sees b) {span : Location} {r : RegisterId}
    (hrun : (newTemp span).run b = .ok (some r, c)) : w.Comes b c :=
  hs.comes hrun (direct_carrying.newTemp trivial b)

theorem Sees.lowerCondition (hs : w.Sees b) {condition : Expr}
    (hc : (Task.expr condition (.register b.nextRegister)).Watched cx w
      (b.withRegister (.struct .bool) condition.span))
    (hrun : (lowerCondition cx condition).run b = .ok (some test, c)) : w.Comes b c :=
  hs.comes hrun (.allocate rfl (.register _ _) fun hne =>
    .bind (walk_carrying.lowerExpr condition hne hc).settling fun _ _ _ => .pure _)

/-- The first branch starts with the paths to the test. -/
theorem Sees.branchOn (hs : w.Sees b) (hrun : (branchOn test).run b = .ok (some second, c)) :
    w.Comes b c := by
  rw [branchOn_run hs.wired.opened] at hrun
  cases hrun
  exact {
    sees := hs.branch test
    later := moved_later b b.locals (.branch _ _)
    dead := fun hd h hh => hd h ((Graph.leads_branch hs.wired.opened hs.wired.linked test).1 hh)
    carries := fun _ => .of_alike rfl (hs.wired.alike_branch test) }

theorem Sees.elseBranch (hs : w.Sees b) {dest : Access} {thenBranch : Expr}
    (hbranch : (Lower.branchOn test).run b = .ok (some second, b1))
    (hthen : (attempt (settling cx dest (lowerExpr cx thenBranch))).run b1 = .ok (some (), b2))
    (helse : (Lower.goElse (b.locals.map Local.assigned) second).run b2 = .ok (some (), c)) :
    w.Comes b c := by
  rw [branchOn_run hs.wired.opened] at hbranch
  cases hbranch
  have hstays := (lowerExpr_orderly cx thenBranch).attempted hthen (hs.branch test).wired.opened
  have hlater := invariant_adding.attempt
    (invariant_adding.settling dest (lowerExpr_adding thenBranch)) _ _ _ hthen
  cases (goElse_run _ _).symm.trans helse
  exact {
    sees := (hs.goElse hstays).1
    later := (moved_later b b.locals (.branch _ _)).trans
      (hlater.trans (moved_later b2 _ (.goTo _ _)))
    dead := fun hd h hh => hd h ((hs.wired.leads_else hstays).1 hh)
    carries := fun _ => (hs.goElse hstays).2 }

end Watch

/-- What is known about a local that is followed stays exact. -/
theorem Local.Exact.comes {l l' : Local} {w : Watch} {b c : Body} {declared : Prop}
    (h : l.Exact b w.excused declared) (hc : w.Comes b c) (hlater : c.Later w.horizon)
    (hl : b.locals[w.index]? = some l) (hregister : l.register = w.register)
    (hl' : c.locals[w.index]? = some l') (hregister' : l'.register = w.register) :
    l'.Exact c w.excused declared := by
  have hcarries := hc.carries hlater
  have hpossible : w.Possible b := by
    intro l2 hl2
    cases hl.symm.trans hl2
    exact hregister ▸ ⟨h.sound, h.possible⟩
  obtain ⟨hsound, hexact⟩ := hcarries.possible hpossible l' hl'
  refine ⟨?_, hregister' ▸ hsound, hregister' ▸ hexact⟩
  rcases h.definite with hdefinite | ⟨hdead, hdeclared⟩
  · refine .inl (hregister' ▸ hcarries.definite (fun l2 hl2 => ?_) l' hl')
    cases hl.symm.trans hl2
    exact hregister ▸ hdefinite
  · exact .inr ⟨hc.dead hdead, hdeclared⟩

namespace Task

variable {cx : Context} {w : Watch} {t t' : Task} {b c : Body}

/-- Up to a call the local is followed. -/
theorem Calls.comes (h : Calls cx t b t' c) (hw : t.Watched cx w b) (hs : w.Sees b) :
    w.Comes b c := by
  cases h with
  | block | elements | name | field | addressed | deref | callee | target | placeRecord
  | placePointer | held | result | lastStmt | firstStmt => exact .refl hs
  | placeName hlocal =>
    obtain ⟨rfl, -⟩ := lookupLocal_ok hlocal
    exact .refl hs
  | fields hfields => exact hs.comes hfields (walk_carrying.resolveFields _)
  | args hcallee =>
    exact hs.comes hcallee (walk_carrying.lowerHolder _ (hw.call .callee))
  | condition htest => exact hs.comes htest (direct_carrying.conditionRegister _ b)
  | whenBranch htest hbranch htemp =>
    have h1 := hs.lowerCondition (hw.call (.condition rfl)) htest
    have h2 := h1.sees.branchOn hbranch
    exact (h1.trans h2).trans (h2.sees.newTemp htemp)
  | thenBranch htest hbranch =>
    have h1 := hs.lowerCondition (hw.call (.condition rfl)) htest
    exact h1.trans (h1.sees.branchOn hbranch)
  | elseBranch htest hbranch hthen helse =>
    have h1 := hs.lowerCondition (hw.call (.condition rfl)) htest
    exact h1.trans (h1.sees.elseBranch hbranch hthen helse)
  | loopCondition | loopBody => exact (Node.not_loopFree_loop (hw.free _ mem_cons_self)).elim
  | value htarget =>
    exact hs.comes htarget (.bind (walk_carrying.lowerPlace _ (hw.call .target))
      fun place _ _ => direct_carrying.assignedPlace place trivial _)
  | returned htarget => exact hs.comes htarget (direct_carrying.returnTarget _ b)
  | spilled hplace htemp =>
    have h1 := hs.comes hplace (walk_carrying.lowerPlace _ (hw.call .held))
    exact h1.trans (h1.sees.newTemp htemp)
  | operand htemp | ignored htemp => exact hs.newTemp htemp
  | otherOperands hfirst =>
    exact hs.comes hfirst (walk_carrying.lowerOperand fun _ hw' hne =>
      walk_carrying.lowerExpr _ hne (hw' ▸ hw.call (.operand (newTemp_eq _))))
  | init hfield hunwritten hregister =>
    exact hs.comes hregister (direct_carrying.newRegister _ _ b)
  | otherInits hfirst =>
    exact hs.comes hfirst (walk_carrying.lowerInit fun _ _ hfield hunwritten _ hw' hne =>
      walk_carrying.lowerExpr _ hne (hw' ▸ hw.call (.init hfield hunwritten rfl)))
  | initializer hregister => exact hs.comes hregister declareRegister_carrying
  | otherStmts hfirst =>
    exact hs.comes hfirst (.attempt (walk_carrying.lowerStmt _ nofun (hw.call .firstStmt)))

/-- Only behind a statement there may be more locals. -/
theorem Calls.kept (h : Calls cx t b t' c) (ho : b.draft.graph.Open) (hfree : t.LoopFree) :
    b.Kept c ∨ ∃ span s next rest dest, t = .stmts span (s :: next :: rest) dest ∧
      (attempt (lowerStmt cx s none)).run b = .ok (some (), c) := by
  cases h with
  | block | elements | name | field | addressed | deref | callee | target | placeRecord
  | placePointer | held | result | lastStmt | firstStmt => exact .inl (.refl b)
  | placeName hlocal =>
    obtain ⟨rfl, -⟩ := lookupLocal_ok hlocal
    exact .inl (.refl _)
  | fields hfields => exact .inl (walk_keeps.resolveFields (x := fun _ => True) _ ho hfields).toKept
  | args hcallee => exact .inl (lowerHolder_keeps_all _ ho hcallee).toKept
  | condition htest =>
    exact .inl (direct_keeps.conditionRegister (D := fun _ => True) _ b ho htest).toKept
  | whenBranch htest hbranch htemp =>
    have h1 := lowerCondition_keeps _ ho htest
    rw [branchOn_run (h1.code.opened ho)] at hbranch
    cases hbranch
    cases htemp
    exact .inl (h1.toKept.trans ((Kept.withGraph _ _).trans
      (Stays.withTemp (D := fun _ => True) _).toKept))
  | thenBranch htest hbranch =>
    have h1 := lowerCondition_keeps _ ho htest
    rw [branchOn_run (h1.code.opened ho)] at hbranch
    cases hbranch
    exact .inl (h1.toKept.trans (.withGraph _ _))
  | elseBranch htest hbranch hthen helse =>
    have h1 := lowerCondition_keeps _ ho htest
    have ho1 := h1.code.opened ho
    rw [branchOn_run ho1] at hbranch
    cases hbranch
    have h2 := (lowerExpr_orderly cx _).attempted hthen (ho1.branch _)
    cases (goElse_run _ _).symm.trans helse
    exact .inl (h1.toKept.trans ((Kept.withGraph _ _).trans (h2.toKept.trans
      ((Kept.restored _ _).trans (.withGraph _ _)))))
  | loopCondition | loopBody => exact (Node.not_loopFree_loop (hfree _ mem_cons_self)).elim
  | value htarget => exact .inl (lowerTarget_keeps _ ho htarget).toKept
  | returned htarget =>
    exact .inl (direct_keeps.returnTarget (D := fun _ => True) _ b ho htarget).toKept
  | spilled hplace htemp =>
    cases htemp
    exact .inl ((walk_keeps.lowerPlace _ confined_true ho hplace).toKept.trans
      (Stays.withTemp (D := fun _ => True) _).toKept)
  | operand htemp | ignored htemp =>
    cases htemp
    exact .inl (Stays.withTemp (D := fun _ => True) _).toKept
  | otherOperands hfirst =>
    exact .inl (walk_keeps.lowerOperand (fun _ hle hr => walk_keeps.lowerExpr _ hr
      (confined_true.mono hle)) ho hfirst).toKept
  | init hfield hunwritten hregister =>
    cases hregister
    exact .inl (Stays.withRegister (D := fun _ => True) _ _).toKept
  | otherInits hfirst =>
    exact .inl (walk_keeps.lowerInit (fun _ _ _ _ _ hle hr => walk_keeps.lowerExpr _ hr
      (confined_true.mono hle)) ho hfirst).toKept
  | initializer hregister =>
    exact .inl (declareRegister_keeps (D := fun _ => True) ho hregister).1.toKept
  | otherStmts hfirst => exact .inr ⟨_, _, _, _, _, rfl, hfirst⟩

end Task

/-! ## New locals -/

namespace Lower

variable {cx : Context} {b b1 c : Body} {name : Ident} {mutable : Bool} {type : Option TypeExpr}

theorem declareRegister_ok {r : RegisterId}
    (hrun : (declareRegister cx name type).run b = .ok (some r, b1)) :
    r = b.nextRegister ∧ b1.draft.graph = b.draft.graph ∧
      b1.draft.paramCount = b.draft.paramCount ∧ b1.locals = b.locals := by
  obtain ⟨t, b2, htype, hrun⟩ := bind_ok hrun
  have hbare := agreeing_beside.letType trivial (fun _ _ => Node.within_true _) htype
  have hlocals := locals_eq_of_bare hbare
  have hdraft := draft_eq_of_bare hbare
  cases hrun
  rw [nextRegister, ← hdraft]
  exact ⟨rfl, rfl, rfl, hlocals⟩

theorem makeLetStmt_ok {step : Lower Unit} {span : Location} {a : Unit}
    (hrun : (makeLetStmt cx step none span).run b = .ok (some a, c)) :
    step.run b = .ok (some (), c) := by
  obtain ⟨done, b1, hrecover, hrun⟩ := bind_ok hrun
  rcases recover_eq_ok.1 hrecover with ⟨hstep, ⟨⟩⟩ | ⟨_, -, ⟨⟩, -⟩
  · cases hrun
    exact hstep
  · cases hrun

end Lower

namespace Task

variable {cx : Context} {t t' root : Task} {start b c horizon : Body} {name : Ident}
  {mutable : Bool} {type : Option TypeExpr} {span : Location} {dest : Option Access}

/-- A local without a value has none on any path. -/
theorem declared_exact (hb : b.Ready cx)
    (hreach : Reaches cx t start (.stmt (.binding name mutable type none span) dest) b)
    (hrun : (makeLet cx name mutable type none).run b = .ok (some (), c)) (hlater : c.Later horizon) :
    ∃ ls l, c.locals = ls ++ [l] ∧ ls.length = b.locals.length ∧
      l.Exact c (t.AssignsDead cx start horizon l.register)
        (t.DeclaresDead cx start horizon l.register) := by
  rw [makeLet_none] at hrun
  obtain ⟨r, b1, hregister, hrun⟩ := bind_ok hrun
  have hlater1 := (introduce_later hrun).trans hlater
  obtain ⟨hr, hgraph, hparams, hlocals⟩ := declareRegister_ok hregister
  cases hrun
  have hundefined : ∀ h, b1.draft.graph.Leads h → ¬ b1.Defined h r := by
    intro h hh
    rw [defined_congr hparams]
    exact hb.unwritten (hr ▸ Nat.le_refl _) (hgraph ▸ hh)
  refine ⟨b1.locals, _, rfl, by rw [hlocals], ?_, ?_, nofun⟩
  · by_cases hd : b1.Dead
    · exact .inr ⟨hd, name, mutable, type, span, dest, b, b1, hreach, hregister, hd, hlater1⟩
    · obtain ⟨h, hh⟩ := not_forall_not.1 hd
      exact .inl ⟨nofun, fun ha => (hundefined h hh (ha h hh)).elim⟩
  · rintro ⟨h, hh, hdef⟩
    exact (hundefined h hh hdef).elim

/-- A local with a value has it on every path. -/
theorem initialized_exact {init : Expr} (hb : b.Ready cx) (hfree : (Node.expr init).LoopFree)
    (hreach : Reaches cx t start (.stmt (.binding name mutable type (some init) span) dest) b)
    (hrun : (makeLet cx name mutable type (some (lowerExpr cx init))).run b = .ok (some (), c))
    (hlater : c.Later horizon) (hwhole : horizon.gaveUp = false) :
    ∃ ls l, c.locals = ls ++ [l] ∧ ls.length = b.locals.length ∧
      l.Exact c (t.AssignsDead cx start horizon l.register)
        (t.DeclaresDead cx start horizon l.register) := by
  obtain ⟨r, b1, b2, hregister, hvalue, hrun⟩ := makeLet_ok hrun
  have hlater2 := (introduce_later hrun).trans hlater
  have hstays1 := (declareRegister_keeps (D := fun _ => True) hb.intact.opened hregister).1
  have hw1 := hstays1.code.wired hb.wired
  have hstays2 := ((lowerExpr_orderly cx init).keeps _ b1).settling hw1.opened hvalue
  have halways := (lowerExpr_delivers cx init hfree r b1).settling hw1 _ b2 hvalue
    (hlater2.whole hwhole)
  cases hrun
  refine ⟨b2.locals, _, rfl, ?_, .inl (iff_of_true rfl halways), fun _ => rfl, fun _ => ?_⟩
  · have hfixed := congrArg length (hstays2.locals.trans hstays1.locals)
    simpa using hfixed
  · refine halways.sometimes_or_dead.imp id fun hd => ?_
    exact ⟨_, b, b2, hreach, .init hregister hvalue, hd, hlater2⟩

/-- Behind a statement, what is known about the locals that it declares is exact. -/
theorem stmt_exact {s : Stmt} {i : Nat} {l : Local} (hb : b.Ready cx)
    (hfree : (Node.stmt s).LoopFree) (hreach : Reaches cx t start (.stmt s none) b)
    (hrun : (lowerStmt cx s none).run b = .ok (some (), c)) (hlater : c.Later horizon)
    (hwhole : horizon.gaveUp = false) (hl : c.locals[i]? = some l) (hi : b.locals.length ≤ i) :
    l.Exact c (t.AssignsDead cx start horizon l.register)
      (t.DeclaresDead cx start horizon l.register) := by
  have hlt := (List.getElem?_eq_some_iff.1 hl).1
  have hnone : ¬ c.locals.length = b.locals.length := by omega
  have hlast : ∀ ls l', c.locals = ls ++ [l'] → ls.length = b.locals.length → l = l' := by
    intro ls l' hlocals hlength
    have hsize := congrArg length hlocals
    rw [length_append, length_singleton] at hsize
    obtain rfl : i = ls.length := by omega
    rw [hlocals, getElem?_concat_length] at hl
    exact (some.inj hl).symm
  cases s with
  | expr e span =>
    have hkeeps : Keeps (fun _ => True) b (lowerStmt cx (.expr e span) none) :=
      .bind (direct_keeps.newTemp trivial b) fun _ b1 _ =>
        ((lowerExpr_orderly cx e).keeps _ b1).settling
    have hsame := congrArg length (hkeeps hb.intact.opened hrun).locals
    exact (hnone (by simpa using hsame)).elim
  | use path span =>
    cases hrun
    exact (hnone rfl).elim
  | binding name mutable type init span =>
    cases init with
    | none =>
      obtain ⟨ls, l', hlocals, hlength, hexact⟩ :=
        declared_exact hb hreach (makeLetStmt_ok hrun) hlater
      exact hlast ls l' hlocals hlength ▸ hexact
    | some init =>
      have hinit : (Node.expr init).LoopFree :=
        hfree.child (mem_append_right _ mem_cons_self)
      obtain ⟨ls, l', hlocals, hlength, hexact⟩ :=
        initialized_exact hb hinit hreach (makeLetStmt_ok hrun) hlater hwhole
      exact hlast ls l' hlocals hlength ▸ hexact

/-! ## Moments -/

/-- The task is begun while the first one is lowered, and what is known about the locals is
    exact. -/
structure Tracked (cx : Context) (root : Task) (start horizon : Body) (t : Task) (b : Body) :
    Prop where
  reached : Reaches cx root start t b
  ready : t.Ready cx b
  free : t.LoopFree
  exact : ∀ (i : Nat) (l : Local), b.locals[i]? = some l →
    l.Exact b (root.AssignsDead cx start horizon l.register)
      (root.DeclaresDead cx start horizon l.register)

theorem Ready.body (h : t.Ready cx b) : b.Ready cx := by
  cases t with
  | expr | stmts | stmt | inits | consult => exact h.1
  | place | holder | operands => exact h

/-- What a task calls is tracked as well. -/
theorem Calls.tracked (hcall : Calls cx t b t' c) (hlater : c.Later horizon)
    (hwhole : horizon.gaveUp = false) (h : Tracked cx root start horizon t b) :
    Tracked cx root start horizon t' c := by
  refine ⟨h.reached.trans hcall.reaches, hcall.ready h.ready, hcall.loopFree h.free,
    fun i l' hl' => ?_⟩
  have hb := h.ready.body
  rcases Nat.lt_or_ge i b.locals.length with hi | hi
  · -- The local was in scope before the call, and it is followed up to it.
    have hl := getElem?_eq_getElem hi
    generalize b.locals[i] = l at hl
    let w : Watch := ⟨i, l.register, horizon, hwhole, root.AssignsDead cx start horizon l.register⟩
    have hs : w.Sees b := ⟨hb.wired, hb.intact.locals l (mem_of_getElem? hl), l, hl, rfl⟩
    have hc : w.Comes b c := hcall.comes ⟨h.ready, h.free, fun hreach ha hd hl =>
      ⟨_, _, _, h.reached.trans hreach, ha, hd, hl⟩⟩ hs
    obtain ⟨_, hl1, hregister⟩ := hc.sees.listed
    cases hl'.symm.trans hl1
    rw [show l'.register = l.register from hregister]
    exact (h.exact i l hl).comes hc hlater hl rfl hl' hregister
  · -- It is declared by the statement before.
    have hlt := (List.getElem?_eq_some_iff.1 hl').1
    rcases hcall.kept hb.intact.opened h.free with hkept | ⟨_, s, next, rest, dest, rfl, hfirst⟩
    · have hsame := congrArg length hkept.locals
      simp only [length_map] at hsame
      omega
    · exact stmt_exact hb (h.free _ mem_cons_self) (h.reached.trans Calls.firstStmt.reaches)
        (attempt_ok hfirst (hlater.whole hwhole)) hlater hwhole hl' hi

theorem Reaches.tracked (hreach : Reaches cx t b t' c) (hlater : c.Later horizon)
    (hwhole : horizon.gaveUp = false) (h : Tracked cx root start horizon t b) :
    Tracked cx root start horizon t' c := by
  induction hreach with
  | here => exact h
  | there hcall hrest ih => exact ih hlater (hcall.tracked (hrest.later.trans hlater) hwhole h)

end Task

/-! ## The bodies of a program -/

section Program

variable {strict : Bool} {files : List SourceFile} {pending : PendingFunct} {cx : Context}
  {e : Expr} {b start : Body}

/-- The locals at the entry are the parameters, and the only path there is empty. -/
theorem Begins.params (h : Begins strict files pending cx e b) : b.draft.graph = .start ∧
    ∀ l ∈ b.locals, l.assigned = .assigned ∧ l.register.index < b.draft.paramCount := by
  cases h with
  | intro hsignatures _ _ _ hsignature hresult =>
    obtain ⟨_, hrun, hl⟩ := lowerSignatures_spec (Outline.ofFiles_valid files)
    cases hsignatures.symm.trans hrun
    obtain ⟨entry, hmem, rfl⟩ := Table.mem_of_funct? hsignature
    obtain ⟨more, rfl, -⟩ := resultAccess_cases hresult
    refine ⟨rfl, forall_mem_map.2 fun x hx => ⟨rfl, ?_⟩⟩
    exact (hl.valid.headed entry hmem).lt hx

theorem Begins.strict_eq (h : Begins strict files pending cx e b) : b.engine.strict = strict := by
  cases h
  rfl

/-- At the entry, what is known is exact. -/
theorem Begins.tracked (h : Begins strict files pending cx e start)
    (hfree : (Node.expr e).LoopFree) (horizon : Body) :
    Task.Tracked cx (.expr e cx.result) start horizon (.expr e cx.result) start := by
  refine ⟨.here, h.ready, forall_mem_singleton.2 hfree, fun i l hl => ?_⟩
  obtain ⟨hstart, hparams⟩ := h.params
  obtain ⟨hassigned, hlt⟩ := hparams l (mem_of_getElem? hl)
  have hleads : start.draft.graph.Leads [] := hstart ▸ Graph.leads_start.2 rfl
  have halways : start.Always l.register := fun _ _ => .inl hlt
  have hsometimes : start.Sometimes l.register := ⟨[], hleads, .inl hlt⟩
  exact {
    definite := .inl (iff_of_true (by rw [hassigned]; rfl) halways)
    sound := fun _ => by rw [hassigned]; rfl
    possible := fun _ => .inl hsometimes }

/-- **What is known about a local is exact where it is consulted.**  While a body without loops is
    lowered, and before any step has given up, `definite` is true iff every path to the current
    point gives the local a value, and `possible` iff some path does.

    There are two exceptions.  At a dead point `definite` may be false, for a local that was declared
    at a dead point.  And `possible` may be true on no path's account, for a local that was
    assigned at a dead point. -/
theorem consulted_exact {index : Nat} {l : Local} {purpose : Purpose} {span : Location}
    (hbegins : Begins strict files pending cx e start) (hfree : (Node.expr e).LoopFree)
    (hreach : Task.Reaches cx (.expr e cx.result) start (.consult index l purpose span) b)
    (hquiet : b.gaveUp = false ∨ strict = true ∧ b.report.entries = []) :
    l.Exact b (Task.AssignsDead cx (.expr e cx.result) start b l.register)
      (Task.DeclaresDead cx (.expr e cx.result) start b l.register) := by
  obtain ⟨hready, x, hfind⟩ := hreach.ready hbegins.ready
  have hwhole : b.gaveUp = false := by
    rcases hquiet with hwhole | ⟨hstrict, hquiet⟩
    · exact hwhole
    · refine hready.intact.whole ?_ hquiet
      rw [hreach.later.engine.strict, hbegins.strict_eq, hstrict]
  have htracked := hreach.tracked (.refl b) hwhole (hbegins.tracked hfree b)
  exact htracked.exact index l (findLocal_some hfind).1

end Program

/-! ## Samples -/

namespace Sample

variable {cx : Context} {b c : Body} {dest : Access} {text : String} {index : Nat} {l : Local}

/-- The body behind the statements. -/
def behind (cx : Context) : List Stmt → Body → Option Body
  | [], b => some b
  | s :: rest, b => do
    let out ← ((attempt (lowerStmt cx s none)).run b).toOption
    behind cx rest out.2

theorem behind_reaches {before rest : List Stmt} {s : Stmt} {span : Location}
    (h : c ∈ behind cx before b) :
    Task.Reaches cx (.stmts span (before ++ s :: rest) dest) b (.stmts span (s :: rest) dest) c := by
  induction before generalizing b with
  | nil =>
    cases h
    exact .here
  | cons first before ih =>
    obtain ⟨⟨o, b1⟩, hout, h⟩ := bind_eq_some_iff.1 h
    have hrun := ok_of_toOption hout
    obtain ⟨rfl, -⟩ := attempt_eq_ok.1 hrun
    obtain ⟨next, others, hnext⟩ : ∃ next others, before ++ s :: rest = next :: others :=
      exists_cons_of_ne_nil (by simp)
    have hrest := ih h
    rw [cons_append, hnext] at *
    exact .there (.otherStmts hrun) hrest

theorem lookup_var (h : findLocal text b.locals = some (index, l)) :
    (lookupLocal (path text)).run b = .ok (some (some (index, l)), b) :=
  congrArg (fun found => Except.ok (some found, b)) h

/-- A function `main` with a parameter `c`. -/
def choosing (result : Option TypeExpr) (body : Expr) : List SourceFile := [⟨⟨0⟩, [
  .funct ⟨name "main", [⟨name "c", false, type "bool", .nowhere⟩], result, some body, .nowhere⟩],
  .nowhere⟩]

/-- `let x: int; if c { x = 1 } else { return 2 };` -/
def settledBefore : List Stmt := [
  .binding (name "x") false (some (type "int")) none .nowhere,
  step (.ifElse (var "c") (.block [step (.assign (var "x") (.int 1 .nowhere) .nowhere)] .nowhere)
    (some (.block [step (.ret (some (.int 2 .nowhere)) .nowhere)] .nowhere)) .nowhere)]

/-- `{ let x: int; if c { x = 1 } else { return 2 }; x }` -/
def settled : Expr :=
  .block (settledBefore ++ [step (var "x")]) .nowhere

/-- `let x: int; if c { return; x = 1 };` -/
def rejoinedBefore : List Stmt := [
  .binding (name "x") false (some (type "int")) none .nowhere,
  step (.ifElse (var "c") (.block [step (.ret none .nowhere),
    step (.assign (var "x") (.int 1 .nowhere) .nowhere)] .nowhere) none .nowhere)]

/-- `{ let x: int; if c { return; x = 1 }; x = 2 }` -/
def rejoined : Expr :=
  .block (rejoinedBefore ++ [step (.assign (var "x") (.int 2 .nowhere) .nowhere)]) .nowhere

/-- `return; let x: int;` -/
def declaredDead : List Stmt := [
  step (.ret none .nowhere),
  .binding (name "x") false (some (type "int")) none .nowhere]

theorem settled_loopFree : (Node.expr settled).LoopFree := by
  simp [Node.LoopFree, Node.preorder, Node.children, Node.ofExpr, Node.ofStmt, Node.ofType, settled,
    settledBefore, step, var, type]

theorem rejoined_loopFree : (Node.expr rejoined).LoopFree := by
  simp [Node.LoopFree, Node.preorder, Node.children, Node.ofExpr, Node.ofStmt, Node.ofType, rejoined,
    rejoinedBefore, step, var, type]

/-- Only one branch comes to the last statement, and it assigns to `x`. -/
theorem settled_lowered : ∃ x ∈ entry (choosing (some (type "int")) settled),
    ∃ b ∈ behind x.1 settledBefore x.2, b.report.entries.isEmpty = true ∧
      ∃ found ∈ findLocal "x" b.locals, found.2.assigned.definite = true := by
  decide +kernel

/-- The first `n` segments jump only to each other, and do not write the register. -/
def Unwritten (g : Graph) (n : Nat) (r : RegisterId) : Prop :=
  ∀ j < n, ∀ s ∈ g.seg j, History.writes s.instructions r = 0 ∧
    ∀ t ∈ s.terminator, ∀ x ∈ t.successors, x.index < n

instance (g : Graph) (n : Nat) (r : RegisterId) : Decidable (Unwritten g n r) :=
  inferInstanceAs (Decidable (∀ j < n, ∀ s ∈ g.seg j, History.writes s.instructions r = 0 ∧
    ∀ t ∈ s.terminator, ∀ x ∈ t.successors, x.index < n))

theorem Unwritten.leads {g : Graph} {n : Nat} {r : RegisterId} {h : History}
    (hu : Unwritten g n r) (hn : 0 < n) (hleads : g.Leads h) : h.writes r = 0 := by
  have henters : ∀ {j past}, g.Enters j past → j < n ∧ past.writes r = 0 := by
    intro j past he
    induction he with
    | entry => exact ⟨hn, rfl⟩
    | jump _ hs ht hx ih =>
      obtain ⟨hwrites, hnext⟩ := hu _ ih.1 _ hs
      refine ⟨hnext _ ht _ hx, ?_⟩
      rw [History.writes, countP_append]
      exact congrArg₂ (· + ·) ih.2 hwrites
  obtain ⟨past, s, he, hs, rfl⟩ := hleads
  rw [History.writes, countP_append]
  exact congrArg₂ (· + ·) (henters he).2 (hu _ (henters he).1 _ hs).1

/-- The assignment behind the `return` is in the fourth segment, which is not entered. -/
theorem rejoined_lowered : ∃ x ∈ entry (choosing none rejoined),
    ∃ b ∈ behind x.1 rejoinedBefore x.2, b.report.entries.isEmpty = true ∧
      ∃ found ∈ findLocal "x" b.locals, found.2.assigned.possible = true ∧
        b.draft.paramCount ≤ found.2.register.index ∧
        Unwritten b.draft.graph 3 found.2.register := by
  decide +kernel

theorem rejoined_refused : ∃ p ∈ (lowerFiles true (choosing none rejoined)).toOption,
    p.report.entries.map Diagnostic.code = [.cannotAssign] := by
  decide +kernel

end Sample

/-- `x` has its value where it is read, and that is known. -/
theorem settled_exact : ∃ pending cx start b index l,
    Begins true (Sample.choosing (some (Sample.type "int")) Sample.settled) pending cx
      Sample.settled start ∧
    (Node.expr Sample.settled).LoopFree ∧
    Task.Reaches cx (.expr Sample.settled cx.result) start (.consult index l .read .nowhere) b ∧
    b.report.entries = [] ∧ l.assigned.definite = true ∧ b.Always l.register ∧
    l.Exact b (Task.AssignsDead cx (.expr Sample.settled cx.result) start b l.register)
      (Task.DeclaresDead cx (.expr Sample.settled cx.result) start b l.register) := by
  obtain ⟨x, hx, b, hb, hquiet, ⟨index, l⟩, hfound, hdefinite⟩ := Sample.settled_lowered
  obtain ⟨pending, -, hbegins⟩ := Sample.entry_begins rfl hx
  have hreach : Task.Reaches x.1 (.expr Sample.settled x.1.result) x.2
      (.consult index l .read .nowhere) b :=
    .there .block <| (Sample.behind_reaches hb).trans <| .there .lastStmt <| .there .result <|
      .there .name <| .there (.placeName (Sample.lookup_var hfound)) .here
  have hquiet := List.isEmpty_iff.1 hquiet
  have hexact := consulted_exact hbegins Sample.settled_loopFree hreach (.inr ⟨rfl, hquiet⟩)
  refine ⟨pending, x.1, x.2, b, index, l, hbegins, Sample.settled_loopFree, hreach, hquiet,
    hdefinite, ?_, hexact⟩
  rcases hexact.definite with h | ⟨hdead, -⟩
  · exact h.1 hdefinite
  · exact hdead.always _

/-- Where `x` gets its only value, no path has assigned to it, but it counts as possibly assigned.
    The assignment is refused. -/
theorem rejoined_inexact : ∃ pending cx start b index l p,
    Begins true (Sample.choosing none Sample.rejoined) pending cx Sample.rejoined start ∧
    (Node.expr Sample.rejoined).LoopFree ∧
    Task.Reaches cx (.expr Sample.rejoined cx.result) start (.consult index l .assign .nowhere) b ∧
    b.report.entries = [] ∧ l.assigned.possible = true ∧ ¬ b.Sometimes l.register ∧
    lowerFiles true (Sample.choosing none Sample.rejoined) = .ok p ∧
    p.report.entries.map Diagnostic.code = [.cannotAssign] := by
  obtain ⟨x, hx, b, hb, hquiet, ⟨index, l⟩, hfound, hpossible, hlocal, hunwritten⟩ :=
    Sample.rejoined_lowered
  obtain ⟨p, hp, hcodes⟩ := Sample.rejoined_refused
  obtain ⟨pending, -, hbegins⟩ := Sample.entry_begins rfl hx
  have hreach : Task.Reaches x.1 (.expr Sample.rejoined x.1.result) x.2
      (.consult index l .assign .nowhere) b :=
    .there .block <| (Sample.behind_reaches hb).trans <| .there .lastStmt <| .there .result <|
      .there .target <| .there (.placeName (Sample.lookup_var hfound)) .here
  refine ⟨pending, x.1, x.2, b, index, l, p, hbegins, Sample.rejoined_loopFree, hreach,
    List.isEmpty_iff.1 hquiet, hpossible, ?_, ok_of_toOption hp, hcodes⟩
  rintro ⟨h, hleads, hparam | hwrites⟩
  · exact Nat.not_lt.2 hlocal hparam
  · exact Nat.ne_of_gt hwrites (hunwritten.leads (by decide) hleads)

-- The other exception: behind a `return`, a local without a value counts as unassigned.
example : ∃ x ∈ Sample.entry (Sample.choosing none (.block Sample.declaredDead .nowhere)),
    ∃ b ∈ Sample.behind x.1 Sample.declaredDead x.2, b.report.entries.isEmpty = true ∧
      ∃ found ∈ findLocal "x" b.locals, found.2.assigned.definite = false := by
  decide +kernel

end Semcheck
