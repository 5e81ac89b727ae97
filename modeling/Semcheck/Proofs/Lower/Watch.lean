/-
  One local, followed through lowering.

  A `Watch` names a local and a later body in which no step has given up.  What is
  known about the local is exact at a point if `definite` says whether it has a value
  on every path and `possible` whether it has one on some path.  Steps on the way to
  the later body keep it so (`Carrying`), whether they write to other registers, leave
  the function, or assign to the local itself.

  There is one way to go wrong.  An assignment at a dead point makes `possible` true,
  although no path comes there.  The watch has an excuse for that: a statement that
  follows from such an assignment (`Task.Watched`).
-/
import Semcheck.Proofs.Lower.Points

namespace Semcheck

open Lower Body List Access

/-- A local that is followed, and the body up to which it is. -/
structure Watch where
  index : Nat
  register : RegisterId
  horizon : Body
  whole : horizon.gaveUp = false
  /-- An excuse for a local that is taken to have a value where it has none. -/
  excused : Prop

namespace Watch

/-- The local is in scope. -/
structure Sees (w : Watch) (b : Body) : Prop where
  wired : b.Wired
  inRange : w.register.index < b.draft.registers.length
  listed : ∃ l, b.locals[w.index]? = some l ∧ l.register = w.register

/-- It is known whether the local has a value on every path. -/
def Definite (w : Watch) (b : Body) : Prop :=
  ∀ l, b.locals[w.index]? = some l → (l.assigned.definite = true ↔ b.Always w.register)

/-- It is known whether the local has a value on some path, or there is an excuse. -/
def Possible (w : Watch) (b : Body) : Prop :=
  ∀ l, b.locals[w.index]? = some l → (b.Sometimes w.register → l.assigned.possible = true) ∧
    (l.assigned.possible = true → b.Sometimes w.register ∨ w.excused)

/-- What was exact stays exact. -/
structure Carries (w : Watch) (b b' : Body) : Prop where
  definite : w.Definite b → w.Definite b'
  possible : w.Possible b → w.Possible b'

/-- What a step does to a body, as far as the local is concerned. -/
structure Follows {α : Type} (w : Watch) (b : Body) (o : Option α) (b' : Body) : Prop where
  spreads : b.Spreads (fun _ => True) b'
  later : b.Later b'
  carries : o.isSome = true → b'.Later w.horizon → w.Carries b b'

variable {α β : Type} {w : Watch} {b b₁ b2 b' : Body} {D : Access → Prop} {o : Option β}

/-! ## The local in scope -/

theorem Sees.fresh (h : w.Sees b) : Access.register b.nextRegister ≠ .register w.register :=
  ((inRange_register h.inRange).ne_register (Nat.le_refl _)).symm

/-- What is only added to still has the local. -/
theorem Sees.keep (h : w.Sees b) (hw : b'.Wired) (hd : b.draft.Grows b'.draft) {n : Nat}
    (hl : Local.Adds n b.locals b'.locals) : w.Sees b' := by
  obtain ⟨l, hl0, hregister⟩ := h.listed
  obtain ⟨more, hlocals, -⟩ := hl
  refine ⟨hw, Nat.lt_of_lt_of_le h.inRange hd.registers.length_le, ?_⟩
  have hfixed : (b'.locals.map Local.fixed)[w.index]? = some l.fixed := by
    rw [hlocals, getElem?_append_left (by simpa using (List.getElem?_eq_some_iff.1 hl0).1),
      getElem?_map, hl0]
    rfl
  rw [getElem?_map] at hfixed
  obtain ⟨l', hl', hsame⟩ := Option.map_eq_some_iff.1 hfixed
  exact ⟨l', hl', (Local.fixed_eq hsame).1.trans hregister⟩

theorem Sees.spreads (h : w.Sees b) (hs : b.Spreads D b') : w.Sees b' :=
  h.keep (hs.code.wired h.wired) hs.draft hs.locals

theorem Sees.branch (h : w.Sees b) (test : Access) : w.Sees (b.taken test) :=
  ⟨h.wired.branch test, h.inRange, h.listed⟩

/-! ## Exactness -/

namespace Carries

theorem refl (b : Body) : w.Carries b b :=
  ⟨id, id⟩

theorem trans (h1 : w.Carries b b₁) (h2 : w.Carries b₁ b') : w.Carries b b' :=
  ⟨h2.definite ∘ h1.definite, h2.possible ∘ h1.possible⟩

/-- Neither the local nor the paths change. -/
theorem of_alike (hl : b'.locals[w.index]? = b.locals[w.index]?)
    (ha : Body.Alike w.register b b') : w.Carries b b' := by
  constructor
  · intro hd l hl'
    rw [ha.always]
    exact hd l (hl ▸ hl')
  · intro hp l hl'
    rw [ha.sometimes]
    exact hp l (hl ▸ hl')

theorem merge (h1 : w.Carries b b₁) (h2 : w.Carries b b2) (hj : Joins b₁ b2 b')
    (hl : Joined b2.locals b₁.locals b'.locals) : w.Carries b b' := by
  constructor
  · intro hd l' hl'
    obtain ⟨l2, l1, hl2, hl1, -, -, ha⟩ := hl w.index l' hl'
    rw [ha, Assigned.join, Bool.and_eq_true, hj.always, h1.definite hd l1 hl1,
      h2.definite hd l2 hl2, and_comm]
  · intro hp l' hl'
    obtain ⟨l2, l1, hl2, hl1, -, -, ha⟩ := hl w.index l' hl'
    obtain ⟨hsound1, hexact1⟩ := h1.possible hp l1 hl1
    obtain ⟨hsound2, hexact2⟩ := h2.possible hp l2 hl2
    rw [ha, Assigned.join, Bool.or_eq_true, hj.sometimes]
    refine ⟨fun h => h.symm.imp hsound2 hsound1, ?_⟩
    rintro (h | h)
    · exact (hexact2 h).imp .inr id
    · exact (hexact1 h).imp .inl id

/-- Nothing leads to the point, and that is known. -/
theorem of_dead (hd : b'.Dead) (hl : ∀ l, b'.locals[w.index]? = some l → l.assigned = .unreachable) :
    w.Carries b b' := by
  constructor
  · intro _ l hl'
    rw [hl l hl']
    exact iff_of_true rfl (hd.always _)
  · intro _ l hl'
    rw [hl l hl']
    exact ⟨fun h => (hd.not_sometimes h).elim, nofun⟩

theorem of_always (ha : b'.Always w.register) (hd : b'.Dead → w.excused)
    (hl : ∀ l, b'.locals[w.index]? = some l → l.assigned = .assigned) : w.Carries b b' := by
  constructor
  · intro _ l hl'
    rw [hl l hl']
    exact iff_of_true rfl ha
  · intro _ l hl'
    rw [hl l hl']
    exact ⟨fun _ => rfl, fun _ => ha.sometimes_or_dead.imp id hd⟩

end Carries

/-- The second branch starts with what was known before the first. -/
theorem Sees.goElse {test : Access} (h : w.Sees b) (hs : (b.taken test).Stays D b₁) :
    w.Sees (b.otherwise b₁) ∧ w.Carries b (b.otherwise b₁) := by
  have hrestored : updateAssignments.update (fun _ other => other) b₁.locals
      (b.locals.map Local.assigned) = b.locals := restore_eq hs.locals
  have hlocals : (b.otherwise b₁).locals = b.locals := hrestored
  refine ⟨h.keep (n := 0) (h.wired.goElse hs) ⟨hs.draft.registers, hs.draft.paramCount,
    hs.draft.bindings⟩ (.of_eq (by rw [hlocals])), .of_alike (by rw [hlocals])
    (h.wired.alike_else hs)⟩

theorem Follows.refl (b : Body) (o : Option α) : w.Follows b o b :=
  ⟨(Stays.refl b).spreads, .refl b, fun _ _ => .refl b⟩

theorem Follows.trans {a : α} (h1 : w.Follows b (some a) b₁) (h2 : w.Follows b₁ o b') :
    w.Follows b o b' :=
  ⟨h1.spreads.trans h2.spreads, h1.later.trans h2.later, fun ho hlater =>
    (h1.carries rfl (h2.later.trans hlater)).trans (h2.carries ho hlater)⟩

theorem Follows.gaveUp (h : w.Follows b (none : Option α) b') (ho : o = none) :
    w.Follows b o b' := by
  subst ho
  exact ⟨h.spreads, h.later, nofun⟩

end Watch

/-- The place is a whole local, or else not a whole register. -/
def Place.Whole (p : Place) (b : Body) : Prop :=
  (∃ index l, p.localIndex = some index ∧ b.locals[index]? = some l ∧
    p.access = .register l.register) ∨ p.localIndex = none ∧ ∀ r, p.access ≠ .register r

/-! ## Steps -/

namespace Lower

variable {α β : Type} {w : Watch} {b b' : Body} {cx : Context} {dest : Access} {span : Location}
  {value : Access → Lower Unit} {name : Ident} {type : Option TypeExpr} {r : RegisterId}
  {mutable : Bool} {state : Assigned} {o : Option Unit}

/-- The step leaves what is known about the local exact. -/
def Carrying (w : Watch) (b : Body) (x : Lower α) : Prop :=
  w.Sees b → ∀ o b', x.run b = .ok (o, b') → w.Follows b o b'

namespace Carrying

variable {x : Lower α} {f : α → Lower β}

theorem seen (h : w.Sees b → Carrying w b x) : Carrying w b x :=
  fun hs => h hs hs

theorem of_carries (hwidens : Widens (fun _ => True) b x) (hadding : Adding x)
    (hcarries : w.Sees b → ∀ a b', x.run b = .ok (some a, b') → b'.Later w.horizon →
      w.Carries b b') : Carrying w b x := by
  intro hs o b' hrun
  refine ⟨hwidens hs.wired.opened hrun, hadding b o b' hrun, fun ho hlater => ?_⟩
  obtain ⟨a, rfl⟩ := Option.isSome_iff_exists.1 ho
  exact hcarries hs a b' hrun hlater

theorem of_beside (hkeeps : Keeps (fun _ => True) b x) (hadding : Adding x) (hbeside : Beside x) :
    Carrying w b x := by
  refine .of_carries hkeeps.widens hadding fun _ a b' hrun _ => .of_alike ?_ ?_
  · rw [locals_eq_of_bare (hbeside hrun)]
  · have hdraft := draft_eq_of_bare (hbeside hrun)
    exact .of_leads (by rw [hdraft]) fun _ => by rw [hdraft]

theorem bind (hx : Carrying w b x) (hf : ∀ a b₁, x.run b = .ok (some a, b₁) → Carrying w b₁ (f a)) :
    Carrying w b (x >>= f) := by
  intro hs o b' hrun
  rcases bind_eq_ok.1 hrun with ⟨a, b₁, hrun1, hrun2⟩ | ⟨hrun1, hnone⟩
  · have h1 := hx hs (some a) b₁ hrun1
    exact h1.trans (hf a b₁ hrun1 (hs.spreads h1.spreads) o b' hrun2)
  · exact (hx hs none b' hrun1).gaveUp hnone

theorem pure (a : α) : Carrying w b (pure a : Lower α) := by
  rintro - o b' ⟨⟩
  exact .refl b _

/-- A step that gave up is remembered, and did not happen before the later body. -/
theorem recover {step : Lower Unit} (h : Carrying w b step) : Carrying w b (recover step) := by
  intro hs o b' hrun
  rcases recover_eq_ok.1 hrun with ⟨hrun1, rfl⟩ | ⟨b₁, hrun1, rfl, rfl⟩
  · have h1 := h hs (some ()) b' hrun1
    exact ⟨h1.spreads, h1.later, fun _ => h1.carries rfl⟩
  · have h1 := h hs none b₁ hrun1
    refine ⟨h1.spreads.trans (Stays.aside _ true prefix_rfl).spreads,
      h1.later.trans ⟨prefix_rfl, .refl _, .refl _, fun _ => rfl⟩, fun _ hlater => ?_⟩
    cases hlater.whole w.whole

theorem newRegister (type : Ty) (span : Location) : Carrying w b (newRegister type span) := by
  refine .of_carries (direct_keeps.newRegister type span b).widens
    (invariant_adding.newRegister type span) ?_
  rintro - a b' ⟨⟩ -
  exact .of_alike rfl (.of_leads rfl fun _ => .rfl)

theorem push {i : Instruction} (hdest : i.dest ≠ .register w.register) : Carrying w b (push i) := by
  refine .of_carries (direct_keeps.push trivial b).widens (push_adding i) fun hs a b' hrun _ => ?_
  rw [push_run hs.wired.opened] at hrun
  cases hrun
  exact .of_alike rfl (hs.wired.alike_push hdest)

theorem allocate {a : α} {b₁ : Body} (hrun : x.run b = .ok (some a, b₁)) (hmakes : b.Makes b₁)
    (hf : register b.nextRegister ≠ .register w.register → Carrying w b₁ (f a)) :
    Carrying w b (x >>= f) := by
  intro hs o b' hrun'
  rw [run_bind_some hrun] at hrun'
  have hspreads := (Stays.makes (D := fun _ => True) hmakes).spreads
  have h1 : w.Follows b (some a) b₁ := by
    cases hmakes with
    | temp span => exact ⟨hspreads, invariant_adding.newTemp trivial _ _ _ (newTemp_eq span),
        fun _ _ => .of_alike rfl (.of_leads rfl fun _ => .rfl)⟩
    | register type span => exact ⟨hspreads, invariant_adding.newRegister type span _ _ _ rfl,
        fun _ _ => .of_alike rfl (.of_leads rfl fun _ => .rfl)⟩
  exact h1.trans (hf hs.fresh (hs.spreads hspreads) o b' hrun')

end Carrying

/-- What lowering does within a segment, apart from writing to the local. -/
theorem direct_carrying : Direct (fun _ => True) (fun a => a ≠ .register w.register)
    fun α (x : Lower α) => ∀ b, Carrying w b x where
  pure a _ := .pure a
  chain hx hf b := .bind (hx b) fun a b₁ hrun => hf a ⟨b, b₁, hrun⟩ b₁
  giveUp b := .of_beside (direct_keeps.giveUp b) invariant_adding.giveUp agreeing_beside.giveUp
  abort reason b := by rintro - o b' ⟨⟩
  recover h b := .recover (h b)
  report hd b := .of_beside (direct_keeps.report hd b) (invariant_adding.report hd)
    (agreeing_beside.report hd)
  reporting table scope type ht b := .of_beside (direct_keeps.reporting table scope ht b)
    (invariant_adding.reporting table scope ht) (agreeing_beside.reporting table scope ht)
  engine hb b := .of_beside (direct_keeps.engine hb b) (invariant_adding.engine hb)
    (agreeing_beside.engine hb)
  look _ hf b := hf b b
  newRegister type span _ := .newRegister type span
  push hdest _ := .push hdest
  spill source type span b := .allocate rfl (.register type span) fun hne =>
    .bind (.push hne) fun _ _ _ => .pure _
  unifyAt cx expected found span hspan b := .of_beside
    (direct_keeps.unifyAt cx expected found hspan b)
    (invariant_adding.unifyAt cx expected found hspan)
    (agreeing_beside.unifyAt cx expected found hspan)
  spoil slot b := .of_beside (direct_keeps.spoil slot b) (invariant_adding.spoil slot)
    (agreeing_beside.spoil slot)

namespace Carrying

theorem attempt {step : Lower Unit} (h : Carrying w b step) : Carrying w b (attempt step) :=
  .bind h.recover fun _ _ _ => .pure ()

theorem settling (h : Carrying w b (value dest)) : Carrying w b (settling cx dest value) := by
  refine .bind h.recover fun done b₁ _ => ?_
  cases done with
  | true => exact .pure ()
  | false => exact direct_carrying.unsettle dest b₁

end Carrying

/-! ## Control flow -/

section Branches

variable {test : Access} {thenValue elseValue : Access → Lower Unit}

theorem moved_later (b : Body) (locals : List Local) {g : Graph} (hg : b.draft.graph.Appends g) :
    b.Later (.withGraph { b with locals := locals } g) :=
  ⟨prefix_rfl, .refl _, ⟨⟨prefix_rfl, rfl, prefix_rfl⟩, hg⟩, id⟩

theorem makeWhen_carrying {thenSpan : Location} (hvalue : Orderly value)
    (hdest : dest ≠ .register w.register)
    (hbranch : b.draft.graph.Open → register b.nextRegister ≠ .register w.register →
      Carrying w ((b.taken test).withTemp thenSpan) (value (.register b.nextRegister))) :
    Carrying w b (makeWhen cx test thenSpan value dest span) := by
  refine .of_carries (makeWhen_keeps_all hvalue).widens
    (invariant_adding.makeWhen cx test trivial hvalue.adding dest trivial) fun hs a b' hrun hlater => ?_
  obtain ⟨b₁, hrun1, hstays, hunit⟩ := makeWhen_branch hs.wired.opened hvalue hrun
  have hlast := direct_carrying.moveUnit hdest trivial _ (hs.spreads hstays.when.spreads) _ b' hunit
  have hlater1 : b₁.Later w.horizon :=
    (moved_later b₁ _ (.jump _ _ _)).trans (hlast.later.trans hlater)
  have hsees := (hs.branch test).spreads (Stays.withTemp (D := fun _ => True) thenSpan).spreads
  have hfirst := (hbranch hs.wired.opened hs.fresh).settling.attempt hsees _ b₁ hrun1
  -- the branch starts with the paths to the test, and ends at the point where the others join
  have halike : w.Carries b ((b.taken test).withTemp thenSpan) :=
    .of_alike rfl (.of_leads rfl fun _ => Graph.leads_branch hs.wired.opened hs.wired.linked test)
  exact ((Watch.Carries.refl b).merge (halike.trans (hfirst.carries rfl hlater1))
    (hs.wired.joins_when hstays) (join_joined hstays.locals)).trans (hlast.carries rfl hlater)

theorem makeIfElse_carrying (hthen : Orderly thenValue) (helse : Orderly elseValue)
    (hfirst : b.draft.graph.Open → Carrying w (b.taken test) (thenValue dest))
    (hsecond : ∀ b₁, b.draft.graph.Open →
      (attempt (settling cx dest thenValue)).run (b.taken test) = .ok (some (), b₁) →
        Carrying w (b.otherwise b₁) (elseValue dest)) :
    Carrying w b (makeIfElse cx test thenValue elseValue dest) := by
  refine .of_carries (makeIfElse_keeps_all hthen helse).widens
    (invariant_adding.makeIfElse cx test hthen.adding helse.adding dest) fun hs a b' hrun hlater => ?_
  obtain ⟨b₁, b2, hrun1, hrun2, hstays1, hstays2, rfl⟩ :=
    makeIfElse_branches hs.wired.opened hthen helse hrun
  have ho := hs.wired.opened
  have hone := (hfirst ho).settling.attempt (hs.branch test) _ b₁ hrun1
  have hrestored := hs.goElse hstays1
  have htwo := (hsecond b₁ ho hrun1).settling.attempt hrestored.1 _ b2 hrun2
  have hjoin := (Graph.Appends.add b2.draft.graph).trans (.goTo _ b₁.draft.graph.current)
  have hlater2 : b2.Later w.horizon :=
    (moved_later b2 _ ((hjoin.trans (.jump _ _ _)).trans (.jump _ _ _))).trans hlater
  have hlater1 : b₁.Later w.horizon :=
    (moved_later b₁ _ (.goTo _ _)).trans (htwo.later.trans hlater2)
  have hbranch : w.Carries b (b.taken test) :=
    .of_alike rfl (hs.wired.alike_branch test)
  have hfixed : b2.locals.map Local.fixed = b₁.locals.map Local.fixed :=
    hstays2.locals.trans (update_fixed _ _ _)
  exact (hbranch.trans (hone.carries rfl hlater1)).merge
    (hrestored.2.trans (htwo.carries rfl hlater2)) (hs.wired.joins_ifElse hstays1 hstays2)
    (join_joined hfixed)

theorem leave_carrying : Carrying w b (leave cx dest) := by
  refine .of_carries leave_keeps.widens (invariant_adding.leave cx dest) fun hs a b' hrun _ => ?_
  refine .of_dead (leave_dead hs.wired hrun) fun l hl => ?_
  rw [leave_run hs.wired.opened] at hrun
  rw [locals_eq_of_bare (diverge_beside hrun), left, getElem?_map] at hl
  obtain ⟨_, -, rfl⟩ := Option.map_eq_some_iff.1 hl
  rfl

end Branches

/-! ## Assignments -/

section Places

variable {p : Place}

theorem lowerPlace_whole {e : Expr} {purpose : Purpose}
    (hrun : (lowerPlace cx e purpose).run b = .ok (some (some p), b')) : p.Whole b' := by
  cases e with
  | name path span =>
    obtain ⟨rfl, x, index, l, hfind, haccess, hindex⟩ := namedPlace_ok hrun
    exact .inl ⟨index, l, hindex, (findLocal_some hfind).1, haccess⟩
  | field base field span =>
    obtain ⟨record, b₁, -, hrun⟩ := bind_ok hrun
    obtain ⟨q, b2, hfield, hrun⟩ := bind_ok hrun
    cases hrun
    obtain ⟨index, haccess, hnone⟩ := fieldPlace_ok hfield
    refine .inr ⟨hnone, fun r => ?_⟩
    rw [haccess]
    cases record.access <;> simp [Access.field, Access.register]
  | deref operand span =>
    obtain ⟨pointer, b₁, -, hrun⟩ := bind_ok hrun
    obtain ⟨q, b2, htarget, hrun⟩ := bind_ok hrun
    cases hrun
    obtain ⟨r, haccess, hnone, -⟩ := targetPlace_ok htarget
    refine .inr ⟨hnone, fun r => ?_⟩
    rw [haccess]
    simp [register]
  | _ => cases hrun

theorem assignedPlace_ok {place : Option Place}
    (hrun : (assignedPlace place span).run b = .ok (some p, b')) : place = some p ∧ b' = b := by
  cases place with
  | none =>
    rw [assignedPlace, fail_run] at hrun
    cases hrun
  | some q =>
    rw [assignedPlace] at hrun
    dsimp only at hrun
    split at hrun
    · rw [run_bind_none (fail_run _ _ _)] at hrun
      cases hrun
    · split at hrun
      · obtain ⟨_, b₁, -, hrun⟩ := bind_ok hrun
        rw [run_bind_none (fail_run _ _ _)] at hrun
        cases hrun
      · cases hrun
        exact ⟨rfl, rfl⟩

theorem lowerTarget_whole {target : Expr}
    (hrun : (lowerTarget cx target).run b = .ok (some p, b')) : p.Whole b' := by
  obtain ⟨place, b₁, hplace, hassigned⟩ := bind_ok hrun
  obtain ⟨rfl, rfl⟩ := assignedPlace_ok hassigned
  exact lowerPlace_whole hplace

end Places

/-- A value is lowered into the register of the local. -/
theorem markAssigned_carrying (hvalue : Orderly value)
    (hdelivers : Delivers w.register b (value (.register w.register)))
    (hblame : ∀ b', (settling cx (.register w.register) value).run b = .ok (some (), b') →
      b'.Dead → b'.Later w.horizon → w.excused) :
    Carrying w b (settling cx (.register w.register) value >>= fun _ => markAssigned w.index) := by
  refine .of_carries
    (Keeps.bind (hvalue.keeps _ _).settling fun _ b₁ _ => markAssigned_keeps _).widens
    (invariant_adding.bind (invariant_adding.settling _ hvalue.adding) fun _ =>
      structured_adding.markAssigned _) fun hs a b' hrun hlater => ?_
  obtain ⟨_, b₁, hrun1, hmark⟩ := bind_ok hrun
  have hlater1 := (structured_adding.markAssigned w.index b₁ _ b' hmark).trans hlater
  have halways := hdelivers.settling hs.wired _ b₁ hrun1 (hlater1.whole w.whole)
  cases hmark
  refine .of_always halways (fun hd => hblame b₁ hrun1 hd hlater1) fun l hl => ?_
  rw [getElem?_modify_eq] at hl
  obtain ⟨_, -, rfl⟩ := Option.map_eq_some_iff.1 hl
  rfl

theorem markAssigned_other {index : Nat} (hne : index ≠ w.index) :
    Carrying w b (markAssigned index) := by
  refine .of_carries (markAssigned_keeps index).widens (structured_adding.markAssigned index) ?_
  rintro - a b' ⟨⟩ -
  refine .of_alike ?_ (.of_leads rfl fun _ => .rfl)
  simp [hne]

/-! ## Blocks -/

theorem inBlock_carrying {step : Lower Unit} (hwidens : Widens (fun _ => True) b (inBlock step))
    (hadding : Adding step) (hstep : Carrying w b step) : Carrying w b (inBlock step) := by
  refine .of_carries hwidens (structured_adding.inBlock hadding) fun hs a b' hrun hlater => ?_
  obtain ⟨_, b₁, hrun1, hrun2⟩ := bind_ok (show (step >>= fun _ => _).run b = _ from hrun)
  cases hrun2
  have h1 := hstep hs _ b₁ hrun1
  have hlater1 : b₁.Later w.horizon := ⟨hlater.report, hlater.engine, hlater.draft, hlater.gaveUp⟩
  refine (h1.carries rfl hlater1).trans (.of_alike ?_ (.of_leads rfl fun _ => .rfl))
  obtain ⟨l, hl, -⟩ := hs.listed
  exact getElem?_take_of_lt (List.getElem?_eq_some_iff.1 hl).1

theorem declareRegister_carrying : Carrying w b (declareRegister cx name type) :=
  direct_carrying.bind (direct_carrying.letType trivial fun _ _ => Node.within_true _)
    (fun _ => direct_carrying.newRegister _ _) b

/-- The register of a new local is not that of the local. -/
theorem declareRegister_ne {b₁ : Body} (hs : w.Sees b)
    (hrun : (declareRegister cx name type).run b = .ok (some r, b₁)) :
    register r ≠ .register w.register :=
  ((inRange_register hs.inRange).ne_register
    ((declareRegister_keeps (D := fun _ => True) hs.wired.opened hrun).2 r rfl)).symm

theorem introduce_later (hrun : (introduce name r mutable state).run b = .ok (o, b')) :
    b.Later b' := by
  cases hrun
  exact ⟨prefix_rfl, .refl _, ⟨⟨prefix_rfl, rfl, prefix_append _ _⟩, .refl _⟩, id⟩

theorem introduce_carries (hs : w.Sees b)
    (hrun : (introduce name r mutable state).run b = .ok (o, b')) : w.Carries b b' := by
  cases hrun
  obtain ⟨l, hl, -⟩ := hs.listed
  exact .of_alike (getElem?_append_left (List.getElem?_eq_some_iff.1 hl).1)
    (.of_leads rfl fun _ => .rfl)

theorem makeLet_ok {a : Unit}
    (hrun : (makeLet cx name mutable type (some value)).run b = .ok (some a, b')) :
    ∃ r b₁ b2, (declareRegister cx name type).run b = .ok (some r, b₁) ∧
      (settling cx (.register r) value).run b₁ = .ok (some (), b2) ∧
      (introduce name r mutable .assigned).run b2 = .ok (some (), b') := by
  rw [makeLet_some] at hrun
  obtain ⟨r, b₁, hregister, hrun⟩ := bind_ok hrun
  obtain ⟨done, b2, hrecover, hrun⟩ := bind_ok hrun
  obtain ⟨_, b3, hintroduce, hrun⟩ := bind_ok hrun
  rcases recover_eq_ok.1 hrecover with ⟨hvalue, ⟨⟩⟩ | ⟨_, -, ⟨⟩, -⟩
  · cases hrun
    exact ⟨r, b₁, b2, hregister, hvalue, hintroduce⟩
  · cases hrun

/-- A local comes into scope behind its initializer. -/
theorem makeLet_carrying {init : Option (Access → Lower Unit)}
    (hwidens : Widens (fun _ => True) b (makeLet cx name mutable type init))
    (hadding : Adding (makeLet cx name mutable type init))
    (hinit : ∀ value r b₁, init = some value →
      (declareRegister cx name type).run b = .ok (some r, b₁) →
      register r ≠ .register w.register → Carrying w b₁ (value (.register r))) :
    Carrying w b (makeLet cx name mutable type init) := by
  refine .of_carries hwidens hadding fun hs a b' hrun hlater => ?_
  cases init with
  | none =>
    rw [makeLet_none] at hrun
    obtain ⟨r, b₁, hregister, hrun⟩ := bind_ok hrun
    have h1 := declareRegister_carrying hs _ b₁ hregister
    have hlater1 := (introduce_later hrun).trans hlater
    exact (h1.carries rfl hlater1).trans (introduce_carries (hs.spreads h1.spreads) hrun)
  | some value =>
    obtain ⟨r, b₁, b2, hregister, hvalue, hintroduce⟩ := makeLet_ok hrun
    have h1 := declareRegister_carrying hs _ b₁ hregister
    have hs1 := hs.spreads h1.spreads
    have h2 := (hinit value r b₁ rfl hregister (declareRegister_ne hs hregister)).settling
      hs1 _ b2 hvalue
    have hlater2 := (introduce_later hintroduce).trans hlater
    exact ((h1.carries rfl (h2.later.trans hlater2)).trans (h2.carries rfl hlater2)).trans
      (introduce_carries (hs1.spreads h2.spreads) hintroduce)

end Lower

/-! ## Tasks -/

namespace Task

/-- The syntax that a task is about. -/
def nodes : Task → List Node
  | .expr e _ | .place e _ | .holder e => [.expr e]
  | .operands es => es.map .expr
  | .inits rest _ => rest.map .init
  | .stmt s _ => [.stmt s]
  | .stmts _ rest _ => rest.map .stmt
  | .consult _ _ _ _ => []

/-- The task is about syntax without loops. -/
def LoopFree (t : Task) : Prop :=
  ∀ n ∈ t.nodes, n.LoopFree

/-- The task gives the register a value; it has it in the second body. -/
inductive Assigns (cx : Context) (r : RegisterId) : Task → Body → Body → Prop
  | assign {target value span dest b p b₁ b'}
    (htarget : (lowerTarget cx target).run b = .ok (some p, b₁))
    (hvalue : (settling cx (.register r) (lowerExpr cx value)).run b₁ = .ok (some (), b'))
    (haccess : p.access = .register r) :
    Assigns cx r (.expr (.assign target value span) dest) b b'
  | init {name mutable type init span dest b b₁ b'}
    (hregister : (declareRegister cx name type).run b = .ok (some r, b₁))
    (hvalue : (settling cx (.register r) (lowerExpr cx init)).run b₁ = .ok (some (), b')) :
    Assigns cx r (.stmt (.binding name mutable type (some init) span) dest) b b'

/-- The local is followed through the task.  There is an excuse if the task comes to assign to it at
    a dead point, before the later body. -/
structure Watched (cx : Context) (w : Watch) (t : Task) (b : Body) : Prop where
  ready : t.Ready cx b
  free : t.LoopFree
  blame : ∀ {t' c c'}, Reaches cx t b t' c → t'.Assigns cx w.register c c' → c'.Dead →
    c'.Later w.horizon → w.excused

variable {cx : Context} {w : Watch} {t t' : Task} {b c : Body}

/-- What a task calls is about its own syntax or about parts of it. -/
theorem Calls.nodes (h : Calls cx t b t' c) :
    ∀ n ∈ t'.nodes, n ∈ t.nodes ∨ ∃ m ∈ t.nodes, n ∈ m.children := by
  intro n hn
  cases h <;> simp_all [Task.nodes, Node.children, Node.ofExpr, Node.ofStmt]

theorem Calls.loopFree (h : Calls cx t b t' c) (ht : t.LoopFree) : t'.LoopFree := by
  intro n hn
  rcases h.nodes n hn with hn | ⟨m, hm, hn⟩
  · exact ht n hn
  · exact (ht m hm).child hn

theorem Watched.call (h : Watched cx w t b) (hcall : Calls cx t b t' c) : Watched cx w t' c :=
  ⟨hcall.ready h.ready, hcall.loopFree h.free, fun hreach => h.blame (.there hcall hreach)⟩

end Task

/-! ## Expressions -/

namespace Lower

variable {w : Watch} {b : Body} {cx : Context} {dest : Access} {span : Location} {value : Expr}

/-- An assignment: to the local, to another local, or to a part of something. -/
theorem assign_carrying {target : Expr} (hdest : dest ≠ .register w.register)
    (hc : (Task.expr (.assign target value span) dest).Watched cx w b)
    (htarget : Carrying w b (lowerTarget cx target))
    (hvalue : ∀ p b₁, (lowerTarget cx target).run b = .ok (some p, b₁) →
      p.access ≠ .register w.register → Carrying w b₁ (lowerExpr cx value p.access)) :
    Carrying w b (lowerExpr cx (.assign target value span) dest) := by
  rw [lowerExpr_assign]
  refine .bind htarget fun p b₁ hrun => .seen fun hs => ?_
  obtain ⟨sh, hg, -⟩ := (lowerTarget_spec cx target hc.ready.1.intact).of_run hrun
  obtain ⟨l, hl, hregister⟩ := hs.listed
  obtain ⟨index, l', hindex, hl', haccess⟩ | ⟨hindex, haccess⟩ := lowerTarget_whole hrun
  · rw [hindex]
    by_cases hsame : index = w.index
    · subst hsame
      cases hl.symm.trans hl'
      have hwhole : p.access = .register w.register := by rw [haccess, hregister]
      have hfree : (Node.expr value).LoopFree :=
        (hc.free _ mem_cons_self).child (mem_cons_of_mem _ mem_cons_self)
      rw [hwhole, ← bind_assoc]
      refine .bind (markAssigned_carrying (lowerExpr_orderly cx value)
        (lowerExpr_delivers cx value hfree _ _) fun b' hrun' => ?_) fun _ b2 _ =>
          direct_carrying.moveUnit hdest trivial b2
      exact hc.blame .here (.assign hrun hrun' hwhole)
    · have hne : p.access ≠ .register w.register := by
        intro hwhole
        have hr : l'.register = l.register := by
          rw [hregister]
          simpa [haccess, register] using hwhole
        have hlt : index < (b₁.locals.map Local.register).length := by
          simpa using (List.getElem?_eq_some_iff.1 hl').1
        exact hsame ((getElem?_inj hlt hg.intact.distinct).1 (by simp [hl, hl', hr]))
      refine .bind (hvalue p b₁ hrun hne).settling fun _ b2 _ => ?_
      exact .bind (markAssigned_other hsame) fun _ b3 _ =>
        direct_carrying.moveUnit hdest trivial b3
  · rw [hindex]
    exact .bind (hvalue p b₁ hrun (haccess _)).settling fun _ b2 _ =>
      direct_carrying.moveUnit hdest trivial b2

/-- The value of a `return` goes to the result, or to a register of its own. -/
theorem return_carrying (hb : b.Intact cx)
    (hvalue : ∀ target b₁, (returnTarget cx value.span).run b = .ok (some target, b₁) →
      target ≠ .register w.register → Carrying w b₁ (lowerExpr cx value target)) :
    Carrying w b (lowerExpr cx (.ret (some value) span) dest) := by
  refine .seen fun hs => .bind (direct_carrying.returnTarget value.span b) fun target b₁ hrun =>
    .bind (.settling (hvalue target b₁ hrun ?_)) fun _ _ _ => leave_carrying
  obtain ⟨l, hl, hregister⟩ := hs.listed
  rw [returnTarget] at hrun
  split at hrun
  · cases hrun
    exact hs.fresh
  · cases hrun
    exact hregister ▸ hb.apart l (mem_of_getElem? hl)

/-- **What is known about a local stays exact** while something is lowered into other places. -/
theorem walk_carrying : Walk cx Eq (fun w a => a ≠ .register w.register)
    (fun w t b => t.Watched cx w b) (fun w b {_} s => Carrying w b s)
    fun w b {_} s => Carrying w b s where
  dest h := h ▸ id
  fits h := h ▸ id
  call h := h.call
  direct _ := direct_carrying
  bind := .bind
  recover := .recover
  allocate hrun hmakes hf := .allocate hrun hmakes (hf _ rfl)
  when hdest h := makeWhen_carrying (lowerExpr_orderly cx _) hdest fun ho => h ho _ rfl
  ifElse := makeIfElse_carrying (lowerExpr_orderly cx _) (lowerExpr_orderly cx _)
  loop _ hc := (Node.not_loopFree_loop (hc.free _ mem_cons_self)).elim
  assign := assign_carrying
  ret hc h := return_carrying hc.ready.1.intact fun target c hrun => h target c hrun _ rfl
  leave := leave_carrying
  block _ h := inBlock_carrying ((lowerExpr_orderly cx (.block _ _)).keeps _ _).widens
    (lowerStmts_adding _ _ _) h
  wide := id
  wideBind := .bind
  wideRecover := .recover
  binding init h := by
    refine makeLet_carrying (walk_keeps.binding init fun e _ r c _ D hle hr => ?_)
      (structured_adding.makeLet trivial _ (fun _ _ => Node.within_true _)
        fun value hvalue => ?_) fun value r c hvalue hrun => ?_
    · exact walk_keeps.lowerExpr e hr (Task.confined_true.mono hle)
    · obtain ⟨e, -, rfl⟩ := Option.map_eq_some_iff.1 hvalue
      exact lowerExpr_adding e
    · obtain ⟨e, he, rfl⟩ := Option.map_eq_some_iff.1 hvalue
      exact h e he r c hrun _ rfl
  use path := by
    rintro - o b' ⟨⟩
    exact ⟨⟨⟨prefix_rfl, .refl _, rfl⟩, .of_eq rfl, .skip, rfl, trivial⟩,
      ⟨prefix_rfl, .refl _, .refl _, id⟩,
      fun _ _ => .of_alike rfl (.of_leads rfl fun _ => .rfl)⟩

end Lower

end Semcheck
