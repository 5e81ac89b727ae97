/-
  Paths of a graph that is being built.

  `Graph.Leads g h`: a path from the entry of the graph leads to its current point, along the
  instructions `h`.  What is built at that point prolongs the paths as its shape says, and adds no
  others: `Graph.leads_build`.
-/
import Semcheck.Proofs.Ir.Flow

namespace Semcheck

namespace Graph

/-- A path from the entry leads to the start of segment `j`, along the instructions `h`. -/
inductive Enters (g : Graph) : Nat → History → Prop
  | entry : Enters g 0 []
  | jump {j : Nat} {h : History} {s : OpenSegment} {t : Terminator} {x : SegmentId} :
    Enters g j h → g.seg j = some s → s.terminator = some t → x ∈ t.successors →
    Enters g x.index (h ++ s.instructions)

/-- A path of `g'` leads to the current point of `g`, along the instructions `h`. -/
def Passes (g' g : Graph) (h : History) : Prop :=
  ∃ past s, g'.Enters g.current.index past ∧ g.seg g.current.index = some s ∧
    h = past ++ s.instructions

/-- A path from the entry leads to the current point, along the instructions `h`. -/
def Leads (g : Graph) (h : History) : Prop :=
  g.Passes g h

/-- The closed segments of the first graph are also those of the second. -/
def Closes (g g' : Graph) : Prop :=
  ∀ j s, g.seg j = some s → s.terminator.isSome = true → g'.seg j = some s

variable {g g1 g' : Graph} {h h' : History} {j : Nat}

theorem Closes.trans (h1 : g.Closes g1) (h2 : g1.Closes g') : g.Closes g' :=
  fun j s hs ht => h2 j s (h1 j s hs ht) ht

/-- What is open changes, and what is closed stays. -/
theorem Frame.closes (hf : Frame g g') (ho : g.Open) : g.Closes g' := by
  obtain ⟨cur, hcur, hopen⟩ := ho
  intro j s hs ht
  by_cases hj : j = g.current.index
  · subst hj
    rw [hcur] at hs
    cases hs
    rw [hopen] at ht
    cases ht
  · rw [hf.others j (seg_lt hs) hj, hs]

theorem Open.closes_close (ho : g.Open) (t : Terminator) : g.Closes (g.close t) := by
  obtain ⟨cur, hcur, hopen⟩ := ho
  intro j s hs ht
  by_cases hj : j = g.current.index
  · subst hj
    rw [hcur] at hs
    cases hs
    rw [hopen] at ht
    cases ht
  · rw [seg_close, if_neg hj, hs]

theorem closes_add (g : Graph) : g.Closes g.add := by
  intro j s hs _
  have := seg_lt hs
  rw [seg_add, if_neg (by omega), hs]

theorem Open.closes_branch (ho : g.Open) (test : Access) : g.Closes (g.branch test) :=
  ((closes_add g).trans (closes_add g.add)).trans (ho.add.add.closes_close _)

theorem Enters.closes (he : g.Enters j h) (hc : g.Closes g') : g'.Enters j h := by
  induction he with
  | entry => exact .entry
  | jump _ hs ht hx ih => exact .jump ih (hc _ _ hs (by simp [ht])) ht hx

/-! ## What is built is on the paths -/

theorem Passes.leave (hp : g'.Passes g h) {t : Terminator}
    (hseg : g1.seg g.current.index =
      (g.seg g.current.index).map fun s => { s with terminator := some t })
    (hc : g1.Closes g') {x : SegmentId} (hx : x ∈ t.successors) : g'.Enters x.index h := by
  obtain ⟨past, s, he, hs, rfl⟩ := hp
  rw [hs] at hseg
  have hleft := Enters.jump he (hc _ _ hseg rfl) rfl hx
  exact hleft

theorem Enters.passes (he : g'.Enters g.current.index h)
    (hs : g.seg g.current.index = some .empty) : g'.Passes g h :=
  ⟨h, .empty, he, hs, by simp [OpenSegment.empty]⟩

theorem Passes.branch (hp : g'.Passes g h) (ho : g.Open) {test : Access}
    (hc : (g.branch test).Closes g') : g'.Passes (g.branch test) h ∧ g'.Enters (g.size + 1) h := by
  have hlt := ho.lt
  have hseg := seg_branch g g.current.index test hlt
  rw [if_pos rfl] at hseg
  refine ⟨Enters.passes (hp.leave hseg hc (x := ⟨g.size⟩) (by simp [Terminator.successors])) ?_,
    hp.leave hseg hc (x := ⟨g.size + 1⟩) (by simp [Terminator.successors])⟩
  rw [current_branch, seg_branch g _ test hlt, if_neg (by simp; omega), if_pos (.inl rfl)]

end Graph

namespace Shape

open Semcheck.Graph

/-- What the shape adds goes on with every path. -/
def Prolongs (sh : Shape) : Prop :=
  ∀ {g g' : Graph} {h h' : History}, g.Open → (sh.build g).Closes g' → g'.Passes g h →
    sh.Ends h h' → g'.Passes (sh.build g) h'

theorem prolongs_emit (i : Instruction) : (emit i).Prolongs := by
  rintro g g' h h' ho hc ⟨past, s, he, hs, rfl⟩ rfl
  refine ⟨past, { s with instructions := s.instructions ++ [i] }, he, ?_, by simp⟩
  show (g.push i).seg g.current.index = _
  rw [seg_push, if_pos rfl, hs]
  rfl

theorem prolongs_seq {first second : Shape} (ih1 : first.Prolongs) (ih2 : second.Prolongs) :
    (seq first second).Prolongs := by
  rintro g g' h h' ho hc hp ⟨m, hm, hend⟩
  have ho1 := (first.frame ho).opened
  exact ih2 ho1 hc (ih1 ho (((second.frame ho1).closes ho1).trans hc) hp hm) hend

theorem prolongs_when {test : Access} {body : Shape} (ih : body.Prolongs) :
    (when test body).Prolongs := by
  intro g g' h h' ho hc hp hend
  have hlt := ho.lt
  have hf := body.frame (ho.branch test)
  have hcur := hf.current
  rw [size_branch, current_branch] at hcur
  simp only at hcur
  have hjoin : ((when test body).build g).seg (g.size + 1) = some .empty := by
    rw [build, seg_jump, if_neg (by omega), hf.others _ (by simp) (by simp),
      seg_branch g _ _ hlt, if_neg (by omega), if_pos (.inr rfl)]
  have hbody : (body.build (g.branch test)).Closes g' := (hf.opened.closes_close _).trans hc
  obtain ⟨hfirst, hsecond⟩ := hp.branch ho ((hf.closes (ho.branch test)).trans hbody)
  rcases hend with rfl | hend
  · exact hsecond.passes hjoin
  · have hleft := (ih (ho.branch test) hbody hfirst hend).leave (x := ⟨g.size + 1⟩)
      (seg_close _ _ _ ▸ if_pos rfl) hc (by simp [Terminator.successors])
    exact hleft.passes hjoin

section Branches

variable {g g' : Graph} {h : History} {test : Access} {onTrue onFalse : Shape}

theorem closes_ifElse (ho : g.Open) (hc : ((ifElse test onTrue onFalse).build g).Closes g') :
    (onTrue.build (g.branch test)).Closes g' ∧
      (onFalse.build ((onTrue.build (g.branch test)).goTo ⟨g.size + 1⟩)).Closes g' := by
  have hf1 := onTrue.frame (ho.branch test)
  have hf2 := onFalse.frame (ho.goElse hf1)
  obtain ⟨ho1, ho2⟩ := Open.branchEnds hf1 hf2 ⟨_⟩
  have helse := ((closes_add _).trans (ho1.closes_close _)).trans ((ho2.closes_close _).trans hc)
  exact ⟨(hf2.closes (ho.goElse hf1)).trans helse, helse⟩

/-- Both branches lead behind the conditional. -/
theorem enters_join (ho : g.Open) (hc : ((ifElse test onTrue onFalse).build g).Closes g')
    (hp : g'.Passes (onTrue.build (g.branch test)) h ∨
      g'.Passes (onFalse.build ((onTrue.build (g.branch test)).goTo ⟨g.size + 1⟩)) h) :
    g'.Enters (onFalse.build ((onTrue.build (g.branch test)).goTo ⟨g.size + 1⟩)).size h := by
  have hf1 := onTrue.frame (ho.branch test)
  have hf2 := onFalse.frame (ho.goElse hf1)
  have hlt1 := hf1.opened.lt
  have hlt2 := hf2.opened.lt
  have hcur1 := hf1.current
  have hcur2 := hf2.current
  have hsize2 := hf2.size
  rw [build] at hc
  generalize onTrue.build (g.branch test) = thenEnd at *
  generalize onFalse.build (thenEnd.goTo ⟨g.size + 1⟩) = elseEnd at *
  simp only [size_branch, current_branch] at hcur1
  simp only [size_goTo, current_goTo] at hcur2 hsize2
  rcases hp with hp | hp
  · refine hp.leave (x := ⟨elseEnd.size⟩) (t := .goto ⟨elseEnd.size⟩) ?_
      (((Open.branchEnds hf1 hf2 ⟨_⟩).2.closes_close _).trans hc) (by simp [Terminator.successors])
    rw [seg_jump, current_goTo, if_pos rfl, seg_goTo, seg_add, if_neg (by omega),
      hf2.others _ (by simpa) (by simp; omega), seg_goTo]
  · refine hp.leave (x := ⟨elseEnd.size⟩) (t := .goto ⟨elseEnd.size⟩) ?_ hc
      (by simp [Terminator.successors])
    rw [seg_jump, current_jump, if_pos rfl, seg_jump, current_goTo, if_neg (by omega), seg_goTo,
      seg_add, if_neg (by omega)]

theorem prolongs_ifElse (ih1 : onTrue.Prolongs) (ih2 : onFalse.Prolongs) :
    (ifElse test onTrue onFalse).Prolongs := by
  intro g g' h h' ho hc hp hend
  have hlt := ho.lt
  have hf1 := onTrue.frame (ho.branch test)
  have hf2 := onFalse.frame (ho.goElse hf1)
  have hlt1 := hf1.opened.lt
  have hlt2 := hf2.opened.lt
  have hsize2 := hf2.size
  obtain ⟨hthen, helse⟩ := closes_ifElse ho hc
  obtain ⟨hfirst, hsecond⟩ := hp.branch ho ((hf1.closes (ho.branch test)).trans hthen)
  refine Enters.passes (enters_join ho hc ?_) ?_
  · rcases hend with hend | hend
    · exact .inl (ih1 (ho.branch test) hthen hfirst hend)
    · refine .inr (ih2 (ho.goElse hf1) helse (hsecond.passes ?_) hend)
      rw [current_goTo, seg_goTo, hf1.others _ (by simp) (by simp), seg_branch g _ _ hlt,
        if_neg (by dsimp only; omega), if_pos (.inr rfl)]
  · simp only [size_goTo] at hsize2
    rw [build, current_jump]
    dsimp only
    rw [seg_jump, current_jump, if_neg (by omega), seg_jump, current_goTo, if_neg (by omega),
      seg_goTo, seg_add, if_pos rfl]

end Branches

section Loops

variable {g g' : Graph} {h : History} {test : Access} {condition body : Shape}

theorem closes_loop (ho : g.Open) (hc : ((loop condition test body).build g).Closes g') :
    (condition.build (g.add.jump ⟨g.size⟩ ⟨g.size⟩)).Closes g' ∧
      ((condition.build (g.add.jump ⟨g.size⟩ ⟨g.size⟩)).branch test).Closes g' ∧
        (body.build ((condition.build (g.add.jump ⟨g.size⟩ ⟨g.size⟩)).branch test)).Closes g' := by
  have ho1 := (condition.frame ho.loopHead).opened
  have hf2 := body.frame (ho1.branch test)
  have hbody := (hf2.opened.closes_close _).trans hc
  have htest := (hf2.closes (ho1.branch test)).trans hbody
  exact ⟨(ho1.closes_branch test).trans htest, htest, hbody⟩

/-- The paths to a loop enter its head. -/
theorem enters_head (ho : g.Open) (hc : ((loop condition test body).build g).Closes g')
    (hp : g'.Passes g h) : g'.Enters g.size h := by
  refine hp.leave (x := ⟨g.size⟩) (t := .goto ⟨g.size⟩) ?_
    (((condition.frame ho.loopHead).closes ho.loopHead).trans (closes_loop ho hc).1)
    (by simp [Terminator.successors])
  rw [seg_loopHead ho, if_pos rfl]

theorem prolongs_loop (ih1 : condition.Prolongs) (ih2 : body.Prolongs) :
    (loop condition test body).Prolongs := by
  rintro g g' h h' ho hc hp ⟨m, hrounds, hlast⟩
  have hlt := ho.lt
  have hf1 := condition.frame ho.loopHead
  have ho2 := hf1.opened.branch test
  have hf2 := body.frame ho2
  obtain ⟨hcondition, htest, hbody⟩ := closes_loop ho hc
  have hhead : (g.add.jump ⟨g.size⟩ ⟨g.size⟩).seg g.size = some .empty := by
    rw [seg_loopHead ho, if_neg (by omega), if_pos rfl]
  -- every round starts at the head
  have hround : g'.Enters g.size m := by
    clear hlast
    induction hrounds with
    | refl => exact enters_head ho hc hp
    | tail _ hstep ih =>
      obtain ⟨z, htested, hdone⟩ := hstep
      have hpass := ih1 ho.loopHead hcondition (ih.passes hhead) htested
      exact (ih2 ho2 hbody (hpass.branch hf1.opened htest).1 hdone).leave (x := ⟨g.size⟩)
        (seg_close _ _ _ ▸ if_pos rfl) hc (by simp [Terminator.successors])
  have hpass := ih1 ho.loopHead hcondition (hround.passes hhead) hlast
  refine (hpass.branch hf1.opened htest).2.passes ?_
  have hlt1 := hf1.opened.lt
  have hcur2 := hf2.current
  have hsize1 := hf1.size
  simp only [size_branch, current_branch, size_jump, size_add] at hcur2 hsize1
  rw [build, current_jump]
  dsimp only
  rw [seg_jump, if_neg (by omega), hf2.others _ (by simp) (by simp), seg_branch _ _ _ hlt1,
    if_neg (by omega), if_pos (.inr rfl)]

end Loops

theorem prolongs (sh : Shape) : sh.Prolongs := by
  induction sh with
  | skip =>
    rintro g g' h h' - - hp rfl
    exact hp
  | emit i => exact prolongs_emit i
  | seq first second ih1 ih2 => exact prolongs_seq ih1 ih2
  | when test body ih => exact prolongs_when ih
  | ifElse test onTrue onFalse ih1 ih2 => exact prolongs_ifElse ih1 ih2
  | loop condition test body ih1 ih2 => exact prolongs_loop ih1 ih2
  | exit result =>
    rintro g g' h h' - - - ⟨⟩

end Shape

/-! ## Nothing else is -/

namespace Graph

variable {Ok : History → Event → Prop} {A : Nat → History → Prop} {H : History → Prop}
  {g : Graph} {h : History} {j : Nat}

theorem Enters.certified (he : g.Enters j h) (hc : g.Certified Ok A) (hentry : A 0 []) : A j h := by
  induction he with
  | entry => exact hentry
  | jump _ hs ht hx ih => exact (hc _ _ _ hs ih).next _ ht _ hx

theorem Leads.annotated (hl : g.Leads h) (hg : g.Annotated Ok A H) (hentry : A 0 []) : H h := by
  obtain ⟨past, s, he, hs, rfl⟩ := hl
  exact hg.arrives s past hs (he.certified hg.certified hentry)

/-- A graph is annotated by its own paths. -/
theorem annotated_enters (ho : g.Open) (hl : g.All fun _ => True) :
    g.Annotated (fun _ _ => True) g.Enters g.Leads where
  opened := ho
  linked := hl
  certified _ _ _ hs he := ⟨fun _ _ _ => trivial, fun _ _ _ _ => trivial,
    fun _ ht _ hx => .jump he hs ht hx⟩
  arrives s past hs he := ⟨past, s, he, hs, rfl⟩

/-- **The paths of what is built** are those from before, prolonged by the shape. -/
theorem leads_build (ho : g.Open) (hl : g.All fun _ => True) (sh : Shape) :
    (sh.build g).Leads h ↔ ∃ past, g.Leads past ∧ sh.Ends past h := by
  constructor
  · intro hleads
    obtain ⟨A, hA, hg⟩ := sh.annotates (annotated_enters ho hl) fun _ _ _ _ _ => trivial
    exact hleads.annotated hg (by rw [hA 0 (Nat.lt_of_le_of_lt (Nat.zero_le _) ho.lt)]; exact .entry)
  · rintro ⟨past, hleads, hend⟩
    obtain ⟨_, s, he, hs, rfl⟩ := hleads
    exact sh.prolongs ho (fun _ _ hs _ => hs)
      ⟨_, s, he.closes ((sh.frame ho).closes ho), hs, rfl⟩ hend

/-- What is built enters no segment from before. -/
theorem enters_build (ho : g.Open) (hl : g.All fun _ => True) (sh : Shape) (hj : j < g.size) :
    (sh.build g).Enters j h ↔ g.Enters j h := by
  constructor
  · intro he
    obtain ⟨A, hA, hg⟩ := sh.annotates (annotated_enters ho hl) fun _ _ _ _ _ => trivial
    have hentry : A 0 [] := by
      rw [hA 0 (Nat.lt_of_le_of_lt (Nat.zero_le _) ho.lt)]
      exact .entry
    exact hA j hj ▸ he.certified hg.certified hentry
  · exact fun he => he.closes ((sh.frame ho).closes ho)

theorem Enters.all {P : Event → Prop} (he : g.Enters j h) (hp : g.All P) : ∀ i ∈ h, P (.run i) := by
  induction he with
  | entry => simp
  | jump _ hs _ _ ih => exact List.forall_mem_append.2 ⟨ih, (hp _ _ hs).1⟩

theorem Leads.all {P : Event → Prop} (hl : g.Leads h) (hp : g.All P) : ∀ i ∈ h, P (.run i) := by
  obtain ⟨past, s, he, hs, rfl⟩ := hl
  exact List.forall_mem_append.2 ⟨he.all hp, (hp _ _ hs).1⟩

/-! ## Paths, step by step -/

theorem leads_start : start.Leads h ↔ h = [] := by
  have henters : ∀ {j h}, start.Enters j h → h = [] := by
    intro j h he
    cases he with
    | entry => rfl
    | jump _ hs ht _ =>
      obtain ⟨-, rfl⟩ := seg_start hs
      cases ht
  constructor
  · rintro ⟨past, s, he, hs, rfl⟩
    obtain ⟨-, rfl⟩ := seg_start hs
    rw [henters he]
    rfl
  · rintro rfl
    exact ⟨[], .empty, .entry, rfl, rfl⟩

variable (ho : g.Open) (hl : g.All fun _ => True)
include ho hl

theorem leads_push (i : Instruction) :
    (g.push i).Leads h ↔ ∃ past, g.Leads past ∧ h = past ++ [i] :=
  leads_build ho hl (.emit i)

theorem not_leads_exit (result : Access) : ¬ ((Shape.exit result).build g).Leads h := by
  rw [leads_build ho hl]
  rintro ⟨_, -, ⟨⟩⟩

/-- Both outcomes of a test are entered by the paths to the test. -/
theorem enters_branch (test : Access) :
    ((g.branch test).Leads h ↔ g.Leads h) ∧ ((g.branch test).Enters (g.size + 1) h ↔ g.Leads h) := by
  have hlt := ho.lt
  have hb : (g.branch test).Annotated _ _ g.Leads :=
    (annotated_enters ho hl).branch g.Leads (fun _ _ => trivial) fun _ hh => hh
  have hentry : annotate (annotate g.Enters g.size g.Leads) (g.size + 1) g.Leads 0 [] := by
    rw [annotate_ne (by omega), annotate_ne (by omega)]
    exact .entry
  have hboth : g.Leads h → (g.branch test).Passes (g.branch test) h ∧
      (g.branch test).Enters (g.size + 1) h := by
    rintro ⟨past, s, he, hs, rfl⟩
    exact Passes.branch ⟨past, s, he.closes (ho.closes_branch test), hs, rfl⟩ ho fun _ _ hs _ => hs
  refine ⟨⟨fun hleads => hleads.annotated hb hentry, fun hleads => (hboth hleads).1⟩,
    fun he => ?_, fun hleads => (hboth hleads).2⟩
  have h' := he.certified hb.certified hentry
  rwa [annotate_self] at h'

theorem leads_branch (test : Access) : (g.branch test).Leads h ↔ g.Leads h :=
  (enters_branch ho hl test).1

/-- Behind the first branch, the second starts where the first did. -/
theorem leads_else (test : Access) (sh : Shape) :
    ((sh.build (g.branch test)).goTo ⟨g.size + 1⟩).Leads h ↔ g.Leads h := by
  have hlt := ho.lt
  have hlt' : g.size + 1 < (g.branch test).size := by simp
  have hf := sh.frame (ho.branch test)
  have hempty : (sh.build (g.branch test)).seg (g.size + 1) = some .empty := by
    rw [hf.others _ hlt' (by simp), seg_branch g _ _ hlt, if_neg (by omega), if_pos (.inr rfl)]
  rw [← (enters_branch ho hl test).2, ← enters_build (ho.branch test) (hl.branch trivial) sh hlt']
  constructor
  · rintro ⟨past, s, he, hs, rfl⟩
    cases hempty.symm.trans hs
    have he' : (sh.build (g.branch test)).Enters (g.size + 1) past := he.closes fun _ _ hs _ => hs
    simpa [OpenSegment.empty] using he'
  · intro he
    exact Enters.passes (he.closes fun _ _ hs _ => hs) hempty

theorem leads_when (test : Access) (body : Shape) :
    ((body.build (g.branch test)).jump ⟨g.size + 1⟩ ⟨g.size + 1⟩).Leads h ↔
      g.Leads h ∨ (body.build (g.branch test)).Leads h := by
  rw [leads_build (ho.branch test) (hl.branch trivial)]
  simp only [leads_branch ho hl]
  refine (leads_build ho hl (.when test body)).trans ⟨?_, ?_⟩
  · rintro ⟨past, hleads, rfl | hend⟩
    · exact .inl hleads
    · exact .inr ⟨past, hleads, hend⟩
  · rintro (hleads | ⟨past, hleads, hend⟩)
    · exact ⟨h, hleads, .inl rfl⟩
    · exact ⟨past, hleads, .inr hend⟩

theorem leads_ifElse (test : Access) (onTrue onFalse : Shape) :
    ((Shape.ifElse test onTrue onFalse).build g).Leads h ↔
      (onTrue.build (g.branch test)).Leads h ∨
        (onFalse.build ((onTrue.build (g.branch test)).goTo ⟨g.size + 1⟩)).Leads h := by
  have hf := onTrue.frame (ho.branch test)
  have hl1 : (onTrue.build (g.branch test)).All fun _ => True :=
    Shape.build_all (ho.branch test) (hl.branch trivial) onTrue.all_true
  rw [leads_build (ho.branch test) (hl.branch trivial),
    leads_build (ho.goElse hf) hl1, leads_build ho hl]
  simp only [leads_branch ho hl, leads_else ho hl, Shape.Ends]
  constructor
  · rintro ⟨past, hleads, hend | hend⟩
    · exact .inl ⟨past, hleads, hend⟩
    · exact .inr ⟨past, hleads, hend⟩
  · rintro (⟨past, hleads, hend⟩ | ⟨past, hleads, hend⟩)
    · exact ⟨past, hleads, .inl hend⟩
    · exact ⟨past, hleads, .inr hend⟩

end Graph

end Semcheck
