/-
  Control-flow paths of structured code.

  * `Function.Runs f past s i`: a path from the entry of `f` arrives at
    position `i` of segment `s`, and `past` lists the instructions on it;
  * `Shape.Ends`, `Shape.Visits`: the same for a shape, by recursion on the
    shape: what is on a path through it, and what is met on the way.

  `Shape.visits_of_meets`: what is met on a path of the function is met on a
  path of the shape from which the function was built.  The proof annotates
  every segment with the histories that lead to it (`Graph.Certified`).
-/
import Mathlib.Logic.Relation
import Semcheck.Proofs.Ir.Shape

namespace Semcheck

open Terminator List Option Semcheck.Graph

/-- The instructions on a path, the oldest first. -/
abbrev History := List Instruction

/-- A path from the entry leads to position `i` of segment `s`, along the
    instructions `past`. -/
inductive Function.Runs (f : Function) : History → SegmentId → Nat → Prop
  | entry : Runs f [] .entry 0
  | step {past : History} {s : SegmentId} {i : Nat} {segment : Segment} {ins : Instruction} :
    Runs f past s i → f.segment? s = some segment → segment.instructions[i]? = some ins →
    Runs f (past ++ [ins]) s (i + 1)
  | jump {past : History} {s t : SegmentId} {segment : Segment} :
    Runs f past s segment.instructions.length → f.segment? s = some segment →
    t ∈ segment.terminator.successors → Runs f past t 0

namespace Shape

/-- A path through the shape turns the first history into the second. -/
def Ends : Shape → History → History → Prop
  | .skip, h, h' => h' = h
  | .emit i, h, h' => h' = h ++ [i]
  | .seq first second, h, h' => ∃ m, first.Ends h m ∧ second.Ends m h'
  | .when _ body, h, h' => h' = h ∨ body.Ends h h'
  | .ifElse _ onTrue onFalse, h, h' => onTrue.Ends h h' ∨ onFalse.Ends h h'
  | .loop condition _ body, h, h' => ∃ m,
    Relation.ReflTransGen (fun x y => ∃ z, condition.Ends x z ∧ body.Ends z y) h m ∧
      condition.Ends m h'
  | .exit _, _, _ => False

/-- One round of a loop: the condition and the body. -/
def Round (condition body : Shape) (h h' : History) : Prop :=
  ∃ m, condition.Ends h m ∧ body.Ends m h'

/-- A path into the shape that starts with the history `h` meets the step `ev`
    with the history `h'`. -/
def Visits : Shape → History → History → Event → Prop
  | .skip, _, _, _ => False
  | .emit i, h, h', ev => h' = h ∧ ev = .run i
  | .seq first second, h, h', ev =>
    first.Visits h h' ev ∨ ∃ m, first.Ends h m ∧ second.Visits m h' ev
  | .when test body, h, h', ev => (h' = h ∧ ev = .test test) ∨ body.Visits h h' ev
  | .ifElse test onTrue onFalse, h, h', ev =>
    (h' = h ∧ ev = .test test) ∨ onTrue.Visits h h' ev ∨ onFalse.Visits h h' ev
  | .loop condition test body, h, h', ev => ∃ m,
    Relation.ReflTransGen (Round condition body) h m ∧
      (condition.Visits m h' ev ∨ ∃ z, condition.Ends m z ∧
        ((h' = z ∧ ev = .test test) ∨ body.Visits z h' ev))
  | .exit result, h, h', ev => h' = h ∧ ev = .exit result

end Shape

/-! ## Annotations -/

variable {Ok : History → Event → Prop} {A A' : Nat → History → Prop} {H : History → Prop}
  {f : Function}

/-- A segment that is entered with the history `h`: its steps are met as `Ok`
    allows, and it is left for segments that `A` says are entered so. -/
structure OpenSegment.Sound (Ok : History → Event → Prop) (A : Nat → History → Prop)
    (s : OpenSegment) (h : History) : Prop where
  run : ∀ i ins, s.instructions[i]? = some ins → Ok (h ++ s.instructions.take i) (.run ins)
  event : ∀ t ev, s.terminator = some t → t.event? = some ev → Ok (h ++ s.instructions) ev
  next : ∀ t, s.terminator = some t → ∀ x ∈ t.successors, A x.index (h ++ s.instructions)

namespace OpenSegment.Sound

theorem empty (h : History) : OpenSegment.empty.Sound Ok A h :=
  ⟨by simp [OpenSegment.empty], by simp [OpenSegment.empty], by simp [OpenSegment.empty]⟩

theorem push {s : OpenSegment} {h : History} {i : Instruction} (hs : s.Sound Ok A h)
    (ho : s.terminator = none) (hi : Ok (h ++ s.instructions) (.run i)) :
    ({ s with instructions := s.instructions ++ [i] } : OpenSegment).Sound Ok A h := by
  refine ⟨fun n ins hn => ?_, by simp [ho], by simp [ho]⟩
  simp only [getElem?_append, getElem?_singleton] at hn
  split at hn
  · rename_i hlt
    simpa [take_append_of_le_length (Nat.le_of_lt hlt)] using hs.run n ins hn
  · split at hn
    · have hlen : n = s.instructions.length := by omega
      cases hn
      simpa [hlen] using hi
    · cases hn

theorem close {s : OpenSegment} {h : History} {t : Terminator} (hs : s.Sound Ok A h)
    (hev : ∀ ev, t.event? = some ev → Ok (h ++ s.instructions) ev)
    (hnext : ∀ x ∈ t.successors, A x.index (h ++ s.instructions)) :
    ({ s with terminator := some t } : OpenSegment).Sound Ok A h :=
  ⟨hs.run, fun t' ev ht => by cases ht; exact hev ev, fun t' ht => by cases ht; exact hnext⟩

end OpenSegment.Sound

/-- The annotation with another one for segment `j`. -/
def annotate (A : Nat → History → Prop) (j : Nat) (H : History → Prop) : Nat → History → Prop :=
  fun j' => if j' = j then H else A j'

theorem annotate_self {j : Nat} : annotate A j H j = H := if_pos rfl

theorem annotate_ne {j j' : Nat} (h : j' ≠ j) : annotate A j H j' = A j' := if_neg h

namespace Graph

variable {g : Graph}

/-- `A` lists for every segment the histories with which it is entered. -/
def Certified (Ok : History → Event → Prop) (A : Nat → History → Prop) (g : Graph) : Prop :=
  ∀ j s h, g.seg j = some s → A j h → s.Sound Ok A h

/-- The histories at the end of segment `j` are among `H`. -/
def Arrives (A : Nat → History → Prop) (g : Graph) (j : Nat) (H : History → Prop) : Prop :=
  ∀ s h, g.seg j = some s → A j h → H (h ++ s.instructions)

theorem Arrives.empty {j : Nat} (h : g.seg j = some .empty) : g.Arrives A j (A j) := by
  intro s h' hs hA
  rw [h] at hs
  cases hs
  simpa [OpenSegment.empty] using hA

theorem Certified.push (hc : g.Certified Ok A) (ho : g.Open)
    (ha : g.Arrives A g.current.index H) {i : Instruction} (hi : ∀ h, H h → Ok h (.run i)) :
    (g.push i).Certified Ok A := by
  intro j s h hs hA
  rw [seg_push] at hs
  split at hs
  · rename_i hj
    subst hj
    obtain ⟨cur, hcur, hopen⟩ := ho
    rw [hcur] at hs
    cases hs
    exact (hc _ cur h hcur hA).push hopen (hi _ (ha cur h hcur hA))
  · exact hc j s h hs hA

theorem Arrives.push (ha : g.Arrives A g.current.index H) (i : Instruction) :
    (g.push i).Arrives A g.current.index fun h' => ∃ h, H h ∧ h' = h ++ [i] := by
  intro s h hs hA
  rw [seg_push, if_pos rfl] at hs
  obtain ⟨s', hs', rfl⟩ := map_eq_some_iff.1 hs
  exact ⟨h ++ s'.instructions, ha s' h hs' hA, by simp⟩

theorem Certified.close (hc : g.Certified Ok A) (ha : g.Arrives A g.current.index H)
    {t : Terminator} (hev : ∀ h ev, H h → t.event? = some ev → Ok h ev)
    (hnext : ∀ h, H h → ∀ x ∈ t.successors, A x.index h) : (g.close t).Certified Ok A := by
  intro j s h hs hA
  rw [seg_close] at hs
  split at hs
  · rename_i hj
    subst hj
    obtain ⟨s', hs', rfl⟩ := map_eq_some_iff.1 hs
    have hH := ha s' h hs' hA
    exact (hc _ s' h hs' hA).close (fun ev => hev _ ev hH) (hnext _ hH)
  · exact hc j s h hs hA

/-- A new segment may be annotated in any way. -/
theorem Certified.add {P : Event → Prop} (hc : g.Certified Ok A) (hl : g.All P)
    (H : History → Prop) : g.add.Certified Ok (annotate A g.size H) := by
  intro j s h hs hA
  rw [seg_add] at hs
  split at hs
  · cases hs
    exact .empty h
  · rename_i hj
    rw [annotate_ne hj] at hA
    have hsound := hc j s h hs hA
    refine ⟨hsound.run, hsound.event, fun t ht x hx => ?_⟩
    have := ((hl j s hs).2 t ht).target x hx
    rw [annotate_ne (by omega)]
    exact hsound.next t ht x hx

theorem Arrives.congr {g' : Graph} {j : Nat} (h : g.Arrives A j H) (hs : g'.seg j = g.seg j)
    (hA : A' j = A j) : g'.Arrives A' j H := by
  intro s h' hs' hA'
  exact h s h' (hs ▸ hs') (hA ▸ hA')

theorem Arrives.mono {j : Nat} {H' : History → Prop} (h : g.Arrives A j H)
    (hH : ∀ h, H h → H' h) : g.Arrives A j H' :=
  fun s h' hs hA => hH _ (h s h' hs hA)

end Graph

theorem Shape.all_true (sh : Shape) : sh.All fun _ => True := by
  induction sh <;> simp_all [Shape.All]

namespace Graph

variable {g : Graph}

/-- An annotated graph, and the histories at its current point. -/
structure Annotated (Ok : History → Event → Prop) (A : Nat → History → Prop) (g : Graph)
    (H : History → Prop) : Prop where
  opened : g.Open
  linked : g.All fun _ => True
  certified : g.Certified Ok A
  arrives : g.Arrives A g.current.index H

/-- Both outcomes of a test start with what was there before it. -/
theorem Annotated.branch (h : g.Annotated Ok A H) {test : Access} (H' : History → Prop)
    (ht : ∀ h, H h → Ok h (.test test)) (hH : ∀ h, H h → H' h) :
    (g.branch test).Annotated Ok (annotate (annotate A g.size H) (g.size + 1) H') H := by
  have hlt := h.opened.lt
  have hA : annotate (annotate A g.size H) (g.size + 1) H' g.size = H := by
    rw [annotate_ne (by omega), annotate_self]
  have hseg : (g.branch test).seg g.size = some .empty := by
    rw [seg_branch g _ test hlt, if_neg (by omega), if_pos (.inl rfl)]
  have hcert := ((h.certified.add h.linked H).add h.linked.add H')
  rw [size_add] at hcert
  refine ⟨h.opened.branch test, h.linked.branch trivial, ?_, ?_⟩
  · refine .close (H := H) hcert (h.arrives.congr ?_ ?_) ?_ ?_
    · rw [seg_add, if_neg (by simp; omega), seg_add, if_neg (by omega)]
    · rw [annotate_ne (by omega), annotate_ne (by omega)]
    · rintro h ev hh ⟨⟩
      exact ht h hh
    · intro h hh x hx
      rcases mem_cons.1 hx with rfl | hx
      · simpa only [hA] using hh
      · obtain rfl := mem_singleton.1 hx
        rw [annotate_self]
        exact hH h hh
  · rw [current_branch]
    have := Arrives.empty (A := annotate (annotate A g.size H) (g.size + 1) H') hseg
    rwa [hA] at this

theorem Annotated.goTo (h : g.Annotated Ok A H) {s : SegmentId} {H' : History → Prop}
    (ho : (g.goTo s).Open) (ha : g.Arrives A s.index H') : (g.goTo s).Annotated Ok A H' :=
  ⟨ho, h.linked, h.certified, ha⟩

end Graph

/-! ## Shapes and annotations -/

namespace Shape

variable {g : Graph} {test : Access}

/-- The annotation of a graph extends to what the shape adds. -/
def Annotates (Ok : History → Event → Prop) (sh : Shape) : Prop :=
  ∀ {A : Nat → History → Prop} {H : History → Prop} {g : Graph}, g.Annotated Ok A H →
    (∀ h h' ev, H h → sh.Visits h h' ev → Ok h' ev) →
    ∃ A', (∀ j < g.size, A' j = A j) ∧
      (sh.build g).Annotated Ok A' fun h' => ∃ h, H h ∧ sh.Ends h h'

/-- It remains to annotate, since building keeps the graph in order. -/
theorem annotated_of (sh : Shape) {H' : History → Prop} (hg : g.Annotated Ok A H)
    (hc : (sh.build g).Certified Ok A')
    (ha : (sh.build g).Arrives A' (sh.build g).current.index H') :
    (sh.build g).Annotated Ok A' H' :=
  ⟨(sh.frame hg.opened).opened, build_all hg.opened hg.linked sh.all_true, hc, ha⟩

theorem annotates_emit (i : Instruction) : (emit i).Annotates Ok := by
  intro A H g hg hv
  exact ⟨A, fun _ _ => rfl, annotated_of (emit i) hg
    (hg.certified.push hg.opened hg.arrives fun h hh => hv h h _ hh ⟨rfl, rfl⟩)
    (hg.arrives.push i)⟩

theorem annotates_seq {first second : Shape} (h1 : first.Annotates Ok)
    (h2 : second.Annotates Ok) : (seq first second).Annotates Ok := by
  intro A H g hg hv
  obtain ⟨A1, hA1, hg1⟩ := h1 hg fun h h' ev hh hvis => hv h h' ev hh (.inl hvis)
  obtain ⟨A2, hA2, hg2⟩ := h2 hg1 fun m h' ev ⟨h, hh, hend⟩ hvis =>
    hv h h' ev hh (.inr ⟨m, hend, hvis⟩)
  have hsize := (first.frame hg.opened).size
  refine ⟨A2, fun j hj => by rw [hA2 j (by omega), hA1 j hj],
    annotated_of (seq first second) hg hg2.certified (hg2.arrives.mono ?_)⟩
  rintro h' ⟨m, ⟨h, hh, hm⟩, hend⟩
  exact ⟨h, hh, m, hm, hend⟩

theorem annotates_when {body : Shape} (ih : body.Annotates Ok) : (when test body).Annotates Ok := by
  intro A H g hg hv
  have hlt := hg.opened.lt
  have hb := hg.branch (fun h' => ∃ h, H h ∧ (when test body).Ends h h')
    (fun h hh => hv h h (.test test) hh (.inl ⟨rfl, rfl⟩)) fun h hh => ⟨h, hh, .inl rfl⟩
  obtain ⟨A', hA', h2⟩ := ih hb fun h h' ev hh hbody => hv h h' ev hh (.inr hbody)
  have hf := body.frame hb.opened
  have hcur := hf.current
  rw [size_branch, current_branch] at hcur
  rw [size_branch] at hA'
  have hjoin : A' (g.size + 1) = fun h' => ∃ h, H h ∧ (when test body).Ends h h' := by
    rw [hA' _ (by omega), annotate_self]
  have hseg : ((when test body).build g).seg (g.size + 1) = some .empty := by
    rw [build, seg_jump, if_neg (by simp at hcur; omega), hf.others _ (by simp) (by simp),
      seg_branch g _ _ hlt, if_neg (by omega), if_pos (.inr rfl)]
  refine ⟨A', fun j hj => ?_, annotated_of (when test body) hg
    (h2.certified.close h2.arrives ?_ ?_) ?_⟩
  · rw [hA' j (by omega), annotate_ne (by omega), annotate_ne (by omega)]
  · rintro h ev - ⟨⟩
  · rintro h ⟨h0, hh0, hend⟩ x hx
    obtain rfl := mem_singleton.1 hx
    rw [hjoin]
    exact ⟨h0, hh0, .inr hend⟩
  · have := Arrives.empty (A := A') hseg
    rwa [hjoin] at this

theorem annotates_ifElse {onTrue onFalse : Shape} (ih1 : onTrue.Annotates Ok)
    (ih2 : onFalse.Annotates Ok) : (ifElse test onTrue onFalse).Annotates Ok := by
  intro A H g hg hv
  have hlt := hg.opened.lt
  have hb := hg.branch H (fun h hh => hv h h (.test test) hh (.inl ⟨rfl, rfl⟩)) fun h hh => hh
  -- the branch for success
  obtain ⟨A1, hA1, h1⟩ := ih1 hb fun h h' ev hh hvis => hv h h' ev hh (.inr (.inl hvis))
  have hf1 := onTrue.frame hb.opened
  have hcur1 := hf1.current
  have hlt1 := hf1.opened.lt
  rw [size_branch] at hA1
  rw [size_branch, current_branch] at hcur1
  simp only at hcur1
  have hseg : (onTrue.build (g.branch test)).seg (g.size + 1) = some .empty := by
    rw [hf1.others _ (by simp) (by simp), seg_branch g _ _ hlt, if_neg (by omega),
      if_pos (.inr rfl)]
  have helse : A1 (g.size + 1) = H := by rw [hA1 _ (by omega), annotate_self]
  -- the branch for failure
  have hgo := h1.goTo (hg.opened.goElse hf1) (.empty (A := A1) hseg)
  rw [helse] at hgo
  obtain ⟨A2, hA2, h2⟩ := ih2 hgo fun h h' ev hh hvis => hv h h' ev hh (.inr (.inr hvis))
  have hf2 := onFalse.frame hgo.opened
  have hcur2 := hf2.current
  have hlt2 := hf2.opened.lt
  have hsz1 := hf1.size
  have hsz2 := hf2.size
  simp only [size_branch] at hsz1
  simp only [size_goTo, current_goTo] at hcur2 hsz2 hA2
  -- the end of the first branch is left alone by the second
  have hthen := h1.arrives.congr (hf2.others _ hlt1 (by simp; omega)) (hA2 _ hlt1)
  -- both ends go on to a new segment
  generalize hthenEnd : onTrue.build (g.branch test) = thenEnd at *
  generalize helseEnd : onFalse.build (thenEnd.goTo ⟨g.size + 1⟩) = elseEnd at *
  let J : History → Prop := fun h' => ∃ h, H h ∧ (ifElse test onTrue onFalse).Ends h h'
  have hA3 : ∀ {j}, j < elseEnd.size → annotate A2 elseEnd.size J j = A2 j :=
    fun hj => annotate_ne (by omega)
  have hseg3 : ∀ {j}, j < elseEnd.size → elseEnd.add.seg j = elseEnd.seg j :=
    fun hj => by rw [seg_add, if_neg (by omega)]
  have hc1 : ((elseEnd.add.goTo thenEnd.current).jump ⟨elseEnd.size⟩ elseEnd.current).Certified Ok
      (annotate A2 elseEnd.size J) := by
    refine .close (g := elseEnd.add.goTo thenEnd.current) (h2.certified.add h2.linked J)
      (hthen.congr (hseg3 (by omega)) (hA3 (by omega))) (by rintro h ev - ⟨⟩) ?_
    rintro h ⟨h0, hh0, hend⟩ x hx
    obtain rfl := mem_singleton.1 hx
    rw [annotate_self]
    exact ⟨h0, hh0, .inl hend⟩
  refine ⟨annotate A2 elseEnd.size J, fun j hj => ?_,
    annotated_of (ifElse test onTrue onFalse) hg ?_ ?_⟩
  · rw [hA3 (by omega), hA2 j (by omega), hA1 j (by omega), annotate_ne (by omega),
      annotate_ne (by omega)]
  all_goals simp only [build, hthenEnd, helseEnd]
  · refine hc1.close (h2.arrives.congr ?_ (hA3 hlt2)) (by rintro h ev - ⟨⟩) ?_
    · rw [seg_jump, current_goTo, if_neg (by omega), seg_goTo, hseg3 hlt2]
    rintro h ⟨h0, hh0, hend⟩ x hx
    obtain rfl := mem_singleton.1 hx
    rw [annotate_self]
    exact ⟨h0, hh0, .inr hend⟩
  · have hjoin : (((elseEnd.add.goTo thenEnd.current).jump ⟨elseEnd.size⟩ elseEnd.current).jump
        ⟨elseEnd.size⟩ ⟨elseEnd.size⟩).seg elseEnd.size = some .empty := by
      rw [seg_jump, current_jump, if_neg (by omega), seg_jump, current_goTo, if_neg (by omega),
        seg_goTo, seg_add, if_pos rfl]
    have := Arrives.empty (A := annotate A2 elseEnd.size J) hjoin
    rwa [annotate_self] at this

theorem annotates_loop {condition body : Shape} (ih1 : condition.Annotates Ok)
    (ih2 : body.Annotates Ok) : (loop condition test body).Annotates Ok := by
  intro A H g hg hv
  have hlt := hg.opened.lt
  -- the head is entered before every round
  let G : History → Prop := fun m => ∃ h, H h ∧ Relation.ReflTransGen (Round condition body) h m
  have hhead : (g.add.jump ⟨g.size⟩ ⟨g.size⟩).Annotated Ok (annotate A g.size G) G := by
    refine ⟨hg.opened.loopHead, hg.linked.add.jump (by simp), ?_, ?_⟩
    · refine .close (H := H) (hg.certified.add hg.linked G) (hg.arrives.congr ?_ ?_)
        (by rintro h ev - ⟨⟩) ?_
      · rw [seg_add, if_neg (by omega)]
      · rw [annotate_ne (by omega)]
      · rintro h hh x hx
        obtain rfl := mem_singleton.1 hx
        rw [annotate_self]
        exact ⟨h, hh, .refl⟩
    · have hseg : (g.add.jump ⟨g.size⟩ ⟨g.size⟩).seg g.size = some .empty := by
        rw [seg_loopHead hg.opened, if_neg (by omega), if_pos rfl]
      have := Arrives.empty (A := annotate A g.size G) hseg
      rwa [annotate_self] at this
  obtain ⟨A1, hA1, h1⟩ := ih1 hhead fun m h' ev ⟨h, hh, hm⟩ hvis =>
    hv h h' ev hh ⟨m, hm, .inl hvis⟩
  have hf1 := condition.frame hhead.opened
  have hlt1 := hf1.opened.lt
  have hsz1 := hf1.size
  simp only [size_jump, size_add] at hA1 hsz1
  generalize htested : condition.build (g.add.jump ⟨g.size⟩ ⟨g.size⟩) = tested at *
  -- the body and the end of the loop start where the condition ends
  let M : History → Prop := fun z => ∃ m, G m ∧ condition.Ends m z
  have hb := h1.branch M (fun z ⟨m, ⟨h, hh, hm⟩, hz⟩ =>
    hv h z (.test test) hh ⟨m, hm, .inr ⟨z, hz, .inl ⟨rfl, rfl⟩⟩⟩) fun _ hz => hz
  obtain ⟨A2, hA2, h2⟩ := ih2 hb fun z h' ev ⟨m, ⟨h, hh, hm⟩, hz⟩ hvis =>
    hv h h' ev hh ⟨m, hm, .inr ⟨z, hz, .inr hvis⟩⟩
  have hf2 := body.frame hb.opened
  have hcur2 := hf2.current
  simp only [size_branch, current_branch] at hA2 hcur2
  generalize hbodyEnd : body.build (tested.branch test) = bodyEnd at *
  have hA2head : A2 g.size = G := by
    rw [hA2 _ (by omega), annotate_ne (by omega), annotate_ne (by omega), hA1 _ (by omega),
      annotate_self]
  have hA2after : A2 (tested.size + 1) = M := by rw [hA2 _ (by omega), annotate_self]
  refine ⟨A2, fun j hj => ?_, annotated_of (loop condition test body) hg ?_ ?_⟩
  · rw [hA2 j (by omega), annotate_ne (by omega), annotate_ne (by omega), hA1 j (by omega),
      annotate_ne (by omega)]
  all_goals simp only [build, htested, hbodyEnd]
  · refine h2.certified.close h2.arrives (by rintro h ev - ⟨⟩) ?_
    rintro h' ⟨z, ⟨m, ⟨h, hh, hm⟩, hz⟩, hend⟩ x hx
    obtain rfl := mem_singleton.1 hx
    rw [hA2head]
    exact ⟨h, hh, hm.tail ⟨z, hz, hend⟩⟩
  · have hafter : (bodyEnd.jump ⟨g.size⟩ ⟨tested.size + 1⟩).seg (tested.size + 1) = some .empty := by
      rw [seg_jump, if_neg (by omega), hf2.others _ (by simp) (by simp), seg_branch tested _ _ hlt1,
        if_neg (by omega), if_pos (.inr rfl)]
    have := Arrives.empty (A := A2) hafter
    rw [hA2after] at this
    refine this.mono ?_
    rintro h' ⟨m, ⟨h, hh, hm⟩, hend⟩
    exact ⟨h, hh, m, hm, hend⟩

theorem annotates_exit (result : Access) : (exit result).Annotates Ok := by
  intro A H g hg hv
  have hc := hg.certified.close hg.arrives (t := .leave result) ?_ ?_
  · refine ⟨annotate A g.size fun _ => False, fun j hj => annotate_ne (by omega),
      annotated_of (exit result) hg ?_ ?_⟩
    · have := hc.add (P := fun _ => True) ?_ fun _ => False
      · rwa [size_close] at this
      · refine hg.linked.close ⟨fun _ _ => trivial, ?_, leave_ne result⟩
        simp [successors_leave]
    · intro s h hs hA
      rw [show (build (exit result) g).current.index = g.size from rfl, annotate_self] at hA
      exact hA.elim
  · intro h ev hh hev
    rw [event?_leave] at hev
    cases hev
    exact hv h h _ hh ⟨rfl, rfl⟩
  · simp [successors_leave]

theorem annotates (sh : Shape) : sh.Annotates Ok := by
  induction sh with
  | skip =>
    exact fun hg _ => ⟨_, fun _ _ => rfl, annotated_of .skip hg hg.certified
      (hg.arrives.mono fun h hh => ⟨h, hh, rfl⟩)⟩
  | emit i => exact annotates_emit i
  | seq first second ih1 ih2 => exact annotates_seq ih1 ih2
  | when test body ih => exact annotates_when ih
  | ifElse test onTrue onFalse ih1 ih2 => exact annotates_ifElse ih1 ih2
  | loop condition test body ih1 ih2 => exact annotates_loop ih1 ih2
  | exit result => exact annotates_exit result

end Shape

/-! ## Functions -/

def OpenSegment.finish? (s : OpenSegment) : Option Segment :=
  s.terminator.map (Segment.mk s.instructions)

/-- The segments of the function are those of the graph. -/
def Function.MadeFrom (f : Function) (g : Graph) : Prop :=
  ∀ j, f.segments[j]? = (g.seg j).bind OpenSegment.finish?

theorem Function.MadeFrom.segment {g : Graph} (h : f.MadeFrom g) {s : SegmentId} {segment : Segment}
    (hs : f.segment? s = some segment) :
    g.seg s.index = some ⟨segment.instructions, some segment.terminator⟩ := by
  rw [Function.segment?, h s.index, bind_eq_some_iff] at hs
  obtain ⟨⟨instructions, terminator⟩, hseg, hfin⟩ := hs
  obtain ⟨t, ht, rfl⟩ := map_eq_some_iff.1 hfin
  simp only at ht
  rw [hseg, ht]

theorem Function.Runs.annotated {g : Graph} {past : History} {s : SegmentId} {i : Nat}
    (hf : f.MadeFrom g) (hc : g.Certified Ok A) (hentry : A 0 []) (hr : f.Runs past s i) :
    ∃ h, A s.index h ∧ ∀ segment, f.segment? s = some segment →
      past = h ++ segment.instructions.take i := by
  induction hr with
  | entry => exact ⟨[], hentry, by simp⟩
  | step hr hseg hins ih =>
    obtain ⟨h, hA, hpast⟩ := ih
    refine ⟨h, hA, fun segment hsegment => ?_⟩
    rw [hseg] at hsegment
    cases hsegment
    rw [hpast _ hseg, take_add_one, hins, append_assoc]
    rfl
  | jump hr hseg ht ih =>
    obtain ⟨h, hA, hpast⟩ := ih
    have hnext := (hc _ _ h (hf.segment hseg) hA).next _ rfl _ ht
    refine ⟨_, hnext, fun segment hsegment => ?_⟩
    rw [hpast _ hseg]
    simp

/-- The graph with which a function starts. -/
def Graph.start : Graph := ⟨[.empty], .entry⟩

theorem Graph.seg_start {j : Nat} {s : OpenSegment} (h : start.seg j = some s) :
    j = 0 ∧ s = .empty := by
  have hj := seg_lt h
  obtain rfl : j = 0 := by simpa [size, start] using hj
  simpa [seg, start, eq_comm] using h

theorem Graph.start_open : start.Open := ⟨.empty, rfl, rfl⟩

theorem Graph.start_all {P : Event → Prop} : start.All P := by
  intro j s hs
  obtain ⟨-, rfl⟩ := seg_start hs
  exact ⟨by simp [OpenSegment.empty], by simp [OpenSegment.empty]⟩

/-- A path meets a step, behind the instructions `past`. -/
inductive Function.Meets (f : Function) (past : History) : Event → Prop
  | run {s : SegmentId} {i : Nat} {segment : Segment} {ins : Instruction} :
    f.Runs past s i → f.segment? s = some segment → segment.instructions[i]? = some ins →
    Meets f past (.run ins)
  | leave {s : SegmentId} {segment : Segment} {ev : Event} :
    f.Runs past s segment.instructions.length → f.segment? s = some segment →
    segment.terminator.event? = some ev → Meets f past ev

/-- **Paths of structured code.**  What a path of a function meets is met on a
    path of the shape from which it was built. -/
theorem Shape.visits_of_meets {sh : Shape} {result : Access}
    (hf : f.MadeFrom ((sh.build .start).close (.leave result))) {past : History} {ev : Event}
    (hm : f.Meets past ev) : (seq sh (exit result)).Visits [] past ev := by
  let Ok : History → Event → Prop := fun h ev => (seq sh (exit result)).Visits [] h ev
  have hstart : start.Annotated Ok (fun _ h => h = []) fun h => h = [] := by
    refine ⟨start_open, start_all, fun j s h hs _ => ?_, fun s h hs hh => ?_⟩
    · obtain ⟨-, rfl⟩ := seg_start hs
      exact .empty h
    · obtain ⟨-, rfl⟩ := seg_start hs
      simpa [OpenSegment.empty] using hh
  obtain ⟨A, hA, hg⟩ := sh.annotates hstart fun h h' ev hh hvis => .inl (hh ▸ hvis)
  have hc : ((sh.build .start).close (.leave result)).Certified Ok A := by
    refine hg.certified.close hg.arrives ?_ (by simp [successors_leave])
    rintro h' ev ⟨h, rfl, hend⟩ hev
    rw [event?_leave] at hev
    cases hev
    exact .inr ⟨h', hend, rfl, rfl⟩
  have hentry : A 0 [] := by rw [hA 0 (by simp [size, start])]
  cases hm with
  | run hr hs hins =>
    obtain ⟨h, hAh, hpast⟩ := hr.annotated hf hc hentry
    rw [hpast _ hs]
    exact (hc _ _ h (hf.segment hs) hAh).run _ _ hins
  | leave hr hs hev =>
    obtain ⟨h, hAh, hpast⟩ := hr.annotated hf hc hentry
    rw [hpast _ hs, take_length]
    exact (hc _ _ h (hf.segment hs) hAh).event _ _ rfl hev

end Semcheck
