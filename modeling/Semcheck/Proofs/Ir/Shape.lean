/-
  Structured code.

  The segments of a function body are not built in any order: every piece of
  code starts in the current segment and ends in the then current one, and
  pieces are put together in a few ways.  A `Shape` says how, and `Shape.build`
  adds the segments of a shape to the code so far, exactly as lowering does.

  * `Graph.seg`: a segment by its number, with one equation for every operation;
  * `Graph.Wf`: the current segment is open and every target exists;
  * `Shape.frame`: building leaves all segments alone but the current one, and
    of the new segments only the current one is open;
  * `Shape.appends`: instructions are only appended;
  * `Graph.All`, `Shape.All`: a property of all steps.
-/
import Semcheck.Ir.Draft

namespace Semcheck

open List Option

/-! ## Graphs -/

/-- Segments, and the one that new instructions go to. -/
structure Graph where
  segments : List OpenSegment
  current : SegmentId

def Draft.graph (d : Draft) : Graph :=
  ⟨d.segments, d.current⟩

namespace Graph

/-- The number of segments. -/
def size (g : Graph) : Nat :=
  g.segments.length

/-- The segment with the given number. -/
def seg (g : Graph) (j : Nat) : Option OpenSegment :=
  g.segments[j]?

def update (g : Graph) (f : OpenSegment → OpenSegment) : Graph :=
  { g with segments := g.segments.modify g.current.index f }

/-- Append an instruction to the current segment. -/
def push (g : Graph) (i : Instruction) : Graph :=
  g.update fun s => { s with instructions := s.instructions ++ [i] }

/-- Close the current segment. -/
def close (g : Graph) (t : Terminator) : Graph :=
  g.update fun s => { s with terminator := some t }

def add (g : Graph) : Graph :=
  { g with segments := g.segments ++ [.empty] }

def goTo (g : Graph) (s : SegmentId) : Graph :=
  { g with current := s }

/-- Two new segments for the outcomes of a test, and on to the first. -/
def branch (g : Graph) (test : Access) : Graph :=
  (g.add.add.close (.branch test ⟨g.size⟩ ⟨g.size + 1⟩)).goTo ⟨g.size⟩

/-- Close the current segment with a jump, and on to another segment. -/
def jump (g : Graph) (target next : SegmentId) : Graph :=
  (g.close (.goto target)).goTo next

variable (g : Graph) (j : Nat)

@[simp] theorem size_update (f : OpenSegment → OpenSegment) : (g.update f).size = g.size := by
  simp [size, update]

@[simp] theorem size_push (i : Instruction) : (g.push i).size = g.size := size_update g _

@[simp] theorem size_close (t : Terminator) : (g.close t).size = g.size := size_update g _

@[simp] theorem size_add : g.add.size = g.size + 1 := by simp [size, add]

@[simp] theorem size_goTo (s : SegmentId) : (g.goTo s).size = g.size := rfl

@[simp] theorem size_branch (test : Access) : (g.branch test).size = g.size + 2 := by
  simp [branch]

@[simp] theorem size_jump (s s' : SegmentId) : (g.jump s s').size = g.size := by simp [jump]

@[simp] theorem current_push (i : Instruction) : (g.push i).current = g.current := rfl

@[simp] theorem current_add : g.add.current = g.current := rfl

@[simp] theorem current_goTo (s : SegmentId) : (g.goTo s).current = s := rfl

@[simp] theorem current_branch (test : Access) : (g.branch test).current = ⟨g.size⟩ := rfl

@[simp] theorem current_jump (s s' : SegmentId) : (g.jump s s').current = s' := rfl

theorem seg_update (f : OpenSegment → OpenSegment) :
    (g.update f).seg j = if j = g.current.index then (g.seg j).map f else g.seg j := by
  simp only [seg, update, getElem?_modify, eq_comm]
  split <;> simp

theorem seg_push (i : Instruction) : (g.push i).seg j =
    if j = g.current.index then
      (g.seg j).map fun s => { s with instructions := s.instructions ++ [i] }
    else g.seg j :=
  seg_update g j _

theorem seg_close (t : Terminator) : (g.close t).seg j =
    if j = g.current.index then (g.seg j).map fun s => { s with terminator := some t }
    else g.seg j :=
  seg_update g j _

theorem seg_add : g.add.seg j = if j = g.size then some .empty else g.seg j := by
  by_cases hj : j = g.size
  · subst hj; simp [seg, add, size]
  · rw [if_neg hj, seg, seg, add, getElem?_append]
    rw [size] at hj
    split
    · rfl
    · rw [getElem?_eq_none (by simp; omega), getElem?_eq_none (by omega)]

@[simp] theorem seg_goTo (s : SegmentId) : (g.goTo s).seg j = g.seg j := rfl

theorem seg_lt {g : Graph} {j : Nat} {s : OpenSegment} (h : g.seg j = some s) : j < g.size :=
  (List.getElem?_eq_some_iff.1 h).1

theorem seg_branch (test : Access) (h : g.current.index < g.size) : (g.branch test).seg j =
    if j = g.current.index then
      (g.seg j).map fun s => { s with terminator := some (.branch test ⟨g.size⟩ ⟨g.size + 1⟩) }
    else if j = g.size ∨ j = g.size + 1 then some .empty else g.seg j := by
  simp only [branch, seg_goTo, seg_close, current_add, seg_add, size_add]
  split
  · rename_i hj
    rw [if_neg (by omega), if_neg (by omega)]
  · split <;> simp_all

theorem seg_jump (s s' : SegmentId) : (g.jump s s').seg j =
    if j = g.current.index then (g.seg j).map fun seg => { seg with terminator := some (.goto s) }
    else g.seg j := by
  simp only [jump, seg_goTo, seg_close]

end Graph

/-! ## Shapes -/

/-- How a function is left whose result is in the given place. -/
def Terminator.leave : Access → Terminator
  | .discard => .finish
  | result => .ret result

/-- How a piece of code is put together. -/
inductive Shape where
  | skip
  | emit (i : Instruction)
  | seq (first second : Shape)
  /-- The body is run if the test succeeds. -/
  | when (test : Access) (body : Shape)
  | ifElse (test : Access) (onTrue onFalse : Shape)
  /-- The condition is run before every test. -/
  | loop (condition : Shape) (test : Access) (body : Shape)
  /-- The function is left with its result; what follows is not reached. -/
  | exit (result : Access)

namespace Shape

/-- Add the code of a shape at the current point. -/
def build : Shape → Graph → Graph
  | .skip, g => g
  | .emit i, g => g.push i
  | .seq first second, g => second.build (first.build g)
  | .when test body, g => (body.build (g.branch test)).jump ⟨g.size + 1⟩ ⟨g.size + 1⟩
  | .ifElse test onTrue onFalse, g =>
    let thenEnd := onTrue.build (g.branch test)
    let elseEnd := onFalse.build (thenEnd.goTo ⟨g.size + 1⟩)
    ((elseEnd.add.goTo thenEnd.current).jump ⟨elseEnd.size⟩ elseEnd.current).jump
      ⟨elseEnd.size⟩ ⟨elseEnd.size⟩
  | .loop condition test body, g =>
    let tested := condition.build (g.add.jump ⟨g.size⟩ ⟨g.size⟩)
    (body.build (tested.branch test)).jump ⟨g.size⟩ ⟨tested.size + 1⟩
  | .exit result, g => (g.close (.leave result)).add.goTo ⟨g.size⟩

section Built

variable {g g1 g2 : Graph} {test : Access}

theorem build_when {body : Shape} (h : g1 = body.build (g.branch test)) :
    (when test body).build g = g1.jump ⟨g.size + 1⟩ ⟨g.size + 1⟩ := by
  rw [h]
  rfl

theorem build_ifElse {onTrue onFalse : Shape} (h1 : g1 = onTrue.build (g.branch test))
    (h2 : g2 = onFalse.build (g1.goTo ⟨g.size + 1⟩)) : (ifElse test onTrue onFalse).build g =
      ((g2.add.goTo g1.current).jump ⟨g2.size⟩ g2.current).jump ⟨g2.size⟩ ⟨g2.size⟩ := by
  rw [h2, h1]
  rfl

theorem build_loop {condition body : Shape}
    (h1 : g1 = condition.build (g.add.jump ⟨g.size⟩ ⟨g.size⟩))
    (h2 : g2 = body.build (g1.branch test)) :
    (loop condition test body).build g = g2.jump ⟨g.size⟩ ⟨g1.size + 1⟩ := by
  rw [h2, h1]
  rfl

end Built

end Shape

/-! ## Building -/

def Graph.Open (g : Graph) : Prop :=
  ∃ s, g.seg g.current.index = some s ∧ s.terminator = none

/-- What building leaves alone, and which segments are open after it. -/
structure Graph.Frame (g g' : Graph) : Prop where
  size : g.size ≤ g'.size
  others : ∀ j < g.size, j ≠ g.current.index → g'.seg j = g.seg j
  current : g'.current.index = g.current.index ∨ g.size ≤ g'.current.index
  opened : g'.Open
  closed : ∀ j s, g'.seg j = some s → j ≠ g'.current.index →
    j = g.current.index ∨ g.size ≤ j → s.terminator.isSome = true

namespace Graph

variable {g g1 g2 : Graph} {test : Access}

theorem Open.lt (h : g.Open) : g.current.index < g.size := by
  obtain ⟨s, hs, -⟩ := h
  exact seg_lt hs

theorem Open.add (h : g.Open) : g.add.Open := by
  have hlt := h.lt
  obtain ⟨s, hs, ht⟩ := h
  refine ⟨s, ?_, ht⟩
  rw [current_add, seg_add, if_neg (by omega)]
  exact hs

theorem Open.branch (h : g.Open) (test : Access) : (g.branch test).Open :=
  ⟨.empty, by rw [seg_branch g _ test h.lt]; simp [Nat.ne_of_gt h.lt], rfl⟩

theorem Frame.refl (h : g.Open) : Frame g g where
  size := Nat.le_refl _
  others _ _ _ := rfl
  current := .inl rfl
  opened := h
  closed j s hs hj hor := by
    have := seg_lt hs
    omega

theorem Frame.trans (h1 : Frame g g1) (h2 : Frame g1 g2) : Frame g g2 := by
  obtain ⟨hs1, ho1, hc1, -, hcl1⟩ := h1
  obtain ⟨hs2, ho2, hc2, hop2, hcl2⟩ := h2
  refine ⟨by omega, fun j hj hne => ?_, by omega, hop2, fun j s hs hne hor => ?_⟩
  · rw [ho2 j (by omega) (by omega), ho1 j hj hne]
  · by_cases hj : j = g1.current.index ∨ g1.size ≤ j
    · exact hcl2 j s hs hne hj
    · rw [ho2 j (by omega) (by omega)] at hs
      exact hcl1 j s hs (by omega) hor

theorem isSome_of_close {o : Option OpenSegment} {t : Terminator} {s : OpenSegment}
    (h : (o.map fun s => { s with terminator := some t }) = some s) :
    s.terminator.isSome = true := by
  obtain ⟨s', -, rfl⟩ := map_eq_some_iff.1 h
  rfl

theorem Frame.push (h : g.Open) (i : Instruction) : Frame g (g.push i) where
  size := by simp
  others j _ hj := by rw [seg_push, if_neg hj]
  current := .inl rfl
  opened := by
    obtain ⟨s, hs, ht⟩ := h
    exact ⟨{ s with instructions := s.instructions ++ [i] },
      by rw [current_push, seg_push, if_pos rfl, hs]; rfl, ht⟩
  closed j s hs hj hor := by
    have := seg_lt hs
    simp only [size_push, current_push] at this hj
    omega

theorem Frame.when (h : g.Open) (h2 : Frame (g.branch test) g2) :
    Frame g (g2.jump ⟨g.size + 1⟩ ⟨g.size + 1⟩) := by
  have hlt := h.lt
  obtain ⟨hs, ho, hc, -, hcl⟩ := h2
  simp only [size_branch, current_branch] at hs ho hc hcl
  refine ⟨by simp; omega, fun j hj hne => ?_, .inr (by simp), ?_, fun j s hseg hne hor => ?_⟩
  · rw [seg_jump, if_neg (by omega), ho j (by omega) (by omega), seg_branch g _ _ hlt, if_neg hne,
      if_neg (by omega)]
  · refine ⟨.empty, ?_, rfl⟩
    rw [current_jump, seg_jump, if_neg (by simp; omega), ho _ (by simp) (by simp),
      seg_branch g _ _ hlt, if_neg (by simp; omega), if_pos (by simp)]
  · rw [current_jump] at hne
    rw [seg_jump] at hseg
    split at hseg
    · exact isSome_of_close hseg
    · by_cases hj : j = g.size ∨ g.size + 2 ≤ j
      · exact hcl j s hseg (by assumption) hj
      · have hcur : j = g.current.index := by simp at hne; omega
        rw [ho j (by omega) (by omega), seg_branch g _ _ hlt, if_pos hcur] at hseg
        exact isSome_of_close hseg

theorem Frame.exit (h : g.Open) (t : Terminator) : Frame g ((g.close t).add.goTo ⟨g.size⟩) := by
  have hlt := h.lt
  refine ⟨by simp, fun j hj hne => ?_, .inr (by simp), ⟨.empty, ?_, rfl⟩, fun j s hseg hne hor => ?_⟩
  · rw [seg_goTo, seg_add, size_close, if_neg (by omega), seg_close, if_neg hne]
  · rw [current_goTo, seg_goTo, seg_add, size_close, if_pos rfl]
  · have hj := seg_lt hseg
    simp only [size_goTo, size_add, size_close, current_goTo] at hj hne
    have hcur : j = g.current.index := by omega
    rw [seg_goTo, seg_add, size_close, if_neg hne, seg_close, if_pos hcur] at hseg
    exact isSome_of_close hseg

theorem Open.loopHead (h : g.Open) : (g.add.jump ⟨g.size⟩ ⟨g.size⟩).Open := by
  have hlt := h.lt
  exact ⟨.empty, by rw [current_jump, seg_jump, if_neg (by simp; omega), seg_add, if_pos rfl], rfl⟩

/-- The head of a loop is a segment of its own. -/
theorem seg_loopHead (h : g.Open) (j : Nat) : (g.add.jump ⟨g.size⟩ ⟨g.size⟩).seg j =
    if j = g.current.index then (g.seg j).map fun s => { s with terminator := some (.goto ⟨g.size⟩) }
    else if j = g.size then some .empty else g.seg j := by
  have hlt := h.lt
  rw [seg_jump, seg_add, current_add]
  split
  · rw [if_neg (by omega)]
  · rfl

theorem Frame.loop (h : g.Open) (h1 : Frame (g.add.jump ⟨g.size⟩ ⟨g.size⟩) g1)
    (h2 : Frame (g1.branch test) g2) : Frame g (g2.jump ⟨g.size⟩ ⟨g1.size + 1⟩) := by
  have hlt := h.lt
  have hlt1 := h1.opened.lt
  obtain ⟨hs1, ho1, hc1, -, hcl1⟩ := h1
  obtain ⟨hs2, ho2, hc2, -, hcl2⟩ := h2
  simp only [size_jump, size_add, current_jump] at hs1 ho1 hc1 hcl1
  simp only [size_branch, current_branch] at hs2 ho2 hc2 hcl2
  refine ⟨by simp; omega, fun j hj hne => ?_, .inr (by simp; omega), ?_, fun j s hseg hne hor => ?_⟩
  · rw [seg_jump, if_neg (by omega), ho2 j (by omega) (by omega), seg_branch g1 _ _ hlt1,
      if_neg (by omega), if_neg (by omega), ho1 j (by omega) (by omega), seg_loopHead h, if_neg hne,
      if_neg (by omega)]
  · refine ⟨.empty, ?_, rfl⟩
    rw [current_jump, seg_jump, if_neg (by simp; omega), ho2 _ (by simp) (by simp),
      seg_branch g1 _ _ hlt1, if_neg (by simp; omega), if_pos (by simp)]
  · rw [current_jump] at hne
    simp only at hne
    rw [seg_jump] at hseg
    split at hseg
    · exact isSome_of_close hseg
    rename_i hj2
    by_cases hj : j = g1.size ∨ g1.size + 2 ≤ j
    · exact hcl2 j s hseg hj2 hj
    rw [ho2 j (by omega) (by omega), seg_branch g1 _ _ hlt1] at hseg
    split at hseg
    · exact isSome_of_close hseg
    rename_i hj1
    rw [if_neg (by omega)] at hseg
    by_cases hj : j = g.size ∨ g.size + 1 ≤ j
    · exact hcl1 j s hseg hj1 hj
    have hcur : j = g.current.index := by omega
    rw [ho1 j (by omega) (by omega), seg_loopHead h, if_pos hcur] at hseg
    exact isSome_of_close hseg

theorem Open.goElse (h : g.Open) (h1 : Frame (g.branch test) g1) : (g1.goTo ⟨g.size + 1⟩).Open := by
  have hlt := h.lt
  refine ⟨.empty, ?_, rfl⟩
  rw [current_goTo, seg_goTo, h1.others _ (by simp) (by simp), seg_branch g _ _ hlt,
    if_neg (by simp; omega), if_pos (by simp)]

theorem Open.branchEnds (h1 : Frame (g.branch test) g1) (h2 : Frame (g1.goTo ⟨g.size + 1⟩) g2)
    (join : SegmentId) :
    (g2.add.goTo g1.current).Open ∧ ((g2.add.goTo g1.current).jump join g2.current).Open := by
  have hlt1 := h1.opened.lt
  have hlt2 := h2.opened.lt
  obtain ⟨s1, hs1, ht1⟩ := h1.opened
  obtain ⟨s2, hs2, ht2⟩ := h2.opened
  have hc1 := h1.current
  have hc2 := h2.current
  have hsize := h2.size
  simp only [size_branch, current_branch] at hc1
  simp only [size_goTo, current_goTo] at hc2 hsize
  refine ⟨⟨s1, ?_, ht1⟩, s2, ?_, ht2⟩
  · rw [current_goTo, seg_goTo, seg_add, if_neg (by omega), h2.others _ (by simpa) (by simp; omega)]
    exact hs1
  · rw [current_jump, seg_jump, current_goTo, if_neg (by omega), seg_goTo, seg_add,
      if_neg (by omega)]
    exact hs2

theorem Frame.ifElse (h : g.Open) (h1 : Frame (g.branch test) g1)
    (h2 : Frame (g1.goTo ⟨g.size + 1⟩) g2) :
    Frame g (((g2.add.goTo g1.current).jump ⟨g2.size⟩ g2.current).jump ⟨g2.size⟩ ⟨g2.size⟩) := by
  have hlt := h.lt
  have hlt1 := h1.opened.lt
  have hlt2 := h2.opened.lt
  obtain ⟨hs1, ho1, hc1, -, hcl1⟩ := h1
  obtain ⟨hs2, ho2, hc2, -, hcl2⟩ := h2
  simp only [size_branch, current_branch] at hs1 ho1 hc1 hcl1
  simp only [size_goTo, current_goTo, seg_goTo] at hs2 ho2 hc2 hcl2
  refine ⟨by simp; omega, fun j hj hne => ?_, .inr (by simp; omega), ?_, fun j s hseg hne hor => ?_⟩
  · rw [seg_jump, current_jump, if_neg (by omega), seg_jump, current_goTo, if_neg (by omega),
      seg_goTo, seg_add, if_neg (by omega), ho2 j (by omega) (by omega), ho1 j (by omega) (by omega),
      seg_branch g _ _ hlt, if_neg hne, if_neg (by omega)]
  · refine ⟨.empty, ?_, rfl⟩
    rw [current_jump, seg_jump, current_jump, if_neg (by simp; omega), seg_jump, current_goTo,
      if_neg (by simp; omega), seg_goTo, seg_add, if_pos rfl]
  · rw [current_jump] at hne
    simp only at hne
    rw [seg_jump, current_jump] at hseg
    split at hseg
    · exact isSome_of_close hseg
    rename_i hj2
    rw [seg_jump, current_goTo] at hseg
    split at hseg
    · exact isSome_of_close hseg
    rename_i hj1
    rw [seg_goTo, seg_add, if_neg hne] at hseg
    by_cases hj : j = g.size + 1 ∨ g1.size ≤ j
    · exact hcl2 j s hseg hj2 hj
    rw [ho2 j (by omega) (by omega)] at hseg
    by_cases hj : j = g.size ∨ g.size + 2 ≤ j
    · exact hcl1 j s hseg hj1 hj
    have hcur : j = g.current.index := by omega
    rw [ho1 j (by omega) (by omega), seg_branch g _ _ hlt, if_pos hcur] at hseg
    exact isSome_of_close hseg

end Graph

namespace Shape

open Semcheck.Graph

/-- Building leaves all segments alone but the current one, and leaves one
    segment open. -/
theorem frame (sh : Shape) {g : Graph} (h : g.Open) : Frame g (sh.build g) := by
  induction sh generalizing g with
  | skip => exact .refl h
  | emit i => exact .push h i
  | seq first second ih1 ih2 => exact (ih1 h).trans (ih2 (ih1 h).opened)
  | when test body ih => exact .when h (ih (h.branch test))
  | ifElse test onTrue onFalse ih1 ih2 =>
    exact .ifElse h (ih1 (h.branch test)) (ih2 (h.goElse (ih1 (h.branch test))))
  | loop condition test body ih1 ih2 =>
    exact .loop h (ih1 h.loopHead) (ih2 ((ih1 h.loopHead).opened.branch test))
  | exit result => exact .exit h _

end Shape

/-- Instructions are only appended, whatever else becomes of the segments. -/
def Graph.Appends (g g' : Graph) : Prop :=
  ∀ j s, g.seg j = some s → ∃ s', g'.seg j = some s' ∧ s.instructions <+: s'.instructions

namespace Graph.Appends

variable {g g1 g2 : Graph}

theorem refl (g : Graph) : Appends g g :=
  fun _ s hs => ⟨s, hs, prefix_rfl⟩

theorem trans (h1 : Appends g g1) (h2 : Appends g1 g2) : Appends g g2 := by
  intro j s hs
  obtain ⟨s1, hs1, hle1⟩ := h1 j s hs
  obtain ⟨s2, hs2, hle2⟩ := h2 j s1 hs1
  exact ⟨s2, hs2, hle1.trans hle2⟩

theorem update (g : Graph) {f : OpenSegment → OpenSegment}
    (hf : ∀ s, s.instructions <+: (f s).instructions) : Appends g (g.update f) := by
  intro j s hs
  rw [seg_update, hs]
  split
  · exact ⟨f s, rfl, hf s⟩
  · exact ⟨s, rfl, prefix_rfl⟩

theorem push (g : Graph) (i : Instruction) : Appends g (g.push i) :=
  update g fun _ => prefix_append _ _

theorem close (g : Graph) (t : Terminator) : Appends g (g.close t) :=
  update g fun _ => prefix_rfl

theorem add (g : Graph) : Appends g g.add := by
  intro j s hs
  rw [seg_add, if_neg (Nat.ne_of_lt (seg_lt hs))]
  exact ⟨s, hs, prefix_rfl⟩

theorem goTo (g : Graph) (s : SegmentId) : Appends g (g.goTo s) :=
  refl g

theorem branch (g : Graph) (test : Access) : Appends g (g.branch test) :=
  (add g).trans ((add g.add).trans (close g.add.add _))

theorem jump (g : Graph) (target next : SegmentId) : Appends g (g.jump target next) :=
  close g _

end Graph.Appends

theorem Shape.appends (sh : Shape) (g : Graph) : g.Appends (sh.build g) := by
  induction sh generalizing g with
  | skip => exact .refl g
  | emit i => exact .push g i
  | seq first second ih1 ih2 => exact (ih1 g).trans (ih2 _)
  | when test body ih => exact ((Graph.Appends.branch g test).trans (ih _)).trans (.jump _ _ _)
  | ifElse test onTrue onFalse ih1 ih2 =>
    have hthen := (Graph.Appends.branch g test).trans (ih1 (g.branch test))
    have helse := hthen.trans (ih2 ((onTrue.build (g.branch test)).goTo ⟨g.size + 1⟩))
    have hends := (helse.trans (.add _)).trans (.goTo _ (onTrue.build (g.branch test)).current)
    exact (hends.trans (.jump _ _ _)).trans (.jump _ _ _)
  | loop condition test body ih1 ih2 =>
    have htested := ((Graph.Appends.add g).trans (.jump _ ⟨g.size⟩ ⟨g.size⟩)).trans (ih1 _)
    exact ((htested.trans (.branch _ test)).trans (ih2 _)).trans (.jump _ _ _)
  | exit result => exact (Graph.Appends.close g _).trans (.add _)

/-! ## Properties of all steps -/

/-- What happens at a point of the code. -/
inductive Event where
  | run (i : Instruction)
  | test (a : Access)
  | exit (result : Access)

/-- What happens at the end of a segment, besides going on. -/
def Terminator.event? : Terminator → Option Event
  | .finish => some (.exit .discard)
  | .ret value => some (.exit value)
  | .goto _ => none
  | .branch test _ _ => some (.test test)

theorem Terminator.event?_leave (result : Access) :
    (leave result).event? = some (.exit result) := by
  cases result <;> rfl

theorem Terminator.leave_ne (result : Access) : leave result ≠ .ret .discard := by
  cases result <;> simp [leave]

theorem Terminator.successors_leave (result : Access) : (leave result).successors = [] := by
  cases result <;> rfl

/-- Every step of the shape satisfies `P`. -/
def Shape.All (P : Event → Prop) : Shape → Prop
  | .skip => True
  | .emit i => P (.run i)
  | .seq first second => first.All P ∧ second.All P
  | .when test body => P (.test test) ∧ body.All P
  | .ifElse test onTrue onFalse => P (.test test) ∧ onTrue.All P ∧ onFalse.All P
  | .loop condition test body => condition.All P ∧ P (.test test) ∧ body.All P
  | .exit result => P (.exit result)

/-- The step at the end of a segment satisfies `P`, and leads to one of the
    first `n` segments.  A value that is returned is somewhere. -/
structure Terminator.Obeys (P : Event → Prop) (n : Nat) (t : Terminator) : Prop where
  event : ∀ ev, t.event? = some ev → P ev
  target : ∀ s ∈ t.successors, s.index < n
  valued : t ≠ .ret .discard

theorem Terminator.Obeys.mono {P Q : Event → Prop} {n : Nat} {t : Terminator} (h : t.Obeys P n)
    (hPQ : ∀ ev, P ev → Q ev) : t.Obeys Q n :=
  ⟨fun ev hev => hPQ ev (h.event ev hev), h.target, h.valued⟩

/-- Every step satisfies `P`, and every target exists. -/
def Graph.All (P : Event → Prop) (g : Graph) : Prop :=
  ∀ j s, g.seg j = some s → (∀ i ∈ s.instructions, P (.run i)) ∧
    ∀ t, s.terminator = some t → t.Obeys P g.size

namespace Graph

variable {P Q : Event → Prop} {g g' : Graph}

variable (h : g.All P)
include h

theorem All.mono (hPQ : ∀ ev, P ev → Q ev) : g.All Q :=
  fun j s hs => ⟨fun i hi => hPQ _ ((h j s hs).1 i hi), fun t ht => ((h j s hs).2 t ht).mono hPQ⟩

theorem All.push {i : Instruction} (hi : P (.run i)) : (g.push i).All P := by
  intro j s hs
  rw [seg_push] at hs
  split at hs
  · obtain ⟨s', hs', rfl⟩ := map_eq_some_iff.1 hs
    rw [size_push]
    refine ⟨fun i' hi' => ?_, (h j s' hs').2⟩
    rcases mem_append.1 hi' with hm | hm
    · exact (h j s' hs').1 i' hm
    · obtain rfl := mem_singleton.1 hm; exact hi
  · rw [size_push]; exact h j s hs

theorem All.close {t : Terminator} (ht : t.Obeys P g.size) : (g.close t).All P := by
  intro j s hs
  rw [seg_close] at hs
  rw [size_close]
  split at hs
  · obtain ⟨s', hs', rfl⟩ := map_eq_some_iff.1 hs
    exact ⟨(h j s' hs').1, fun t' ht' => by cases ht'; exact ht⟩
  · exact h j s hs

theorem All.add : g.add.All P := by
  intro j s hs
  rw [seg_add] at hs
  rw [size_add]
  split at hs
  · cases hs
    exact ⟨by simp [OpenSegment.empty], by simp [OpenSegment.empty]⟩
  · refine ⟨(h j s hs).1, fun t ht => ⟨((h j s hs).2 t ht).event, fun x hx => ?_,
      ((h j s hs).2 t ht).valued⟩⟩
    have := ((h j s hs).2 t ht).target x hx
    omega

theorem All.jump {target next : SegmentId} (ht : target.index < g.size) :
    (g.jump target next).All P :=
  All.close h ⟨by rintro ev ⟨⟩, by simpa [Terminator.successors] using ht, by rintro ⟨⟩⟩

theorem All.branch {test : Access} (ht : P (.test test)) : (g.branch test).All P :=
  All.close h.add.add
    ⟨by rintro ev ⟨⟩; exact ht, fun s hs => by
      simp only [Terminator.successors, mem_cons, not_mem_nil, or_false] at hs
      rcases hs with rfl | rfl <;> simp only [size_add] <;> omega, by rintro ⟨⟩⟩

end Graph

theorem Shape.build_all {P : Event → Prop} {sh : Shape} {g : Graph} (ho : g.Open) (h : g.All P)
    (hs : sh.All P) : (sh.build g).All P := by
  induction sh generalizing g with
  | skip => exact h
  | emit i => exact h.push hs
  | seq first second ih1 ih2 => exact ih2 (first.frame ho).opened (ih1 ho h hs.1) hs.2
  | when test body ih =>
    have hf := (body.frame (ho.branch test)).size
    refine (ih (ho.branch test) (h.branch hs.1) hs.2).jump ?_
    simp only [Graph.size_branch] at hf ⊢
    omega
  | ifElse test onTrue onFalse ih1 ih2 =>
    have hb := ho.branch test
    have h1 := ih1 hb (h.branch hs.1) hs.2.1
    have h2 := ih2 (g := (onTrue.build (g.branch test)).goTo ⟨g.size + 1⟩)
      (ho.goElse (onTrue.frame hb)) h1 hs.2.2
    have h3 : (((onFalse.build ((onTrue.build (g.branch test)).goTo ⟨g.size + 1⟩)).add).goTo
      (onTrue.build (g.branch test)).current).All P := h2.add
    exact (h3.jump (by simp)).jump (by simp)
  | loop condition test body ih1 ih2 =>
    have hf1 := (condition.frame ho.loopHead)
    have h1 := ih1 ho.loopHead (h.add.jump (by simp)) hs.1
    have hf2 := (body.frame (hf1.opened.branch test)).size
    refine (ih2 (hf1.opened.branch test) (h1.branch hs.2.1) hs.2.2).jump ?_
    have := hf1.size
    simp only [Graph.size_branch, Graph.size_jump, Graph.size_add] at hf2 this ⊢
    omega
  | exit result =>
    refine .add (g := g.close (.leave result)) (h.close
      ⟨fun ev hev => ?_, ?_, Terminator.leave_ne result⟩)
    · rw [Terminator.event?_leave] at hev; cases hev; exact hs
    · simp [Terminator.successors_leave]

end Semcheck
