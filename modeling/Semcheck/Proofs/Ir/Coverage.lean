/-
  Code without dead segments.

  The search for reachable segments comes to an end and finds what paths lead to
  (`Function.reachable_exact`).  It misses nothing: what it has seen leads only to segments
  that are seen or pending (`Function.Pursues`), and in the end nothing is pending.

  Code whose shape nowhere leaves the function (`Event.Inner`) goes on wherever it is
  put together, so that a path leads to every segment that is built (`Shape.covers`).
  All segments of a function made from it are reachable, and the last one is its only
  exit (`Function.MadeFrom.reachable_eq`, `Function.MadeFrom.exists_unique_exit`).
-/
import Mathlib.Data.List.Basic
import Semcheck.Ir.Reach
import Semcheck.Proofs.Ir.Paths

namespace Semcheck

open List Semcheck.Graph Option

/-! ## The search -/

namespace Function

variable {f : Function} {seen : List Bool} {pending : List SegmentId} {s t : SegmentId}

/-- The search has not come to the segment. -/
def Unseen (seen : List Bool) (s : SegmentId) : Prop :=
  seen[s.index]? = some false

/-- What has been seen leads only to segments that are seen or pending. -/
def Pursues (f : Function) (seen : List Bool) (pending : List SegmentId) : Prop :=
  ∀ s, ¬ Unseen seen s → ∀ t ∈ f.next s, t ∈ pending ∨ ¬ Unseen seen t

theorem unseen_set : Unseen (seen.set s.index true) t ↔ t ≠ s ∧ Unseen seen t := by
  have hindex : s.index = t.index ↔ t = s := by
    cases s
    cases t
    simp [eq_comm]
  rw [Unseen, getElem?_set]
  by_cases h : s.index = t.index
  · simp [h, hindex.1 h]
  · simp [h, mt hindex.2 h, Unseen]

/-- The successors of a segment that is seen become pending. -/
theorem Pursues.see (h : f.Pursues seen (s :: pending)) :
    f.Pursues (seen.set s.index true) (f.next s ++ pending) := by
  intro x hx t ht
  rw [unseen_set, not_and'] at hx
  by_cases hunseen : Unseen seen x
  · obtain rfl := not_not.1 (hx hunseen)
    exact .inl (mem_append_left _ ht)
  · rcases h x hunseen t ht with hmem | hseen
    · rcases mem_cons.1 hmem with rfl | hmem
      · exact .inr fun h => (unseen_set.1 h).1 rfl
      · exact .inl (mem_append_right _ hmem)
    · exact .inr fun h => hseen (unseen_set.1 h).2

theorem Pursues.skip (h : f.Pursues seen (s :: pending)) (hs : ¬ Unseen seen s) :
    f.Pursues seen pending := by
  intro x hx t ht
  rcases h x hx t ht with hmem | hseen
  · rcases mem_cons.1 hmem with rfl | hmem
    · exact .inr hs
    · exact .inl hmem
  · exact .inr hseen

theorem length_visit : (f.visit seen pending).length = seen.length := by
  fun_induction f.visit seen pending with
  | case1 seen => rfl
  | case2 seen s pending hs ih => rw [ih, length_set]
  | case3 seen s pending hs ih => exact ih

/-- The search comes to what is pending, and does not forget. -/
theorem unseen_of_visit (h : Unseen (f.visit seen pending) t) : Unseen seen t ∧ t ∉ pending := by
  fun_induction f.visit seen pending with
  | case1 seen => exact ⟨h, not_mem_nil⟩
  | case2 seen s pending hs ih =>
    obtain ⟨hunseen, hmem⟩ := ih h
    obtain ⟨hne, hunseen⟩ := unseen_set.1 hunseen
    rw [mem_append, not_or] at hmem
    exact ⟨hunseen, not_mem_cons_of_ne_of_not_mem hne hmem.2⟩
  | case3 seen s pending hs ih =>
    obtain ⟨hunseen, hmem⟩ := ih h
    refine ⟨hunseen, not_mem_cons_of_ne_of_not_mem ?_ hmem⟩
    rintro rfl
    exact hs hunseen

/-- In the end nothing is pending. -/
theorem Pursues.visit (h : f.Pursues seen pending) : f.Pursues (f.visit seen pending) [] := by
  fun_induction f.visit seen pending with
  | case1 seen => exact h
  | case2 seen s pending hs ih => exact ih h.see
  | case3 seen s pending hs ih => exact ih (h.skip hs)

theorem length_reachable (f : Function) : f.reachable.length = f.segments.length := by
  rw [reachable, length_visit, length_replicate]

theorem entry_reachable (f : Function) : ¬ Unseen f.reachable .entry :=
  fun h => (unseen_of_visit h).2 mem_cons_self

theorem next_reachable (hs : ¬ Unseen f.reachable s) (ht : t ∈ f.next s) :
    ¬ Unseen f.reachable t := by
  have hstart : f.Pursues (replicate f.segments.length false) [.entry] := by
    intro s hs t ht
    have hge : f.segments.length ≤ s.index := by
      by_contra hlt
      exact hs (by simp [Unseen, Nat.not_le.1 hlt])
    rw [next, segment?, getElem?_eq_none hge] at ht
    cases ht
  exact (hstart.visit s hs t ht).resolve_left not_mem_nil

/-- The search takes one pending segment after the other, and ends with the marks `found`. -/
inductive Searches (f : Function) : List Bool → List SegmentId → List Bool → Prop
  | done {found : List Bool} : Searches f found [] found
  | see {seen found : List Bool} {s : SegmentId} {pending : List SegmentId} (h : Unseen seen s)
      (hrest : Searches f (seen.set s.index true) (f.next s ++ pending) found) :
      Searches f seen (s :: pending) found
  | skip {seen found : List Bool} {s : SegmentId} {pending : List SegmentId}
      (h : ¬ Unseen seen s) (hrest : Searches f seen pending found) :
      Searches f seen (s :: pending) found

theorem visit_searches : f.Searches seen pending (f.visit seen pending) := by
  fun_induction f.visit seen pending with
  | case1 seen => exact .done
  | case2 seen s pending hs ih => exact .see hs ih
  | case3 seen s pending hs ih => exact .skip hs ih

/-- The segment `t` comes directly behind the segment `s`, and both exist. -/
def Precedes (f : Function) (s t : SegmentId) : Prop :=
  ∃ a b, f.segment? s = some a ∧ f.segment? t = some b ∧ t ∈ a.terminator.successors

/-- The segment exists, and a path through existing segments leads to it from the entry. -/
def Reaches (f : Function) (s : SegmentId) : Prop :=
  (f.segment? s).isSome ∧ Relation.ReflTransGen f.Precedes .entry s

theorem Reaches.next (hs : f.Reaches s) (ht : t ∈ f.next s) (hexists : (f.segment? t).isSome) :
    f.Reaches t := by
  obtain ⟨a, ha⟩ := isSome_iff_exists.1 hs.1
  obtain ⟨b, hb⟩ := isSome_iff_exists.1 hexists
  simp only [Function.next, ha] at ht
  exact ⟨hexists, hs.2.tail ⟨a, b, ha, hb, ht⟩⟩

/-- If paths lead to what is seen and to what is pending, they lead to what is found. -/
theorem Searches.sound {found : List Bool} (h : f.Searches seen pending found)
    (hlength : seen.length = f.segments.length)
    (hseen : ∀ s : SegmentId, seen[s.index]? = some true → f.Reaches s)
    (hpending : ∀ s ∈ pending, (f.segment? s).isSome → f.Reaches s) :
    ∀ s : SegmentId, found[s.index]? = some true → f.Reaches s := by
  induction h with
  | done => exact hseen
  | @see seen found s pending h _ ih =>
    have hexists : (f.segment? s).isSome := by
      simpa [segment?, ← hlength] using (List.getElem?_eq_some_iff.1 h).1
    have hs := hpending s mem_cons_self hexists
    refine ih (by simpa using hlength) (fun t ht => ?_) fun t ht ht' => ?_
    · by_cases he : t = s
      · exact he ▸ hs
      · refine hseen t ?_
        have hne : s.index ≠ t.index := fun hi => he (by cases s; cases t; simp_all)
        rwa [getElem?_set_ne hne] at ht
    · rcases mem_append.1 ht with ht | ht
      · exact hs.next ht ht'
      · exact hpending t (mem_cons_of_mem _ ht) ht'
  | skip h _ ih => exact ih hlength hseen fun s hs => hpending s (mem_cons_of_mem _ hs)

theorem path_reachable (h : Relation.ReflTransGen f.Precedes .entry s) :
    ¬ Unseen f.reachable s := by
  induction h with
  | refl => exact entry_reachable f
  | tail _ hstep ih =>
    obtain ⟨a, b, ha, -, ht⟩ := hstep
    exact next_reachable ih (by simpa [next, ha] using ht)

/-- **The search finds exactly what can be reached.**  It comes to an end, and marks a
    segment if and only if the segment exists and a path through existing segments leads to it
    from the entry. -/
theorem reachable_exact (f : Function) :
    f.Searches (List.replicate f.segments.length false) [.entry] f.reachable ∧
      f.reachable.length = f.segments.length ∧
      ∀ i, f.reachable[i]? = some true ↔ f.Reaches ⟨i⟩ := by
  refine ⟨visit_searches, length_reachable f, fun i => ⟨fun h => ?_, fun ⟨hexists, hpath⟩ => ?_⟩⟩
  · refine visit_searches.sound (by simp) (by simp [List.getElem?_replicate]) ?_ ⟨i⟩ h
    rintro s hs hexists
    obtain rfl := List.mem_singleton.1 hs
    exact ⟨hexists, .refl⟩
  · have hseen := path_reachable hpath
    have hlt : i < f.reachable.length := by
      simpa [length_reachable, segment?] using hexists
    rw [Unseen, List.getElem?_eq_getElem hlt, Option.some.injEq, Bool.not_eq_false] at hseen
    rw [List.getElem?_eq_getElem hlt, hseen]

end Function

/-! ## Code that goes on -/

/-- The step does not leave the function. -/
def Event.Inner (ev : Event) : Prop :=
  ∀ result, ev ≠ .exit result

theorem Terminator.Obeys.successors_ne {t : Terminator} {n : Nat} (h : t.Obeys Event.Inner n) :
    t.successors ≠ [] := by
  cases t with
  | finish => exact absurd rfl (h.event _ rfl .discard)
  | ret value => exact absurd rfl (h.event _ rfl value)
  | goto target => exact cons_ne_nil _ _
  | branch test onTrue onFalse => exact cons_ne_nil _ _

namespace Graph

variable {g g' : Graph} {n : Nat}

/-- Paths lead to each of the first `n` segments. -/
def Covers (g : Graph) (n : Nat) : Prop :=
  ∀ j < n, ∃ h, g.Enters j h

theorem Covers.succ (hc : g.Covers n) {h : History} (he : g.Enters n h) : g.Covers (n + 1) := by
  intro j hj
  rcases Nat.lt_succ_iff_lt_or_eq.1 hj with hlt | rfl
  · exact hc j hlt
  · exact ⟨h, he⟩

theorem Covers.passes (hc : g'.Covers g.size) (ho : g.Open) : ∃ h, g'.Passes g h := by
  obtain ⟨past, he⟩ := hc _ ho.lt
  obtain ⟨s, hs, -⟩ := ho
  exact ⟨_, past, s, he, hs, rfl⟩

theorem Covers.branch (hc : g'.Covers g.size) (ho : g.Open) {test : Access}
    (hclosed : (g.branch test).Closes g') : g'.Covers (g.branch test).size := by
  obtain ⟨h, hp⟩ := hc.passes ho
  obtain ⟨⟨past, s, hfirst, -⟩, hsecond⟩ := hp.branch ho hclosed
  rw [size_branch]
  exact (hc.succ hfirst).succ hsecond

end Graph

namespace Shape

/-- Paths lead to the new segments if they lead to the old ones. -/
def Extends (sh : Shape) : Prop :=
  ∀ {g g' : Graph}, g.Open → (sh.build g).Closes g' → g'.Covers g.size →
    g'.Covers (sh.build g).size

theorem extends_seq {first second : Shape} (ih1 : first.Extends) (ih2 : second.Extends) :
    (seq first second).Extends := by
  intro g g' ho hclosed hc
  have ho1 := (first.frame ho).opened
  exact ih2 ho1 hclosed (ih1 ho (((second.frame ho1).closes ho1).trans hclosed) hc)

theorem extends_when {test : Access} {body : Shape} (ih : body.Extends) :
    (when test body).Extends := by
  intro g g' ho hclosed hc
  have hb := ho.branch test
  have hf := body.frame hb
  have hbody : (body.build (g.branch test)).Closes g' := (hf.opened.closes_close _).trans hclosed
  rw [build, size_jump]
  exact ih hb hbody (hc.branch ho ((hf.closes hb).trans hbody))

theorem extends_ifElse {test : Access} {onTrue onFalse : Shape} (ih1 : onTrue.Extends)
    (ih2 : onFalse.Extends) : (ifElse test onTrue onFalse).Extends := by
  intro g g' ho hclosed hc
  have hb := ho.branch test
  have hf1 := onTrue.frame hb
  have ho2 := ho.goElse hf1
  obtain ⟨hthen, helse⟩ := closes_ifElse ho hclosed
  have hthenCovers := ih1 hb hthen (hc.branch ho ((hf1.closes hb).trans hthen))
  have helseCovers := ih2 ho2 helse hthenCovers
  obtain ⟨h, hp⟩ := helseCovers.passes (onFalse.frame ho2).opened
  simpa [build] using helseCovers.succ (enters_join ho hclosed (.inr hp))

theorem extends_loop {condition body : Shape} {test : Access} (ih1 : condition.Extends)
    (ih2 : body.Extends) : (loop condition test body).Extends := by
  intro g g' ho hclosed hc
  have ho1 := (condition.frame ho.loopHead).opened
  obtain ⟨hcondition, htest, hbody⟩ := closes_loop ho hclosed
  obtain ⟨h, hp⟩ := hc.passes ho
  have hheadCovers := hc.succ (enters_head ho hclosed hp)
  have htestedCovers := ih1 ho.loopHead hcondition (by simpa using hheadCovers)
  rw [build, size_jump]
  exact ih2 (ho1.branch test) hbody (htestedCovers.branch ho1 htest)

/-- **Code that goes on has no dead segments.** -/
theorem covers {sh : Shape} (hsh : sh.All Event.Inner) : sh.Extends := by
  induction sh with
  | skip => exact fun _ _ hc => hc
  | emit i => exact fun _ _ hc => by simpa [build] using hc
  | seq first second ih1 ih2 => exact extends_seq (ih1 hsh.1) (ih2 hsh.2)
  | when test body ih => exact extends_when (ih hsh.2)
  | ifElse test onTrue onFalse ih1 ih2 => exact extends_ifElse (ih1 hsh.2.1) (ih2 hsh.2.2)
  | loop condition test body ih1 ih2 => exact extends_loop (ih1 hsh.1) (ih2 hsh.2.2)
  | exit result => exact absurd rfl (hsh result)

end Shape

/-! ## Functions made from it -/

namespace Function.MadeFrom

variable {f : Function} {g : Graph}

theorem reachable_of_enters (hf : f.MadeFrom g) {j : Nat} {h : History} (he : g.Enters j h) :
    ¬ Unseen f.reachable ⟨j⟩ := by
  induction he with
  | entry => exact f.entry_reachable
  | @jump j _ s t x _ hs ht hx ih =>
    have hsegment : f.segment? ⟨j⟩ = some ⟨s.instructions, t⟩ := by
      rw [segment?, hf j, hs]
      simp [OpenSegment.finish?, ht]
    exact next_reachable ih (by rw [next, hsegment]; exact hx)

variable {sh : Shape} {result : Access}

theorem reachable_eq (hf : f.MadeFrom ((sh.build .start).close (.leave result)))
    (hsh : sh.All Event.Inner) : f.reachable = replicate f.segments.length true := by
  have hopen := (sh.frame start_open).opened
  have hcovers : ((sh.build .start).close (.leave result)).Covers (sh.build .start).size := by
    refine Shape.covers hsh start_open (hopen.closes_close _) fun j hj => ?_
    obtain rfl : j = 0 := by simpa [Graph.size, Graph.start] using hj
    exact ⟨[], .entry⟩
  refine eq_replicate_iff.2 ⟨length_reachable f, fun marked hmem => ?_⟩
  obtain ⟨j, hj⟩ := mem_iff_getElem?.1 hmem
  have hlt : j < f.segments.length := length_reachable f ▸ (List.getElem?_eq_some_iff.1 hj).1
  have hseg := hf.segment (s := ⟨j⟩) (getElem?_eq_getElem hlt)
  obtain ⟨h, he⟩ := hcovers j (by simpa using seg_lt hseg)
  have hseen := hf.reachable_of_enters he
  rw [Unseen, hj] at hseen
  simpa using hseen

/-- The last segment is the only one without a successor. -/
theorem exists_unique_exit (hf : f.MadeFrom ((sh.build .start).close (.leave result)))
    (hsh : sh.All Event.Inner) :
    ∃! s, ∃ segment, f.segment? s = some segment ∧ segment.terminator.successors = [] := by
  obtain ⟨last, hlast, -⟩ := (sh.frame start_open).opened
  have hall := Shape.build_all start_open start_all hsh
  refine ⟨(sh.build .start).current, ⟨⟨last.instructions, .leave result⟩, ?_,
    Terminator.successors_leave result⟩, ?_⟩
  · rw [segment?, hf, seg_close, if_pos rfl, hlast]
    rfl
  · rintro s ⟨segment, hs, hnone⟩
    have hseg := hf.segment hs
    rw [seg_close] at hseg
    split at hseg
    · rename_i hindex
      cases s
      cases hindex
      rfl
    · exact absurd hnone (((hall _ _ hseg).2 _ rfl).successors_ne)

end Function.MadeFrom

end Semcheck
