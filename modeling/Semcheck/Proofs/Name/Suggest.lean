/-
  The edit distance is the least number of edits, and the suggestions are the best names.

  An edit (`Edit`) inserts, deletes or replaces one character anywhere in a text, and `Edits n`
  relates two texts if `n` edits turn one into the other.

  The rows of `distanceRow` go through both texts from the front.  On reversed texts their
  entries obey a recursion on the first characters (`alignment`), which compares the two texts
  by lining them up.  An alignment is a script of edits (`edits_alignment`), and one edit
  changes the cost of an alignment by one at most (`alignment_le_of_edit`), so that no script
  is shorter.

  The suggestions are a beginning of the list of all names that qualify (`rankedNames`).  The
  sort is stable, so this list is in the order `Outranks`.
-/
import Mathlib.Order.Bounds.Basic
import Mathlib.Data.List.Nodup
import Semcheck.Name.Suggest

namespace Semcheck

open List

/-! ## Scripts of edits -/

/-- One character is inserted, deleted or replaced. -/
inductive Edit : List Char → List Char → Prop
  | insert (before after : List Char) (c : Char) : Edit (before ++ after) (before ++ c :: after)
  | delete (before after : List Char) (c : Char) : Edit (before ++ c :: after) (before ++ after)
  | substitute (before after : List Char) (c d : Char) :
      Edit (before ++ c :: after) (before ++ d :: after)

/-- That many edits turn the first text into the second. -/
inductive Edits : Nat → List Char → List Char → Prop
  | refl (s : List Char) : Edits 0 s s
  | step {n : Nat} {s t u : List Char} : Edit s t → Edits n t u → Edits (n + 1) s u

variable {n m : Nat} {s t u : List Char}

namespace Edit

theorem symm (h : Edit s t) : Edit t s := by
  cases h with
  | insert before after c => exact .delete before after c
  | delete before after c => exact .insert before after c
  | substitute before after c d => exact .substitute before after d c

theorem cons (c : Char) (h : Edit s t) : Edit (c :: s) (c :: t) := by
  cases h with
  | insert before after d => exact .insert (c :: before) after d
  | delete before after d => exact .delete (c :: before) after d
  | substitute before after d e => exact .substitute (c :: before) after d e

theorem reverse (h : Edit s t) : Edit s.reverse t.reverse := by
  cases h with
  | insert before after c => simpa using Edit.insert after.reverse before.reverse c
  | delete before after c => simpa using Edit.delete after.reverse before.reverse c
  | substitute before after c d => simpa using Edit.substitute after.reverse before.reverse c d

end Edit

namespace Edits

theorem trans (h : Edits n s t) (h' : Edits m t u) : Edits (n + m) s u := by
  induction h with
  | refl s => rwa [Nat.zero_add]
  | step hedit _ ih => rw [Nat.add_right_comm]; exact .step hedit (ih h')

theorem symm (h : Edits n s t) : Edits n t s := by
  induction h with
  | refl s => exact .refl s
  | step hedit _ ih => exact ih.trans (.step hedit.symm (.refl _))

theorem map {f : List Char → List Char} (hf : ∀ {s t}, Edit s t → Edit (f s) (f t))
    (h : Edits n s t) : Edits n (f s) (f t) := by
  induction h with
  | refl s => exact .refl (f s)
  | step hedit _ ih => exact .step (hf hedit) ih

theorem cons (c : Char) (h : Edits n s t) : Edits n (c :: s) (c :: t) :=
  h.map (.cons c)

theorem insertions (t : List Char) : Edits t.length [] t := by
  induction t with
  | nil => exact .refl []
  | cons d t ih => exact .step (.insert [] [] d) (ih.cons d)

theorem eq_of_zero (h : Edits 0 s t) : s = t := by
  cases h
  rfl

end Edits

/-! ## Alignments -/

/-- The cost of the cheapest way to line up two texts from the front: a character that has no
    partner costs one, and so does a pair of different characters. -/
def alignment : List Char → List Char → Nat
  | [], t => t.length
  | s, [] => s.length
  | c :: s, d :: t =>
    min (min (alignment s (d :: t) + 1) (alignment (c :: s) t + 1))
      (alignment s t + if c = d then 0 else 1)
termination_by s t => s.length + t.length

@[simp] theorem alignment_nil_left (t : List Char) : alignment [] t = t.length := by
  rw [alignment]

@[simp] theorem alignment_nil_right (s : List Char) : alignment s [] = s.length := by
  cases s with
  | nil => rw [alignment]
  | cons c s => rw [alignment]; rintro ⟨⟩

/-- Lining up two texts gives a script of edits. -/
theorem edits_alignment (s t : List Char) : Edits (alignment s t) s t := by
  fun_induction alignment s t with
  | case1 t => exact .insertions t
  | case2 s => exact (Edits.insertions s).symm
  | case3 c s d t ih1 ih2 ih3 =>
    have hdelete : Edits (alignment s (d :: t) + 1) (c :: s) (d :: t) := .step (.delete [] s c) ih1
    have hinsert : Edits (alignment (c :: s) t + 1) (c :: s) (d :: t) :=
      .step (.insert [] (c :: s) d) (ih2.cons d)
    have hpair : Edits (alignment s t + if c = d then 0 else 1) (c :: s) (d :: t) := by
      split
      · next heq => exact heq ▸ ih3.cons c
      · exact .step (.substitute [] s c d) (ih3.cons d)
    exact min_rec' (Edits · _ _) (min_rec' (Edits · _ _) hdelete hinsert) hpair

theorem alignment_cons_left_le (c : Char) (s t : List Char) :
    alignment (c :: s) t ≤ alignment s t + 1 := by
  cases t with
  | nil => simp
  | cons d t => rw [alignment]; omega

theorem alignment_cons_right_le (d : Char) (s t : List Char) :
    alignment s (d :: t) ≤ alignment s t + 1 := by
  cases s with
  | nil => simp
  | cons c s => rw [alignment]; omega

theorem alignment_le_cons_left (c : Char) (s t : List Char) :
    alignment s t ≤ alignment (c :: s) t + 1 := by
  induction t with
  | nil => simp; omega
  | cons d t ih =>
    have := alignment_cons_right_le d s t
    rw [alignment]; omega

theorem alignment_replace_le (c d : Char) (s t : List Char) :
    alignment (c :: s) t ≤ alignment (d :: s) t + 1 := by
  induction t with
  | nil => simp
  | cons e t ih => rw [alignment, alignment]; split <;> omega

theorem alignment_cons_mono (c : Char) (h : ∀ t, alignment s t ≤ alignment u t + 1)
    (t : List Char) : alignment (c :: s) t ≤ alignment (c :: u) t + 1 := by
  induction t with
  | nil => simpa using h []
  | cons d t ih =>
    have := h t
    have := h (d :: t)
    rw [alignment, alignment]; omega

theorem alignment_append_mono (before : List Char) (h : ∀ t, alignment s t ≤ alignment u t + 1) :
    ∀ t, alignment (before ++ s) t ≤ alignment (before ++ u) t + 1 := by
  induction before with
  | nil => exact h
  | cons c before ih => exact alignment_cons_mono c ih

/-- One edit saves one at most. -/
theorem alignment_le_of_edit (h : Edit s u) : ∀ t, alignment s t ≤ alignment u t + 1 := by
  cases h with
  | insert before after c => exact alignment_append_mono before (alignment_le_cons_left c after)
  | delete before after c => exact alignment_append_mono before (alignment_cons_left_le c after)
  | substitute before after c d =>
    exact alignment_append_mono before (alignment_replace_le c d after)

theorem alignment_self (s : List Char) : alignment s s = 0 := by
  induction s with
  | nil => simp
  | cons c s ih => rw [alignment]; simp [ih]

/-- No script is shorter than the alignment. -/
theorem alignment_le_of_edits (h : Edits n s t) : alignment s t ≤ n := by
  induction h with
  | refl s => exact Nat.le_of_eq (alignment_self s)
  | step hedit _ ih => exact (alignment_le_of_edit hedit _).trans (Nat.succ_le_succ ih)

/-! ## Rows -/

/-- The alignments of a text with the texts that grow from `done` to the end of `rest`, both
    reversed; `done` itself apart. -/
def alignmentRow (s done : List Char) : List Char → List Nat
  | [] => []
  | d :: rest => alignment s (d :: done) :: alignmentRow s (d :: done) rest

theorem rowFrom_alignmentRow (c : Char) (s done rest : List Char) :
    rowFrom c rest (alignment s done) (alignment (c :: s) done) (alignmentRow s done rest) =
      alignmentRow (c :: s) done rest := by
  induction rest generalizing done with
  | nil => rfl
  | cons d rest ih =>
    have hentry : min (min (alignment s (d :: done) + 1) (alignment (c :: s) done + 1))
        (alignment s done + if c = d then 0 else 1) = alignment (c :: s) (d :: done) := by
      rw [alignment]
    rw [alignmentRow, alignmentRow, rowFrom, hentry, ih]

theorem range'_eq_alignmentRow (done rest : List Char) :
    range' (done.length + 1) rest.length = alignmentRow [] done rest := by
  induction rest generalizing done with
  | nil => rfl
  | cons d rest ih =>
    rw [length_cons, range'_succ, alignmentRow, alignment_nil_left, ← ih]
    rfl

/-- Each further character of the source takes the row of a text to the row of a longer one. -/
theorem foldl_nextRow (s source target : List Char) :
    source.foldl (nextRow target) (alignment s [] :: alignmentRow s [] target) =
      alignment (source.reverse ++ s) [] :: alignmentRow (source.reverse ++ s) [] target := by
  induction source generalizing s with
  | nil => rfl
  | cons c source ih =>
    have hnext : nextRow target (alignment s [] :: alignmentRow s [] target) c =
        alignment (c :: s) [] :: alignmentRow (c :: s) [] target := by
      rw [← rowFrom_alignmentRow]
      simp [nextRow]
    rw [foldl_cons, hnext, ih, reverse_cons, append_assoc, singleton_append]

theorem getLastD_alignmentRow (s done rest : List Char) :
    (alignmentRow s done rest).getLastD (alignment s done) =
      alignment s (rest.reverse ++ done) := by
  induction rest generalizing done with
  | nil => rfl
  | cons d rest ih => rw [alignmentRow, getLastD_cons, ih]; simp

theorem editDistance_eq (source target : String) : editDistance source target =
    alignment source.toList.reverse target.toList.reverse := by
  -- the row of the empty text starts the fold
  have hrow : distanceRow [] target.toList =
      alignment [] [] :: alignmentRow [] [] target.toList := by
    rw [distanceRow, foldl_nil, range_eq_range', range'_succ, ← range'_eq_alignmentRow,
      alignment_nil_left, length_nil]
  rw [editDistance, distanceRow]
  rw [distanceRow, foldl_nil] at hrow
  rw [hrow, foldl_nextRow, getLastD_cons, getLastD_alignmentRow, append_nil, append_nil]

/-- The distance is the least length of a script. -/
theorem isLeast_editDistance (s t : String) :
    IsLeast {n | Edits n s.toList t.toList} (editDistance s t) := by
  rw [editDistance_eq]
  constructor
  · simpa using (edits_alignment s.toList.reverse t.toList.reverse).map .reverse
  · exact fun n h => alignment_le_of_edits (.map .reverse h)

/-- **The edit distance** of two texts is the least number of insertions, deletions and
    substitutions of single characters that turn one into the other.  It is a metric. -/
theorem editDistance_exact (s t : String) :
    IsLeast {n | Edits n s.toList t.toList} (editDistance s t) ∧
      (editDistance s t = 0 ↔ s = t) ∧ editDistance s t = editDistance t s ∧
        ∀ u, editDistance s u ≤ editDistance s t + editDistance t u := by
  have hleast := isLeast_editDistance
  refine ⟨hleast s t, ⟨fun h => ?_, ?_⟩, ?_, fun u => ?_⟩
  · exact String.toList_inj.1 (h ▸ (hleast s t).1 : Edits 0 _ _).eq_of_zero
  · rintro rfl
    exact Nat.le_zero.1 ((hleast s s).2 (.refl _))
  · exact Nat.le_antisymm ((hleast s t).2 (hleast t s).1.symm) ((hleast t s).2 (hleast s t).1.symm)
  · exact (hleast s u).2 ((hleast s t).1.trans (hleast t u).1)

/-! ## First occurrences -/

section Lists

variable {α : Type} {l : List α} {a b : α} (key : α → Nat)

theorem pairwise_mergeSort_key (l : List α) :
    (l.mergeSort fun a b => key a ≤ key b).Pairwise fun a b => key a ≤ key b := by
  simpa using @pairwise_mergeSort α (fun a b => key a ≤ key b) (by grind) (by grind) l

/-- Sorting by a key leaves the entries with one key in their order. -/
theorem filter_mergeSort (k : Nat) (l : List α) :
    (l.mergeSort fun a b => key a ≤ key b).filter (fun a => key a = k) =
      l.filter fun a => key a = k := by
  have hsub : (l.filter fun a => key a = k).Sublist (l.mergeSort fun a b => key a ≤ key b) := by
    refine sublist_mergeSort (by grind) (by grind) ?_ filter_sublist
    exact pairwise_of_forall_mem_list (by grind)
  have hfilter := hsub.filter fun a => key a = k
  simp only [filter_filter, Bool.and_self] at hfilter
  exact (hfilter.eq_of_length ((mergeSort_perm l _).filter _).length_eq.symm).symm

variable [DecidableEq α]

/-- Leaving out other entries does not change which of two entries comes first. -/
theorem idxOf_filter_lt {p : α → Bool} (ha : p a) (hb : p b) :
    (l.filter p).idxOf a < (l.filter p).idxOf b ↔ l.idxOf a < l.idxOf b := by
  induction l with
  | nil => simp
  | cons x l ih =>
    by_cases hx : p x
    · rw [filter_cons_of_pos hx]
      simp only [idxOf_cons]
      cases x == a <;> cases x == b <;> simp [ih]
    · have hne : x ≠ a ∧ x ≠ b := ⟨fun h => hx (h ▸ ha), fun h => hx (h ▸ hb)⟩
      rw [filter_cons_of_neg hx, ih, idxOf_cons_ne _ hne.1, idxOf_cons_ne _ hne.2,
        Nat.succ_lt_succ_iff]

/-- Without repetitions, the entries are in the order of their first occurrences. -/
theorem pairwise_eraseDups (l : List α) :
    l.eraseDups.Pairwise fun a b => l.idxOf a < l.idxOf b := by
  cases l with
  | nil => exact .nil
  | cons x l =>
    have hother : ∀ {a}, a ∈ (l.filter fun b => !b == x).eraseDups → (!a == x) = true :=
      fun ha => (mem_filter.1 (mem_eraseDups.1 ha)).2
    have hindex : ∀ {a}, (!a == x) = true → (x :: l).idxOf a = l.idxOf a + 1 :=
      fun ha => idxOf_cons_ne _ (by rintro rfl; simp at ha)
    rw [eraseDups_cons]
    refine .cons (fun a ha => ?_) ((pairwise_eraseDups _).imp_of_mem fun ha hb h => ?_)
    · rw [idxOf_cons_self, hindex (hother ha)]
      exact Nat.succ_pos _
    · rw [hindex (hother ha), hindex (hother hb)]
      refine Nat.succ_lt_succ ((idxOf_filter_lt ?_ ?_).1 h)
      · exact hother ha
      · exact hother hb
termination_by l.length
decreasing_by exact Nat.lt_succ_of_le (length_filter_le ..)

/-- Of two entries of a sorted list, the one that comes first has the smaller key, or the same
    key and came first already. -/
theorem key_of_idxOf_mergeSort {a b : α}
    (h : (l.mergeSort fun a b => key a ≤ key b).idxOf a <
      (l.mergeSort fun a b => key a ≤ key b).idxOf b)
    (hb : b ∈ l) : key a < key b ∨ key a = key b ∧ l.idxOf a < l.idxOf b := by
  -- a tie is decided among the entries with the key of `b`, whose order the sort keeps
  generalize hsorted : l.mergeSort (fun a b => key a ≤ key b) = sorted at h
  have hmem : sorted.idxOf b < sorted.length :=
    idxOf_lt_length_iff.2 (by simpa [← hsorted] using hb)
  have hpairs := pairwise_iff_getElem.1 (hsorted ▸ pairwise_mergeSort_key key l)
  have hle : key a ≤ key b := by simpa using hpairs _ _ (h.trans hmem) hmem h
  refine (Nat.lt_or_eq_of_le hle).imp_right fun heq => ⟨heq, ?_⟩
  have hfilter (l : List α) : (l.filter fun x => key x = key b).idxOf a <
      (l.filter fun x => key x = key b).idxOf b ↔ l.idxOf a < l.idxOf b :=
    idxOf_filter_lt (by simpa using heq) (by simp)
  rw [← hfilter, ← filter_mergeSort key, hsorted, hfilter]
  exact h

end Lists

/-! ## The best suggestions -/

/-- The name may be suggested for the target. -/
def Suggestible (target : String) (available : List String) (name : String) : Prop :=
  name ∈ available ∧ name ≠ target ∧ editDistance target name ≤ max 1 (target.length / 3)

/-- The first name is the better suggestion: it is closer to the target, or as close and
    earlier in the list. -/
def Outranks (target : String) (available : List String) (first second : String) : Prop :=
  editDistance target first < editDistance target second ∨
    editDistance target first = editDistance target second ∧
      available.idxOf first < available.idxOf second

variable (target : String) (available : List String)

/-- All names that may be suggested, the best first. -/
def rankedNames : List String :=
  ((available.filter fun name =>
      editDistance target name ≤ suggestionLimit target ∧ name ≠ target).mergeSort
    fun a b => editDistance target a ≤ editDistance target b).eraseDups

theorem suggest_eq : suggest target available = (rankedNames target available).take 3 := by
  rw [suggest, closeNames, filter_map, filter_filter,
    ← map_mergeSort (r := fun a b => editDistance target a ≤ _) (fun _ _ _ _ => rfl), map_map]
  simp [rankedNames, Function.comp_def]

theorem mem_rankedNames {name : String} :
    name ∈ rankedNames target available ↔ Suggestible target available name := by
  rw [rankedNames, mem_eraseDups, mem_mergeSort, mem_filter, suggestionLimit, Nat.max_comm,
    String.length_toList]
  simp [Suggestible, and_comm]

theorem pairwise_rankedNames :
    (rankedNames target available).Pairwise (Outranks target available) := by
  rw [rankedNames]
  refine (pairwise_eraseDups _).imp_of_mem fun ha hb h => ?_
  rw [mem_eraseDups, mem_mergeSort] at ha hb
  refine (key_of_idxOf_mergeSort _ h hb).imp_right (.imp_right fun h => ?_)
  refine (idxOf_filter_lt ?_ ?_).1 h
  · exact (mem_filter.1 ha).2
  · exact (mem_filter.1 hb).2

/-- **The suggestions** are the best three names: at most three different names that qualify, the
    best first, and whatever else qualifies is outranked by three of them. -/
theorem suggest_exact :
    (suggest target available).length ≤ 3 ∧ (suggest target available).Nodup ∧
      (∀ name ∈ suggest target available, Suggestible target available name) ∧
      (suggest target available).Pairwise (Outranks target available) ∧
      ∀ name, Suggestible target available name → name ∉ suggest target available →
        (suggest target available).length = 3 ∧
          ∀ better ∈ suggest target available, Outranks target available better name := by
  rw [suggest_eq]
  have hsorted := pairwise_rankedNames target available
  have hirrefl : ∀ name, ¬ Outranks target available name name := by simp [Outranks]
  rw [← take_append_drop 3 (rankedNames target available), pairwise_append] at hsorted
  refine ⟨length_take_le .., ?_, fun name h => ?_, hsorted.1, fun name h hout => ?_⟩
  · refine hsorted.1.imp ?_
    rintro name _ h rfl
    exact hirrefl name h
  · exact (mem_rankedNames _ _).1 (mem_of_mem_take h)
  · rw [← mem_rankedNames, ← take_append_drop 3 (rankedNames target available), mem_append] at h
    have hdrop := h.resolve_left hout
    refine ⟨?_, fun better hb => hsorted.2.2 _ hb _ hdrop⟩
    have hlength := length_pos_of_mem hdrop
    rw [length_drop] at hlength
    rw [length_take]
    omega

end Semcheck
