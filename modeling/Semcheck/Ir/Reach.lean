/-
  Which segments of a function can be reached from its entry.

  `Function.reachable` searches the segments with a list of pending ones.  Each
  step takes one segment from the list; a segment that is seen for the first
  time puts its successors on the list.  The search ends because a step either
  sees a new segment or shortens the list.
-/
import Semcheck.Ir.Function

namespace Semcheck

namespace Function

/-- The segments that may come directly after the given one. -/
def next (f : Function) (s : SegmentId) : List SegmentId :=
  match f.segment? s with
  | some segment => segment.terminator.successors
  | none => []

/-- Marking an unseen entry leaves fewer unseen ones. -/
theorem count_set_true_lt {seen : List Bool} {i : Nat} (h : seen[i]? = some false) :
    (seen.set i true).count false < seen.count false := by
  induction seen generalizing i with
  | nil => simp at h
  | cons b seen ih =>
    cases i with
    | zero => simp_all
    | succ i =>
      have := ih (by simpa using h)
      simp [List.count_cons]; omega

/-- Mark the pending segments and what can be reached from them. -/
def visit (f : Function) (seen : List Bool) : List SegmentId → List Bool
  | [] => seen
  | s :: pending =>
    if _h : seen[s.index]? = some false then
      visit f (seen.set s.index true) (f.next s ++ pending)
    else
      visit f seen pending
termination_by pending => (seen.count false, pending.length)
decreasing_by
  · exact Prod.Lex.left _ _ (count_set_true_lt _h)
  · exact Prod.Lex.right _ (Nat.lt_succ_self _)

/-- For each segment, whether it can be reached from the entry. -/
def reachable (f : Function) : List Bool :=
  f.visit (List.replicate f.segments.length false) [.entry]

end Function

end Semcheck
