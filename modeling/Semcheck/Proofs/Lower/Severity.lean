/-
  Every diagnostic of lowering is an error.

  Lowering reports nothing of a lower severity (`Report.Severe`), so that a
  program without errors is one without diagnostics, and the first diagnostics
  of a report tell as much as all of them (`Report.Severe.hasErrors_truncate`).
-/
import Semcheck.Proofs.Lower.Located

namespace Semcheck

open List

/-! ## Reports -/

namespace Report

variable {r : Report}

/-- Every diagnostic is an error. -/
def Severe (r : Report) : Prop :=
  ∀ d ∈ r.entries, d.isError = true

theorem Severe.hasErrors_iff (h : r.Severe) : r.hasErrors = true ↔ r.entries ≠ [] := by
  rw [hasErrors, any_eq_true]
  constructor
  · rintro ⟨d, hd, -⟩
    exact ne_nil_of_mem hd
  · intro hne
    obtain ⟨d, hd⟩ := exists_mem_of_ne_nil _ hne
    exact ⟨d, hd, h d hd⟩

theorem Severe.truncate (h : r.Severe) (limit : Option Nat) : (r.truncate limit).Severe := by
  cases limit with
  | none => exact h
  | some n => exact fun d hd => h d (mem_of_mem_take hd)

/-- Only a limit of zero hides that there are errors. -/
theorem Severe.hasErrors_truncate (h : r.Severe) (limit : Option Nat) :
    (r.truncate limit).hasErrors = true ↔ r.hasErrors = true ∧ limit ≠ some 0 := by
  rw [(h.truncate limit).hasErrors_iff, h.hasErrors_iff]
  cases limit with
  | none => simp [Report.truncate]
  | some n =>
    simp only [Report.truncate, ne_eq, take_eq_nil_iff, not_or, Option.some.injEq]
    exact and_comm

end Report

/-- **Every diagnostic of lowering is an error.** -/
theorem lowerFiles_severe {strict : Bool} {files : List SourceFile} {p : Program}
    (hrun : lowerFiles strict files = .ok p) : p.report.Severe :=
  fun d hd => decide_eq_true (lowerFiles_points hrun d hd).error

end Semcheck
