/-
  Compiling never fails.

  A program may be full of errors: they are reported, and the functions are
  lowered as far as possible.  What comes out is always accepted by `verify`,
  and refers to declarations that exist (`Table.Linked`).
-/
import Semcheck.Compilation
import Semcheck.Proofs.Ir.Verify
import Semcheck.Proofs.Lower.Program

namespace Semcheck

open List

/-! ## Verification -/

namespace Function

variable {table : Table} {f : Function}

theorem WellFormed.sound (h : f.WellFormed table) : f.Sound where
  params := h.signed.params
  types r hr hslot := by
    obtain ⟨s, hs⟩ := Ty.hasSlot_iff.1 hslot
    exact Ty.Closed.of_within (h.signed.registers r hr) s (Ty.mem_slots.2 hs)
  registers := by
    rintro r (⟨hb, rfl⟩ | ⟨hs, hi, ha, hr⟩ | @⟨segment, a, hs, ha, hr⟩)
    · exact h.signed.bindings _ hb
    · exact ((h.steps _ hs).1 _ hi).1 _ (Instruction.mem_accesses.2 ha) r hr
    · obtain ⟨-, hend⟩ := h.steps segment hs
      cases ht : segment.terminator with
      | finish | goto =>
        rw [ht] at ha
        exact ha.elim
      | ret value | branch value =>
        rw [ht] at ha hend
        obtain rfl : a = value := ha
        exact hend.event _ rfl r hr
  targets := by
    rintro s ⟨segment, hs, ht⟩
    exact (h.steps segment hs).2.target s (Terminator.mem_successors.2 ht)

end Function

theorem verifyAll_ok {table : Table} {fs : List Function} (h : ∀ f ∈ fs, f.WellFormed table)
    (index : Nat) : verifyAll index fs = .ok () := by
  induction fs generalizing index with
  | nil => rfl
  | cons f rest ih =>
    rw [verifyAll, (h f (by simp)).sound.verify]
    exact ih (fun f hf => h f (mem_cons_of_mem _ hf)) _

/-! ## References -/

/-- Every name leads to a declaration, and every struct and function that is
    mentioned in a type or a literal is declared. -/
structure Table.Linked (t : Table) : Prop where
  names : ∀ entry ∈ t.index, entry.2.Within t.structs.length t.functs.length
  fields : ∀ entry ∈ t.structs, ∀ field ∈ entry.fields, ∀ id ∈ field.type.structs,
    id.index < t.structs.length
  structs : ∀ entry ∈ t.functs, ∀ id ∈ entry.funct.structs, id.index < t.structs.length
  functs : ∀ entry ∈ t.functs, ∀ id ∈ entry.funct.functs, id.index < t.functs.length

theorem Function.WellFormed.structs {table : Table} {f : Function} (h : f.WellFormed table) :
    ∀ id ∈ f.structs, id.index < table.structs.length := by
  intro id hid
  rw [Function.structs, mem_append, mem_append] at hid
  rcases hid with (hid | hid) | hid
  · obtain ⟨r, hr, hid⟩ := mem_flatMap.1 hid
    exact (h.signed.registers r hr).struct hid
  · exact h.signed.returnType.struct hid
  · obtain ⟨segment, hs, hid⟩ := mem_flatMap.1 hid
    obtain ⟨i, hi, heq⟩ := mem_filterMap.1 hid
    split at heq
    · cases heq
      exact ((h.steps segment hs).1 _ hi).2 _ _ rfl
    · cases heq

theorem Function.WellFormed.functs {table : Table} {f : Function} (h : f.WellFormed table) :
    ∀ id ∈ f.functs, id.index < table.functs.length := by
  intro id hid
  obtain ⟨segment, hs, hid⟩ := mem_flatMap.1 hid
  obtain ⟨i, hi, heq⟩ := mem_filterMap.1 hid
  split at heq
  · cases heq
    exact ((h.steps segment hs).1 _ hi).2 _ _ rfl
  · cases heq

/-! ## Programs -/

namespace Program.Realizes

variable {strict : Bool} {o : Outline} {p : Program}

variable (h : p.Realizes strict o)
include h

theorem realized {entry : FunctEntry} (he : entry ∈ p.table.functs) :
    ∃ pending ∈ o.functs, pending.Realized p.table strict p.report p.gaveUp entry.funct := by
  obtain ⟨pending, hp, hf⟩ := h.all entry he
  obtain ⟨f, hf', hrealized⟩ := h.functs pending hp
  rw [hf] at hf'
  cases hf'
  exact ⟨pending, hp, hrealized⟩

theorem wellFormed {entry : FunctEntry} (he : entry ∈ p.table.functs) :
    entry.funct.WellFormed p.table := by
  obtain ⟨pending, -, hrealized⟩ := h.realized he
  exact hrealized.wellFormed

theorem verified : verifyAll 0 p.table.functions = .ok () :=
  verifyAll_ok (forall_mem_map.2 fun _ he => h.wellFormed he) 0

/-- What was lowered passes the check. -/
theorem finish (config : Config) : ∃ c, p.finish config = .ok c ∧ c.table = p.table ∧
    c.report = p.report.truncate config.maxErrors := by
  rw [Program.finish, h.verified]
  cases config.verify <;> exact ⟨_, rfl, rfl, rfl⟩

theorem linked : p.table.Linked where
  names := h.index
  fields entry he field hf _ hid := (h.fields entry he field hf).struct hid
  structs _ he := (h.wellFormed he).structs
  functs _ he := (h.wellFormed he).functs

end Program.Realizes

/-- What is compiled is what was lowered, with the report cut to its limit. -/
theorem compile_finished (config : Config) (files : List SourceFile) :
    ∃ program c, lowerFiles config.strict files = .ok program ∧ compile config files = .ok c ∧
      c.table = program.table ∧ c.report = program.report.truncate config.maxErrors := by
  obtain ⟨program, hlower, hrealizes⟩ := lowerFiles_spec config.strict files
  obtain ⟨c, hfinish, htable, hreport⟩ := hrealizes.finish config
  refine ⟨program, c, hlower, ?_, htable, hreport⟩
  simp only [compile, hlower, hfinish, bind, Except.bind]
  rfl

/-- **Compiling never fails.**  Whatever the files are, lowering meets neither a
    fault (a reference that leads nowhere) nor a defect, all functions are accepted
    by verification, and everything that is mentioned is declared. -/
theorem compile_ok (config : Config) (files : List SourceFile) :
    ∃ c, compile config files = .ok c ∧ verifyAll 0 c.table.functions = .ok () ∧
      c.table.Linked := by
  obtain ⟨program, c, hlower, hcompile, htable, -⟩ := compile_finished config files
  obtain ⟨_, hlower', h⟩ := lowerFiles_spec config.strict files
  cases hlower.symm.trans hlower'
  exact ⟨c, hcompile, htable ▸ h.verified, htable ▸ h.linked⟩

end Semcheck
