/-
  Verification accepts exactly the sound functions.

  What a function mentions is said here apart from the lists that `verify` goes through, with one
  rule for each place where a register (`Function.Mentions`) or a segment (`Function.Targets`) can
  stand; `Ty.HasSlot` says where a type can have an open part.  A function is sound
  (`Function.Sound`) if its parameters are registers, its register types have no open part and
  everything it mentions exists, and `Function.Violates` says what it means that a defect is real.

  Each check is judged (`Judges`): if it passes, its part of soundness holds, and the defect it
  reports is real.
-/
import Semcheck.Ir.Verify
import Semcheck.Proofs.Ty.Subst

namespace Semcheck

open Terminator List

/-! ## What a function mentions -/

/-- The type is a slot, or a slot stands somewhere inside it. -/
inductive Ty.HasSlot : Ty → Prop
  | slot (s : Slot) : HasSlot (.slot s)
  | pointee {m : Bool} {t : Ty} : t.HasSlot → HasSlot (.pointer m t)
  | param {ps : List Ty} {p r : Ty} : p ∈ ps → p.HasSlot → HasSlot (.funct ps r)
  | result {ps : List Ty} {r : Ty} : r.HasSlot → HasSlot (.funct ps r)
  | resultAny {r : Ty} : r.HasSlot → HasSlot (.functAny r)
  | element {ts : List Ty} {t : Ty} : t ∈ ts → t.HasSlot → HasSlot (.tuple ts)

/-- The access is an operand, the callee, an argument or the destination. -/
def Instruction.Mentions (a : Access) : Instruction → Prop
  | .literal (.tuple elements) dest => a ∈ elements ∨ a = dest
  | .literal (.struct _ fields) dest => a ∈ fields ∨ a = dest
  | .literal _ dest => a = dest
  | .move source dest | .address source _ dest => a = source ∨ a = dest
  | .call callee args dest => a = callee ∨ a ∈ args ∨ a = dest

/-- The access is the returned value or the condition. -/
def Terminator.Mentions (a : Access) : Terminator → Prop
  | .ret value => a = value
  | .branch condition _ _ => a = condition
  | .finish | .goto _ => False

/-- The segment may come next. -/
def Terminator.Targets (s : SegmentId) : Terminator → Prop
  | .goto target => s = target
  | .branch _ onTrue onFalse => s = onTrue ∨ s = onFalse
  | .finish | .ret _ => False

namespace Function

/-- The register is mentioned by a name, an instruction or a terminator. -/
inductive Mentions (f : Function) (r : RegisterId) : Prop
  | binding {b} : b ∈ f.bindings → b.register = r → f.Mentions r
  | instruction {segment i a} : segment ∈ f.segments → i ∈ segment.instructions → i.Mentions a →
      a.base? = some r → f.Mentions r
  | terminator {segment a} : segment ∈ f.segments → segment.terminator.Mentions a →
      a.base? = some r → f.Mentions r

/-- Some segment may lead to this one. -/
def Targets (f : Function) (s : SegmentId) : Prop :=
  ∃ segment ∈ f.segments, segment.terminator.Targets s

/-- The function is fit for code generation. -/
structure Sound (f : Function) : Prop where
  params : f.paramCount ≤ f.registers.length
  types : ∀ r ∈ f.registers, ¬ r.type.HasSlot
  registers : ∀ r, f.Mentions r → r.index < f.registers.length
  targets : ∀ s, f.Targets s → s.index < f.segments.length

/-- The defect is real, and says where it is. -/
inductive Violates (function : Nat) (f : Function) : Defect → Prop
  | params : f.registers.length < f.paramCount →
      Violates function f (.parameterCount function f.paramCount f.registers.length)
  | type {i r} : f.registers[i]? = some r → r.type.HasSlot →
      Violates function f (.unresolvedPlaceholder function i)
  | register {r} : f.Mentions r → f.registers.length ≤ r.index →
      Violates function f (.danglingRegister function r.index)
  | target {s} : f.Targets s → f.segments.length ≤ s.index →
      Violates function f (.danglingSegment function s.index)

end Function

/-! ## The lists of accesses and successors -/

theorem Ty.hasSlot_iff {t : Ty} : t.HasSlot ↔ ∃ s, .slot s ∈ t.parts := by
  constructor
  · intro h
    induction h with
    | slot s => exact ⟨s, mem_parts_self _⟩
    | pointee _ ih | result _ ih | resultAny _ ih => exact ih.imp fun s hs => by simp [hs]
    | param hp _ ih | element hp _ ih => exact ih.imp fun s hs => by simp; grind
  · rintro ⟨s, hs⟩
    induction t using Ty.induct with
    | error | struct _ => simp at hs
    | slot s' => exact .slot s'
    | pointer m t ih => exact .pointee (ih (by simpa using hs))
    | functAny r ih => exact .resultAny (ih (by simpa using hs))
    | tuple ts ih =>
      obtain ⟨t, ht, hs⟩ := (mem_parts_tuple.1 hs).resolve_left (by simp)
      exact .element ht (ih t ht hs)
    | funct ps r ihs ih =>
      rcases (mem_parts_funct.1 hs).resolve_left (by simp) with hs | ⟨t, ht, hs⟩
      · exact .result (ih hs)
      · exact .param ht (ihs t ht hs)

theorem Instruction.mem_accesses {i : Instruction} {a : Access} :
    a ∈ i.accesses ↔ i.Mentions a := by
  cases i with
  | literal value => cases value <;> simp [accesses, sources, Literal.operands, dest, Mentions]
  | _ => simp [accesses, sources, dest, Mentions]

theorem Terminator.mem_accesses {t : Terminator} {a : Access} : a ∈ t.accesses ↔ t.Mentions a := by
  cases t <;> simp [accesses, Mentions]

theorem Terminator.mem_successors {t : Terminator} {s : SegmentId} :
    s ∈ t.successors ↔ t.Targets s := by
  cases t <;> simp [successors, Targets]

/-! ## The checks -/

/-- If the check passes then `good` holds, and if it fails then with a defect that is `bad`. -/
def Judges (good : Prop) (bad : Defect → Prop) : Except Defect Unit → Prop
  | .ok _ => good
  | .error d => bad d

namespace Judges

variable {good good' : Prop} {bad : Defect → Prop} {x y : Except Defect Unit}

theorem imp (h : Judges good bad x) (himp : good → good') : Judges good' bad x := by
  cases x with
  | ok _ => exact himp h
  | error d => exact h

theorem check {c : Prop} [Decidable c] {d : Defect} (hpass : c → good) (hfail : ¬ c → bad d) :
    Judges good bad (if c then .ok () else .error d) := by
  split
  · next h => exact hpass h
  · next h => exact hfail h

theorem both (hx : Judges good bad x) (hy : Judges good' bad y) :
    Judges (good ∧ good') bad (x >>= fun _ => y) := by
  cases x with
  | ok _ => exact hy.imp (.intro hx)
  | error d => exact hx

theorem forM {α : Type} {l : List α} {check : α → Except Defect Unit} {good : α → Prop}
    (h : ∀ a ∈ l, Judges (good a) bad (check a)) : Judges (∀ a ∈ l, good a) bad (l.forM check) := by
  induction l with
  | nil => rintro a ⟨⟩
  | cons a l ih =>
    rw [forall_mem_cons] at h
    exact (h.1.both (ih h.2)).imp forall_mem_cons.2

end Judges

namespace Function

variable {function : Nat} {f : Function}

theorem checkTypes_judges {bad : Defect → Prop} (index : Nat) (registers : List Register)
    (h : ∀ i r, registers[i]? = some r → r.type.HasSlot →
      bad (.unresolvedPlaceholder function (index + i))) :
    Judges (∀ r ∈ registers, ¬ r.type.HasSlot) bad (checkTypes function index registers) := by
  induction registers generalizing index with
  | nil => rintro r ⟨⟩
  | cons r rest ih =>
    have hempty : r.type.slots.isEmpty = true ↔ ¬ r.type.HasSlot := by
      simp [Ty.hasSlot_iff, ← Ty.mem_slots, eq_nil_iff_forall_not_mem]
    rw [checkTypes]
    split
    · next hr =>
      refine (ih (index + 1) fun i r' hi => ?_).imp fun hrest => ?_
      · rw [Nat.add_assoc, Nat.add_comm 1]
        exact h (i + 1) r' hi
      · exact forall_mem_cons.2 ⟨hempty.1 hr, hrest⟩
    · next hr => exact h 0 r rfl (by simpa [hempty] using hr)

theorem checkRegister_judges {r : RegisterId} (h : f.Mentions r) :
    Judges (r.index < f.registers.length) (f.Violates function) (f.checkRegister function r) :=
  .check (by simp [register?]) fun hr => .register h (by simpa [register?] using hr)

theorem checkAccess_judges {a : Access} (h : ∀ r, a.base? = some r → f.Mentions r) :
    Judges (∀ r, a.base? = some r → r.index < f.registers.length) (f.Violates function)
      (f.checkAccess function a) := by
  rw [checkAccess]
  cases hr : a.base? with
  | none => rintro r ⟨⟩
  | some r =>
    refine (checkRegister_judges (h r hr)).imp ?_
    rintro hlt _ ⟨⟩
    exact hlt

theorem checkTarget_judges {s : SegmentId} (h : f.Targets s) :
    Judges (s.index < f.segments.length) (f.Violates function) (f.checkTarget function s) :=
  .check (by simp [segment?]) fun hs => .target h (by simpa [segment?] using hs)

theorem checkSegment_judges {segment : Segment} (hs : segment ∈ f.segments) :
    Judges
      ((∀ i ∈ segment.instructions, ∀ a ∈ i.accesses,
          ∀ r, a.base? = some r → r.index < f.registers.length) ∧
        (∀ a ∈ segment.terminator.accesses, ∀ r, a.base? = some r → r.index < f.registers.length) ∧
        ∀ s ∈ segment.terminator.successors, s.index < f.segments.length)
      (f.Violates function) (f.checkSegment function segment) := by
  refine .both (.forM fun i hi => .forM fun a ha => checkAccess_judges fun r hr => ?_)
    (.both (.forM fun a ha => checkAccess_judges fun r hr => ?_)
      (.forM fun s ht => checkTarget_judges ?_))
  · exact .instruction hs hi (Instruction.mem_accesses.1 ha) hr
  · exact .terminator hs (mem_accesses.1 ha) hr
  · exact ⟨segment, hs, mem_successors.1 ht⟩

theorem verify_judges (function : Nat) (f : Function) :
    Judges f.Sound (f.Violates function) (f.verify function) := by
  have hparams : Judges (f.paramCount ≤ f.registers.length) (f.Violates function)
      (f.checkParams function) := by
    rw [checkParams]
    split
    · next h => exact .params h
    · next h => exact Nat.le_of_not_lt h
  have htypes : Judges (∀ r ∈ f.registers, ¬ r.type.HasSlot) (f.Violates function)
      (checkTypes function 0 f.registers) := by
    refine checkTypes_judges 0 f.registers fun i r hi hr => ?_
    rw [Nat.zero_add]
    exact .type hi hr
  refine (hparams.both (htypes.both ((Judges.forM fun b hb =>
    checkRegister_judges (.binding hb rfl)).both (.forM fun _ hs => checkSegment_judges hs)))).imp ?_
  rintro ⟨hparams, htypes, hbindings, hsegments⟩
  refine ⟨hparams, htypes, ?_, ?_⟩
  · rintro r (⟨hb, rfl⟩ | ⟨hs, hi, ha, hr⟩ | ⟨hs, ha, hr⟩)
    · exact hbindings _ hb
    · exact (hsegments _ hs).1 _ hi _ (Instruction.mem_accesses.2 ha) r hr
    · exact (hsegments _ hs).2.1 _ (mem_accesses.2 ha) r hr
  · rintro s ⟨segment, hs, ht⟩
    exact (hsegments segment hs).2.2 s (mem_successors.2 ht)

theorem Violates.not_sound {d : Defect} (h : f.Violates function d) : ¬ f.Sound := by
  intro hf
  cases h with
  | params h => exact absurd hf.params (Nat.not_le.2 h)
  | type hi hr => exact hf.types _ (mem_of_getElem? hi) hr
  | register hm h => exact absurd (hf.registers _ hm) (Nat.not_lt.2 h)
  | target ht h => exact absurd (hf.targets _ ht) (Nat.not_lt.2 h)

theorem Sound.verify (h : f.Sound) (function : Nat) : f.verify function = .ok () := by
  have hjudges := verify_judges function f
  cases hverify : f.verify function with
  | ok _ => rfl
  | error d =>
    rw [hverify] at hjudges
    exact absurd h (Violates.not_sound hjudges)

/-- **Verification decides soundness**, and the defect it reports is real. -/
theorem verify_exact (function : Nat) (f : Function) :
    (f.verify function = .ok () ↔ f.Sound) ∧
      ∀ d, f.verify function = .error d → f.Violates function d := by
  have hjudges := verify_judges function f
  refine ⟨⟨fun h => ?_, fun h => h.verify function⟩, fun d h => ?_⟩
  · rwa [h] at hjudges
  · rwa [h] at hjudges

end Function

end Semcheck
