/-
  What lowering steps keep, and how to specify them.

  * `Body.Intact`: everything a body mentions exists, and while nothing was
    reported in the strict mode no type is erroneous and no step gave up;
  * `Body.Grown`: what a step does to a body.  It adds to the report, to the
    engine, to the registers and to the names, and its code has a `Shape`;
  * `Lower.Spec`: a step meets neither a fault nor a defect, its result
    satisfies one postcondition, and another one if no step gave up; if nothing
    was reported there is a result.
-/
import Semcheck.Lower.Program
import Semcheck.Proofs.Decl.Table
import Semcheck.Proofs.Infer.Solve
import Semcheck.Proofs.Ir.Typing

namespace Semcheck

open List Access

variable {n m : Nat} {r : RegisterId}

/-! ## Ranges -/

/-- The register of the access is one of the first `n`. -/
def Access.InRange (n : Nat) (a : Access) : Prop :=
  ∀ r, a.base? = some r → r.index < n

/-- The declaration a literal mentions exists. -/
def Literal.InRange (table : Table) : Literal → Prop
  | .struct id _ => id.index < table.structs.length
  | .funct id => id.index < table.functs.length
  | _ => True

/-- Everything a step mentions exists. -/
def Event.InRange (table : Table) (n : Nat) : Event → Prop
  | .run i => (∀ a ∈ i.accesses, a.InRange n) ∧
    ∀ value dest, i = .literal value dest → value.InRange table
  | .test a => a.InRange n
  | .exit result => result.InRange n

/-- If the step leaves the function, then with the given result. -/
def Event.LeavesWith (result : Access) (ev : Event) : Prop :=
  ∀ a, ev = .exit a → a = result

@[simp] theorem Event.leavesWith_run (result : Access) (i : Instruction) :
    (Event.run i).LeavesWith result := by
  rintro a ⟨⟩

@[simp] theorem Event.leavesWith_test (result a : Access) : (Event.test a).LeavesWith result := by
  rintro a ⟨⟩

@[simp] theorem Event.leavesWith_exit (result : Access) : (Event.exit result).LeavesWith result := by
  rintro a ⟨⟩
  rfl

/-- Where no segment comes next, the function is left with the result. -/
theorem Terminator.Obeys.eq_leave {result : Access} {t : Terminator}
    (h : t.Obeys (Event.LeavesWith result) n) (hs : t.successors = []) : t = .leave result := by
  cases t with
  | finish => rw [← h.event _ rfl _ rfl, leave]
  | ret value =>
    rw [← h.event _ rfl _ rfl]
    cases value with
    | discard => exact absurd rfl h.valued
    | place r fields deref => rfl
  | goto target => cases hs
  | branch condition onTrue onFalse => cases hs

theorem Access.InRange.mono {a : Access} (h : a.InRange n) (hnm : n ≤ m) : a.InRange m :=
  fun r hr => Nat.lt_of_lt_of_le (h r hr) hnm

theorem Access.inRange_discard : discard.InRange n := by
  rintro r ⟨⟩

theorem Access.inRange_register (h : r.index < n) : (register r).InRange n := by
  rintro r' ⟨⟩
  exact h

theorem Access.InRange.ne_register {a : Access} (h : a.InRange n) (hr : n ≤ r.index) :
    a ≠ .register r := by
  rintro rfl
  exact Nat.not_lt_of_le hr (h r rfl)

theorem Access.InRange.field {a : Access} (h : a.InRange n) (index : Nat) :
    (a.field index).InRange n := by
  cases a with
  | discard => exact h
  | place r fields deref => exact h

theorem Event.InRange.mono {table : Table} {ev : Event} (h : ev.InRange table n) (hnm : n ≤ m) :
    ev.InRange table m := by
  cases ev with
  | run i => exact ⟨fun a ha => (h.1 a ha).mono hnm, h.2⟩
  | test a | exit a => exact Access.InRange.mono h hnm

theorem Shape.All.mono {P Q : Event → Prop} (hPQ : ∀ ev, P ev → Q ev) {sh : Shape}
    (h : sh.All P) : sh.All Q := by
  induction sh with
  | skip => trivial
  | emit | exit => exact hPQ _ h
  | seq first second ih1 ih2 => exact ⟨ih1 h.1, ih2 h.2⟩
  | when test body ih => exact ⟨hPQ _ h.1, ih h.2⟩
  | ifElse test onTrue onFalse ih1 ih2 => exact ⟨hPQ _ h.1, ih1 h.2.1, ih2 h.2.2⟩
  | loop condition test body ih1 ih2 => exact ⟨ih1 h.1, hPQ _ h.2.1, ih2 h.2.2⟩

/-! ## Sequences -/

/-- One shape after another; nothing is added for a shape without code. -/
def Shape.append : Shape → Shape → Shape
  | .skip, second => second
  | first, .skip => first
  | first, second => .seq first second

namespace Shape

@[simp] theorem skip_append (sh : Shape) : append .skip sh = sh := rfl

@[simp] theorem append_skip (sh : Shape) : append sh .skip = sh := by
  cases sh <;> rfl

theorem append_cases (first second : Shape) :
    (first = .skip ∧ append first second = second) ∨
      (second = .skip ∧ append first second = first) ∨
      append first second = .seq first second := by
  cases first <;> cases second <;> simp [append]

theorem build_append (first second : Shape) (g : Graph) :
    (append first second).build g = second.build (first.build g) := by
  rcases append_cases first second with ⟨rfl, h⟩ | ⟨rfl, h⟩ | h <;> rw [h] <;> rfl

variable {first second : Shape}

theorem all_append {P : Event → Prop} (h1 : first.All P) (h2 : second.All P) :
    (append first second).All P := by
  rcases append_cases first second with ⟨-, h⟩ | ⟨-, h⟩ | h <;> rw [h]
  · exact h2
  · exact h1
  · exact ⟨h1, h2⟩

theorem ends_append {h h' : History} :
    (append first second).Ends h h' ↔ ∃ m, first.Ends h m ∧ second.Ends m h' := by
  rcases append_cases first second with ⟨rfl, hs⟩ | ⟨rfl, hs⟩ | hs <;> rw [hs]
  · simp [Ends]
  · simp [Ends]
  · rfl

theorem visits_append {h h' : History} {ev : Event} :
    (append first second).Visits h h' ev ↔
      first.Visits h h' ev ∨ ∃ m, first.Ends h m ∧ second.Visits m h' ev := by
  rcases append_cases first second with ⟨rfl, hs⟩ | ⟨rfl, hs⟩ | hs <;> rw [hs]
  · simp [Ends, Visits]
  · simp [Visits]
  · rfl

end Shape

/-! ## Bodies -/

/-- The declarations and the return type exist. -/
structure Context.Valid (cx : Context) : Prop where
  table : cx.table.Valid
  returnType : cx.returnType.Within 0 cx.table.structs.length

/-- No declared type is erroneous. -/
structure Context.Plain (cx : Context) : Prop where
  table : cx.table.Plain
  returnType : cx.returnType.Plain

/-- A local without what is known about its assignments. -/
def Local.fixed (l : Local) : Local :=
  { l with assigned := .unassigned }

theorem Local.fixed_eq {l l' : Local} (h : l'.fixed = l.fixed) :
    l'.register = l.register ∧ l'.mutable = l.mutable ∧ l'.loopDepth = l.loopDepth := by
  simp only [Local.fixed, Local.mk.injEq] at h
  exact ⟨h.2.1, h.2.2.1, h.2.2.2.2⟩

/-- The slots and structs in the type exist. -/
abbrev Ty.Legal (cx : Context) (b : Body) (t : Ty) : Prop :=
  t.Within b.engine.slots.length cx.table.structs.length

namespace Body

/-- Nothing was reported in the strict mode. -/
structure Clean (b : Body) : Prop where
  quiet : b.report.entries = []
  strict : b.engine.strict = true

/-- No type of a slot or register is erroneous. -/
structure Plain (e : Engine) (registers : List Register) : Prop where
  engine : e.Plain
  registers : ∀ r ∈ registers, r.type.Plain

/-- The value of the function has a register of its type, or is `()`. -/
def ResultIn (cx : Context) (registers : List Register) : Prop :=
  (cx.result = .discard ∧ cx.returnType = .unit) ∨
    ∃ r register, cx.result = .register r ∧ registers[r.index]? = some register ∧
      register.type = cx.returnType ∧ cx.returnType ≠ .unit

/-- Everything a body mentions exists, and it is in order. -/
structure Intact (cx : Context) (b : Body) : Prop where
  context : cx.Valid
  engine : b.engine.Valid cx.table.structs.length
  registers : ∀ r ∈ b.draft.registers,
    r.type.Within b.engine.slots.length cx.table.structs.length
  locals : ∀ l ∈ b.locals, l.register.index < b.draft.registers.length
  distinct : (b.locals.map Local.register).Nodup
  apart : ∀ l ∈ b.locals, cx.result ≠ .register l.register
  bindings : ∀ x ∈ b.draft.bindings, x.register.index < b.draft.registers.length
  bound : ∀ l ∈ b.locals, ∃ x ∈ b.draft.bindings, x.register = l.register ∧ x.mutable = l.mutable
  params : b.draft.paramCount ≤ b.draft.registers.length
  result : ResultIn cx b.draft.registers
  opened : b.draft.graph.Open
  plain : b.Clean → Plain b.engine b.draft.registers ∧ cx.Plain
  whole : b.engine.strict = true → b.report.entries = [] → b.gaveUp = false

theorem Intact.result_inRange {cx : Context} {b : Body} (h : b.Intact cx) :
    cx.result.InRange b.draft.registers.length := by
  rcases h.result with ⟨hresult, -⟩ | ⟨r, register, hresult, hr, -⟩
  · rw [hresult]
    exact inRange_discard
  · rw [hresult]
    exact inRange_register (List.getElem?_eq_some_iff.1 hr).1

theorem Intact.result_ne {cx : Context} {b : Body} (h : b.Intact cx) {r : RegisterId}
    (hr : b.draft.registers.length ≤ r.index) : cx.result ≠ .register r :=
  h.result_inRange.ne_register hr

end Body

/-! ## Growth -/

/-- What lowering does to an engine. -/
structure Engine.Grows (e e' : Engine) : Prop where
  strict : e'.strict = e.strict
  slots : e.slots.length ≤ e'.slots.length
  bindings : e.strict = true → e.bindings <+: e'.bindings

theorem Engine.Grows.refl (e : Engine) : Grows e e :=
  ⟨rfl, Nat.le_refl _, fun _ => prefix_rfl⟩

theorem Engine.Grows.trans {e e1 e2 : Engine} (h1 : Grows e e1) (h2 : Grows e1 e2) : Grows e e2 :=
  ⟨h2.strict.trans h1.strict, Nat.le_trans h1.slots h2.slots,
    fun hs => (h1.bindings hs).trans (h2.bindings (h1.strict.trans hs))⟩

theorem Engine.Keeps.toGrows {k : Nat} {e e' : Engine} (h : Keeps k e e') : Grows e e' :=
  ⟨h.strict, Nat.le_of_eq (by rw [h.slots]), h.grows⟩

/-- What lowering does to a draft, its code apart. -/
structure Draft.Grows (d d' : Draft) : Prop where
  registers : d.registers <+: d'.registers
  paramCount : d'.paramCount = d.paramCount
  bindings : d.bindings <+: d'.bindings

theorem Draft.Grows.refl (d : Draft) : Grows d d :=
  ⟨prefix_rfl, rfl, prefix_rfl⟩

theorem Draft.Grows.trans {d d1 d2 : Draft} (h1 : Grows d d1) (h2 : Grows d1 d2) : Grows d d2 :=
  ⟨h1.registers.trans h2.registers, h2.paramCount.trans h1.paramCount,
    h1.bindings.trans h2.bindings⟩

/-- What lowering does to a draft and its code. -/
structure Draft.Adds (d d' : Draft) : Prop extends Draft.Grows d d' where
  code : d.graph.Appends d'.graph

theorem Draft.Adds.refl (d : Draft) : Adds d d :=
  ⟨.refl d, .refl _⟩

theorem Draft.Adds.trans {d d1 d2 : Draft} (h1 : Adds d d1) (h2 : Adds d1 d2) : Adds d d2 :=
  ⟨h1.toGrows.trans h2.toGrows, h1.code.trans h2.code⟩

/-- The locals `ls` are still in scope, and the registers of those declared behind
    them are not among the first `n`. -/
def Local.Adds (n : Nat) (ls ls' : List Local) : Prop :=
  ∃ more, ls'.map fixed = ls.map fixed ++ more ∧ ∀ l ∈ more, n ≤ l.register.index

theorem Local.Adds.of_eq {ls ls' : List Local} (h : ls'.map fixed = ls.map fixed) : Adds n ls ls' :=
  ⟨[], by rw [h, append_nil], by simp⟩

theorem Local.Adds.trans {ls ls1 ls2 : List Local} (h1 : Adds n ls ls1) (h2 : Adds m ls1 ls2)
    (hnm : n ≤ m) : Adds n ls ls2 := by
  obtain ⟨more1, heq1, hle1⟩ := h1
  obtain ⟨more2, heq2, hle2⟩ := h2
  refine ⟨more1 ++ more2, by rw [heq2, heq1, append_assoc], fun l hl => ?_⟩
  rcases mem_append.1 hl with hl | hl
  · exact hle1 l hl
  · exact Nat.le_trans hnm (hle2 l hl)

/-- What a step of lowering does to a body, its code apart: everything is only
    added to. -/
structure Body.Progress (b b' : Body) : Prop where
  report : b.report.entries <+: b'.report.entries
  engine : b.engine.Grows b'.engine
  draft : b.draft.Grows b'.draft
  locals : Local.Adds b.draft.registers.length b.locals b'.locals
  depth : b'.loopDepth = b.loopDepth
  whole : b'.gaveUp = false → b.gaveUp = false

/-- What a step of lowering does to a body: its code has the shape `sh`. -/
structure Body.Grown (cx : Context) (b : Body) (sh : Shape) (b' : Body) : Prop extends
    Body.Progress b b' where
  intact : b'.Intact cx
  code : b'.draft.graph = sh.build b.draft.graph
  steps : sh.All (Event.InRange cx.table b'.draft.registers.length)
  exits : sh.All (Event.LeavesWith cx.result)

namespace Body

variable {cx : Context} {b b1 b2 b' : Body} {sh sh1 sh2 : Shape}

theorem Progress.refl (b : Body) : b.Progress b :=
  ⟨prefix_rfl, .refl _, .refl _, .of_eq rfl, rfl, id⟩

theorem Progress.trans (h1 : b.Progress b1) (h2 : b1.Progress b2) : b.Progress b2 where
  report := h1.report.trans h2.report
  engine := h1.engine.trans h2.engine
  draft := h1.draft.trans h2.draft
  locals := h1.locals.trans h2.locals h1.draft.registers.length_le
  depth := h2.depth.trans h1.depth
  whole := h1.whole ∘ h2.whole

theorem Grown.refl (h : b.Intact cx) : b.Grown cx .skip b :=
  ⟨.refl b, h, rfl, trivial, trivial⟩

theorem Grown.trans (h1 : b.Grown cx sh1 b1) (h2 : b1.Grown cx sh2 b2) :
    b.Grown cx (sh1.append sh2) b2 where
  toProgress := h1.toProgress.trans h2.toProgress
  intact := h2.intact
  code := by rw [h2.code, h1.code, Shape.build_append]
  steps := Shape.all_append
    (h1.steps.mono fun _ hev => hev.mono h2.draft.registers.length_le) h2.steps
  exits := Shape.all_append h1.exits h2.exits

theorem Grown.clean (h : b.Grown cx sh b') (hc : b'.Clean) : b.Clean :=
  ⟨prefix_nil.1 (hc.quiet ▸ h.report), h.engine.strict ▸ hc.strict⟩

/-- While nothing was reported, no step gave up. -/
theorem Clean.whole (hc : b.Clean) (hb : b.Intact cx) : b.gaveUp = false :=
  hb.whole hc.strict hc.quiet

theorem Grown.registers_le (h : b.Grown cx sh b') :
    b.draft.registers.length ≤ b'.draft.registers.length :=
  h.draft.registers.length_le

theorem Grown.within (h : b.Grown cx sh b') {t : Ty} (ht : t.Legal cx b) : t.Legal cx b' :=
  ht.mono h.engine.slots (Nat.le_refl _)

theorem Grown.inRange (h : b.Grown cx sh b') {a : Access}
    (ha : a.InRange b.draft.registers.length) : a.InRange b'.draft.registers.length :=
  ha.mono h.registers_le

end Body

/-! ## Specifications -/

namespace Lower

variable {α β : Type} {cx : Context} {b b' b1 : Body} {f : α → Lower β} {x step : Lower α} {a : α}

/-- Whatever happens, the body grows.  A result satisfies `P`, and `Q` if no step
    gave up.  If nothing was reported in the strict mode, there is a result. -/
def Spec (cx : Context) (b : Body) (step : Lower α) (P : α → Body → Prop)
    (Q : α → Shape → Body → Prop) : Prop :=
  ∃ r sh b', step.run b = .ok (r, b') ∧ b.Grown cx sh b' ∧ (b'.Clean → r.isSome = true) ∧
    ∀ a, r = some a → P a b' ∧ (b'.gaveUp = false → Q a sh b')

variable {P P' : α → Body → Prop} {Q Q' : α → Shape → Body → Prop}

theorem run_bind_some (h : x.run b = .ok (some a, b')) : (x >>= f).run b = (f a).run b' := by
  show (x.run b >>= _) = _
  rw [h]
  rfl

theorem get_run (b : Body) : (get : Lower Body).run b = .ok (some b, b) := rfl

theorem run_bind_none (h : x.run b = .ok (none, b')) : (x >>= f).run b = .ok (none, b') := by
  show (x.run b >>= _) = _
  rw [h]
  rfl

theorem Spec.mono (h : Spec cx b step P' Q') (hP : ∀ a sh b', b.Grown cx sh b' → P' a b' → P a b')
    (hQ : ∀ a sh b', b.Grown cx sh b' → b'.gaveUp = false → P' a b' → Q' a sh b' → Q a sh b') :
    Spec cx b step P Q := by
  obtain ⟨r, sh, b', hrun, hg, hsome, h⟩ := h
  refine ⟨r, sh, b', hrun, hg, hsome, fun a ha => ?_⟩
  obtain ⟨hp, hq⟩ := h a ha
  exact ⟨hP a sh b' hg hp, fun hw => hQ a sh b' hg hw hp (hq hw)⟩

theorem Spec.imp (h : Spec cx b step P Q')
    (hQ : ∀ a sh b', b.Grown cx sh b' → b'.gaveUp = false → Q' a sh b' → Q a sh b') :
    Spec cx b step P Q :=
  h.mono (fun _ _ _ _ hP => hP) fun a sh b' hg hw _ => hQ a sh b' hg hw

theorem Spec.intro {sh : Shape} (hrun : step.run b = .ok (some a, b')) (hg : b.Grown cx sh b')
    (hP : P a b') (hQ : b'.gaveUp = false → Q a sh b') : Spec cx b step P Q :=
  ⟨some a, sh, b', hrun, hg, fun _ => rfl, by rintro _ ⟨⟩; exact ⟨hP, hQ⟩⟩

theorem Spec.pure (hb : b.Intact cx) (hP : P a b) (hQ : b.gaveUp = false → Q a .skip b) :
    Spec cx b (pure a) P Q :=
  Spec.intro rfl (.refl hb) hP hQ

theorem Spec.gaveUp {sh : Shape} (hrun : step.run b = .ok (none, b')) (hg : b.Grown cx sh b')
    (hC : ¬ b'.Clean) : Spec cx b step P Q :=
  ⟨none, sh, b', hrun, hg, fun hc => absurd hc hC, by rintro a ⟨⟩⟩

/-- A step that comes to the same as another one from a later body. -/
theorem Spec.after {step' : Lower α} {sh : Shape} (hrun : step.run b = step'.run b1)
    (hg : b.Grown cx sh b1) (h : Spec cx b1 step' P fun a sh' b' => Q a (sh.append sh') b') :
    Spec cx b step P Q := by
  obtain ⟨r, sh', b', hrun', hg', h⟩ := h
  exact ⟨r, sh.append sh', b', hrun.trans hrun', hg.trans hg', h⟩

variable {S : β → Shape → Body → Prop} {R : β → Body → Prop}

theorem Spec.bind (hx : Spec cx b x P Q)
    (hf : ∀ a sh1 b1, b.Grown cx sh1 b1 → P a b1 → (b1.gaveUp = false → Q a sh1 b1) →
      Spec cx b1 (f a) R fun c sh2 b2 => S c (sh1.append sh2) b2) : Spec cx b (x >>= f) R S := by
  obtain ⟨r, sh1, b1, hrun, hg, hsome, h⟩ := hx
  cases r with
  | none => exact .gaveUp (run_bind_none hrun) hg fun hc => nomatch hsome hc
  | some a => exact .after (run_bind_some hrun) hg (hf a sh1 b1 hg (h a rfl).1 (h a rfl).2)

theorem Spec.look (hrun : x.run b = .ok (some a, b)) (hf : Spec cx b (f a) R S) :
    Spec cx b (x >>= f) R S := by
  obtain ⟨r, sh, b', hrun', h⟩ := hf
  exact ⟨r, sh, b', (run_bind_some hrun).trans hrun', h⟩

end Lower

end Semcheck
