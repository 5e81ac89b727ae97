/-
  What the lowered code may write to.

  A register as a whole may always be written; how often is another question.  A
  part of a register is written only if the register belongs to a mutable local,
  and what a pointer points to only if the pointer is mutable (`Access.Writable`).
  A mutable address is taken of such places only (`Instruction.Permitted`).

  * `Body.Reached`: what is known about the locals does not say that no path leads
    to this point.  Behind a `return` it does say so, and a local counts as one
    that was never assigned there, even if it is immutable;
  * `Permits b dest sh b'`: if a path leads to code of the shape `sh`, and the
    destination may be written, then the code does only what is permitted, and a
    path behind it leads to a point that is reached.

  There is one rule for every way of putting code together.
-/
import Semcheck.Proofs.Lower.Trace

namespace Semcheck

open Access

/-! ## Permitted steps -/

section Permitted

variable (points binds : RegisterId → Prop)

/-- What the access reaches may be changed: there is a mutable pointer to it, or it
    belongs to a mutable local. -/
def Access.Open : Access → Prop
  | .discard => False
  | .place r _ true => points r
  | .place r _ false => binds r

/-- The destination may be written: it may be changed, or is a whole register. -/
structure Access.Writable (dest : Access) : Prop where
  deref : ∀ r fields, dest = .place r fields true → points r
  field : ∀ r fields, dest = .place r fields false → fields ≠ [] → binds r

/-- The instruction writes where it may, and takes a mutable address only of what may
    be changed. -/
structure Instruction.Permitted (i : Instruction) : Prop where
  dest : i.dest.Writable points binds
  address : ∀ source dest, i = .address source true dest → source.Open points binds

/-- Only instructions write. -/
def Event.Permitted : Event → Prop
  | .run i => i.Permitted points binds
  | .test _ | .exit _ => True

variable {points binds} {points' binds' : RegisterId → Prop}

section

variable (hp : ∀ r, points r → points' r) (hb : ∀ r, binds r → binds' r)
include hp hb

theorem Access.Open.mono {a : Access} (h : a.Open points binds) : a.Open points' binds' := by
  cases a with
  | discard => exact h
  | place r fields deref =>
    cases deref with
    | true => exact hp r h
    | false => exact hb r h

theorem Access.Writable.mono {dest : Access} (h : dest.Writable points binds) :
    dest.Writable points' binds' :=
  ⟨fun r fields heq => hp r (h.deref r fields heq),
    fun r fields heq hne => hb r (h.field r fields heq hne)⟩

theorem Event.Permitted.mono {ev : Event} (h : ev.Permitted points binds) :
    ev.Permitted points' binds' := by
  cases ev with
  | run i =>
    refine ⟨h.dest.mono hp hb, fun source dest heq => ?_⟩
    exact (h.address source dest heq).mono hp hb
  | test a | exit a => trivial

end

theorem Access.writable_discard : discard.Writable points binds :=
  ⟨by rintro r fields ⟨⟩, by rintro r fields ⟨⟩⟩

theorem Access.writable_register (r : RegisterId) : (register r).Writable points binds := by
  refine ⟨by rintro r fields ⟨⟩, ?_⟩
  rintro r fields ⟨⟩ hne
  exact absurd rfl hne

theorem Access.Open.writable {a : Access} (h : a.Open points binds) : a.Writable points binds := by
  constructor
  · rintro r fields rfl
    exact h
  · rintro r fields rfl -
    exact h

theorem Access.Open.field {a : Access} (h : a.Open points binds) (index : Nat) :
    (a.field index).Open points binds := by
  cases a with
  | discard => exact h
  | place r fields deref => cases deref <;> exact h

end Permitted

namespace Function

/-- The register holds a mutable pointer. -/
def Points (f : Function) (r : RegisterId) : Prop :=
  ∃ register pointee, f.registers[r.index]? = some register ∧ register.type = .pointer true pointee

/-- The register belongs to a mutable local or parameter. -/
def Binds (f : Function) (r : RegisterId) : Prop :=
  ∃ x ∈ f.bindings, x.register = r ∧ x.mutable = true

end Function

/-! ## Bodies -/

namespace Body

variable {cx : Context} {b b' : Body}

/-- The register is known to hold a mutable pointer. -/
def Points (b : Body) (r : RegisterId) : Prop :=
  ∃ register pointee, b.draft.registers[r.index]? = some register ∧
    b.engine.bindings.head register.type = .pointer true pointee

/-- The register belongs to a mutable local or parameter. -/
def Binds (b : Body) (r : RegisterId) : Prop :=
  ∃ x ∈ b.draft.bindings, x.register = r ∧ x.mutable = true

def Writable (b : Body) (dest : Access) : Prop :=
  dest.Writable b.Points b.Binds

/-- The step is permitted. -/
def Permitted (b : Body) (ev : Event) : Prop :=
  ev.Permitted b.Points b.Binds

/-- No local is marked as one in code to which no path leads. -/
def Reached (b : Body) : Prop :=
  ∀ l ∈ b.locals, l.assigned ≠ .unreachable

theorem Extends.points (hx : b.Extends b') (r : RegisterId) (h : b.Points r) : b'.Points r := by
  obtain ⟨register, pointee, hr, hhead⟩ := h
  refine ⟨register, pointee, hx.getElem? hr, ?_⟩
  rw [Bindings.head_stable hx.bindings (by rw [hhead]; rfl), hhead]

theorem Extends.binds (hx : b.Extends b') (r : RegisterId) (h : b.Binds r) : b'.Binds r := by
  obtain ⟨x, hmem, hx'⟩ := h
  exact ⟨x, hx.names.subset hmem, hx'⟩

theorem Extends.writable (hx : b.Extends b') {dest : Access} (h : b.Writable dest) :
    b'.Writable dest :=
  h.mono hx.points hx.binds

theorem Extends.permitted (hx : b.Extends b') {ev : Event} (h : b.Permitted ev) : b'.Permitted ev :=
  h.mono hx.points hx.binds

/-- Where a path leads, a local that is assigned for certain is not unassigned. -/
theorem Reached.possible (h : b.Reached) {l : Local} (hl : l ∈ b.locals)
    (hd : l.assigned.definite = true) : l.assigned.possible = true := by
  by_contra hp
  refine h l hl ?_
  rw [Bool.not_eq_true] at hp
  cases ha : l.assigned with
  | mk definite possible =>
    rw [ha] at hd hp
    cases hd
    cases hp
    rfl

theorem result_writable (hb : b.Intact cx) : b.Writable cx.result := by
  rcases hb.result with ⟨hresult, -⟩ | ⟨r, -, hresult, -⟩ <;> rw [hresult]
  · exact writable_discard
  · exact writable_register r

theorem reached_of_eq (hl : b'.locals = b.locals) (h : b.Reached) : b'.Reached :=
  fun l hmem => h l (hl ▸ hmem)

end Body

open Body

/-! ## Code -/

/-- What code of the shape `sh` that writes to `dest` is permitted to do. -/
structure Permits (b : Body) (dest : Access) (sh : Shape) (b' : Body) : Prop where
  steps : b.Reached → b.Writable dest → ∀ h h' ev, sh.Visits h h' ev → b'.Permitted ev
  ends : b.Reached → ∀ h h', sh.Ends h h' → b'.Reached

namespace Permits

variable {b b1 b2 b3 b' : Body} {dest dest' : Access} {sh sh1 sh2 : Shape}

theorem before (h : Permits b1 dest sh b') (hx : b.Extends b1) (hl : b1.locals = b.locals) :
    Permits b dest sh b' where
  steps hr hd := h.steps (reached_of_eq hl hr) (hx.writable hd)
  ends hr := h.ends (reached_of_eq hl hr)

theorem rename (h : Permits b dest sh b1) (hx : b1.Extends b') (hl : b1.Reached → b'.Reached) :
    Permits b dest sh b' where
  steps hr hd m m' ev hv := hx.permitted (h.steps hr hd m m' ev hv)
  ends hr m m' he := hl (h.ends hr m m' he)

theorem after (h : Permits b dest sh b1) (hx : b1.Extends b') (hl : b'.locals = b1.locals) :
    Permits b dest sh b' :=
  h.rename hx (reached_of_eq hl)

theorem skip (hl : b'.locals = b.locals) : Permits b dest .skip b' where
  steps _ _ _ _ _ hv := hv.elim
  ends hr _ _ _ := reached_of_eq hl hr

theorem emit {i : Instruction} (hx : b.Extends b') (hl : b'.locals = b.locals)
    (hdest : i.dest = dest)
    (haddress : b.Reached → ∀ source d, i = .address source true d → source.Open b.Points b.Binds) :
    Permits b dest (.emit i) b' where
  steps hr hd m m' ev hv := by
    obtain ⟨-, rfl⟩ := hv
    have hi : b.Permitted (.run i) := ⟨hdest ▸ hd, haddress hr⟩
    exact hx.permitted hi
  ends hr _ _ _ := reached_of_eq hl hr

/-- The destination may be written if a path leads there. -/
theorem discard (h : Permits b dest' sh b') (hd : b.Reached → b.Writable dest') :
    Permits b .discard sh b' where
  steps hr _ := h.steps hr (hd hr)
  ends := h.ends

theorem seq (h1 : Permits b .discard sh1 b1) (hx1 : b.Extends b1) (h2 : Permits b1 dest sh2 b2)
    (hx2 : b1.Extends b2) : Permits b dest (sh1.append sh2) b2 where
  steps hr hd m m' ev hv := by
    rcases Shape.visits_append.1 hv with hv | ⟨z, hz, hv⟩
    · exact hx2.permitted (h1.steps hr writable_discard m m' ev hv)
    · exact h2.steps (h1.ends hr m z hz) (hx1.writable hd) z m' ev hv
  ends hr m m' he := by
    obtain ⟨z, hz, he⟩ := Shape.ends_append.1 he
    exact h2.ends (h1.ends hr m z hz) z m' he

theorem exit {result : Access} : Permits b dest (.exit result) b' where
  steps _ _ m m' ev hv := by
    obtain ⟨-, rfl⟩ := hv
    trivial
  ends _ m m' he := by cases he

theorem when (h : Permits b dest sh b1) (test : Access) (hx : b1.Extends b')
    (hjoin : b1.Reached ∨ b.Reached → b'.Reached) : Permits b dest (.when test sh) b' where
  steps hr hd m m' ev hv := by
    rcases hv with ⟨-, rfl⟩ | hv
    · trivial
    · exact hx.permitted (h.steps hr hd m m' ev hv)
  ends hr _ _ _ := hjoin (.inr hr)

/-- A path behind a conditional comes from one of the branches. -/
theorem ifElse (h1 : Permits b dest sh1 b1) (h2 : Permits b2 dest sh2 b3) (test : Access)
    (hx1 : b1.Extends b') (hx2 : b.Extends b2) (hl2 : b2.locals = b.locals) (hx3 : b3.Extends b')
    (hjoin : b3.Reached ∨ b1.Reached → b'.Reached) : Permits b dest (.ifElse test sh1 sh2) b' where
  steps hr hd m m' ev hv := by
    rcases hv with ⟨-, rfl⟩ | hv | hv
    · trivial
    · exact hx1.permitted (h1.steps hr hd m m' ev hv)
    · exact hx3.permitted ((h2.before hx2 hl2).steps hr hd m m' ev hv)
  ends hr m m' he := by
    rcases he with he | he
    · exact hjoin (.inr (h1.ends hr m m' he))
    · exact hjoin (.inl ((h2.before hx2 hl2).ends hr m m' he))

/-- A path into the body of a loop, and one behind the loop, comes from the condition. -/
theorem loop (h1 : Permits b .discard sh1 b1) (h2 : Permits b1 .discard sh2 b2) (test : Access)
    (hx1 : b1.Extends b') (hx2 : b2.Extends b') (hjoin : b1.Reached → b'.Reached) :
    Permits b .discard (.loop sh1 test sh2) b' where
  steps hr hd m m' ev hv := by
    obtain ⟨z, -, hv | ⟨z', hz, ⟨-, rfl⟩ | hv⟩⟩ := hv
    · exact hx1.permitted (h1.steps hr hd z m' ev hv)
    · trivial
    · exact hx2.permitted (h2.steps (h1.ends hr z z' hz) writable_discard z' m' ev hv)
  ends hr m m' he := by
    obtain ⟨z, -, hlast⟩ := he
    exact hjoin (h1.ends hr z m' hlast)

end Permits

end Semcheck
