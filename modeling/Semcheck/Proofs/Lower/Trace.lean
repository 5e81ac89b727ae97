/-
  What the lowered code does on its paths: values are there before they are
  read, and have the types they should.

  * `Body.Live b h r`: with the history `h` the register `r` has a value, and
    the type of the register is known;
  * `Body.Sound b h`: the locals that are said to be assigned are live;
  * `Flow cx b N sh b' R`: on a path into the shape `sh` on which the registers
    `N` are live every step is well typed and reads only what has a value, and
    behind the shape the registers `R` are live too.

  There is one rule for every way of putting shapes together.
-/
import Semcheck.Proofs.Lower.Steps

namespace Semcheck

open List Option Bindings Table Access Ty

/-! ## Histories -/

variable {b b' : Bindings} {h h' : History} {t : Ty}

theorem History.writes_mono (hp : h <+: h') (r : RegisterId) : h.writes r ≤ h'.writes r :=
  hp.sublist.countP_le

theorem History.writes_snoc (h : History) (i : Instruction) (r : RegisterId) :
    History.writes (h ++ [i]) r = h.writes r + if i.Writes r then 1 else 0 := by
  rw [History.writes, countP_append, countP_singleton]
  simp [History.writes]

/-- The history only gets longer. -/
theorem Shape.Ends.isPrefix {sh : Shape} (he : sh.Ends h h') : h <+: h' := by
  induction sh generalizing h h' with
  | skip => cases he; exact prefix_rfl
  | emit i => cases he; exact prefix_append _ _
  | seq first second ih1 ih2 =>
    obtain ⟨m, h1, h2⟩ := he
    exact (ih1 h1).trans (ih2 h2)
  | when test body ih =>
    rcases he with rfl | he
    · exact prefix_rfl
    · exact ih he
  | ifElse test onTrue onFalse ih1 ih2 => exact he.elim ih1 ih2
  | loop condition test body ih1 ih2 =>
    obtain ⟨m, hrounds, hlast⟩ := he
    refine .trans ?_ (ih1 hlast)
    clear hlast
    induction hrounds with
    | refl => exact prefix_rfl
    | tail _ hround ih =>
      obtain ⟨z, hc, hb⟩ := hround
      exact ih.trans ((ih1 hc).trans (ih2 hb))
  | exit result => cases he

/-! ## Growing bodies -/

theorem Bindings.head_stable (h : b <+: b') (hs : (b.head t).slot? = none) :
    b'.head t = b.head t := by
  obtain ⟨more, rfl⟩ := h
  rw [head_append, head_of_not_slot _ hs]

/-- What is known about the parts of a type stays known. -/
theorem Table.project?_stable {table : Table} (h : b <+: b') {fields : List Nat} {u : Ty}
    (hu : table.project? b.head fields t = some u) : table.project? b'.head fields t = some u := by
  induction fields generalizing t with
  | nil => exact hu
  | cons index rest ih =>
    obtain ⟨member, hm, hrest⟩ := bind_eq_some_iff.1 hu
    have hv : (b.head t).slot? = none := by
      cases hh : b.head t with
      | slot s => rw [hh] at hm; cases hm
      | _ => rfl
    rw [project?, head_stable h hv, hm]
    exact ih hrest

namespace Body

/-- In the strict mode everything that is known about the types stays, and so do the
    names. -/
structure Extends (b b' : Body) : Prop where
  registers : b.draft.registers <+: b'.draft.registers
  paramCount : b'.draft.paramCount = b.draft.paramCount
  bindings : b.engine.bindings <+: b'.engine.bindings
  names : b.draft.bindings <+: b'.draft.bindings

variable {cx : Context} {b b1 b2 b3 b' : Body} {sh : Shape} {h h' : History} {r : RegisterId}
  {a : Access} {t u : Ty}

theorem Extends.refl (b : Body) : b.Extends b :=
  ⟨prefix_rfl, rfl, prefix_rfl, prefix_rfl⟩

theorem Extends.trans (h1 : b.Extends b1) (h2 : b1.Extends b2) : b.Extends b2 :=
  ⟨h1.registers.trans h2.registers, h2.paramCount.trans h1.paramCount,
    h1.bindings.trans h2.bindings, h1.names.trans h2.names⟩

theorem Grown.extends_strict (hg : b.Grown cx sh b') (hs : b.engine.strict = true) : b.Extends b' :=
  ⟨hg.draft.registers, hg.draft.paramCount, hg.engine.bindings hs, hg.draft.bindings⟩

theorem Grown.extends (hg : b.Grown cx sh b') (hc : b'.Clean) : b.Extends b' :=
  hg.extends_strict (hg.clean hc).strict

theorem Extends.getElem? (hx : b.Extends b') {i : Nat} {register : Register}
    (hr : b.draft.registers[i]? = some register) : b'.draft.registers[i]? = some register := by
  obtain ⟨more, hmore⟩ := hx.registers
  rw [← hmore, getElem?_append_left (List.getElem?_eq_some_iff.1 hr).1]
  exact hr

theorem Extends.accessType? (hx : b.Extends b') (hu : b.accessType? cx a = some u) :
    b'.accessType? cx a = some u := by
  cases a with
  | discard => cases hu
  | place r fields deref =>
    obtain ⟨register, hr, hrest⟩ := bind_eq_some_iff.1 hu
    obtain ⟨base, hbase, hproj⟩ := bind_eq_some_iff.1 hrest
    simp only [accessType?, type?, hx.getElem? hr, bind_some]
    refine bind_eq_some_iff.2 ⟨base, ?_, project?_stable hx.bindings hproj⟩
    cases deref with
    | false => exact hbase
    | true =>
      have hv : (b.engine.bindings.head register.type).slot? = none := by
        cases hh : b.engine.bindings.head register.type with
        | slot s => simp [hh, pointee?] at hbase
        | _ => rfl
      rw [head_stable hx.bindings hv]
      exact hbase

theorem Extends.accepts (hx : b.Extends b') {dest : Access} (hd : b.Accepts cx dest) :
    b'.Accepts cx dest :=
  hd.imp id fun ⟨u, hu⟩ => ⟨u, hx.accessType? hu⟩

theorem Takes.grown {dest : Access} (h : b.Takes cx dest) (hg : b.Grown cx sh b') :
    b'.Takes cx dest :=
  ⟨hg.inRange h.inRange, fun hc => (hg.extends hc).accepts (h.accepts (hg.clean hc))⟩

theorem Extends.apply (hx : b.Extends b') (ht : (b.engine.bindings.apply t).Closed) :
    b'.engine.bindings.apply t = b.engine.bindings.apply t := by
  obtain ⟨more, hmore⟩ := hx.bindings
  rw [← hmore, apply_append, apply_closed ht]

/-! ## Live registers -/

/-- The register has a value: it is a parameter, or was written. -/
def Defined (b : Body) (h : History) (r : RegisterId) : Prop :=
  r.index < b.draft.paramCount ∨ 0 < h.writes r

def Known (b : Body) (r : RegisterId) : Prop :=
  ∃ register, b.draft.registers[r.index]? = some register ∧
    (b.engine.bindings.apply register.type).Closed

/-- The register has a value of a known type. -/
structure Live (b : Body) (h : History) (r : RegisterId) : Prop where
  defined : b.Defined h r
  known : b.Known r

/-- The access reaches a value of the type `t`. -/
def Has (cx : Context) (b : Body) (a : Access) (t : Ty) : Prop :=
  ∃ u, b.accessType? cx a = some u ∧ b.engine.bindings.apply u = t ∧ t.Closed

/-- What is said to be assigned is live. -/
def Sound (b : Body) (h : History) : Prop :=
  ∀ l ∈ b.locals, l.assigned.definite = true → b.Live h l.register

/-- What `b'` says to be assigned, `b` says to be assigned as well. -/
def Backs (b b' : Body) : Prop :=
  ∀ l' ∈ b'.locals, l'.assigned.definite = true →
    ∃ l ∈ b.locals, l.register = l'.register ∧ l.assigned.definite = true

/-- The step is well typed and reads only what has a value. -/
structure Fine (cx : Context) (b : Body) (h : History) (ev : Event) : Prop where
  reads : ∀ r ∈ ev.reads, b.Defined h r
  typed : ev.Typed cx.table (b.Has cx) cx.returnType

section

variable (hx : b.Extends b')
include hx

theorem Extends.defined (hp : h <+: h') (hd : b.Defined h r) : b'.Defined h' r :=
  hd.imp (fun hlt => hx.paramCount ▸ hlt) fun hpos =>
    Nat.lt_of_lt_of_le hpos (History.writes_mono hp r)

theorem Extends.known (hk : b.Known r) : b'.Known r := by
  obtain ⟨register, hr, hclosed⟩ := hk
  exact ⟨register, hx.getElem? hr, (hx.apply hclosed).symm ▸ hclosed⟩

theorem Extends.live (hp : h <+: h') (hl : b.Live h r) : b'.Live h' r :=
  ⟨hx.defined hp hl.defined, hx.known hl.known⟩

theorem Extends.has (ha : b.Has cx a t) : b'.Has cx a t := by
  obtain ⟨u, hu, rfl, hclosed⟩ := ha
  exact ⟨u, hx.accessType? hu, hx.apply hclosed, hclosed⟩

theorem Extends.fine {ev : Event} (hf : b.Fine cx h ev) : b'.Fine cx h ev :=
  ⟨fun r hr => hx.defined prefix_rfl (hf.reads r hr), hf.typed.mono fun _ _ => hx.has⟩

end

/-- The parts of a value of a known type have known types. -/
theorem closed_project (hb : b.Intact cx) {fields : List Nat}
    (ht : (b.engine.bindings.apply t).Closed)
    (hu : cx.table.project? b.engine.bindings.head fields t = some u) :
    (b.engine.bindings.apply u).Closed := by
  induction fields generalizing t with
  | nil => cases hu; exact ht
  | cons index rest ih =>
    obtain ⟨member, hm, hrest⟩ := bind_eq_some_iff.1 hu
    refine ih ?_ hrest
    rw [← apply_head hb.engine.ordered t] at ht
    cases hv : b.engine.bindings.head t with
    | struct id =>
      rw [hv] at hm
      obtain ⟨entry, hentry, hfield⟩ := bind_eq_some_iff.1 hm
      obtain ⟨field, hf, rfl⟩ := map_eq_some_iff.1 hfield
      have hclosed := Ty.Closed.of_within (hb.context.table.fields entry
        (mem_of_getElem? hentry) field (mem_of_getElem? hf))
      rw [apply_closed hclosed]
      exact hclosed
    | tuple elements =>
      rw [hv] at hm ht
      rw [apply_tuple, closed_tuple] at ht
      exact ht _ (mem_map_of_mem (mem_of_getElem? hm))
    | _ => rw [hv] at hm; cases hm

/-- What is reached from a register of a known type has a known type. -/
theorem Known.has (hb : b.Intact cx) (hk : b.Known r) (ha : a.base? = some r)
    (hu : b.accessType? cx a = some u) : b.Has cx a (b.engine.bindings.apply u) := by
  refine ⟨u, hu, rfl, ?_⟩
  obtain ⟨register, hr, hclosed⟩ := hk
  cases a with
  | discard => cases hu
  | place r' fields deref =>
    cases ha
    obtain ⟨register', hr', hrest⟩ := bind_eq_some_iff.1 hu
    rw [hr] at hr'
    cases hr'
    obtain ⟨base, hbase, hproj⟩ := bind_eq_some_iff.1 hrest
    refine closed_project hb ?_ hproj
    cases deref with
    | false => cases hbase; exact hclosed
    | true =>
      rw [← apply_head hb.engine.ordered] at hclosed
      cases hv : b.engine.bindings.head register.type with
      | pointer mutable pointee =>
        simp only [if_true, hv, pointee?] at hbase
        cases hbase
        rw [hv, apply_pointer] at hclosed
        exact hclosed.part (by simp [mem_parts_self])
      | _ => simp [hv, pointee?] at hbase

/-- A discarded value has no type. -/
theorem base_of_accessType? (hu : b.accessType? cx a = some u) : ∃ r, a.base? = some r := by
  cases a with
  | discard => cases hu
  | place r fields deref => exact ⟨r, rfl⟩

theorem Has.closed (hh : b.Has cx a t) : t.Closed := by
  obtain ⟨u, -, -, hclosed⟩ := hh
  exact hclosed

theorem Has.known (hh : b.Has cx (.register r) t) : b.Known r := by
  obtain ⟨u, hu, rfl, hclosed⟩ := hh
  rw [accessType?, type?_register] at hu
  obtain ⟨register, hr, rfl⟩ := map_eq_some_iff.1 hu
  exact ⟨register, hr, hclosed⟩

theorem Backs.sound (hb : b.Backs b') (hx : b.Extends b') (hs : b.Sound h) : b'.Sound h := by
  intro l' hl' hdef
  obtain ⟨l, hl, hreg, hdef'⟩ := hb l' hl' hdef
  exact hreg ▸ hx.live prefix_rfl (hs l hl hdef')

theorem Extends.sound (hx : b.Extends b') (hl : b'.locals = b.locals) (hs : b.Sound h) :
    b'.Sound h :=
  Backs.sound (fun l hl' hdef => ⟨l, hl ▸ hl', rfl, hdef⟩) hx hs

theorem Sound.later (hs : b.Sound h) (hp : h <+: h') : b.Sound h' :=
  fun l hl hdef => (Extends.refl b).live hp (hs l hl hdef)

end Body

/-! ## Paths -/

open Body

/-- On every path into `sh` on which the registers `N` are live all steps are
    fine, and behind it the registers `R` are live as well. -/
def Flow (cx : Context) (b : Body) (N : List RegisterId) (sh : Shape) (b' : Body)
    (R : List RegisterId) : Prop :=
  ∀ h, b.Sound h → (∀ r ∈ N, b.Live h r) →
    (∀ h' ev, sh.Visits h h' ev → b'.Fine cx h' ev) ∧
      ∀ h', sh.Ends h h' → b'.Sound h' ∧ ∀ r ∈ R, b'.Live h' r

namespace Flow

variable {cx : Context} {b b1 b2 b3 b' : Body} {sh sh1 sh2 : Shape} {N N2 R R1 R2 : List RegisterId}
  {test : Access} {r : RegisterId}

theorem before (hf : Flow cx b1 N sh b' R) (hx : b.Extends b1) (hl : b1.locals = b.locals) :
    Flow cx b N sh b' R :=
  fun h hs hN => hf h (hx.sound hl hs) fun r hr => hx.live prefix_rfl (hN r hr)

theorem rename (hf : Flow cx b N sh b1 R) (hx : b1.Extends b')
    (hl : ∀ l' ∈ b'.locals, l'.assigned.definite = true →
      (∃ l ∈ b1.locals, l.register = l'.register ∧ l.assigned.definite = true) ∨
        l'.register ∈ R) : Flow cx b N sh b' R := by
  intro h hs hN
  obtain ⟨hfine, hend⟩ := hf h hs hN
  refine ⟨fun h' ev hv => hx.fine (hfine h' ev hv), fun h' he => ?_⟩
  obtain ⟨hs', hR⟩ := hend h' he
  refine ⟨fun l' hl' hdef => ?_, fun r hr => hx.live prefix_rfl (hR r hr)⟩
  rcases hl l' hl' hdef with ⟨l, hmem, hreg, hdef'⟩ | hmem
  · exact hx.live prefix_rfl (hreg ▸ hs' l hmem hdef')
  · exact hx.live prefix_rfl (hR _ hmem)

theorem after (hf : Flow cx b N sh b1 R) (hx : b1.Extends b') (hl : b'.locals = b1.locals) :
    Flow cx b N sh b' R :=
  hf.rename hx fun l' hl' hdef => .inl ⟨l', hl ▸ hl', rfl, hdef⟩

theorem weaken (hf : Flow cx b N2 sh b' R2) (hN : N2 ⊆ N) (hR : R ⊆ R2) : Flow cx b N sh b' R := by
  intro h hs hlive
  obtain ⟨hfine, hend⟩ := hf h hs fun r hr => hlive r (hN hr)
  exact ⟨hfine, fun h' he => ⟨(hend h' he).1, fun r hr => (hend h' he).2 r (hR hr)⟩⟩

/-- What is live before the code is live behind it. -/
theorem frame (hf : Flow cx b N sh b' R) (hx : b.Extends b') (M : List RegisterId) :
    Flow cx b (N ++ M) sh b' (R ++ M) := by
  intro h hs hlive
  rw [forall_mem_append] at hlive
  obtain ⟨hfine, hend⟩ := hf h hs hlive.1
  refine ⟨hfine, fun h' he => ⟨(hend h' he).1, forall_mem_append.2 ⟨(hend h' he).2, ?_⟩⟩⟩
  exact fun r hr => hx.live he.isPrefix (hlive.2 r hr)

theorem skip (hx : b.Extends b') (hl : b'.locals = b.locals) : Flow cx b N .skip b' N := by
  intro h hs hN
  refine ⟨fun h' ev hv => hv.elim, ?_⟩
  rintro _ rfl
  exact ⟨hx.sound hl hs, fun r hr => hx.live prefix_rfl (hN r hr)⟩

/-- What is live stays so. -/
theorem seq (hf1 : Flow cx b N sh1 b1 R1) (hx1 : b.Extends b1) (hf2 : Flow cx b1 N2 sh2 b2 R2)
    (hx2 : b1.Extends b2) (hN : N2 ⊆ N ++ R1) (hR : R ⊆ N ++ R1 ++ R2) :
    Flow cx b N (sh1.append sh2) b2 R := by
  intro h hs hlive
  obtain ⟨hfine1, hend1⟩ := hf1 h hs hlive
  have second : ∀ m, sh1.Ends h m → b1.Sound m ∧ ∀ r ∈ N ++ R1, b1.Live m r := by
    intro m hm
    obtain ⟨hsm, hRm⟩ := hend1 m hm
    refine ⟨hsm, fun r hr => ?_⟩
    rcases mem_append.1 hr with hr | hr
    · exact hx1.live hm.isPrefix (hlive r hr)
    · exact hRm r hr
  refine ⟨fun h' ev hv => ?_, fun h' he => ?_⟩
  · rcases Shape.visits_append.1 hv with hv | ⟨m, hm, hv⟩
    · exact hx2.fine (hfine1 h' ev hv)
    · obtain ⟨hsm, hNm⟩ := second m hm
      exact (hf2 m hsm fun r hr => hNm r (hN hr)).1 h' ev hv
  · obtain ⟨m, hm, he⟩ := Shape.ends_append.1 he
    obtain ⟨hsm, hNm⟩ := second m hm
    obtain ⟨hs', hR2⟩ := (hf2 m hsm fun r hr => hNm r (hN hr)).2 h' he
    refine ⟨hs', fun r hr => ?_⟩
    rcases mem_append.1 (hR hr) with hr | hr
    · exact hx2.live he.isPrefix (hNm r hr)
    · exact hR2 r hr

/-- An instruction writes a value of type `found` to a destination, the type of
    which agrees then. -/
theorem deliver {i : Instruction} {dest : Access} {found : Ty} (hx1 : b.Extends b1)
    (hl1 : b1.locals = b.locals) (hx : b1.Extends b') (hl : b'.locals = b1.locals)
    (hdest : i.dest = dest) (hacc : b1.Accepts cx dest)
    (hagree : ∀ u, b1.accessType? cx dest = some u → (b1.engine.bindings.apply found).Closed →
      b'.engine.bindings.apply u = b1.engine.bindings.apply found)
    (hneeds : dest.needs ⊆ N)
    (hsources : ∀ h, (∀ r ∈ N, b.Live h r) → (b1.engine.bindings.apply found).Closed ∧
      (∀ r ∈ i.sources.filterMap base?, b1.Defined h r) ∧
      (dest.Takes (b'.Has cx) (b1.engine.bindings.apply found) →
        i.Typed cx.table (b'.Has cx))) : Flow cx b N (.emit i) b' dest.plain?.toList := by
  intro h hs hN
  obtain ⟨hclosed, hreads, htyped⟩ := hsources h hN
  have htakes : dest.Takes (b'.Has cx) (b1.engine.bindings.apply found) :=
    hacc.imp id fun ⟨u, hu⟩ => ⟨u, hx.accessType? hu, hagree u hu hclosed, hclosed⟩
  refine ⟨?_, ?_⟩
  · rintro _ _ ⟨rfl, rfl⟩
    refine ⟨fun r hr => ?_, htyped htakes⟩
    rcases mem_append.1 hr with hr | hr
    · exact hx.defined prefix_rfl (hreads r hr)
    · exact (hx1.trans hx).defined prefix_rfl (hN r (hneeds (hdest ▸ hr))).defined
  · rintro _ rfl
    refine ⟨((hx1.trans hx).sound (hl.trans hl1) hs).later (prefix_append _ _), fun r hr => ?_⟩
    have hreg : dest = .register r := by
      cases dest with
      | discard => simp [plain?] at hr
      | place r' fields deref =>
        cases fields <;> cases deref <;> simp [plain?] at hr
        rw [hr]
        rfl
    subst hreg
    refine ⟨.inr ?_, (htakes.resolve_left (by rintro ⟨⟩)).known⟩
    have hw : i.Writes r := hdest
    rw [History.writes_snoc, if_pos hw]
    omega

theorem exit {result : Access}
    (hfine : ∀ h, b.Sound h → (∀ r ∈ N, b.Live h r) → b'.Fine cx h (.exit result)) :
    Flow cx b N (.exit result) b' R := by
  intro h hs hN
  refine ⟨?_, fun h' he => by cases he⟩
  rintro _ _ ⟨rfl, rfl⟩
  exact hfine _ hs hN

theorem fine_test {h : History} (hl : b.Live h r) (hh : b.Has cx (.register r) (.struct .bool)) :
    b.Fine cx h (.test (.register r)) := by
  refine ⟨fun r' hr => ?_, hh⟩
  obtain rfl : r' = r := by simpa [Event.reads, register, base?] using hr
  exact hl.defined

theorem when (hf : Flow cx b N sh b1 R) (hr : r ∈ N)
    (hbool : b.Has cx (.register r) (.struct .bool)) (hx1 : b.Extends b1) (hx : b1.Extends b')
    (hj : b.Backs b') (hj1 : b1.Backs b') : Flow cx b N (.when (.register r) sh) b' [] := by
  intro h hs hN
  obtain ⟨hfine, hend⟩ := hf h hs hN
  refine ⟨?_, ?_⟩
  · rintro h' ev (⟨rfl, rfl⟩ | hv)
    · exact (hx1.trans hx).fine (fine_test (hN r hr) hbool)
    · exact hx.fine (hfine h' ev hv)
  · rintro h' (rfl | he)
    · exact ⟨hj.sound (hx1.trans hx) hs, by simp⟩
    · exact ⟨hj1.sound hx (hend h' he).1, by simp⟩

theorem ifElse (hf1 : Flow cx b N sh1 b1 R) (hf2 : Flow cx b2 N sh2 b3 R) (hr : r ∈ N)
    (hbool : b.Has cx (.register r) (.struct .bool)) (hx1 : b.Extends b1) (hx2 : b1.Extends b2)
    (hl2 : b2.locals = b.locals) (hx3 : b2.Extends b3) (hx : b3.Extends b')
    (hj1 : b1.Backs b') (hj3 : b3.Backs b') : Flow cx b N (.ifElse (.register r) sh1 sh2) b' R := by
  intro h hs hN
  have hx1' : b1.Extends b' := hx2.trans (hx3.trans hx)
  obtain ⟨hfine1, hend1⟩ := hf1 h hs hN
  obtain ⟨hfine2, hend2⟩ := hf2.before (hx1.trans hx2) hl2 h hs hN
  refine ⟨?_, ?_⟩
  · rintro h' ev (⟨rfl, rfl⟩ | hv | hv)
    · exact (hx1.trans hx1').fine (fine_test (hN r hr) hbool)
    · exact hx1'.fine (hfine1 h' ev hv)
    · exact hx.fine (hfine2 h' ev hv)
  · rintro h' (he | he)
    · obtain ⟨hs1, hR⟩ := hend1 h' he
      exact ⟨hj1.sound hx1' hs1, fun r hr => hx1'.live prefix_rfl (hR r hr)⟩
    · obtain ⟨hs3, hR⟩ := hend2 h' he
      exact ⟨hj3.sound hx hs3, fun r hr => hx.live prefix_rfl (hR r hr)⟩

/-- What is live before a loop is live in every round. -/
theorem loop (hf1 : Flow cx b N sh1 b1 [r]) (hf2 : Flow cx b1 N sh2 b2 R)
    (hbool : b1.Has cx (.register r) (.struct .bool)) (hx1 : b.Extends b1) (hx2 : b1.Extends b2)
    (hx : b2.Extends b') (hj1 : b1.Backs b') : Flow cx b N (.loop sh1 (.register r) sh2) b' [] := by
  intro h hs hN
  have hx1' : b1.Extends b' := hx2.trans hx
  -- the history only gets longer from round to round
  have start : ∀ m, Relation.ReflTransGen (Shape.Round sh1 sh2) h m → h <+: m := by
    intro m hrounds
    induction hrounds with
    | refl => exact prefix_rfl
    | tail _ hround ih =>
      obtain ⟨z, hc, hb⟩ := hround
      exact ih.trans (hc.isPrefix.trans hb.isPrefix)
  have round : ∀ m, Relation.ReflTransGen (Shape.Round sh1 sh2) h m →
      (∀ h' ev, sh1.Visits m h' ev → b1.Fine cx h' ev) ∧
        ∀ z, sh1.Ends m z → b1.Sound z ∧ b1.Live z r ∧ ∀ r ∈ N, b1.Live z r := by
    intro m hrounds
    have hp := start m hrounds
    obtain ⟨hfine, hend⟩ := hf1 m (hs.later hp) fun r hr => (Extends.refl b).live hp (hN r hr)
    refine ⟨hfine, fun z hz => ⟨(hend z hz).1, (hend z hz).2 r (by simp), fun r hr => ?_⟩⟩
    exact hx1.live (hp.trans hz.isPrefix) (hN r hr)
  refine ⟨?_, ?_⟩
  · rintro h' ev ⟨m, hrounds, hv | ⟨z, hz, ⟨rfl, rfl⟩ | hv⟩⟩
    · exact hx1'.fine ((round m hrounds).1 h' ev hv)
    · exact hx1'.fine (fine_test ((round m hrounds).2 _ hz).2.1 hbool)
    · obtain ⟨hsz, -, hNz⟩ := (round m hrounds).2 z hz
      exact hx.fine ((hf2 z hsz hNz).1 h' ev hv)
  · rintro h' ⟨m, hrounds, hlast⟩
    exact ⟨hj1.sound hx1' ((round m hrounds).2 h' hlast).1, by simp⟩

end Flow

end Semcheck
