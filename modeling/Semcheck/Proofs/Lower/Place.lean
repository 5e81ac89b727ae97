/-
  Places, and values that are delivered to a destination.

  * `Behaves`: the code keeps to single assignment (`Once`); if nothing was reported,
    it is fine on all its paths (`Flow`) and writes only where it may (`Permits`);
  * `Traced`: the same locals are in scope before and behind it as well;
  * `Lowers cx value E`: `value` writes a value to any destination, by code with
    the effect `E`;
  * `Places`: the same for steps that find a place.
-/
import Semcheck.Proofs.Lower.Once
import Semcheck.Proofs.Lower.Permit

namespace Semcheck

open Lower Body List Bindings Option Table Access Ty

/-! ## Traced code -/

section

variable (cx : Context) (b : Body) (N : List RegisterId) (dest : Access) (E : Effect) (sh : Shape)
  (b' : Body) (R : List RegisterId)

/-- What is known about code that writes to `dest`, if the registers `N` are
    live before it; behind it the registers `R` are. -/
structure Behaves : Prop where
  flow : b'.Clean → Flow cx b N sh b' R
  once : Once cx b dest E sh b'
  permit : b'.Clean → Permits b dest sh b'

/-- Behind the code the same locals are in scope. -/
structure Traced : Prop extends Behaves cx b N dest E sh b' R where
  level : b.Level b'

end

variable {cx : Context} {b b' : Body} {p : Place}

theorem Body.Steady.level (h : b.Steady b') : b.Level b' := by
  rw [Level, h.locals]

namespace Traced

variable {cx : Context} {b b1 b2 b' : Body} {N N2 R R1 R2 : List RegisterId} {dest dest' : Access}
  {E E1 E2 : Effect} {sh sh1 sh2 : Shape}

theorem before (h : Traced cx b1 N dest E sh b' R) (hx : b'.Clean → b.Extends b1)
    (hle : b.draft.registers.length ≤ b1.draft.registers.length) (hs : b.Steady b1)
    (hd : b1.loopDepth = b.loopDepth) : Traced cx b N dest E sh b' R where
  flow hc := (h.flow hc).before (hx hc) hs.locals
  once := h.once.before hs hle hd
  level := h.level.trans hs.level
  permit hc := (h.permit hc).before (hx hc) hs.locals

theorem skip (hb : b.Intact cx) (hx : b'.Clean → b.Extends b') (hs : b.Steady b') :
    Traced cx b N dest .none .skip b' N where
  flow hc := .skip (hx hc) hs.locals
  once := .skip hb hs
  level := hs.level
  permit _ := .skip hs.locals

theorem weaken (h : Traced cx b N2 dest E sh b' R2) (hN : N2 ⊆ N) (hR : R ⊆ R2) :
    Traced cx b N dest E sh b' R :=
  { h with flow := fun hc => (h.flow hc).weaken hN hR }

theorem frame (h : Traced cx b N dest E sh b' R) (hx : b'.Clean → b.Extends b')
    (M : List RegisterId) : Traced cx b (N ++ M) dest E sh b' (R ++ M) :=
  { h with flow := fun hc => (h.flow hc).frame (hx hc) M }

theorem seq (hb : b.Intact cx) (h1 : Traced cx b N .discard E1 sh1 b1 R1)
    (hg1 : b.Grown cx sh1 b1) (h2 : Traced cx b1 N2 dest E2 sh2 b2 R2)
    (hg2 : b1.Grown cx sh2 b2) (hd : dest.InRange b.draft.registers.length)
    (hN : N2 ⊆ N ++ R1) (hR : R ⊆ N ++ R1 ++ R2) :
    Traced cx b N dest (E1.seq E2) (sh1.append sh2) b2 R where
  flow hc := .seq (h1.flow (hg2.clean hc)) (hg1.extends (hg2.clean hc)) (h2.flow hc)
    (hg2.extends hc) hN hR
  once := .seq hb h1.once hg1 h1.level h2.once hd
  level := h2.level.trans h1.level
  permit hc := .seq (h1.permit (hg2.clean hc)) (hg1.extends (hg2.clean hc)) (h2.permit hc)
    (hg2.extends hc)

theorem temp {type : Ty} {r : RegisterId} (hb : b.Intact cx) (hr : b.Allocates cx type r b1)
    (hg : b1.Grown cx sh b') (h : Traced cx b1 N (.register r) E sh b' R) :
    Traced cx b N .discard E sh b' R := by
  have h' := h.before (fun hc => hr.grown.extends (hg.clean hc)) hr.grown.registers_le hr.steady
    hr.grown.depth
  refine ⟨⟨h'.flow, h'.once.discard hb fun r' _ hr' heq => ?_,
    fun hc => (h'.permit hc).discard fun _ => writable_register r⟩, h'.level⟩
  have := hr.index
  rw [register_inj heq] at this
  omega

theorem partly (hb : b.Intact cx) (h : Traced cx b N dest' E sh b' R)
    (hd : ∀ r, dest' ≠ .register r) (hw : b'.Clean → b.Reached → b.Writable dest') :
    Traced cx b N .discard E sh b' R :=
  ⟨⟨h.flow, h.once.discard hb fun r _ _ => hd r, fun hc => (h.permit hc).discard (hw hc)⟩, h.level⟩

theorem result (hb : b.Intact cx) (h : Traced cx b N cx.result E sh b' R) :
    Traced cx b N .discard E sh b' R :=
  ⟨⟨h.flow, h.once.discard hb fun _ hf _ => hf,
    fun hc => (h.permit hc).discard fun _ => result_writable hb⟩, h.level⟩

end Traced

/-! ## Delivering values -/

/-- `value` writes a value to any destination, by code with the effect `E`. -/
def Lowers (cx : Context) (value : Access → Lower Unit) (E : Effect) : Prop :=
  ∀ b dest, b.Intact cx → dest.InRange b.draft.registers.length →
    (b.Clean → b.Accepts cx dest) →
    Spec cx b (value dest) (fun _ _ => True) fun _ sh b' =>
      Traced cx b dest.needs dest E sh b' dest.plain?.toList

/-- `step` writes a value to the destination, if the registers `N` are live. -/
def Body.Fills (cx : Context) (b : Body) (N : List RegisterId) (dest : Access) (E : Effect)
    (step : Lower Unit) : Prop :=
  Spec cx b step (fun _ _ => True) fun _ sh b' => Traced cx b N dest E sh b' dest.plain?.toList

section

variable {cx : Context} {b b' : Body} {dest : Access} {found : Ty} {N : List RegisterId}

theorem Lowers.fills {value : Access → Lower Unit} {E : Effect} (h : Lowers cx value E)
    (hb : b.Intact cx) (hd : b.Takes cx dest) : b.Fills cx dest.needs dest E (value dest) :=
  h b dest hb hd.inRange hd.accepts

/-- A value is delivered behind code that computes its parts. -/
theorem Body.Fills.behind {b1 : Body} {E1 E2 : Effect} {sh1 : Shape} {N2 R : List RegisterId}
    {step : Lower Unit} (hb : b.Intact cx) (hd : b.Takes cx dest) (hg1 : b.Grown cx sh1 b1)
    (h1 : b1.gaveUp = false → Traced cx b [] .discard E1 sh1 b1 R)
    (h2 : b1.Fills cx N2 dest E2 step) (hN : N2 ⊆ N ++ R) :
    Spec cx b1 step (fun _ _ => True) fun _ sh b' =>
      Traced cx b N dest (E1.seq E2) (sh1.append sh) b' dest.plain?.toList := by
  refine h2.imp fun _ sh2 b' hg2 hw htraced => ?_
  exact ((h1 (hg2.whole hw)).weaken (nil_subset _) (.refl _)).seq hb hg1 htraced hg2
    hd.inRange hN (by simp)

namespace Lower

/-- An instruction writes a value of type `found` to the destination.  It is
    well typed for any notion of type that covers what is known; what it reads
    was live in the body `b0` from before the types were compared. -/
theorem deliver_traced {b0 : Body} {sh0 : Shape} (hb0 : b0.Intact cx) (hg0 : b0.Grown cx sh0 b)
    (hs0 : b.gaveUp = false → b0.Steady b) {i : Instruction}
    (hi : (Event.run i).InRange cx.table b.draft.registers.length)
    (hdest : i.dest = dest) (hd : b.Takes cx dest) (hf : found.Legal cx b)
    (hpf : b.Clean → found.Plain) (span : Location) (hneeds : dest.needs ⊆ N)
    (hsources : b.Clean → ∀ h, (∀ r ∈ N, b0.Live h r) → (b.engine.bindings.apply found).Closed ∧
      (∀ r ∈ i.sources.filterMap base?, b.Defined h r) ∧
      ∀ has : Access → Ty → Prop, (∀ a t, b.Has cx a t → has a t) →
        dest.Takes has (b.engine.bindings.apply found) → i.Typed cx.table has)
    (haddress : b.Clean → b.Reached → ∀ source d, i = .address source true d →
      source.Open b.Points b.Binds) :
    Spec cx b (do push i; assign cx dest found span) (fun _ _ => True) fun _ sh b' =>
      Traced cx b0 N dest .none sh b' dest.plain?.toList := by
  refine (deliver_spec hg0.intact hi hd hf hpf span).imp ?_
  rintro _ sh b' hg hw ⟨rfl, hsteady, hagree⟩
  have hs0 := hs0 (hg.whole hw)
  refine ⟨⟨fun hc => ?_, .emit hb0 (hs0.trans hsteady) hdest, fun hc => ?_⟩,
    (hs0.trans hsteady).level⟩
  all_goals
    have hx := hg.extends hc
    have hx0 := hg0.extends (hg.clean hc)
  · refine .deliver hx0 hs0.locals hx hsteady.locals hdest (hd.accepts (hg.clean hc)) (hagree hc)
      hneeds fun h hN => ?_
    obtain ⟨hclosed, hreads, htyped⟩ := hsources (hg.clean hc) h hN
    exact ⟨hclosed, hreads, htyped (b'.Has cx) fun _ _ => hx.has⟩
  · exact (Permits.emit hx hsteady.locals hdest (haddress (hg.clean hc))).before hx0 hs0.locals

theorem moveLiteral_spec (hb : b.Intact cx) (value : Literal) (hv : value.operands = [])
    (hrange : value.InRange cx.table) (hd : b.Takes cx dest)
    (hf : found.Within 0 cx.table.structs.length) (hpf : b.Clean → found.Plain) (span : Location)
    (htyped : ∀ has, value.Typed cx.table has found) :
    b.Fills cx dest.needs dest .none (moveLiteral cx value found dest span) := by
  have happly : b.engine.bindings.apply found = found :=
    apply_closed (.of_within hf)
  refine deliver_traced hb (.refl hb) (fun _ => .refl b) (i := .literal value dest)
    ⟨fun a ha => ?_, ?_⟩ rfl hd (hf.mono (Nat.zero_le _) (Nat.le_refl _)) hpf span
    (.refl _) (fun _ h hN => ⟨?_, ?_, fun has _ htakes => ?_⟩) (by rintro _ _ _ _ ⟨⟩)
  · simp only [Instruction.accesses, Instruction.sources, hv, nil_append] at ha
    obtain rfl := mem_singleton.1 ha
    exact hd.inRange
  · rintro _ _ ⟨⟩
    exact hrange
  · rw [happly]
    exact .of_within hf
  · simp [Instruction.sources, hv]
  · rw [happly] at htakes
    exact ⟨found, htyped has, htakes⟩

theorem moveUnit_spec (hb : b.Intact cx) (hd : b.Takes cx dest) (span : Location) :
    b.Fills cx dest.needs dest .none (moveUnit cx dest span) := by
  rw [moveUnit]
  exact moveLiteral_spec hb .unit rfl trivial hd within_unit
    (fun _ => plain_unit) span fun _ => ⟨[], .nil, rfl⟩

end Lower

end

/-! ## Places -/

namespace Place

/-- The place has the type that is said.  What a pointer points to is as mutable
    as the pointer says. -/
structure Typed (cx : Context) (b : Body) (p : Place) : Prop where
  access : b.accessType? cx p.access = some p.type
  target : ∀ r, p.access = .place r [] true → ∃ register,
    b.draft.registers[r.index]? = some register ∧
      b.engine.bindings.head register.type = .pointer p.mutable p.type

theorem Typed.extend (h : p.Typed cx b) (hx : b.Extends b') : p.Typed cx b' := by
  refine ⟨hx.accessType? h.access, fun r hr => ?_⟩
  obtain ⟨register, hreg, hhead⟩ := h.target r hr
  exact ⟨register, hx.getElem? hreg, by
    rw [head_stable hx.bindings (by rw [hhead]; rfl), hhead]⟩

/-- Everything the place mentions exists, and in the strict mode the place has its type, whether
    or not something was reported. -/
structure InRange (cx : Context) (b : Body) (p : Place) : Prop where
  access : p.access.InRange b.draft.registers.length
  type : p.type.Within b.engine.slots.length cx.table.structs.length
  index : ∀ i, p.localIndex = some i → i < b.locals.length
  typed : b.engine.strict = true → p.Typed cx b

theorem InRange.grown {sh : Shape} (h : p.InRange cx b) (hg : b.Grown cx sh b') :
    p.InRange cx b' := by
  refine ⟨hg.inRange h.access, hg.within h.type, fun i hi => Nat.lt_of_lt_of_le (h.index i hi) ?_,
    fun hs => ?_⟩
  · obtain ⟨more, hmore, -⟩ := hg.locals
    have hlength := congrArg length hmore
    simp only [length_map, length_append] at hlength
    omega
  · have hs := hg.engine.strict.symm.trans hs
    exact (h.typed hs).extend (hg.extends_strict hs)

theorem InRange.plain (h : p.InRange cx b) (hb : b.Intact cx) (hc : b.Clean) : p.type.Plain :=
  accessType?_plain hb hc (h.typed hc.strict).access

/-- The place is the local with the given name, or else a part of something. -/
def Denotes (b : Body) (name : Option String) (p : Place) : Prop :=
  (∃ x i l, name = some x ∧ findLocal x b.locals = some (i, l) ∧ p.localIndex = some i ∧
    p.access = .register l.register ∧ (p.mutable = true → l.mutable = false →
      l.assigned.possible = false ∧ l.loopDepth = b.loopDepth)) ∨
  (name = none ∧ p.localIndex = none ∧ ∀ r, p.access ≠ .register r)

/-- Where a path leads, a place that is said to be mutable may be changed, unless it is
    a temporary. -/
def Grants (b : Body) (p : Place) : Prop :=
  b.Reached → p.mutable = true → p.temporary = false → p.access.Open b.Points b.Binds

end Place

/-- The registers that are live where a place was found. -/
def Access.reach (purpose : Purpose) (a : Access) : List RegisterId :=
  if purpose = .assign then a.needs else a.base?.toList

theorem Access.needs_subset (a : Access) : a.needs ⊆ a.base?.toList := by
  cases a with
  | discard => simp [needs]
  | place r fields deref =>
    cases fields <;> cases deref <;> simp [needs, base?]

/-- `place` finds the place that an expression with the effect `E` denotes, if it
    denotes one; `name` is the local that the expression names.  To be assigned, a local
    need not be mutable. -/
def Places (cx : Context) (place : Purpose → Lower (Option Place)) (E : Effect)
    (name : Option String) : Prop :=
  ∀ b purpose, b.Intact cx →
    Spec cx b (place purpose) (fun o b' => ∀ p, o = some p → p.InRange cx b') fun o sh b' =>
      (o = none ∧ sh = .skip ∧ b' = b) ∨ ∃ p, o = some p ∧ p.Denotes b' name ∧
        (b'.Clean → (purpose = .assign → name = none) → p.Grants b') ∧
        Traced cx b [] .discard E sh b' (p.access.reach purpose)

namespace Lower

variable {cx : Context} {b b' : Body} {dest : Access} {x : String} {E : Effect} {l : Local}
  {type : Ty} {i : Nat}

theorem fail_bind_spec {α β : Type} {P : β → Body → Prop} {Q : β → Shape → Body → Prop}
    (hb : b.Intact cx) (code : Code) (message : String) (span : Location) (f : α → Lower β) :
    Spec cx b (fail code message span >>= f) P Q :=
  .gaveUp (run_bind_none rfl) (.reported hb _) not_clean_reported

theorem localPlace_spec (hb : b.Intact cx) (hfind : findLocal x b.locals = some (i, l))
    (purpose : Purpose) (span : Location) :
    Spec cx b (localPlace i l purpose span) (fun p b' => p.InRange cx b') fun p sh b' =>
      sh = .skip ∧ b' = b ∧ p.Denotes b (some x) ∧ p.access = .register l.register ∧
        (purpose ≠ .assign → l.assigned.definite = true) := by
  obtain ⟨hi, -⟩ := findLocal_some hfind
  have hreg := hb.locals l (mem_of_getElem? hi)
  obtain ⟨register, hr, hw⟩ := hb.register hreg
  rw [localPlace]
  split
  · exact fail_bind_spec hb _ _ _ _
  · rename_i hdef
    refine .look (a := b) rfl (.look (registerType_run hr) (.pure hb ?_ fun _ => ?_))
    · refine ⟨inRange_register hreg, hw, ?_, fun _ => ⟨?_, by rintro r ⟨⟩⟩⟩
      · rintro _ ⟨⟩
        exact (List.getElem?_eq_some_iff.1 hi).1
      · rw [accessType?, type?_register, hr]
        rfl
    · refine ⟨rfl, rfl, .inl ⟨x, i, l, rfl, hfind, rfl, rfl, ?_⟩, rfl, ?_⟩
      · intro hmut hl
        simpa [hl] using hmut
      · intro hp
        simpa [hp] using hdef

/-- A local that has its value is as mutable as it was declared. -/
theorem localPlace_grants (hb : b.Intact cx) (hfind : findLocal x b.locals = some (i, l))
    (hdef : l.assigned.definite = true) {p : Place} (hden : p.Denotes b (some x)) : p.Grants b := by
  intro hreached hmut _
  obtain ⟨_, _, _, ⟨⟩, hfind', -, haccess, hfree⟩ | ⟨⟨⟩, -⟩ := hden
  rw [hfind] at hfind'
  cases hfind'
  have hl := mem_of_getElem? (findLocal_some hfind).1
  have hmutable : l.mutable = true := by
    by_contra hne
    have hpossible := (hfree hmut (by simpa using hne)).1
    rw [hreached.possible hl hdef] at hpossible
    cases hpossible
  obtain ⟨binding, hbinding, hreg, hm⟩ := hb.bound l hl
  rw [haccess]
  exact ⟨binding, hbinding, hreg, hm.trans hmutable⟩

theorem namedPlace_places (path : Path) (span : Location) :
    Places cx (fun purpose => namedPlace path purpose span) .none (path.single?.map Ident.text) := by
  intro b purpose hb
  have hlookup : (lookupLocal path).run b =
      .ok (some ((path.single?.map Ident.text).bind fun x => findLocal x b.locals), b) := by
    rw [lookupLocal]
    cases path.single? <;> rfl
  refine .look hlookup ?_
  cases hname : path.single?.map Ident.text with
  | none => exact .pure hb (by rintro p ⟨⟩) fun _ => .inl ⟨rfl, rfl, rfl⟩
  | some x =>
    cases hfind : findLocal x b.locals with
    | none =>
      rw [bind_some, hfind]
      exact .pure hb (by rintro p ⟨⟩) fun _ => .inl ⟨rfl, rfl, rfl⟩
    | some entry =>
      obtain ⟨i, l⟩ := entry
      rw [bind_some, hfind]
      refine (localPlace_spec hb hfind purpose span).bind fun p sh1 b1 hg1 hp1 hq1 => ?_
      refine .pure hg1.intact (by rintro p' ⟨⟩; exact hp1) fun hw => .inr ⟨p, rfl, ?_⟩
      obtain ⟨rfl, rfl, hden, haccess, hdef⟩ := hq1 hw
      refine ⟨hden, fun _ hpurpose => ?_,
        ⟨fun _ => ?_, .skip hb (.refl _), fun _ => .skip rfl⟩, rfl⟩
      · exact localPlace_grants hb hfind (hdef fun h => nomatch hpurpose h) hden
      -- a local that may be read is live
      intro h hs _
      refine ⟨fun h' ev hv => hv.elim, ?_⟩
      rintro _ rfl
      refine ⟨hs, fun r hr => ?_⟩
      rw [haccess, reach] at hr
      split at hr
      · cases hr
      · rename_i hpurpose
        obtain rfl : r = l.register := by simpa [register, base?] using hr
        exact hs l (mem_of_getElem? (findLocal_some hfind).1) (hdef hpurpose)

theorem settling_temp {value : Access → Lower Unit} (hvalue : Lowers cx value E) (hb : b.Intact cx)
    {r : RegisterId} {b1 : Body} (hr : b.Allocates cx type r b1) :
    Spec cx b1 (settling cx (.register r) value) (fun _ _ => True) fun _ sh b' =>
      Traced cx b [] .discard E sh b' [r] := by
  refine ((hvalue.fills hr.grown.intact hr.takes).settling hr.inRange).imp
    fun _ sh b' hg' _ htraced => ?_
  exact htraced.temp hb hr hg'

theorem placeOrTemp_spec {place : Purpose → Lower (Option Place)} {value : Access → Lower Unit}
    {name : Option String} (hplace : Places cx place E name) (hvalue : Lowers cx value E)
    (hb : b.Intact cx) (span : Location) :
    Spec cx b (placeOrTemp cx span (place .read) value) (fun p b' => p.InRange cx b')
      fun p sh b' => (b'.Clean → p.Grants b') ∧
        Traced cx b [] .discard E sh b' p.access.base?.toList := by
  refine (hplace b .read hb).bind fun o sh1 b1 hg1 hp1 hq1 => ?_
  cases o with
  | some p =>
    refine .pure hg1.intact (hp1 p rfl) fun hw => ?_
    obtain ⟨⟨⟩, -⟩ | ⟨p', ⟨⟩, -, hgrants, htraced⟩ := hq1 hw
    exact ⟨fun hc => hgrants hc (by rintro ⟨⟩), by simpa [reach] using htraced⟩
  | none =>
    obtain ⟨r, b2, s, hrun, hr⟩ := newTemp_run hg1.intact span
    refine .allocate hrun hr ((settling_temp hvalue hg1.intact hr).bind
      fun _ sh3 b3 hg3 _ hq3 => ?_)
    have hlt : r.index < b3.draft.registers.length := Nat.lt_of_lt_of_le hr.lt hg3.registers_le
    obtain ⟨register, hreg, hw⟩ := hg3.intact.register hlt
    refine .look (registerType_run hreg) (.pure hg3.intact ?_ fun hwhole => ?_)
    · refine ⟨inRange_register hlt, hw, by rintro i ⟨⟩, fun _ => ⟨?_, by rintro r ⟨⟩⟩⟩
      rw [accessType?, type?_register, hreg]
      rfl
    · obtain ⟨-, rfl, rfl⟩ | ⟨p', ⟨⟩, -⟩ := hq1 (hr.grown.whole (hg3.whole hwhole))
      exact ⟨by rintro _ _ _ ⟨⟩, by simpa [Access.register, Access.base?] using hq3 hwhole⟩

/-! ## Parts of places -/

/-- The field that is found has the type that is said. -/
theorem findMember_spec (hb : b.Intact cx) (ht : type.Legal cx b) (hp : b.Clean → type.Plain)
    (field : String) (span : Location) :
    Spec cx b (findMember cx type field span)
      (fun o _ => ∀ i member, o = some (i, member) → cx.table.member? i type = some member ∧
        member.Legal cx b)
      fun _ sh b' => sh = .skip ∧ b' = b := by
  cases type with
  | struct id =>
    obtain ⟨entry, hmem, hentry⟩ := struct?_of_lt (within_struct.1 ht)
    have hfield : ∀ i member, (findField field entry.fields).map
        (fun found => (found.1, found.2.type)) = some (i, member) →
        ∃ f, entry.fields[i]? = some f ∧ f.type = member := by
      intro i member h
      obtain ⟨⟨i', f⟩, hf, heq⟩ := map_eq_some_iff.1 h
      cases heq
      exact ⟨f, findField_some hf, rfl⟩
    refine .look (orFault_run (fields_eq hentry)) (.pure hb ?_ fun _ => ⟨rfl, rfl⟩)
    intro i member h
    obtain ⟨f, hf, rfl⟩ := hfield i member h
    refine ⟨by simp [member?, hentry, hf], ?_⟩
    exact (hb.context.table.fields entry hmem f (mem_of_getElem? hf)).mono
      (Nat.zero_le _) (Nat.le_refl _)
  | tuple elements =>
    have helement : ∀ i member, ((tupleIndex? field).bind fun index =>
        elements[index]?.map fun type => (index, type)) = some (i, member) →
        elements[i]? = some member := by
      intro i member h
      obtain ⟨index, -, hi⟩ := bind_eq_some_iff.1 h
      obtain ⟨t, ht, heq⟩ := map_eq_some_iff.1 hi
      cases heq
      exact ht
    refine .pure hb ?_ fun _ => ⟨rfl, rfl⟩
    intro i member h
    have hi := helement i member h
    exact ⟨hi, within_tuple.1 ht member (mem_of_getElem? hi)⟩
  | slot s => exact fail_spec hb _ _ _
  | error => exact giveUp_spec hb fun hc => (hp hc) _ (mem_parts_self _)
  | _ => exact .pure hb (by rintro i member ⟨⟩) fun _ => ⟨rfl, rfl⟩

theorem Access.field_ne_register (a : Access) (i : Nat) (r : RegisterId) :
    a.field i ≠ .register r := by
  cases a with
  | discard => rintro ⟨⟩
  | place r' fields deref => simp [field, register]

theorem fieldPlace_spec (hb : b.Intact cx) {base : Place} (hbase : base.InRange cx b)
    (hgrants : b.Clean → base.Grants b) (baseSpan : Location) (field : Ident) :
    Spec cx b (fieldPlace cx base baseSpan field) (fun p b' => p.InRange cx b') fun p sh b' =>
      sh = .skip ∧ b' = b ∧ p.Denotes b none ∧ (b.Clean → p.Grants b) ∧
        p.access.base? = base.access.base? := by
  have hhead := hb.engine.head hbase.type
  have hplain : b.Clean → (b.engine.bindings.head base.type).Plain := fun hc =>
    (hb.plain hc).1.engine.head (hbase.plain hb hc)
  refine .look (shallow_run hb.engine hbase.type) ?_
  refine (findMember_spec hb hhead hplain field.text baseSpan).bind fun o sh1 b1 hg1 hp1 hq1 => ?_
  cases o with
  | none => exact failNaming_spec hg1.intact (hg1.within hhead) _ _ _
  | some found =>
    obtain ⟨i, member⟩ := found
    obtain ⟨hmember, hwithin⟩ := hp1 i member rfl
    refine .pure hg1.intact ?_ fun hw => ?_
    · refine ⟨(hg1.inRange hbase.access).field i, hg1.within hwithin, by rintro i ⟨⟩,
        fun hs => ⟨?_, fun r hr => ?_⟩⟩
      · have hs := hg1.engine.strict.symm.trans hs
        exact (hg1.extends_strict hs).accessType? (type?_field (hbase.typed hs).access hmember)
      · cases hbase : base.access with
        | discard => rw [hbase] at hr; cases hr
        | place r' fields deref => simp [hbase, Access.field] at hr
    · obtain ⟨rfl, rfl⟩ := hq1 hw
      refine ⟨rfl, rfl, .inr ⟨rfl, rfl, Access.field_ne_register _ _⟩,
        fun hc hr hm ht => (hgrants hc hr hm ht).field i, ?_⟩
      cases base.access <;> rfl

end Lower

theorem Place.Typed.has {h : History} (ht : p.Typed cx b) (hb : b.Intact cx)
    (hlive : ∀ r ∈ p.access.base?.toList, b.Live h r) :
    b.Has cx p.access (b.engine.bindings.apply p.type) ∧
      ∀ r ∈ [p.access].filterMap base?, b.Defined h r := by
  obtain ⟨r, hbase⟩ := base_of_accessType? ht.access
  have hr := hlive r (by simp [hbase])
  refine ⟨hr.known.has hb hbase ht.access, fun r' hr' => ?_⟩
  obtain rfl : r' = r := by simpa [hbase, eq_comm] using hr'
  exact hr.defined

namespace Lower

variable {cx : Context} {b b' : Body} {dest : Access} {place : Option Place} {i : Instruction}
  {pointer : Place}

variable (hb : b.Intact cx)
include hb

/-- An instruction writes a value of just the type of the destination. -/
theorem push_traced (hi : (Event.run i).InRange cx.table b.draft.registers.length) {r : RegisterId}
    (hdest : i.dest = .register r) {t : Ty} (ht : b.accessType? cx (.register r) = some t)
    {N : List RegisterId}
    (hsources : b.Clean → ∀ h, (∀ r ∈ N, b.Live h r) → (b.engine.bindings.apply t).Closed ∧
      (∀ r ∈ i.sources.filterMap base?, b.Defined h r) ∧
      ∀ has : Access → Ty → Prop, (∀ a t, b.Has cx a t → has a t) →
        has (.register r) (b.engine.bindings.apply t) → i.Typed cx.table has)
    (haddress : ∀ source d, i ≠ .address source true d) :
    Spec cx b (push i) (fun _ _ => True) fun _ sh b' =>
      Traced cx b N (.register r) .none sh b' [r] := by
  have hg : b.Grown cx (.emit i) (b.withGraph (b.draft.graph.push i)) := .code' hb hi
    (Event.leavesWith_run _ _)
  refine .intro (push_run hb.opened i) hg trivial fun _ => ?_
  have hagree : ∀ u, b.accessType? cx (.register r) = some u →
      (b.engine.bindings.apply t).Closed →
      b.engine.bindings.apply u = b.engine.bindings.apply t := fun u hu _ => by
    rw [ht] at hu
    cases hu
    rfl
  refine ⟨⟨fun hc => .deliver (.refl b) rfl (hg.extends hc) rfl hdest (.inr ⟨t, ht⟩) hagree
    (by simp [register, needs]) fun h hlive => ?_, .emit hb ⟨rfl, rfl⟩ hdest,
    fun hc => .emit (hg.extends hc) rfl hdest fun _ source d heq =>
      absurd heq (haddress source d)⟩, rfl⟩
  obtain ⟨hclosed, hdef, htyped⟩ := hsources (hg.clean hc) h hlive
  refine ⟨hclosed, hdef, fun htakes => htyped _ (fun _ _ => (hg.extends hc).has) ?_⟩
  exact htakes.resolve_left (by rintro ⟨⟩)

/-- The pointer is in the register, and is live. -/
theorem pointerRegister_spec (hp : pointer.InRange cx b) (span : Location)
    (hknown : (b.engine.bindings.head pointer.type).slot? = none) :
    Spec cx b (pointerRegister pointer (b.engine.bindings.head pointer.type) span)
      (fun r b' => r.index < b'.draft.registers.length ∧ (b.engine.strict = true → ∃ register,
        b'.draft.registers[r.index]? = some register ∧
          b'.engine.bindings.head register.type = b.engine.bindings.head pointer.type))
      fun r sh b' => Traced cx b pointer.access.base?.toList .discard .none sh b' [r] := by
  rw [pointerRegister]
  cases hplain : pointer.access.plain? with
  | some r =>
    have haccess : pointer.access = .register r := by
      cases ha : pointer.access with
      | discard => rw [ha] at hplain; cases hplain
      | place r' fields deref =>
        rw [ha] at hplain
        cases fields <;> cases deref <;> simp [plain?] at hplain
        rw [hplain]
        rfl
    refine .pure hb ⟨hp.access r (by rw [haccess]; rfl), fun hs => ?_⟩ fun _ => ?_
    · have htype := (hp.typed hs).access
      rw [haccess, accessType?, type?_register] at htype
      obtain ⟨register, hr, ht⟩ := map_eq_some_iff.1 htype
      exact ⟨register, hr, by rw [ht]⟩
    · rw [haccess]
      exact .skip hb (fun _ => .refl b) (.refl b)
  | none =>
    have hhead := hb.engine.head hp.type
    have hpl : b.Clean → (b.engine.bindings.head pointer.type).Plain := fun hc =>
      (hb.plain hc).1.engine.head (hp.plain hb hc)
    obtain ⟨r, b1, hrun, hr⟩ := newRegister_run hb hhead hpl span
    have hg := hr.grown
    refine .allocate hrun hr ?_
    refine (push_traced hg.intact (i := .move pointer.access (.register r)) ⟨?_, by rintro _ _ ⟨⟩⟩
      rfl hr.accessType? (N := pointer.access.base?.toList) (fun hc h hlive => ?_)
      (by rintro _ _ ⟨⟩)).bind
      fun _ sh2 b2 hg2 _ hq2 => ?_
    · simp only [Instruction.accesses, Instruction.sources, Instruction.dest]
      simpa using ⟨hg.inRange hp.access, hr.inRange⟩
    · -- the pointer is read at the type of the copy
      have hx := hg.extends hc
      obtain ⟨hhas, hdef⟩ := ((hp.grown hg).typed hc.strict).has hg.intact hlive
      have happly : b1.engine.bindings.apply (b.engine.bindings.head pointer.type) =
          b1.engine.bindings.apply pointer.type := by
        rw [← head_stable hx.bindings hknown]
        exact apply_head hg.intact.engine.ordered _
      rw [happly]
      exact ⟨hhas.closed, hdef, fun has hhas' htakes => ⟨_, hhas' _ _ hhas, .inl (.inr htakes)⟩⟩
    · obtain ⟨register, hreg, htype⟩ := hr.getElem?
      refine .pure hg2.intact ⟨Nat.lt_of_lt_of_le hr.lt hg2.registers_le, fun hs => ?_⟩ fun hw => ?_
      · refine ⟨register, (hg2.extends_strict (hg.engine.strict.trans hs)).getElem? hreg, ?_⟩
        rw [htype, head_of_not_slot _ hknown]
      · simpa using (hq2 hw).temp hb hr hg2

theorem targetPlace_spec (hp : pointer.InRange cx b) (span : Location) :
    Spec cx b (targetPlace cx pointer span) (fun p b' => p.InRange cx b') fun p sh b' =>
      p.Denotes b' none ∧ (b'.Clean → p.Grants b') ∧
        Traced cx b pointer.access.base?.toList .discard .none sh b' p.access.base?.toList := by
  have hhead := hb.engine.head hp.type
  rw [targetPlace]
  refine .look (shallow_run hb.engine hp.type) ?_
  cases hv : b.engine.bindings.head pointer.type with
  | pointer mutable pointee =>
    have hspec := pointerRegister_spec hb hp span (by rw [hv]; rfl)
    rw [hv] at hspec hhead
    refine hspec.bind fun r sh1 b1 hg1 hr hq1 => .pure hg1.intact ?_ fun hw => ?_
    · refine ⟨fun r' hr' => by cases hr'; exact hr.1, hg1.within (within_pointer.1 hhead),
        by rintro i ⟨⟩, fun hs => ?_⟩
      obtain ⟨register, hreg, htype⟩ := hr.2 (hg1.engine.strict.symm.trans hs)
      refine ⟨by simp [accessType?, type?, hreg, htype, pointee?, project?], ?_⟩
      rintro r' ⟨⟩
      exact ⟨register, hreg, htype⟩
    · refine ⟨.inr ⟨rfl, rfl, by rintro r' ⟨⟩⟩, ?_, by simpa [base?] using hq1 hw⟩
      rintro hc - rfl -
      obtain ⟨register, hreg, htype⟩ := hr.2 (hg1.clean hc).strict
      exact ⟨register, pointee, hreg, htype⟩
  | slot s => exact fail_spec hb _ _ _
  | error =>
    refine giveUp_spec hb fun hc => ?_
    have := (hb.plain hc).1.engine.head (hp.plain hb hc)
    rw [hv] at this
    exact this _ (mem_parts_self _)
  | _ =>
    rw [hv] at hhead
    exact failNaming_spec hb hhead _ _ _

/-! ## Uses of places -/

theorem copyPlace_spec {place : Place} (hp : place.InRange cx b)
    (hd : b.Takes cx dest) (span : Location) :
    b.Fills cx (place.access.base?.toList ++ dest.needs) dest .none
      (copyPlace cx place dest span) := by
  have hplain : b.Clean → place.type.Plain := hp.plain hb
  rw [copyPlace]
  split
  · refine deliver_traced hb (.refl hb) (fun _ => .refl b) (i := .move place.access dest)
      ⟨?_, by rintro _ _ ⟨⟩⟩ rfl hd hp.type hplain span (subset_append_right _ _)
      (fun hc h hlive => ?_) (by rintro _ _ _ _ ⟨⟩)
    · simp only [Instruction.accesses, Instruction.sources, Instruction.dest]
      simpa using ⟨hp.access, hd.inRange⟩
    · obtain ⟨hhas, hdef⟩ := (hp.typed hc.strict).has hb fun r hr => hlive r (mem_append_left _ hr)
      exact ⟨hhas.closed, hdef, fun has hhas' htakes => ⟨_, hhas' _ _ hhas, .inl htakes⟩⟩
  · rename_i hdiscard
    obtain rfl : dest = .discard := by
      cases dest with
      | discard => rfl
      | place r fields deref => simp [isDiscard] at hdiscard
    refine (assign_spec hb hd hp.type hplain span).imp ?_
    rintro _ sh b' hg - ⟨rfl, hsteady, -⟩
    exact (Traced.skip hb hg.extends hsteady).weaken (List.Subset.refl _) (by
      simp [plain?])

theorem deliverPointer_spec {place : Place} (hp : place.InRange cx b)
    (hd : b.Takes cx dest) (mutable : Bool) (span : Location) {source : Access}
    (hdest : i.dest = dest) (hsource : i.sources = [source])
    (hbase : source.base? = place.access.base?) (hlit : ∀ value dest, i ≠ .literal value dest)
    (hi : b.Clean → (∀ r, place.access.base? = some r → b.Known r) →
      b.Has cx place.access (b.engine.bindings.apply place.type) →
      ∀ has : Access → Ty → Prop, (∀ a t, b.Has cx a t → has a t) →
        dest.Takes has (.pointer mutable (b.engine.bindings.apply place.type)) →
        i.Typed cx.table has)
    (haddress : b.Clean → b.Reached → ∀ source d, i = .address source true d →
      source.Open b.Points b.Binds) :
    b.Fills cx (place.access.base?.toList ++ dest.needs) dest .none
      (do push i; assign cx dest (.pointer mutable place.type) span) := by
  refine deliver_traced hb (.refl hb) (fun _ => .refl b)
    ⟨?_, fun v d h => absurd h (hlit v d)⟩ hdest hd
    (within_pointer.2 hp.type)
    (fun hc => all_pointer.2 ⟨trivial, hp.plain hb hc⟩) span
    (subset_append_right _ _) (fun hc h hlive => ?_) haddress
  · have hrange : source.InRange b.draft.registers.length := by
      rw [Access.InRange, hbase]
      exact hp.access
    rw [Instruction.accesses, hsource, hdest]
    simpa using ⟨hrange, hd.inRange⟩
  · have hlive' : ∀ r ∈ place.access.base?.toList, b.Live h r :=
      fun r hr => hlive r (mem_append_left _ hr)
    obtain ⟨hhas, hdef⟩ := (hp.typed hc.strict).has hb hlive'
    rw [apply_pointer]
    refine ⟨fun s hs => hhas.closed s (by simpa [mem_slots] using hs), ?_,
      hi hc (fun r hr => (hlive' r (by simp [hr])).known) hhas⟩
    rw [hsource]
    simpa [hbase] using hdef

/-- The address of a place has the type of a pointer to it. -/
theorem takeAddress_spec (mutable : Bool) (hp : ∀ p, place = some p → p.InRange cx b)
    (hgrants : b.Clean → ∀ p, place = some p → p.Grants b)
    (hd : b.Takes cx dest) (operandSpan span : Location) :
    Spec cx b (takeAddress cx mutable place dest operandSpan span) (fun _ _ => True)
      fun _ sh b' => ∃ p, place = some p ∧
        Traced cx b (p.access.base?.toList ++ dest.needs) dest .none sh b' dest.plain?.toList := by
  cases place with
  | none => exact fail_spec hb _ _ _
  | some p =>
    rw [takeAddress]
    dsimp only
    split
    · exact fail_bind_spec hb _ _ _ _
    rename_i htemporary
    split
    · exact fail_bind_spec hb _ _ _ _
    rename_i hmutable
    split
    · rename_i r haccess
      -- the pointer itself; a mutable one will do for an immutable one
      refine (deliverPointer_spec (i := .move (.register r) dest) hb (hp p rfl) hd mutable span rfl
        rfl (by rw [haccess]; rfl) (by rintro _ _ ⟨⟩) (fun hc hknown _ has hhas htakes => ?_)
        (by rintro _ _ _ _ ⟨⟩)).imp fun _ _ _ _ _ ht => ⟨p, rfl, ht⟩
      obtain ⟨register, hreg, hhead⟩ := ((hp p rfl).typed hc.strict).target r haccess
      have htype : b.accessType? cx (.register r) = some register.type := by
        rw [accessType?, type?_register, hreg]
        rfl
      have hpointer := (hknown r (by rw [haccess]; rfl)).has hb rfl htype
      rw [← apply_head hb.engine.ordered, hhead, apply_pointer] at hpointer
      refine ⟨_, hhas _ _ hpointer, ?_⟩
      cases mutable with
      | true =>
        have hm : p.mutable = true := by simpa using hmutable
        rw [hm]
        exact .inl htakes
      | false =>
        cases p.mutable with
        | true => exact .inr ⟨_, rfl, htakes⟩
        | false => exact .inl htakes
    · refine (deliverPointer_spec (i := .address p.access mutable dest) hb (hp p rfl) hd mutable span
        rfl rfl rfl (by rintro _ _ ⟨⟩)
        (fun _ _ hplace has hhas htakes => ⟨_, hhas _ _ hplace, htakes⟩) ?_).imp
        fun _ _ _ _ _ ht => ⟨p, rfl, ht⟩
      rintro hc hreached _ _ ⟨⟩
      exact hgrants hc p rfl hreached (by simpa using hmutable) (by simpa using htemporary)

/-- Only a mutable place, and one that is not a temporary, is assigned to. -/
theorem assignedPlace_spec (hp : ∀ p, place = some p → p.InRange cx b) (span : Location) :
    Spec cx b (assignedPlace place span) (fun p _ => place = some p) fun p sh b' =>
      sh = .skip ∧ b' = b ∧ p.mutable = true ∧ p.temporary = false := by
  cases place with
  | none => exact fail_spec hb _ _ _
  | some p =>
    rw [assignedPlace]
    dsimp only
    split
    · exact fail_bind_spec hb _ _ _ _
    rename_i htemporary
    split
    · have htext : ∃ text, (immutableText p).run b = .ok (some text, b) := by
        rw [immutableText]
        cases hindex : p.localIndex with
        | none => exact ⟨_, rfl⟩
        | some i =>
          have hi := getElem?_eq_getElem ((hp p rfl).index i hindex)
          dsimp only
          rw [run_bind_some (get_run b), hi]
          dsimp only
          split <;> exact ⟨_, rfl⟩
      obtain ⟨text, htext⟩ := htext
      exact .look htext (fail_bind_spec hb _ _ _ _)
    · rename_i hm
      exact .pure hb rfl fun _ => ⟨rfl, rfl, by simpa using hm, by simpa using htemporary⟩

end Lower

end Semcheck
