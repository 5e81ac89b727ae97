/-
  Pointers to places.

  The address of a place is taken by an instruction of its own, except that the address of what
  a pointer points to is the pointer itself, which is then moved.  In both ways the destination
  gets a pointer of its own final type (`lowerExpr_address_typed`).  A pointer that is moved can
  be mutable where an immutable one is wanted: `reborrowed_address` shows one.
-/
import Semcheck.Proofs.Lower.Callee
import Semcheck.Proofs.Lower.Final

namespace Semcheck

open Lower Body

namespace Lower

variable {cx : Context} {b b' : Body} {dest : Access} {found : Ty} {span : Location}

theorem unifyAt_agrees {expected : Ty} (hb : b.Intact cx) (hstrict : b.engine.strict = true)
    (hx : expected.Legal cx b) (hf : found.Legal cx b)
    (hrun : (unifyAt cx expected found span).run b = .ok (some (), b')) :
    ∀ X θ, b'.engine.Admits X θ → Ty.Agree (expected.inst θ) (found.inst θ) := by
  obtain ⟨r, e, hunify, hu⟩ := unify_spec hb.engine hx hf
  have hengine : (onEngine (unify expected found).run).run b =
      .ok (some r, { b with engine := e }) := onEngine_run hunify
  rw [unifyAt, run_bind_some hengine] at hrun
  cases r with
  | ok _ =>
    cases hrun
    exact hu.sound hstrict rfl
  | error err =>
    obtain ⟨_, _, -, hrun⟩ := bind_ok hrun
    cases hrun

theorem assign_agrees (hb : b.Intact cx) (hstrict : b.engine.strict = true) {u : Ty}
    (hu : b.accessType? cx dest = some u) (hf : found.Legal cx b)
    (hrun : (assign cx dest found span).run b = .ok (some (), b')) :
    ∀ X θ, b'.engine.Admits X θ → Ty.Agree (u.inst θ) (found.inst θ) := by
  obtain ⟨htype, ht⟩ := accessType_eq hb.grounded hu
  rw [assign, run_bind_some htype] at hrun
  exact unifyAt_agrees hb hstrict ht hf hrun

/-- The destination of an assignment has the type of what is assigned. -/
theorem assign_becomes {θ : Slot → Ty} {f : Function} (hb : b.Intact cx)
    (hd : b.Accepts cx dest) (hne : dest ≠ .discard) (hf : found.Legal cx b) (hp : found.Plain)
    (hrun : (assign cx dest found span).run b = .ok (some (), b')) (h : b'.Becomes cx θ f) :
    f.Has cx.table dest (found.inst θ) := by
  obtain ⟨u, hu⟩ := hd.resolve_left hne
  have hlater := invariant_adding.assign cx dest found trivial b _ b' hrun
  have hc := hlater.clean h.clean
  have hagree := assign_agrees hb hc.strict hu hf hrun _ θ h.admits
  rw [← h.eq_of_agree hagree (accessType?_plain hb hc hu) hp]
  exact h.has dest u ((hlater.extends hc).accessType? hu)

/-- A pointer to a place is an address, or the pointer that the place is reached by. -/
theorem takeAddress_ok {mutable : Bool} {o : Option Place} {operandSpan : Location}
    (ho : b.draft.graph.Open)
    (hrun : (takeAddress cx mutable o dest operandSpan span).run b = .ok (some (), b')) :
    ∃ p i, o = some p ∧ (mutable = true → p.mutable = true) ∧
      (assign cx dest (.pointer mutable p.type) span).run
        (b.withGraph (b.draft.graph.push i)) = .ok (some (), b') ∧
      ((∀ r, p.access ≠ .place r [] true) ∧ i = .address p.access mutable dest ∨
        ∃ r, p.access = .place r [] true ∧ i = .move (.register r) dest) := by
  cases o with
  | none =>
    rw [takeAddress, fail_run] at hrun
    cases hrun
  | some p =>
    rw [takeAddress] at hrun
    dsimp only at hrun
    split at hrun
    · rw [run_bind_none (fail_run _ _ _)] at hrun
      cases hrun
    split at hrun
    · rw [run_bind_none (fail_run _ _ _)] at hrun
      cases hrun
    rename_i hmutable
    have hm : mutable = true → p.mutable = true := by
      rintro rfl
      simpa using hmutable
    split at hrun
    · rename_i r haccess
      obtain ⟨_, b1, hpush, hrun⟩ := bind_ok hrun
      cases (push_run ho _).symm.trans hpush
      exact ⟨p, _, rfl, hm, hrun, .inr ⟨r, haccess, rfl⟩⟩
    · rename_i hnot
      obtain ⟨_, b1, hpush, hrun⟩ := bind_ok hrun
      cases (push_run ho _).symm.trans hpush
      exact ⟨p, _, rfl, hm, hrun, .inl ⟨fun r hr => hnot r hr, rfl⟩⟩

end Lower

/-- **A pointer to a place is of the type of its destination.**  If neither the declarations nor the
    lowering of a function report anything then every pointer to a place goes to its destination by
    one instruction.  If that takes an address then mutability and type of the place make up the
    final type of the destination.  Else the place is what a pointer points to, and the pointer is
    moved: it has the type of the destination, or is mutable where an immutable one is wanted. -/
theorem lowerExpr_address_typed {files : List SourceFile} {program : Program}
    {pending : PendingFunct} {cx : Context} {e operand : Expr} {start b last : Body} {f : Function}
    {mutable : Bool} {span : Location} {dest : Access}
    (hprogram : lowerFiles true files = .ok program)
    (hbegins : Begins true files pending cx e start)
    (hrun : (lowerFunction cx e pending.decl.span).run start = .ok (some f, last))
    (hquiet : last.report.entries = [])
    (hreach : Task.Reaches cx (.expr e cx.result) start
      (.expr (.addressOf mutable operand span) dest) b) (hdest : dest ≠ .discard) :
    ∃ place b₁ i b', program.table.funct? pending.id = some f ∧
      (lowerPlace cx operand .address).run b = .ok (some (some place), b₁) ∧
      (lowerExpr cx (.addressOf mutable operand span) dest).run b = .ok (some (), b') ∧
      b'.draft.graph = b₁.draft.graph.push i ∧
      ∃ t, f.Has program.table dest (.pointer mutable t) ∧
        ((∀ r, place.access ≠ .place r [] true) ∧ i = .address place.access mutable dest ∧
            f.Has program.table place.access t ∨
          ∃ r m, place.access = .place r [] true ∧ i = .move (.register r) dest ∧
            f.Has program.table (.register r) (.pointer m t) ∧ (mutable = true → m = true)) := by
  obtain ⟨hf, hstructs, θ, r, b', hlower, hb'⟩ := hreach.becomes hbegins hprogram hrun hquiet
  obtain ⟨hready, htakes⟩ := hreach.ready hbegins.ready
  obtain ⟨sh, hg, -, hdone⟩ := (lowerExpr_lowers cx _ b dest hready.intact htakes.inRange
    htakes.accepts).of_run hlower
  obtain ⟨⟨⟩, rfl, -⟩ := hdone hb'.clean
  obtain ⟨o, b₁, hplace, htake⟩ := Lower.bind_ok hlower
  obtain ⟨sh₁, hg₁, hrange, -⟩ :=
    (lowerPlace_places cx operand b .address hready.intact).of_run hplace
  obtain ⟨place, i, rfl, hmutable, hassign, hi⟩ := takeAddress_ok hg₁.intact.opened htake
  have hgraph := draft_eq_of_bare (agreeing_beside.assign cx dest _ trivial hassign)
  have hb₁ := hb'.of_later (invariant_adding.assign cx dest _ trivial _ _ _ hassign)
  have hc₁ : b₁.Clean := ⟨hb₁.clean.quiet, hb₁.clean.strict⟩
  have htyped := (hrange _ rfl _ rfl).typed hc₁.strict
  have hplain := accessType?_plain hg₁.intact hc₁ htyped.access
  have hpointer := assign_becomes (hg₁.intact.withGraph (Graph.Frame.push hg₁.intact.opened i).opened)
    ((hg₁.extends hc₁).accepts (htakes.accepts (hg₁.clean hc₁))) hdest
    (Ty.within_pointer.2 (hrange _ rfl _ rfl).type) (Ty.all_pointer.2 ⟨trivial, hplain⟩) hassign hb'
  refine ⟨place, b₁, i, b', hf, hplace, hlower, congrArg Draft.graph hgraph, place.type.inst θ,
    hpointer.of_structs hstructs, hi.imp (fun hi => ⟨hi.1, hi.2, ?_⟩) fun hi => ?_⟩
  · exact (hb₁.has _ _ htyped.access).of_structs hstructs
  · obtain ⟨r, haccess, hi⟩ := hi
    obtain ⟨register, hr, hhead⟩ := htyped.target r haccess
    have htype : b₁.accessType? cx (.register r) = some register.type := by
      rw [accessType?, Access.type?_register, hr]
      rfl
    have hhas := hb₁.has (.register r) _ htype
    have hsolved : b₁.engine.bindings.Solved θ := hb₁.admits.bindings
    rw [← hsolved.inst_head, hhead] at hhas
    exact ⟨r, place.mutable, haccess, hi, hhas.of_structs hstructs, hmutable⟩

namespace Sample

/-- `&*p` -/
def reborrow : Expr :=
  .addressOf false (.deref (var "p") .nowhere) .nowhere

/-- `fn id(p: *mut int) -> *const int` with the body `reborrow`. -/
def reborrowed : List SourceFile := [⟨⟨0⟩, [
  .funct ⟨name "id", [⟨name "p", false, .pointer true none (type "int") .nowhere, .nowhere⟩],
    some (.pointer false none (type "int") .nowhere), some reborrow, .nowhere⟩], .nowhere⟩]

/-- The pointer is moved. -/
theorem reborrowed_lowered : ∃ x ∈ entry reborrowed, x.1.result = .register ⟨1⟩ ∧
    ∃ out ∈ ((lowerExpr x.1 reborrow x.1.result).run x.2).toOption, out.1 = some () ∧
      out.2.draft.segments = [⟨[.move (.register ⟨0⟩) (.register ⟨1⟩)], none⟩] := by
  decide +kernel

theorem reborrowed_quiet : ∃ x ∈ entry reborrowed,
    ∃ pending ∈ (Outline.ofFiles reborrowed).functs.head?,
    ∃ out ∈ ((lowerFunction x.1 reborrow pending.decl.span).run x.2).toOption,
      out.1.isSome = true ∧ out.2.report.entries.isEmpty = true := by
  decide +kernel

/-- Nothing is reported, and the two pointers are not of one type. -/
theorem reborrowed_typed : ∃ p ∈ (lowerFiles true reborrowed).toOption,
    p.report.entries.isEmpty = true ∧ ∃ pending ∈ (Outline.ofFiles reborrowed).functs.head?,
    ∃ f ∈ p.table.funct? pending.id,
      f.accessType? p.table (.register ⟨0⟩) = some (.pointer true (.struct .int)) ∧
      f.accessType? p.table (.register ⟨1⟩) = some (.pointer false (.struct .int)) := by
  decide +kernel

end Sample

/-- The pointer `p` is moved to the result. -/
theorem reborrowed_address_typed : ∃ program pending cx b f last,
    lowerFiles true Sample.reborrowed = .ok program ∧
    Begins true Sample.reborrowed pending cx Sample.reborrow b ∧
    (lowerFunction cx Sample.reborrow pending.decl.span).run b = .ok (some f, last) ∧
    last.report.entries = [] ∧ cx.result ≠ .discard ∧
    ∃ place b₁ i b', program.table.funct? pending.id = some f ∧
      (lowerPlace cx (.deref (Sample.var "p") .nowhere) .address).run b =
        .ok (some (some place), b₁) ∧
      (lowerExpr cx Sample.reborrow cx.result).run b = .ok (some (), b') ∧
      b'.draft.graph = b₁.draft.graph.push i ∧
      ∃ t, f.Has program.table cx.result (.pointer false t) ∧
        ((∀ r, place.access ≠ .place r [] true) ∧ i = .address place.access false cx.result ∧
            f.Has program.table place.access t ∨
          ∃ r m, place.access = .place r [] true ∧ i = .move (.register r) cx.result ∧
            f.Has program.table (.register r) (.pointer m t) ∧ (false = true → m = true)) := by
  obtain ⟨x, hx, pending, hfirst, ⟨r, last⟩, hout, hsome, hquiet⟩ := Sample.reborrowed_quiet
  obtain ⟨_, hx', hresult, -⟩ := Sample.reborrowed_lowered
  cases Option.mem_unique hx hx'
  obtain ⟨f, rfl⟩ := Option.isSome_iff_exists.1 hsome
  obtain ⟨program, hprogram, -⟩ := Sample.reborrowed_typed
  obtain ⟨_, hfirst', hbegins⟩ := Sample.entry_begins rfl hx
  cases Option.mem_unique hfirst hfirst'
  have hne : x.1.result ≠ .discard := hresult.trans_ne nofun
  have hrun := ok_of_toOption hout
  have hquiet' := List.isEmpty_iff.1 hquiet
  exact ⟨program, pending, x.1, x.2, f, last, ok_of_toOption hprogram, hbegins, hrun, hquiet', hne,
    lowerExpr_address_typed (ok_of_toOption hprogram) hbegins hrun hquiet' .here hne⟩

/-- A mutable pointer is moved to an immutable one: the register that is moved does not have the
    type of its destination. -/
theorem reborrowed_address : ∃ program pending cx b b' f r t,
    lowerFiles true Sample.reborrowed = .ok program ∧ program.report.entries = [] ∧
    Begins true Sample.reborrowed pending cx Sample.reborrow b ∧ cx.result ≠ .discard ∧
    (lowerExpr cx Sample.reborrow cx.result).run b = .ok (some (), b') ∧
    b'.draft.segments = [⟨[.move (.register r) cx.result], none⟩] ∧
    program.table.funct? pending.id = some f ∧
    f.Has program.table (.register r) (.pointer true t) ∧
    f.Has program.table cx.result (.pointer false t) := by
  obtain ⟨x, hx, hresult, ⟨_, b'⟩, hrun, rfl, hsegments⟩ := Sample.reborrowed_lowered
  obtain ⟨program, hprogram, hquiet, pending, hfirst, f, hf, hsource, hdest⟩ :=
    Sample.reborrowed_typed
  obtain ⟨_, hfirst', hbegins⟩ := Sample.entry_begins rfl hx
  cases Option.mem_unique hfirst hfirst'
  have hne : x.1.result ≠ .discard := hresult.trans_ne nofun
  exact ⟨program, pending, x.1, x.2, b', f, ⟨0⟩, .struct .int, ok_of_toOption hprogram,
    List.isEmpty_iff.1 hquiet, hbegins, hne, ok_of_toOption hrun, hresult ▸ hsegments, hf, hsource,
    hresult ▸ hdest⟩

end Semcheck
