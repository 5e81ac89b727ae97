/-
  Lowering under other numbers for the declarations.

  Of two bodies one mirrors the other if it is the same under the numbers a
  renaming gives to structs and functions.  The steps here look at no name.  In
  contexts that mirror each other they come to results and bodies that mirror each
  other (`Lower.Mirrors`), and they leave all names in the body as they are.
-/
import Semcheck.Lower.Program
import Semcheck.Proofs.Decl.Rename
import Semcheck.Proofs.Infer.Rename

namespace Semcheck

open Ty List Access Engine Body

/-! ## Bodies -/

def Draft.mirror (ρ : Renaming) (function : Nat) (d : Draft) : Draft :=
  { d with
    function := function
    registers := d.registers.map (Register.rename ρ)
    segments := d.segments.map (OpenSegment.rename ρ) }

namespace Body

/-- The body under other numbers, with another report. -/
def mirror (ρ : Renaming) (report : Report) (function : Nat) (b : Body) : Body :=
  { b with
    report := report
    engine := b.engine.rename ρ.struct
    draft := b.draft.mirror ρ function }

/-- The bodies are the same up to the numbers, and their reports are related. -/
def Mirrors (ρ : Renaming) (D : Diagnostic → Diagnostic → Prop) (b b' : Body) : Prop :=
  ∃ report function,
    List.Forall₂ D b.report.entries report.entries ∧ b' = b.mirror ρ report function

/-- The names in a body: of its locals, of its registers, and those in scope. -/
def names (b : Body) : List String × List String × UseScope :=
  (b.locals.map Local.name, b.draft.bindings.map Binding.name, b.scope)

/-- Bodies that mirror each other, and steps that keep the names. -/
def mirroring (ρ : Renaming) (D : Diagnostic → Diagnostic → Prop) : Coupling Body Body where
  rel := Mirrors ρ D
  keeps b b₁ := b₁.names = b.names
  refl _ := rfl
  trans h h₁ := h₁.trans h

end Body

/-- The contexts are the same up to the numbers. -/
structure Context.Mirrors (ρ : Renaming) (D : Diagnostic → Diagnostic → Prop)
    (cx cx' : Context) : Prop where
  table : cx.table.Mirrors ρ D cx'.table
  result : cx'.result = cx.result
  returnType : cx'.returnType = cx.returnType.rename ρ.struct

theorem Context.Mirrors.exit {ρ : Renaming} {D : Diagnostic → Diagnostic → Prop}
    {cx cx' : Context} (h : cx.Mirrors ρ D cx') : cx'.exit = cx.exit := by
  rw [Context.exit, Context.exit, h.result]

namespace Lower

variable {α β γ δ : Type} {ρ : Renaming} {D : Diagnostic → Diagnostic → Prop}
  {g : α → β} {g' : γ → δ}

/-- From bodies that mirror each other both steps stop, or both come to bodies that
    mirror each other, the second with the value `g` gives. -/
def Mirrors (ρ : Renaming) (D : Diagnostic → Diagnostic → Prop) (g : α → β) (x : Lower α)
    (y : Lower β) : Prop :=
  Sim (Body.mirroring ρ D) (fun a b => b = g a) x y

namespace Mirrors

theorem pure (a : α) : Mirrors ρ D g (pure a) (pure (g a)) :=
  Sim.pure rfl

theorem bind {x : Lower α} {y : Lower β} {k : α → Lower γ} {k' : β → Lower δ}
    (hx : Mirrors ρ D g x y) (hk : ∀ a, Mirrors ρ D g' (k a) (k' (g a))) :
    Mirrors ρ D g' (x >>= k) (y >>= k') :=
  Sim.andThen hx hk

theorem giveUp : Mirrors ρ D g giveUp giveUp :=
  Sim.failure

theorem ite {c : Prop} [Decidable c] {x x' : Lower α} {y y' : Lower β} (h : Mirrors ρ D g x y)
    (h' : Mirrors ρ D g x' y') : Mirrors ρ D g (if c then x else x') (if c then y else y') :=
  Sim.ite Iff.rfl h h'

theorem modify {u : Body → Body} (hmirror : ∀ b report function,
      u (b.mirror ρ report function) = (u b).mirror ρ report function)
    (hreport : ∀ b, (u b).report = b.report) (hnames : ∀ b, (u b).names = b.names) :
    Mirrors ρ D id (modify u) (modify u) := by
  refine .mono (.modify ?_) fun _ _ _ => rfl
  rintro b _ ⟨report, function, hentries, rfl⟩
  exact ⟨⟨report, function, by rwa [hreport], hmirror b report function⟩, hnames b⟩

theorem read {k : Body → Lower α} {k' : Body → Lower β}
    (hk : ∀ b report function, Mirrors ρ D g (k b) (k' (b.mirror ρ report function))) :
    Mirrors ρ D g (get >>= k) (get >>= k') := by
  refine Sim.look ?_
  rintro b _ ⟨report, function, hentries, rfl⟩
  exact hk _ _ _ _ _ ⟨report, function, hentries, rfl⟩

theorem look {q : Body → γ} {q' : Body → δ} {k : γ → Lower α} {k' : δ → Lower β}
    (hq : ∀ b report function, q' (b.mirror ρ report function) = g' (q b))
    (hk : ∀ c, Mirrors ρ D g (k c) (k' (g' c))) :
    Mirrors ρ D g (get >>= fun b => k (q b)) (get >>= fun b => k' (q' b)) := by
  refine .read fun b report function => ?_
  rw [hq]
  exact hk _

theorem orFault {x : Except Fault α} {y : Except Fault β} {R : α → β → Prop}
    (h : Alike R x y) : Sim (mirroring ρ D) R (orFault x) (orFault y) := by
  intro b b' hb
  cases h with
  | ok h => exact .pure h hb
  | error e e' => exact .error _ _

theorem onEngine {x : EngineM α} {y : EngineM β} (h : EngineM.Commutes ρ.struct g x y) :
    Mirrors ρ D g (onEngine x) (onEngine y) := by
  refine Sim.look ?_
  rintro b _ ⟨report, function, hentries, rfl⟩
  have hrun : Alike (fun out out' => out' = (g out.1, out.2.rename ρ.struct))
      (x.run b.engine) (y.run (b.engine.rename ρ.struct)) := by
    rw [h b.engine]
    exact .map _ _
  refine (orFault hrun _ _ ⟨report, function, hentries, rfl⟩).bind ?_
  rintro ⟨a, engine⟩ _ b1 _ rfl - hnames
  exact .ok ⟨.some rfl, ⟨report, function, hentries, rfl⟩, hnames.symm⟩

theorem onDraft {step : Draft → α × Draft} {step' : Draft → β × Draft} (hmirror : ∀ d function,
      step' (d.mirror ρ function) = (g (step d).1, (step d).2.mirror ρ function))
    (hbindings : ∀ d, (step d).2.bindings = d.bindings) :
    Mirrors ρ D g (onDraft step) (onDraft step') := by
  rintro b _ ⟨report, function, hentries, rfl⟩
  have hstep : step' (b.mirror ρ report function).draft =
      (g (step b.draft).1, (step b.draft).2.mirror ρ function) := hmirror b.draft function
  refine .ok ⟨.some (congrArg Prod.fst hstep), ⟨report, function, hentries, ?_⟩, ?_⟩
  · rw [hstep]
    rfl
  · show names _ = names b
    simp only [names, hbindings]

end Mirrors

section Reports

variable (hD : ∀ d, D d d)

theorem report_mirrors {d d' : Diagnostic} (h : D d d') :
    Mirrors ρ D id (report d) (report d') := by
  rintro b _ ⟨report, function, hentries, rfl⟩
  refine .ok ⟨.some rfl, ⟨report.push d', function, ?_, rfl⟩, rfl⟩
  exact rel_append hentries (.cons h .nil)

theorem orReport_mirrors {x : Except Fault (Except LookupError α)}
    {y : Except Fault (Except LookupError β)} (h : Alike (Found D g) x y) :
    Mirrors ρ D g (orReport x) (orReport y) := by
  refine Sim.bind (Mirrors.orFault h) ?_
  rintro _ _ (a | he)
  · exact .pure rfl
  · exact (report_mirrors he).bind fun _ => .giveUp

include hD

theorem complain_mirrors (code : Code) (message : String) (span : Location) :
    Mirrors ρ D id (complain code message span) (complain code message span) :=
  report_mirrors (hD _)

theorem fail_mirrors (code : Code) (message : String) (span : Location) :
    Mirrors ρ D g (fail code message span) (fail code message span) :=
  (complain_mirrors hD code message span).bind fun _ => .giveUp

/-- A check that fails, if it fails, on both sides. -/
theorem check_mirrors {c : Prop} [Decidable c] {x : Lower α} {y : Lower β} {code : Code}
    {message : String} {span : Location} (h : Mirrors ρ D g x y) :
    Mirrors ρ D g (if c then fail code message span >>= fun _ : Unit => x else x)
      (if c then fail code message span >>= fun _ : Unit => y else y) :=
  .ite ((fail_mirrors (g := id) hD code message span).bind fun _ => h) h

end Reports

/-! ## Types -/

theorem shallow_mirrors (t : Ty) :
    Mirrors ρ D (.rename ρ.struct) (shallow t) (shallow (t.rename ρ.struct)) :=
  .onEngine (EngineM.shallow_commutes t)

theorem newSlot_mirrors (origin : Location) : Mirrors ρ D id (newSlot origin) (newSlot origin) :=
  .onEngine fun _ => rfl

section Types

variable {cx cx' : Context} (hcx : cx.Mirrors ρ D cx') (hD : ∀ d, D d d)

include hcx in
theorem typeName_mirrors (t : Ty) :
    Mirrors ρ D id (typeName cx t) (typeName cx' (t.rename ρ.struct)) := by
  refine Mirrors.bind (.onEngine (EngineM.resolve_commutes t)) fun t => ?_
  exact Sim.mono (Mirrors.orFault (hcx.table.typeText t)) fun _ _ h => h.symm

include hcx hD

theorem failNaming_mirrors (t : Ty) {code : Code} {message : String → String} {span : Location} :
    Mirrors ρ D g (typeName cx t >>= fun text => fail code (message text) span)
      (typeName cx' (t.rename ρ.struct) >>= fun text => fail code (message text) span) :=
  (typeName_mirrors hcx t).bind fun _ => fail_mirrors hD _ _ _

theorem reportInfer_mirrors (e : InferError) (span : Location) :
    Mirrors ρ D id (reportInfer cx e span) (reportInfer cx' (e.rename ρ.struct) span) := by
  cases e with
  | mismatch expected found =>
    simp only [InferError.rename, reportInfer, containsError_rename]
    refine .ite (.pure ()) ?_
    exact (typeName_mirrors hcx expected).bind fun _ => (typeName_mirrors hcx found).bind fun _ =>
      complain_mirrors hD _ _ _
  | notFunct found => exact (typeName_mirrors hcx found).bind fun _ => complain_mirrors hD _ _ _
  | argumentCount expected found => exact complain_mirrors hD _ _ _
  | recursive slot type => exact (typeName_mirrors hcx type).bind fun _ => complain_mirrors hD _ _ _

theorem unifyAt_mirrors (hρ : ρ.Faithful) (expected found : Ty) (span : Location) :
    Mirrors ρ D id (unifyAt cx expected found span)
      (unifyAt cx' (expected.rename ρ.struct) (found.rename ρ.struct) span) := by
  refine Mirrors.bind (.onEngine (InferM.unify_commutes hρ.struct expected found)) fun out => ?_
  cases out with
  | ok => exact .pure ()
  | error e => exact (reportInfer_mirrors hcx hD e span).bind fun _ => .giveUp

end Types

/-! ## Code -/

theorem newRegister_mirrors (type : Ty) (span : Location) :
    Mirrors ρ D id (newRegister type span) (newRegister (type.rename ρ.struct) span) :=
  .onDraft (fun d _ => by simp [Draft.addRegister, Draft.mirror, Register.rename]) fun _ => rfl

theorem newTemp_mirrors (span : Location) : Mirrors ρ D id (newTemp span) (newTemp span) :=
  (newSlot_mirrors span).bind fun slot => by
    simpa using newRegister_mirrors (.slot slot) span

theorem registerType_mirrors (r : RegisterId) :
    Mirrors ρ D (.rename ρ.struct) (registerType r) (registerType r) := by
  refine .read fun b report function => .orFault ?_
  simp only [mirror, Draft.mirror, Draft.registerType, getElem?_map]
  cases b.draft.registers[r.index]? with
  | none => exact .error _ _
  | some register => exact .ok rfl

theorem newSegment_mirrors : Mirrors ρ D id newSegment newSegment :=
  .onDraft (fun d _ => by simp [Draft.newSegment, Draft.mirror, OpenSegment.rename,
    OpenSegment.empty]) fun _ => rfl

theorem switchTo_mirrors (s : SegmentId) : Mirrors ρ D id (switchTo s) (switchTo s) :=
  .onDraft (fun _ _ => rfl) fun _ => rfl

theorem currentSegment_mirrors : Mirrors ρ D id currentSegment currentSegment :=
  Mirrors.look (fun _ _ _ => rfl) fun c => .pure (g := id) c

theorem currentSegment_mirror (d : Draft) (function : Nat) :
    Alike (fun s s' => s' = s.rename ρ) d.currentSegment (d.mirror ρ function).currentSegment := by
  simp only [Draft.currentSegment, Draft.mirror, getElem?_map]
  cases d.segments[d.current.index]? with
  | none => exact .error _ _
  | some segment => exact .ok rfl

theorem setCurrent_mirror (d : Draft) (function : Nat) (segment : OpenSegment) :
    (d.mirror ρ function).setCurrent (segment.rename ρ) =
      (d.setCurrent segment).mirror ρ function := by
  simp [Draft.setCurrent, Draft.mirror, map_set]

/-- Steps to drafts that mirror each other, with the names they had. -/
theorem setDraft_mirrors {x x' : Body → Lower Draft} (h : ∀ b report function,
      Sim (mirroring ρ D) (fun d d' => d' = d.mirror ρ function ∧ d.bindings = b.draft.bindings)
        (x b) (x' (b.mirror ρ report function))) :
    Mirrors ρ D id (do let b ← get; set { b with draft := ← x b })
      (do let b ← get; set { b with draft := ← x' b }) := by
  refine Sim.look ?_
  rintro b _ ⟨report, function, hentries, rfl⟩
  refine (h b report function _ _ ⟨report, function, hentries, rfl⟩).bind ?_
  rintro d _ b1 _ ⟨rfl, hbindings⟩ - hnames
  refine .ok ⟨.some rfl, ⟨report, function, hentries, rfl⟩, ?_⟩
  refine .trans ?_ hnames.symm
  simp only [names, hbindings]

theorem push_mirrors (i : Instruction) : Mirrors ρ D id (push i) (push (i.rename ρ)) := by
  refine setDraft_mirrors fun b report function => Mirrors.orFault ?_
  refine (currentSegment_mirror b.draft function).bind ?_
  rintro segment _ rfl
  refine .ok ⟨?_, rfl⟩
  rw [← setCurrent_mirror]
  simp [OpenSegment.rename, mirror]

theorem terminate_mirrors (t : Terminator) : Mirrors ρ D id (terminate t) (terminate t) := by
  refine setDraft_mirrors fun b report function => ?_
  have hsegment : Alike _ _ (b.mirror ρ report function).draft.currentSegment :=
    currentSegment_mirror b.draft function
  rw [Draft.terminate, Draft.terminate]
  generalize b.draft.currentSegment = x at hsegment
  generalize (b.mirror ρ report function).draft.currentSegment = y at hsegment
  cases hsegment with
  | error e e' => exact fun _ _ _ => .error _ _
  | @ok segment _ h =>
    subst h
    cases hopen : segment.terminator with
    | some t => simp only [OpenSegment.rename, hopen]; exact fun _ _ _ => .error _ _
    | none =>
      simp only [OpenSegment.rename, hopen]
      refine Sim.pure ⟨?_, rfl⟩
      rw [← setCurrent_mirror]
      rfl

theorem isTerminated_mirrors :
    Mirrors ρ D id (do orFault (← get).draft.isTerminated) (do orFault (← get).draft.isTerminated) := by
  refine .read fun b report function => .orFault ?_
  refine (currentSegment_mirror b.draft function).bind ?_
  rintro segment _ rfl
  exact .ok rfl

/-! ## Destinations -/

section Destinations

variable {cx cx' : Context} (hcx : cx.Mirrors ρ D cx')
include hcx

theorem fieldsType_mirrors (path : List Nat) (t : Ty) :
    Mirrors ρ D (.rename ρ.struct) (fieldsType cx path t)
      (fieldsType cx' path (t.rename ρ.struct)) := by
  induction path generalizing t with
  | nil => exact .pure t
  | cons index rest ih =>
    have herror := ih .error
    rw [rename_error] at herror
    refine (shallow_mirrors t).bind fun type => ?_
    cases type with
    | struct id =>
      simp only [rename_struct]
      refine .bind (.orFault (hcx.table.fields id)) fun fields => ?_
      have htype : (((fields.map (.rename ρ))[index]?).map Field.type).getD .error =
          ((fields[index]?.map Field.type).getD .error).rename ρ.struct := by
        rw [getElem?_map]
        cases fields[index]? <;> simp
      rw [htype]
      exact ih _
    | tuple elements =>
      simp only [rename_tuple]
      have htype : (elements.map (.rename ρ.struct))[index]?.getD .error =
          (elements[index]?.getD .error).rename ρ.struct := by
        rw [getElem?_map]
        cases elements[index]? <;> simp
      rw [htype]
      exact ih _
    | _ => exact herror

theorem accessType_mirrors (access : Access) :
    Mirrors ρ D (.map (.rename ρ.struct)) (accessType cx access) (accessType cx' access) := by
  cases access with
  | discard => exact .pure none
  | place register fields deref =>
    refine (registerType_mirrors register).bind fun type => .ite ?_ ?_
    · have herror := fieldsType_mirrors hcx fields .error
      rw [rename_error] at herror
      refine (shallow_mirrors type).bind fun type => ?_
      cases type with
      | pointer m pointee =>
        simp only [rename_pointer]
        exact (fieldsType_mirrors hcx fields pointee).bind fun t => .pure (some t)
      | _ => exact herror.bind fun t => .pure (some t)
    · exact (fieldsType_mirrors hcx fields type).bind fun t => .pure (some t)

theorem openSlot?_mirrors (dest : Access) :
    Mirrors ρ D id (openSlot? cx dest) (openSlot? cx' dest) := by
  refine (accessType_mirrors hcx dest).bind fun type => ?_
  cases type with
  | none => exact .pure none
  | some type =>
    refine (shallow_mirrors type).bind fun type => ?_
    rw [slot?_rename]
    exact .pure type.slot?

variable (hD : ∀ d, D d d) (hρ : ρ.Faithful)
include hD hρ

theorem assign_mirrors (dest : Access) (found : Ty) (span : Location) :
    Mirrors ρ D id (assign cx dest found span) (assign cx' dest (found.rename ρ.struct) span) := by
  refine (accessType_mirrors hcx dest).bind fun type => ?_
  cases type with
  | none => exact .pure ()
  | some expected => exact unifyAt_mirrors hcx hD hρ expected found span

theorem moveLiteral_mirrors (value : Literal) (type : Ty) (dest : Access) (span : Location) :
    Mirrors ρ D id (moveLiteral cx value type dest span)
      (moveLiteral cx' (value.rename ρ) (type.rename ρ.struct) dest span) :=
  (push_mirrors (.literal value dest)).bind fun _ => assign_mirrors hcx hD hρ dest type span

theorem moveUnit_mirrors (dest : Access) (span : Location) :
    Mirrors ρ D id (moveUnit cx dest span) (moveUnit cx' dest span) := by
  simpa [moveUnit, Literal.rename, Literal.unit] using
    moveLiteral_mirrors hcx hD hρ .unit .unit dest span

end Destinations

/-! ## Assignments to locals -/

theorem assignments_mirrors : Mirrors ρ D id assignments assignments :=
  Mirrors.look (fun _ _ _ => rfl) fun c => .pure (g := id) c

theorem updateAssignments_mirrors (change : Assigned → Assigned → Assigned)
    (others : List Assigned) :
    Mirrors ρ D id (updateAssignments change others) (updateAssignments change others) := by
  have hnames : ∀ (locals : List Local) (others : List Assigned),
      (updateAssignments.update change locals others).map Local.name = locals.map Local.name := by
    intro locals
    induction locals with
    | nil => intro others; rfl
    | cons l locals ih =>
      intro others
      cases others with
      | nil => rfl
      | cons other others => simp [updateAssignments.update, ih]
  refine .modify (fun _ _ _ => rfl) (fun _ => rfl) fun b => ?_
  simp only [names, hnames]

theorem markUnreachable_mirrors : Mirrors ρ D id markUnreachable markUnreachable :=
  .modify (fun _ _ _ => rfl) (fun _ => rfl) fun b => by
    simp [names, Function.comp_def]

theorem markAssigned_mirrors (index : Nat) :
    Mirrors ρ D id (markAssigned index) (markAssigned index) := by
  refine .modify (fun _ _ _ => rfl) (fun _ => rfl) fun b => ?_
  have hnames : (b.locals.modify index fun l => { l with assigned := .assigned }).map Local.name =
      b.locals.map Local.name := by
    refine ext_getElem? fun i => ?_
    rw [getElem?_map, getElem?_map, getElem?_modify]
    cases b.locals[i]? with
    | none => rfl
    | some l => by_cases h : index = i <;> simp [h]
  simp only [names, hnames]

end Lower

/-! ## Places -/

def Place.rename (ρ : Renaming) (p : Place) : Place :=
  { p with type := p.type.rename ρ.struct }

namespace Lower

section Places

variable {ρ : Renaming} {D : Diagnostic → Diagnostic → Prop} {cx cx' : Context}
  (hcx : cx.Mirrors ρ D cx') (hD : ∀ d, D d d) (hρ : ρ.Faithful)

include hD in
theorem localPlace_mirrors (index : Nat) (l : Local) (purpose : Purpose) (span : Location) :
    Mirrors ρ D (.rename ρ) (localPlace index l purpose span)
      (localPlace index l purpose span) :=
  check_mirrors hD (.read fun _ _ _ =>
    (registerType_mirrors l.register).bind fun _ => Sim.pure rfl)

include hcx hD in
theorem findMember_mirrors (type : Ty) (field : String) (baseSpan : Location) :
    Mirrors ρ D (.map fun m => (m.1, m.2.rename ρ.struct))
      (findMember cx type field baseSpan)
      (findMember cx' (type.rename ρ.struct) field baseSpan) := by
  cases type with
  | struct id =>
    simp only [rename_struct]
    refine .bind (.orFault (hcx.table.fields id)) fun fields => ?_
    rw [findField_rename]
    exact Sim.pure (by cases findField field fields <;> rfl)
  | tuple elements =>
    simp only [rename_tuple]
    refine Sim.pure ?_
    cases tupleIndex? field with
    | none => rfl
    | some index =>
      simp only [Option.bind_some, getElem?_map]
      cases elements[index]? <;> rfl
  | slot s => exact fail_mirrors hD _ _ _
  | error => exact .giveUp
  | _ => exact .pure none

theorem pointerRegister_mirrors (pointer : Place) (type : Ty) (span : Location) :
    Mirrors ρ D id (pointerRegister pointer type span)
      (pointerRegister (pointer.rename ρ) (type.rename ρ.struct) span) := by
  simp only [pointerRegister, Place.rename]
  cases pointer.access.plain? with
  | some register => exact .pure register
  | none =>
    exact (newRegister_mirrors type span).bind fun temp =>
      (push_mirrors (.move pointer.access (.register temp))).bind fun _ => .pure temp

include hcx hD in
theorem targetPlace_mirrors (pointer : Place) (span : Location) :
    Mirrors ρ D (.rename ρ) (targetPlace cx pointer span)
      (targetPlace cx' (pointer.rename ρ) span) := by
  refine (shallow_mirrors pointer.type).bind fun type => ?_
  cases type with
  | pointer m pointee =>
    exact (pointerRegister_mirrors pointer (.pointer m pointee) span).bind fun register =>
      Sim.pure rfl
  | slot s => exact fail_mirrors hD _ _ _
  | error => exact .giveUp
  | struct id => exact failNaming_mirrors hcx hD (.struct id)
  | funct ps r => exact failNaming_mirrors hcx hD (.funct ps r)
  | functAny r => exact failNaming_mirrors hcx hD (.functAny r)
  | tuple ts => exact failNaming_mirrors hcx hD (.tuple ts)

include hcx hD hρ in
theorem copyPlace_mirrors (place : Place) (dest : Access) (span : Location) :
    Mirrors ρ D id (copyPlace cx place dest span) (copyPlace cx' (place.rename ρ) dest span) := by
  have hassign := assign_mirrors hcx hD hρ dest place.type span
  refine Sim.ite Iff.rfl ?_ hassign
  exact (push_mirrors (.move place.access dest)).bind fun _ => hassign

include hcx hD hρ in
theorem takeAddress_mirrors (mutable : Bool) (place : Option Place) (dest : Access)
    (operandSpan span : Location) :
    Mirrors ρ D id (takeAddress cx mutable place dest operandSpan span)
      (takeAddress cx' mutable (place.map (.rename ρ)) dest operandSpan span) := by
  cases place with
  | none => exact fail_mirrors hD _ _ _
  | some place =>
    obtain ⟨access, type, mutable', temporary, localIndex⟩ := place
    have hassign := assign_mirrors hcx hD hρ dest (.pointer mutable type) span
    rcases access with _ | ⟨register, _ | ⟨field, fields⟩, _ | _⟩
    case place.nil.true =>
      exact check_mirrors hD (check_mirrors hD ((push_mirrors (.move _ dest)).bind fun _ => hassign))
    all_goals
      exact check_mirrors hD
        (check_mirrors hD ((push_mirrors (.address _ mutable dest)).bind fun _ => hassign))

theorem immutableText_mirrors (place : Place) :
    Mirrors ρ D id (immutableText place) (immutableText (place.rename ρ)) := by
  simp only [immutableText, Place.rename]
  cases place.localIndex with
  | none => exact .pure _
  | some index =>
    refine .read fun b report function => ?_
    have hlocals : (b.mirror ρ report function).locals = b.locals := rfl
    rw [hlocals]
    cases b.locals[index]? with
    | none => exact fun _ _ _ => .error _ _
    | some l => exact .ite (.pure _) (.pure _)

include hD in
theorem assignedPlace_mirrors (place : Option Place) (span : Location) :
    Mirrors ρ D (.rename ρ) (assignedPlace place span)
      (assignedPlace (place.map (.rename ρ)) span) := by
  cases place with
  | none => exact fail_mirrors hD _ _ _
  | some place =>
    refine check_mirrors hD (.ite ?_ (.pure place))
    exact (immutableText_mirrors place).bind fun message =>
      (fail_mirrors (g := id) hD _ _ _).bind fun _ => .pure place

end Places

/-! ## Values -/

def Operand.rename (ρ : Renaming) (o : Operand) : Operand :=
  { o with type := o.type.rename ρ.struct }

def Fields.rename (ρ : Renaming) (f : Fields) : Fields :=
  { f with fields := f.fields.map (Field.rename ρ) }

section Values

variable {ρ : Renaming} {D : Diagnostic → Diagnostic → Prop} {cx cx' : Context}
  (hcx : cx.Mirrors ρ D cx') (hD : ∀ d, D d d) (hρ : ρ.Faithful)

theorem map_access_rename (os : List Operand) :
    (os.map (.rename ρ)).map Operand.access = os.map Operand.access := by
  simp [Operand.rename, Function.comp_def]

theorem map_type_rename (os : List Operand) :
    (os.map (.rename ρ)).map Operand.type = (os.map Operand.type).map (.rename ρ.struct) := by
  simp [Operand.rename, Function.comp_def]

theorem Fields.missing_rename (f : Fields) : (f.rename ρ).missing = f.missing := by
  simp [Fields.missing, Fields.rename, zip_map_left, filter_map, Function.comp_def]

theorem conditionRegister_mirrors (hρ : ρ.Faithful) (span : Location) :
    Mirrors ρ D id (conditionRegister span) (conditionRegister span) := by
  have hregister : Mirrors ρ D id (newRegister (.struct .bool) span)
      (newRegister (.rename ρ.struct (.struct .bool)) span) := newRegister_mirrors _ span
  rw [rename_struct, hρ.bool] at hregister
  exact hregister.bind fun r => .pure (g := id) (register r)

include hcx in
theorem returnTarget_mirrors (span : Location) :
    Mirrors ρ D id (returnTarget cx span) (returnTarget cx' span) := by
  rw [returnTarget, returnTarget, hcx.result]
  refine .ite ?_ (.pure (g := id) cx.result)
  have hregister : Mirrors ρ D id (newRegister .unit span) (newRegister .unit span) := by
    simpa using newRegister_mirrors .unit span
  exact hregister.bind fun r => .pure (g := id) (register r)

include hcx hD in
theorem checkBareReturn_mirrors (span : Location) :
    Mirrors ρ D id (checkBareReturn cx span) (checkBareReturn cx' span) := by
  rw [checkBareReturn, checkBareReturn, hcx.returnType, isUnit_rename, containsError_rename]
  refine .ite ?_ (.pure (g := id) ())
  exact (typeName_mirrors hcx cx.returnType).bind fun _ => fail_mirrors hD _ _ _

include hcx in
theorem leave_mirrors (dest : Access) : Mirrors ρ D id (leave cx dest) (leave cx' dest) := by
  rw [leave, leave, hcx.exit]
  refine (terminate_mirrors cx.exit).bind fun _ => newSegment_mirrors.bind fun dead =>
    (switchTo_mirrors dead).bind fun _ => markUnreachable_mirrors.bind fun _ =>
      (openSlot?_mirrors hcx dest).bind fun slot => ?_
  cases slot with
  | none => exact .pure (g := id) ()
  | some slot =>
    refine .onEngine (.bind (g := .rename ρ.struct) (.ask fun e => ?_) fun e => ?_)
    · exact markDiverging_rename e slot
    · exact fun _ => rfl

section Calls

include hcx hD hρ

theorem makeTuple_mirrors (elements : List Operand) (dest : Access) (span : Location) :
    Mirrors ρ D id (makeTuple cx elements dest span)
      (makeTuple cx' (elements.map (.rename ρ)) dest span) := by
  rw [makeTuple, makeTuple, map_access_rename, map_type_rename, ← rename_tuple]
  exact moveLiteral_mirrors hcx hD hρ (.tuple _) (.tuple _) dest span

theorem unifyOperands_mirrors (params : List Ty) (args : List Operand) :
    Mirrors ρ D id (unifyOperands cx params args)
      (unifyOperands cx' (params.map (.rename ρ.struct)) (args.map (.rename ρ))) := by
  induction params generalizing args with
  | nil => exact .pure (g := id) ()
  | cons param params ih =>
    cases args with
    | nil => exact .pure (g := id) ()
    | cons arg args =>
      exact (unifyAt_mirrors hcx hD hρ param arg.type arg.span).bind fun _ => ih args

theorem callType_mirrors (callee : Ty) (args : List Operand) (calleeSpan span : Location) :
    Mirrors ρ D (.rename ρ.struct) (callType cx callee args calleeSpan span)
      (callType cx' (callee.rename ρ.struct) (args.map (Operand.rename ρ)) calleeSpan span) := by
  refine (shallow_mirrors callee).bind fun type => ?_
  cases type with
  | funct params returns =>
    simp only [rename_funct, length_map]
    exact check_mirrors hD ((unifyOperands_mirrors hcx hD hρ params args).bind fun _ =>
      .pure returns)
  | functAny returns => exact .pure returns
  | slot slot =>
    simp only [rename_slot, map_type_rename]
    refine (newSlot_mirrors span).bind fun result => ?_
    refine Mirrors.bind (g := id) (.onEngine (.modify fun e => ?_)) fun _ => .pure (Ty.slot result)
    exact addRule_rename e (.call slot (args.map Operand.type) result span)
  | error => exact .giveUp
  | struct id => exact failNaming_mirrors hcx hD (.struct id)
  | pointer m t => exact failNaming_mirrors hcx hD (.pointer m t)
  | tuple ts => exact failNaming_mirrors hcx hD (.tuple ts)

theorem makeCall_mirrors (callee : Place) (args : List Operand) (dest : Access)
    (calleeSpan span : Location) :
    Mirrors ρ D id (makeCall cx callee args dest calleeSpan span)
      (makeCall cx' (callee.rename ρ) (args.map (.rename ρ)) dest calleeSpan span) := by
  rw [makeCall, makeCall, map_access_rename]
  exact (callType_mirrors hcx hD hρ callee.type args calleeSpan span).bind fun returns =>
    (push_mirrors (.call callee.access (args.map Operand.access) dest)).bind fun _ =>
      assign_mirrors hcx hD hρ dest returns span

theorem makeStruct_mirrors (id : StructId) (f : Fields) (dest : Access) (span : Location) :
    Mirrors ρ D (fun u => u) (makeStruct cx id f dest span)
      (makeStruct cx' (ρ.struct id) (f.rename ρ) dest span) := by
  rw [makeStruct, makeStruct, Fields.missing_rename]
  refine check_mirrors hD ?_
  have hmove := moveLiteral_mirrors hcx hD hρ
    (.struct id (f.values.filterMap fun value => value)) (.struct id) dest span
  refine .ite ?_ hmove
  exact .bind (g := fun u => u) .giveUp fun _ => hmove

theorem statementUnit_mirrors (dest : Option Access) (span : Location) :
    Mirrors ρ D id (statementUnit cx dest span) (statementUnit cx' dest span) := by
  cases dest with
  | none => exact .pure (g := id) ()
  | some dest => exact moveUnit_mirrors hcx hD hρ dest span

end Calls

/-! ## Ends -/

include hcx hD hρ in
theorem closeTypes_mirrors : Mirrors ρ D id (closeTypes cx) (closeTypes cx') := by
  have hfailures : ∀ failures : List Failure, Mirrors ρ D id
      (failures.forM fun failure => reportInfer cx failure.error failure.span)
      ((failures.map (Failure.rename ρ.struct)).forM fun failure =>
        reportInfer cx' failure.error failure.span) := by
    intro failures
    induction failures with
    | nil => exact .pure (g := id) ()
    | cons failure failures ih =>
      exact (reportInfer_mirrors hcx hD failure.error failure.span).bind fun _ => ih
  have hopen : ∀ entries : List (Slot × Location), Mirrors ρ D id
      (entries.forM fun entry => complain .inferenceImpossible
        "type annotations needed: cannot infer the type of this value" entry.2)
      (entries.forM fun entry => complain .inferenceImpossible
        "type annotations needed: cannot infer the type of this value" entry.2) := by
    intro entries
    induction entries with
    | nil => exact .pure (g := id) ()
    | cons entry entries ih => exact (complain_mirrors hD _ _ _).bind fun _ => ih
  refine .bind (.onEngine (solve_commutes hρ.struct)) fun failures => ?_
  refine (hfailures failures).bind fun _ => .read fun b report function => ?_
  have hunresolved : (b.mirror ρ report function).engine.unresolved = b.engine.unresolved :=
    unresolved_rename b.engine
  rw [hunresolved]
  exact hopen _

theorem mapTypes_mirror (d : Draft) (function : Nat) (f f' : Ty → Except Fault Ty)
    (hf : ∀ t, f' (t.rename ρ.struct) = (f t).map (.rename ρ.struct)) :
    Alike (fun d d' => d' = d.mirror ρ function) (d.mapTypes f)
      ((d.mirror ρ function).mapTypes f') := by
  have hregisters : ∀ rs : List Register, Alike (fun out out' => out' = out.map (Register.rename ρ))
      (rs.mapM fun r => do return { r with type := ← f r.type })
      ((rs.map (Register.rename ρ)).mapM fun r => do return { r with type := ← f' r.type }) := by
    intro rs
    induction rs with
    | nil => exact .ok rfl
    | cons r rs ih =>
      rw [map_cons, mapM_cons, mapM_cons]
      have htype : Alike (fun t t' => t' = t.rename ρ.struct) (f r.type) (f' (r.rename ρ).type) := by
        rw [show (r.rename ρ).type = r.type.rename ρ.struct from rfl, hf]
        exact .map _ _
      refine .bind (Q := fun out out' => out' = Register.rename ρ out) (htype.bind ?_) ?_
      · rintro t _ rfl
        exact .ok rfl
      · rintro r _ rfl
        refine ih.bind ?_
        rintro rs _ rfl
        exact .ok rfl
  refine (hregisters d.registers).bind ?_
  rintro rs _ rfl
  exact .ok rfl

theorem close_mirror (segments : List OpenSegment) (function function' index : Nat) :
    Alike (fun out out' => out' = out.map (Segment.rename ρ))
      (Draft.close function index segments)
      (Draft.close function' index (segments.map (OpenSegment.rename ρ))) := by
  induction segments generalizing index with
  | nil => exact .ok rfl
  | cons segment rest ih =>
    obtain ⟨instructions, _ | terminator⟩ := segment
    · exact .error _ _
    · refine (ih (index + 1)).bind ?_
      rintro rest _ rfl
      exact .ok rfl

include hcx in
theorem sealFunction_mirrors (span : Location) :
    Mirrors ρ D (Function.rename ρ) (sealFunction cx span) (sealFunction cx' span) := by
  refine Sim.look ?_
  rintro b _ ⟨report, function, hentries, rfl⟩
  have hdraft := mapTypes_mirror b.draft function (fun t => b.engine.concretize t)
    (fun t => (b.engine.rename ρ.struct).concretize t) (concretize_rename b.engine)
  refine SimAt.bind (Mirrors.orFault hdraft _ _ ⟨report, function, hentries, rfl⟩) ?_
  rintro d _ b1 b1' rfl hb1 -
  have hfinish : Alike (fun out out' => out' = Function.rename ρ out)
      (d.finish cx.returnType span) ((d.mirror ρ function).finish cx'.returnType span) := by
    refine (close_mirror d.segments d.function function 0).bind ?_
    rintro segments _ rfl
    rw [hcx.returnType]
    exact .ok rfl
  generalize d.finish cx.returnType span = x at hfinish ⊢
  generalize (d.mirror ρ function).finish cx'.returnType span = y at hfinish ⊢
  cases hfinish with
  | ok h => exact .pure h hb1
  | error e e' => exact .error _ _

end Values

end Lower

end Semcheck
