/-
  What the primitive steps have, every step of lowering has.

  What has to be shown of a property of steps depends on how far it is to go:

  * `Lower.Aside`: the steps beside the code have it, and sequences keep it;
  * `Lower.Agreeing`: so have those that make types agree;
  * `Lower.Flat`, `Lower.Direct`: so have those that allocate a register and append
    an instruction, which is what lowering does within a segment;
  * `Lower.Structured`: so have those that put code together.  Such a property holds
    of lowering as a whole: one lemma for each function that lowers, the recursive
    ones by induction on the syntax (`lowerExpr`);
  * `Lower.Invariant`: so have all primitive steps, and then what is put together
    from them.

  Most steps deal with the code and the locals only.  Such a step sees of a body
  what `Body.bare` leaves.  A property that all of these have, whatever they
  change, is closed (`Lower.Closed`), and becomes an invariant as soon as the two
  steps have it that make types agree.

  The steps that report something and those that introduce a slot or a rule need
  the property only for locations in a set, if the syntax lies within that set.
  A property that has nothing to do with locations takes the set of all of them.
-/
import Semcheck.Proofs.Infer.Located
import Semcheck.Proofs.Lower.Spec
import Semcheck.Proofs.Tree.Marks

namespace Semcheck

open List Lower

open List (mem_cons_self mem_map_of_mem mem_cons_of_mem prefix_rfl forall_mem_cons)

variable {S : Location → Prop}

/-! ## Diagnostics at locations of a set -/

/-- The diagnostic is an error at one location in the set, and its note is about locations in
    the set as well. -/
structure Diagnostic.Points (S : Location → Prop) (d : Diagnostic) : Prop where
  error : d.severity = .error
  primary : ∃ span, d.spans = [span] ∧ S span
  note : ∀ note ∈ d.note, ∀ l ∈ note.spans, S l

theorem Diagnostic.points_error (code : Code) (message : String) {span : Location}
    (h : S span) : (error code message span).Points S :=
  ⟨rfl, ⟨span, rfl, h⟩, nofun⟩

theorem Diagnostic.Points.withNote {d : Diagnostic} (h : d.Points S) (message : String)
    {span : Location} (hspan : S span) : (d.withNote message span).Points S where
  error := h.error
  primary := h.primary
  note := by
    rintro note ⟨⟩
    exact forall_mem_singleton.2 hspan

/-- Where the name was declared before, if it was. -/
def LookupError.first? : LookupError → Option Location
  | .duplicate _ first _ => first
  | _ => none

theorem LookupError.points {e : LookupError} (hspan : S e.span)
    (hfirst : ∀ l ∈ e.first?, S l) : e.toDiagnostic.Points S := by
  have herror := Diagnostic.points_error e.code e.message hspan
  unfold toDiagnostic
  split
  · exact herror.withNote _ (hfirst _ rfl)
  · exact herror.withNote _ hspan
  · exact herror

/-- The diagnostic lies in the set, and it is not about a name that is declared twice: these are
    found where names are declared and nowhere else. -/
structure Diagnostic.Arises (S : Location → Prop) (d : Diagnostic) : Prop extends d.Points S where
  code_ne : d.code ≠ .duplicateDeclaration

theorem LookupError.code_toDiagnostic (e : LookupError) : e.toDiagnostic.code = e.code := by
  unfold toDiagnostic
  split <;> rfl

theorem LookupError.arises {e : LookupError} (hspan : S e.span)
    (hcode : e.code ≠ .duplicateDeclaration) : e.toDiagnostic.Arises S where
  toPoints := by
    refine points hspan ?_
    cases e with
    | duplicate name first second => exact absurd rfl hcode
    | _ => exact nofun
  code_ne := by rwa [code_toDiagnostic]

namespace Table

variable {t : Table} {name : Name} {absolute : Bool} {scope : UseScope} {span : Location}

theorem resolve_arises {e : LookupError}
    (h : t.resolve name absolute scope span = .ok (.error e)) (hspan : S span) :
    e.toDiagnostic.Arises S := by
  unfold resolve onlyDecl at h
  split at h
  · cases h
  · cases h
    exact LookupError.arises hspan nofun
  · obtain ⟨names, -, h⟩ := bind_eq_ok.1 h
    cases h
    exact LookupError.arises hspan nofun

theorem resolveType_arises {e : LookupError}
    (h : t.resolveType name absolute scope span = .ok (.error e)) (hspan : S span) :
    e.toDiagnostic.Arises S := by
  obtain ⟨found, hfound, h⟩ := bind_eq_ok.1 h
  cases found with
  | error e' =>
    cases h
    exact resolve_arises hfound hspan
  | ok d =>
    cases d with
    | struct id => cases h
    | funct id =>
      cases h
      exact LookupError.arises hspan nofun

end Table

/-! ## Types in the syntax -/

section Types

variable {I : Report → Prop} (table : Table) (scope : UseScope)

theorem resolveType_preserves (hpush : ∀ r d, d.Arises S → I r → I (r.push d)) {path : Path}
    (hpath : S path.span) (span : Location) :
    Preserves I (lowerType table scope (.path path span)) := by
  intro r a r' hrun hr
  obtain ⟨⟨found, r1⟩, hlift, hrun⟩ := bind_eq_ok.1
    (show (liftM (table.resolveType path.toName path.absolute scope path.span) :
      ReportM (Except LookupError StructId)).run r >>= _ = _ from hrun)
  obtain ⟨found', hfound, hlift⟩ := bind_eq_ok.1
    (show table.resolveType path.toName path.absolute scope path.span >>= _ = _ from hlift)
  cases hlift
  cases found with
  | ok id =>
    cases hrun
    exact hr
  | error e =>
    cases hrun
    exact hpush r _ (Table.resolveType_arises hfound hpath) hr

mutual

theorem lowerType_preserves (hpush : ∀ r d, d.Arises S → I r → I (r.push d)) :
    ∀ type, (Node.type type).Within S → Preserves I (lowerType table scope type)
  | .path _ span, h =>
    resolveType_preserves table scope hpush (h.path mem_cons_self) span
  | .pointer _ _ pointee _, h =>
    .bind (lowerType_preserves hpush pointee (h.child mem_cons_self)) fun _ => .pure _
  | .tuple elements _, h =>
    .bind (lowerTypes_preserves hpush elements fun _ he => h.child (mem_map_of_mem he))
      fun _ => .pure _
  | .funct params none _, h =>
    .bind (lowerTypes_preserves hpush params fun _ hp =>
      h.child (mem_append_left _ (mem_map_of_mem hp))) fun _ => .pure _
  | .funct params (some returns) _, h =>
    .bind (lowerTypes_preserves hpush params fun _ hp =>
        h.child (mem_append_left _ (mem_map_of_mem hp))) fun _ =>
      .bind (lowerType_preserves hpush returns
        (h.child (mem_append_right _ mem_cons_self))) fun _ => .pure _

theorem lowerTypes_preserves (hpush : ∀ r d, d.Arises S → I r → I (r.push d)) :
    ∀ types, (∀ type ∈ types, (Node.type type).Within S) →
      Preserves I (lowerTypes table scope types)
  | [], _ => .pure _
  | type :: rest, h =>
    .bind (lowerType_preserves hpush type (h type mem_cons_self)) fun _ =>
      .bind (lowerTypes_preserves hpush rest fun t ht => h t (mem_cons_of_mem _ ht))
        fun _ => .pure _

end

end Types

/-! ## Trees -/

namespace Node

variable {R : Prop} {n : Node}

/-- The tree lies within the set, and it has a `return` under the condition only. -/
structure Fits (S : Location → Prop) (R : Prop) (n : Node) : Prop where
  within : n.Within S
  returns : ∀ value span, .expr (.ret value span) ∈ n.preorder → R

theorem Within.fits (h : n.Within S) : n.Fits S True :=
  ⟨h, fun _ _ _ => trivial⟩

theorem Fits.child (h : n.Fits S R) {c : Node} (hc : c ∈ n.children) : c.Fits S R where
  within := h.within.child hc
  returns value span hmem := by
    refine h.returns value span ?_
    rw [preorder_eq]
    exact mem_cons_of_mem _ (mem_walk.2 ⟨c, hc, hmem⟩)

theorem Fits.leaves {value : Option Expr} {span : Location}
    (h : (expr (.ret value span)).Fits S R) : R := by
  refine h.returns value span ?_
  rw [preorder_eq]
  exact mem_cons_self

end Node

/-! ## Primitive steps -/

/-- The step binds no slot and takes no slot or rule back, and it neither looks at the mode nor
    changes it.  Slots and rules that it adds come from locations in the set. -/
structure EngineM.Blind (S : Location → Prop) {α : Type} (step : EngineM α) : Prop where
  mode : ∀ e strict, step.run { e with strict := strict } =
    (step.run e).map fun out => (out.1, { out.2 with strict := strict })
  bindings : ∀ {e a e'}, step.run e = .ok (a, e') → e'.bindings = e.bindings ∧ e'.strict = e.strict
  rules : ∀ {e a e'}, step.run e = .ok (a, e') → e.rules <+: e'.rules
  slots : ∀ {e a e'}, step.run e = .ok (a, e') → e.slots.length ≤ e'.slots.length
  located : Preserves (Engine.Located S) step

namespace EngineM.Blind

variable {α : Type}

theorem ask {question : Engine → Except Fault α}
    (h : ∀ e strict, question { e with strict := strict } = question e) :
    Blind S (.ask question) where
  mode e strict := by
    show (question { e with strict := strict } >>= fun a => .ok (a, { e with strict := strict })) =
      (question e >>= fun a => .ok (a, e)).map _
    rw [h]
    cases question e <;> rfl
  bindings {e a e'} hrun := by
    change (question e >>= fun a => .ok (a, e)) = .ok (a, e') at hrun
    cases hq : question e with
    | error fault => rw [hq] at hrun; cases hrun
    | ok a => rw [hq] at hrun; cases hrun; exact ⟨rfl, rfl⟩
  rules {e a e'} hrun :=
    ask_preserves (I := fun e' => e.rules <+: e'.rules) question e a e' hrun prefix_rfl
  slots {e a e'} hrun :=
    ask_preserves (I := fun e' => e.slots.length ≤ e'.slots.length) question e a e' hrun
      (Nat.le_refl _)
  located := ask_preserves question

theorem shallow (t : Ty) : Blind S (EngineM.ask fun e => e.shallow t) :=
  ask fun _ _ => rfl

theorem resolve (t : Ty) : Blind S (EngineM.ask fun e => e.resolve t) :=
  ask fun _ _ => rfl

theorem addSlot {origin : Location} (h : S origin) :
    Blind S (modifyGet fun e => e.addSlot origin) where
  mode _ _ := rfl
  bindings hrun := by cases hrun; exact ⟨rfl, rfl⟩
  rules hrun := by cases hrun; exact prefix_rfl
  slots hrun := by cases hrun; simp
  located e _ _ hrun he := by cases hrun; exact he.addSlot h

theorem addRule {rule : Rule} (h : S rule.span) : Blind S (modify fun e => e.addRule rule) where
  mode _ _ := rfl
  bindings hrun := by cases hrun; exact ⟨rfl, rfl⟩
  rules hrun := by cases hrun; exact prefix_append _ _
  slots hrun := by cases hrun; exact Nat.le_refl _
  located := .modify fun _ he => he.addRule h

theorem markDiverging (s : Slot) : Blind S (do set (← EngineM.ask fun e => e.markDiverging s)) := by
  have hrun : ∀ e : Engine,
      (do set (← EngineM.ask fun e => e.markDiverging s) : EngineM Unit).run e =
      (e.info s).map fun _ => ((), { e with
        slots := e.slots.modify s.index fun info => { info with diverging := true } }) := by
    intro e
    show ((e.info s >>= fun _ => .ok _) >>= fun e' => .ok (e', e)) >>= _ = _
    cases e.info s <;> rfl
  have hmarked : ∀ {e a e'}, (do set (← EngineM.ask fun e => e.markDiverging s) :
      EngineM Unit).run e = .ok (a, e') → e' = { e with
        slots := e.slots.modify s.index fun info => { info with diverging := true } } := by
    intro e a e' h
    rw [hrun] at h
    cases hi : e.info s with
    | error fault => rw [hi] at h; cases h
    | ok info => rw [hi] at h; cases h; rfl
  refine ⟨fun e strict => ?_, fun h => ?_, fun h => ?_, fun h => ?_, fun e a e' h he => ?_⟩
  · rw [hrun, hrun]
    show (e.info s).map _ = ((e.info s).map _).map _
    cases e.info s <;> rfl
  · rw [hmarked h]
    exact ⟨rfl, rfl⟩
  · obtain rfl := hmarked h
    exact prefix_rfl
  · simp [hmarked h]
  · rw [hmarked h]
    exact he.markDiverging s

end EngineM.Blind

/-! ## What a step does -/

namespace Lower

variable {α β : Type} {b b' : Body} {r : Option α}

theorem orFault_eq_ok {x : Except Fault α} :
    (orFault x).run b = .ok (r, b') ↔ ∃ a, x = .ok a ∧ r = some a ∧ b' = b := by
  constructor
  · intro hrun
    cases x with
    | error fault => cases hrun
    | ok a => cases hrun; exact ⟨a, rfl, rfl, rfl⟩
  · rintro ⟨a, rfl, rfl, rfl⟩
    rfl

theorem bind_eq_ok {x : Lower α} {f : α → Lower β} {r : Option β} :
    (x >>= f).run b = .ok (r, b') ↔
      (∃ a b1, x.run b = .ok (some a, b1) ∧ (f a).run b1 = .ok (r, b')) ∨
        x.run b = .ok (none, b') ∧ r = none := by
  constructor
  · intro hrun
    obtain ⟨⟨r1, b1⟩, hrun1, hrun2⟩ := Semcheck.bind_eq_ok.1 (show x.run b >>= _ = _ from hrun)
    cases r1 with
    | none =>
      cases hrun2
      exact .inr ⟨hrun1, rfl⟩
    | some a => exact .inl ⟨a, b1, hrun1, hrun2⟩
  · intro h
    show x.run b >>= _ = _
    obtain ⟨a, b1, hrun1, hrun2⟩ | ⟨hrun1, rfl⟩ := h
    · rw [hrun1]
      exact hrun2
    · rw [hrun1]
      rfl

/-- A sequence with a value has gone through its first part. -/
theorem bind_ok {x : Lower α} {f : α → Lower β} {r : β} (h : (x >>= f).run b = .ok (some r, b')) :
    ∃ a b1, x.run b = .ok (some a, b1) ∧ (f a).run b1 = .ok (some r, b') := by
  rcases bind_eq_ok.1 h with h | ⟨-, ⟨⟩⟩
  exact h

theorem recover_eq_ok {step : Lower Unit} {r : Option Bool} :
    (recover step).run b = .ok (r, b') ↔
      (step.run b = .ok (some (), b') ∧ r = some true) ∨
        ∃ b1, step.run b = .ok (none, b1) ∧ r = some false ∧ b' = { b1 with gaveUp := true } := by
  constructor
  · intro hrun
    obtain ⟨⟨r1, b1⟩, hrun1, hrun2⟩ := Semcheck.bind_eq_ok.1 (show step.run b >>= _ = _ from hrun)
    cases r1 with
    | none =>
      cases hrun2
      exact .inr ⟨b1, hrun1, rfl, rfl⟩
    | some u =>
      cases hrun2
      exact .inl ⟨hrun1, rfl⟩
  · intro h
    show step.run b >>= _ = _
    obtain ⟨hrun1, rfl⟩ | ⟨b1, hrun1, rfl, rfl⟩ := h
    · rw [hrun1]
      rfl
    · rw [hrun1]
      rfl

theorem part_eq_ok {σ : Type} {x : Except Fault (α × σ)} {put : σ → Body} :
    (do let out ← orFault x; set (put out.2); return out.1 : Lower α).run b = .ok (r, b') ↔
      ∃ a s, x = .ok (a, s) ∧ r = some a ∧ b' = put s := by
  rw [bind_eq_ok]
  constructor
  · rintro (⟨out, b1, hrun1, hrun2⟩ | ⟨hrun1, rfl⟩)
    · obtain ⟨a, hx, ha, rfl⟩ := orFault_eq_ok.1 hrun1
      cases ha
      cases hrun2
      exact ⟨out.1, out.2, hx, rfl, rfl⟩
    · obtain ⟨a, -, ha, -⟩ := orFault_eq_ok.1 hrun1
      cases ha
  · rintro ⟨a, s, hx, rfl, rfl⟩
    exact .inl ⟨(a, s), b, orFault_eq_ok.2 ⟨_, hx, rfl, rfl⟩, rfl⟩

theorem onEngine_eq_ok {step : EngineM α} :
    (onEngine step).run b = .ok (r, b') ↔
      ∃ a e, step.run b.engine = .ok (a, e) ∧ r = some a ∧ b' = { b with engine := e } := by
  rw [← part_eq_ok]
  rfl

theorem reporting_eq_ok {step : ReportM α} :
    (reporting step).run b = .ok (r, b') ↔
      ∃ a report, step.run b.report = .ok (a, report) ∧ r = some a ∧
        b' = { b with report := report } := by
  rw [← part_eq_ok]
  rfl

end Lower

/-! ## Closed properties -/

/-- The body without its report, its engine and the mark of a step that gave up. -/
def Body.bare (b : Body) : Body :=
  { b with report := .empty, engine := .empty false, gaveUp := false }

/-- The body with the report, the engine and the mark of another one. -/
def Body.around (b outer : Body) : Body :=
  { b with report := outer.report, engine := outer.engine, gaveUp := outer.gaveUp }

namespace Lower

/-- The value may be the result of the step. -/
def Returns {α : Type} (step : Lower α) (a : α) : Prop :=
  ∃ b b', step.run b = .ok (some a, b')

/-- The steps that leave the draft and the locals alone have the property, as far as they are
    about locations in the set, and sequences keep it. -/
structure Aside (S : Location → Prop) (P : (α : Type) → Lower α → Prop) : Prop where
  pure : ∀ {α : Type} (a : α), P α (pure a)
  /-- What follows a step has to have the property for results of the step. -/
  chain : ∀ {α β : Type} {x : Lower α} {f : α → Lower β}, P α x →
    (∀ a, Returns x a → P β (f a)) → P β (x >>= f)
  giveUp : ∀ {α : Type}, P α giveUp
  abort : ∀ {α : Type} (reason : Abort), P α (abort reason)
  recover : ∀ {step : Lower Unit}, P Unit step → P Bool (recover step)
  report : ∀ {d : Diagnostic}, d.Arises S → P Unit (report d)
  reporting : ∀ (table : Table) (scope : UseScope) {type : TypeExpr}, (Node.type type).Within S →
    P Ty (reporting (lowerType table scope type))
  engine : ∀ {α : Type} {step : EngineM α}, step.Blind S → P α (onEngine step)
  look : ∀ {α : Type} {f : Body → Lower α}, (∀ b, f b = f b.bare) → (∀ b, P α (f b)) →
    P α (get >>= f)

/-- The steps have the property that add to the current segment, if what they write goes to one
    of the destinations or to a register of their own. -/
structure Flat (S : Location → Prop) (D : Access → Prop) (P : (α : Type) → Lower α → Prop) : Prop
    extends Aside S P where
  newRegister : ∀ type span, P RegisterId (newRegister type span)
  push : ∀ {i : Instruction}, D i.dest → P Unit (push i)
  /-- A value is copied to a register of its own. -/
  spill : ∀ source type span, P RegisterId (do
    let temp ← Lower.newRegister type span
    Lower.push (.move source (.register temp))
    return temp)

/-- The steps have the property that make types agree. -/
structure Agreeing (S : Location → Prop) (P : (α : Type) → Lower α → Prop) : Prop
    extends Aside S P where
  unifyAt : ∀ cx expected found {span}, S span → P Unit (unifyAt cx expected found span)
  /-- A slot gets the erroneous type because of an error. -/
  spoil : ∀ slot, P Unit (onEngine (inferType slot .error).run >>= fun _ => Lower.giveUp)

/-- All steps have the property that stay in the current segment. -/
structure Direct (S : Location → Prop) (D : Access → Prop) (P : (α : Type) → Lower α → Prop) :
    Prop extends Flat S D P, Agreeing S P

/-- The steps have the property that put code together, wherever it writes to.  Where the
    function is left, the property is needed under the condition only. -/
structure Structured (S : Location → Prop) (R : Prop) (P : (α : Type) → Lower α → Prop) : Prop
    extends Direct S (fun _ => True) P where
  /-- Registers and names are only added, and the segments stay. -/
  change : ∀ {f : Body → Body}, (∀ b, f b = (f b.bare).around b) →
    (∀ b : Body, b.draft.Grows (f b).draft) →
    (∀ b : Body, (f b).draft.graph = b.draft.graph) → P Unit (modify f)
  makeWhen : ∀ (cx : Context) (test : Access) {thenSpan : Location}, S thenSpan →
    ∀ {value : Access → Lower Unit}, (∀ dest, P Unit (value dest)) →
    ∀ (dest : Access) {span : Location}, S span →
      P Unit (makeWhen cx test thenSpan value dest span)
  makeIfElse : ∀ (cx : Context) (test : Access) {value other : Access → Lower Unit},
    (∀ dest, P Unit (value dest)) → (∀ dest, P Unit (other dest)) →
    ∀ dest : Access, P Unit (makeIfElse cx test value other dest)
  makeLoop : ∀ (cx : Context) (conditionSpan : Location) {bodySpan : Location}, S bodySpan →
    ∀ {condition body : Access → Lower Unit}, (∀ dest, P Unit (condition dest)) →
    (∀ dest, P Unit (body dest)) → ∀ (dest : Access) {span : Location}, S span →
      P Unit (makeLoop cx conditionSpan bodySpan condition body dest span)
  leave : R → ∀ (cx : Context) (dest : Access), P Unit (leave cx dest)

/-- All steps have the property, wherever they write to. -/
structure Invariant (S : Location → Prop) (P : (α : Type) → Lower α → Prop) : Prop
    extends Direct S (fun _ => True) P where
  terminate : ∀ t, P Unit (terminate t)
  /-- Registers, names and code are only added. -/
  change : ∀ {f : Body → Body}, (∀ b, f b = (f b.bare).around b) →
    (∀ b : Body, b.draft.Adds (f b).draft) → P Unit (modify f)

/-- All changes of the code and the locals have the property. -/
structure Closed (S : Location → Prop) (P : (α : Type) → Lower α → Prop) : Prop
    extends Aside S P where
  change : ∀ {f : Body → Body}, (∀ b, f b = (f b.bare).around b) → P Unit (modify f)

end Lower

namespace Lower

variable {P : (α : Type) → Lower α → Prop} {D : Access → Prop} {cx : Context}

/-! ## Reports and types -/

namespace Aside

variable {α : Type} {span baseSpan : Location} {x : Lower α}

theorem bind (h : Aside S P) {β : Type} {f : α → Lower β} (hx : P α x) (hf : ∀ a, P β (f a)) :
    P β (x >>= f) :=
  h.chain hx fun a _ => hf a

theorem ite (c : Prop) [Decidable c] {y : Lower α} (hx : P α x) (hy : P α y) :
    P α (if c then x else y) := by
  split
  · exact hx
  · exact hy

variable (h : Aside S P)
include h

theorem orFault (x : Except Fault α) : P α (orFault x) := by
  cases x with
  | ok a => exact h.pure a
  | error fault => exact h.abort _

theorem orAbort (x : Except Abort α) : P α (orAbort x) := by
  cases x with
  | ok a => exact h.pure a
  | error reason => exact h.abort _

theorem attempt {step : Lower Unit} (hstep : P Unit step) : P Unit (attempt step) :=
  h.bind (h.recover hstep) fun _ => h.pure ()

theorem forM {β : Type} {f : β → Lower Unit} {xs : List β} (hf : ∀ x ∈ xs, P Unit (f x)) :
    P Unit (xs.forM f) := by
  induction xs with
  | nil => exact h.pure ()
  | cons x xs ih =>
    rw [forall_mem_cons] at hf
    exact h.bind hf.1 fun _ => ih hf.2

theorem complain (code : Code) (message : String) (hspan : S span)
    (hcode : code ≠ .duplicateDeclaration) : P Unit (complain code message span) :=
  h.report ⟨Diagnostic.points_error code message hspan, hcode⟩

theorem fail (code : Code) (message : String) (hspan : S span)
    (hcode : code ≠ .duplicateDeclaration) : P α (fail code message span) :=
  h.bind (h.complain code message hspan hcode) fun _ => h.giveUp

theorem orReport {found : Except Fault (Except LookupError α)}
    (hfound : ∀ e, found = .ok (.error e) → e.toDiagnostic.Arises S) : P α (orReport found) := by
  refine h.chain (h.orFault found) fun r hr => ?_
  cases r with
  | ok a => exact h.pure a
  | error e =>
    obtain ⟨b, b', hrun⟩ := hr
    obtain ⟨r, hr, heq, -⟩ := orFault_eq_ok.1 hrun
    cases heq
    exact h.bind (h.report (hfound e hr)) fun _ => h.giveUp

theorem shallow (t : Ty) : P Ty (shallow t) :=
  h.engine (.shallow t)

theorem newSlot {origin : Location} (horigin : S origin) : P Slot (newSlot origin) :=
  h.engine (.addSlot horigin)

theorem typeName (t : Ty) : P String (typeName cx t) :=
  h.bind (h.engine (.resolve t)) fun _ => h.orFault _

theorem reportInfer (e : InferError) (hspan : S span) : P Unit (reportInfer cx e span) := by
  cases e with
  | mismatch expected found =>
    refine ite _ (h.pure ()) (h.bind (h.typeName expected) fun _ => ?_)
    exact h.bind (h.typeName found) fun _ => h.complain _ _ hspan nofun
  | notFunct found => exact h.bind (h.typeName found) fun _ => h.complain _ _ hspan nofun
  | argumentCount expected found => exact h.complain _ _ hspan nofun
  | recursive slot type => exact h.bind (h.typeName type) fun _ => h.complain _ _ hspan nofun

/-- What the steps beside the code have, making types agree has if unification has it. -/
theorem agreeing (hunify : ∀ expected found, P _ (onEngine (unify expected found).run)) :
    Agreeing S P where
  toAside := h
  unifyAt cx expected found _ hspan := by
    refine h.bind (hunify expected found) fun r => ?_
    cases r with
    | ok _ => exact h.pure ()
    | error e => exact h.bind (h.reportInfer e hspan) fun _ => h.giveUp
  spoil slot := h.bind (hunify (.slot slot) .error) fun _ => h.giveUp

theorem registerType (r : RegisterId) : P Ty (registerType r) :=
  h.look (fun _ => rfl) fun _ => h.orFault _

theorem onDraft {step : Draft → α × Draft}
    (hstep : P Unit (modify fun b => { b with draft := (step b.draft).2 })) :
    P α (onDraft step) := by
  have heq : Lower.onDraft step = (do
      let b ← get
      modify fun b => { b with draft := (step b.draft).2 }
      return (step b.draft).1) := rfl
  rw [heq]
  exact h.look (fun _ => rfl) fun _ => h.bind hstep fun _ => h.pure _

theorem currentSegment : P SegmentId currentSegment :=
  h.look (fun _ => rfl) fun _ => h.pure _

theorem fieldsType (path : List Nat) (t : Ty) : P Ty (fieldsType cx path t) := by
  induction path generalizing t with
  | nil => exact h.pure t
  | cons index rest ih =>
    refine h.bind (h.shallow t) fun root => ?_
    cases root with
    | struct id => exact h.bind (h.orFault _) fun _ => ih _
    | _ => exact ih _

theorem accessType (a : Access) : P (Option Ty) (accessType cx a) := by
  cases a with
  | discard => exact h.pure none
  | place register fields deref =>
    refine h.bind (h.registerType register) fun type => ite _ ?_ ?_
    · refine h.bind (h.shallow type) fun root => ?_
      cases root <;> exact h.bind (h.fieldsType fields _) fun _ => h.pure _
    · exact h.bind (h.fieldsType fields type) fun _ => h.pure _

theorem openSlot? (dest : Access) : P (Option Slot) (openSlot? cx dest) := by
  refine h.bind (h.accessType dest) fun found => ?_
  cases found with
  | none => exact h.pure none
  | some type => exact h.bind (h.shallow type) fun _ => h.pure _

/-! ## Locals -/

theorem assignments : P (List Assigned) assignments :=
  h.look (fun _ => rfl) fun _ => h.pure _

theorem lookupLocal (path : Path) : P (Option (Nat × Local)) (lookupLocal path) := by
  rw [Lower.lookupLocal]
  cases path.single? with
  | none => exact h.pure none
  | some name => exact h.look (fun _ => rfl) fun _ => h.pure _

theorem localPlace (index : Nat) (l : Local) (purpose : Purpose) (hspan : S span) :
    P Place (localPlace index l purpose span) := by
  refine ite _ (h.bind (h.fail _ _ hspan nofun) fun _ => ?_) ?_ <;>
    exact h.look (fun _ => rfl) fun _ => h.bind (h.registerType _) fun _ => h.pure _

theorem namedPlace (path : Path) (purpose : Purpose) (hspan : S span) :
    P (Option Place) (namedPlace path purpose span) := by
  refine h.bind (h.lookupLocal path) fun found => ?_
  cases found with
  | none => exact h.pure none
  | some entry => exact h.bind (h.localPlace _ _ purpose hspan) fun _ => h.pure _

/-! ## Places -/

theorem findMember (type : Ty) (field : String) (hbase : S baseSpan) :
    P (Option (Nat × Ty)) (findMember cx type field baseSpan) := by
  cases type with
  | struct id => exact h.bind (h.orFault _) fun _ => h.pure _
  | slot s => exact h.fail _ _ hbase nofun
  | error => exact h.giveUp
  | _ => exact h.pure _

theorem fieldPlace (base : Place) (hbase : S baseSpan) {field : Ident}
    (hfield : S field.span) : P Place (fieldPlace cx base baseSpan field) := by
  refine h.bind (h.shallow base.type) fun type => ?_
  refine h.bind (h.findMember type field.text hbase) fun found => ?_
  cases found with
  | none => exact h.bind (h.typeName type) fun _ => h.fail _ _ hfield nofun
  | some member => exact h.pure _

theorem immutableText (place : Place) : P String (immutableText place) := by
  rw [Lower.immutableText]
  cases place.localIndex with
  | none => exact h.pure _
  | some index =>
    refine h.look (fun _ => rfl) fun b => ?_
    cases b.locals[index]? with
    | none => exact h.abort _
    | some l => exact ite _ (h.pure _) (h.pure _)

theorem assignedPlace (place : Option Place) (hspan : S span) :
    P Place (assignedPlace place span) := by
  cases place with
  | none => exact h.fail _ _ hspan nofun
  | some place =>
    have hmutable : P Place (do
        if !place.mutable then
          let message ← Lower.immutableText place
          Lower.fail .cannotAssign message span
        return place) :=
      ite _ (h.bind (h.immutableText place) fun _ =>
        h.bind (h.fail _ _ hspan nofun) fun _ => h.pure _) (h.pure _)
    exact ite _ (h.bind (h.fail _ _ hspan nofun) fun _ => hmutable) hmutable

/-! ## Returns and annotations -/

theorem checkBareReturn (hspan : S span) : P Unit (checkBareReturn cx span) :=
  ite _ (h.bind (h.typeName _) fun _ => h.fail _ _ hspan nofun) (h.pure _)

theorem letType {name : Ident} (hname : S name.span) {type : Option TypeExpr}
    (htype : ∀ t ∈ type, (Node.type t).Within S) : P Ty (letType cx name type) := by
  cases type with
  | some type => exact h.look (fun _ => rfl) fun _ => h.reporting _ _ (htype type rfl)
  | none => exact h.bind (h.newSlot hname) fun _ => h.pure _

end Aside

/-- The steps beside the code lead from a body with `I` to a related one, if what they change
    does. -/
theorem aside_of_related {I : Body → Prop} {R : Body → Body → Prop} (refl : ∀ {b}, I b → R b b)
    (trans : ∀ {b b1 b'}, R b b1 → R b1 b' → R b b') (keeps : ∀ {b b'}, I b → R b b' → I b')
    (gaveUp : ∀ {b}, I b → R b { b with gaveUp := true })
    (report : ∀ {b d}, d.Arises S → I b → R b { b with report := b.report.push d })
    (engine : ∀ {α : Type} {step : EngineM α} {b a e}, step.Blind S →
      step.run b.engine = .ok (a, e) → I b → R b { b with engine := e }) :
    Aside S fun α (x : Lower α) => ∀ b r b', x.run b = .ok (r, b') → I b → R b b' where
  pure a := by
    rintro b r b' ⟨⟩
    exact refl
  chain hx hf := by
    intro b r b' hrun hb
    rcases bind_eq_ok.1 hrun with ⟨a, b1, hrun1, hrun2⟩ | ⟨hrun1, -⟩
    · have h1 := hx _ _ _ hrun1 hb
      exact trans h1 (hf a ⟨b, b1, hrun1⟩ _ _ _ hrun2 (keeps hb h1))
    · exact hx _ _ _ hrun1 hb
  giveUp := by
    rintro α b r b' ⟨⟩
    exact refl
  abort reason := by rintro b r b' ⟨⟩
  recover h := by
    intro b r b' hrun hb
    rcases recover_eq_ok.1 hrun with ⟨hrun1, -⟩ | ⟨b1, hrun1, -, rfl⟩
    · exact h _ _ _ hrun1 hb
    · have h1 := h _ _ _ hrun1 hb
      exact trans h1 (gaveUp (keeps hb h1))
  report hd := by
    rintro b r b' ⟨⟩
    exact report hd
  reporting table scope type htype := by
    intro b r b' hrun hb
    obtain ⟨t, report', hreport, -, rfl⟩ := reporting_eq_ok.1 hrun
    refine lowerType_preserves (I := fun r => R b { b with report := r }) table scope
      (fun r d hd h => ?_) type htype _ _ _ hreport (refl hb)
    exact trans h (report (b := { b with report := r }) hd (keeps hb h))
  engine hblind := by
    intro b r b' hrun hb
    obtain ⟨a, e, hstep, -, rfl⟩ := onEngine_eq_ok.1 hrun
    exact engine hblind hstep hb
  look _ hf b r b' hrun := hf b b r b' hrun

/-! ## Registers and code -/

namespace Flat

variable {span : Location}

variable (h : Flat S D P)
include h

theorem newTemp (hspan : S span) : P RegisterId (newTemp span) :=
  h.bind (h.newSlot hspan) fun _ => h.newRegister _ _

theorem pointerRegister (pointer : Place) (type : Ty) (span : Location) :
    P RegisterId (pointerRegister pointer type span) := by
  rw [Lower.pointerRegister]
  cases pointer.access.plain? with
  | some register => exact h.pure register
  | none => exact h.spill pointer.access type span

theorem targetPlace (pointer : Place) (hspan : S span) : P Place (targetPlace cx pointer span) := by
  refine h.bind (h.shallow pointer.type) fun type => ?_
  cases type with
  | pointer mutable pointee =>
    exact h.bind (h.pointerRegister pointer _ span) fun _ => h.pure _
  | slot s => exact h.fail _ _ hspan nofun
  | error => exact h.giveUp
  | _ => exact h.bind (h.typeName _) fun _ => h.fail _ _ hspan nofun

theorem conditionRegister (span : Location) : P Access (conditionRegister span) :=
  h.bind (h.newRegister _ span) fun _ => h.pure _

theorem returnTarget (span : Location) : P Access (returnTarget cx span) :=
  Aside.ite _ (h.bind (h.newRegister .unit span) fun _ => h.pure _) (h.pure _)

end Flat

/-! ## Closed properties are invariants -/

namespace Closed

variable {α : Type}

theorem push (h : Closed S P) (i : Instruction) : P Unit (push i) := by
  have heq : Lower.push i = (do
      let d ← orFault ((← get).draft.push i)
      modify fun b => { b with draft := d }) := by
    funext b
    show (Lower.orFault (b.draft.push i)).run b >>= _ = (Lower.orFault (b.draft.push i)).run b >>= _
    cases b.draft.push i <;> rfl
  rw [heq]
  exact h.look (fun _ => rfl) fun _ => h.bind (h.orFault _) fun _ => h.change fun _ => rfl

theorem terminate (h : Closed S P) (t : Terminator) : P Unit (terminate t) := by
  have heq : Lower.terminate t = (do
      let d ← orAbort ((← get).draft.terminate t)
      modify fun b => { b with draft := d }) := by
    funext b
    show (Lower.orAbort (b.draft.terminate t)).run b >>= _ =
      (Lower.orAbort (b.draft.terminate t)).run b >>= _
    cases b.draft.terminate t <;> rfl
  rw [heq]
  exact h.look (fun _ => rfl) fun _ => h.bind (h.orAbort _) fun _ => h.change fun _ => rfl

/-- A closed property does not depend on where something is written to. -/
theorem flat (h : Closed S P) : Flat S D P where
  toAside := h.toAside
  newRegister _ _ := h.onDraft (h.change fun _ => rfl)
  push _ := h.push _
  spill _ _ _ := h.bind (h.onDraft (h.change fun _ => rfl)) fun _ => h.bind (h.push _) fun _ =>
    h.pure _

theorem invariant (h : Closed S P)
    (hunify : ∀ expected found, P _ (onEngine (unify expected found).run)) : Invariant S P where
  toFlat := h.flat
  unifyAt := (h.agreeing hunify).unifyAt
  spoil := (h.agreeing hunify).spoil
  terminate := h.terminate
  change hf _ := h.change hf

end Closed

/-! ## Operands -/

namespace Returns

variable {α : Type}

theorem pure {a b : α} (h : Returns (pure a : Lower α) b) : b = a := by
  obtain ⟨_, _, hrun⟩ := h
  cases hrun
  rfl

theorem bind {β : Type} {x : Lower α} {f : α → Lower β} {b : β} (h : Returns (x >>= f) b) :
    ∃ a, Returns x a ∧ Returns (f a) b := by
  obtain ⟨s, s', hrun⟩ := h
  rcases bind_eq_ok.1 hrun with ⟨a, s1, hrun1, hrun2⟩ | ⟨-, ⟨⟩⟩
  exact ⟨a, ⟨s, s1, hrun1⟩, ⟨s1, s', hrun2⟩⟩

theorem span {es : List Expr} {operands : List Operand}
    (h : Returns (lowerOperands cx es) operands) {o : Operand} (ho : o ∈ operands) :
    ∃ e ∈ es, o.span = e.span := by
  induction es generalizing operands with
  | nil =>
    obtain rfl := pure h
    cases ho
  | cons e es ih =>
    obtain ⟨first, hfirst, h⟩ := bind h
    obtain ⟨rest, hrest, h⟩ := bind h
    obtain rfl := pure h
    rcases mem_cons.1 ho with rfl | ho
    · obtain ⟨temp, -, hfirst⟩ := bind hfirst
      obtain ⟨_, -, hfirst⟩ := bind hfirst
      obtain ⟨type, -, hfirst⟩ := bind hfirst
      obtain rfl := pure hfirst
      exact ⟨e, mem_cons_self, rfl⟩
    · obtain ⟨e', he', hspan⟩ := ih hrest ho
      exact ⟨e', mem_cons_of_mem _ he', hspan⟩

end Returns

/-! ## Destinations -/

/-- What becomes of a destination whose value could not be lowered. -/
def unsettle (cx : Context) (dest : Access) : Lower Unit := do
  match ← openSlot? cx dest with
  | none => giveUp
  | some slot =>
    let _ ← onEngine (inferType slot .error).run
    giveUp

theorem settling_eq (dest : Access) (value : Access → Lower Unit) :
    settling cx dest value = (do
      if ← recover (value dest) then return
      unsettle cx dest) :=
  rfl

namespace Agreeing

variable {span : Location} {args : List Operand}

theorem assign (h : Agreeing S P) (cx : Context) (dest : Access) (found : Ty) (hspan : S span) :
    P Unit (assign cx dest found span) := by
  refine h.bind (h.accessType dest) fun expected => ?_
  cases expected with
  | none => exact h.pure ()
  | some expected => exact h.unifyAt cx expected found hspan

theorem unsettle (h : Agreeing S P) (dest : Access) : P Unit (unsettle cx dest) := by
  refine h.bind (h.openSlot? dest) fun found => ?_
  cases found with
  | none => exact h.giveUp
  | some slot => exact h.spoil slot

theorem unifyOperands (h : Agreeing S P) (params : List Ty)
    (hargs : ∀ arg ∈ args, S arg.span) : P Unit (unifyOperands cx params args) := by
  induction params generalizing args with
  | nil => exact h.pure ()
  | cons param params ih =>
    cases args with
    | nil => exact h.pure ()
    | cons arg args =>
      rw [forall_mem_cons] at hargs
      exact h.bind (h.unifyAt cx param arg.type hargs.1) fun _ => ih hargs.2

theorem callType (h : Agreeing S P) (callee : Ty) (hargs : ∀ arg ∈ args, S arg.span)
    {calleeSpan : Location} (hcallee : S calleeSpan) (hspan : S span) :
    P Ty (callType cx callee args calleeSpan span) := by
  refine h.bind (h.shallow callee) fun type => ?_
  cases type with
  | funct params returns =>
    refine Aside.ite _ (h.bind (h.fail _ _ hspan nofun) fun _ => ?_) ?_ <;>
      exact h.bind (h.unifyOperands params hargs) fun _ => h.pure _
  | functAny returns => exact h.pure returns
  | slot slot =>
    refine h.bind (h.newSlot hspan) fun result => ?_
    exact h.bind (h.engine (.addRule hspan)) fun _ => h.pure _
  | error => exact h.giveUp
  | _ => exact h.bind (h.typeName _) fun _ => h.fail _ _ hcallee nofun

end Agreeing

namespace Direct

variable {dest : Access} {span : Location}

section

variable (h : Direct S D P)
include h

theorem moveLiteral (literal : Literal) (type : Ty) (hdest : D dest)
    (hspan : S span) : P Unit (moveLiteral cx literal type dest span) :=
  h.bind (h.push hdest) fun _ => h.assign cx dest type hspan

theorem moveUnit (hdest : D dest) (hspan : S span) : P Unit (moveUnit cx dest span) :=
  h.moveLiteral .unit .unit hdest hspan

theorem copyPlace (place : Place) (hdest : D dest) (hspan : S span) :
    P Unit (copyPlace cx place dest span) := by
  refine Aside.ite _ (h.bind (h.push hdest) fun _ => ?_) ?_ <;> exact h.assign cx dest _ hspan

theorem takeAddress (mutable : Bool) (place : Option Place) (hdest : D dest)
    {operandSpan : Location} (hoperand : S operandSpan) (hspan : S span) :
    P Unit (takeAddress cx mutable place dest operandSpan span) := by
  cases place with
  | none => exact h.fail _ _ hoperand nofun
  | some place =>
    have hpush : ∀ i : Instruction, i.dest = dest → P Unit (do
        push i
        assign cx dest (.pointer mutable place.type) span) :=
      fun i hi => h.bind (h.push (hi ▸ hdest)) fun _ => h.assign cx dest _ hspan
    refine Aside.ite _ (h.bind (h.fail _ _ hoperand nofun) fun _ => ?_) ?_ <;>
      refine Aside.ite _ (h.bind (h.fail _ _ hoperand nofun) fun _ => ?_) ?_ <;>
        split <;> exact hpush _ rfl

/-! ## Values -/

theorem lowerDeclValue {path : Path} (hpath : S path.span) (hdest : D dest)
    (hspan : S span) : P Unit (lowerDeclValue cx path dest span) := by
  refine h.look (fun _ => rfl) fun b => ?_
  refine h.bind (h.orReport fun e he => Table.resolve_arises he hpath) fun decl => ?_
  cases decl.funct? with
  | some id => exact h.bind (h.orFault _) fun f => h.moveLiteral _ _ hdest hspan
  | none => exact h.bind (h.orFault _) fun _ => h.fail _ _ hspan nofun

theorem makeCall (callee : Place) {args : List Operand}
    (hargs : ∀ arg ∈ args, S arg.span) (hdest : D dest) {calleeSpan : Location}
    (hcallee : S calleeSpan) (hspan : S span) :
    P Unit (makeCall cx callee args dest calleeSpan span) := by
  refine h.bind (h.callType _ hargs hcallee hspan) fun returns => ?_
  exact h.bind (h.push hdest) fun _ => h.assign cx dest returns hspan

theorem makeStruct (id : StructId) (f : Fields) (hdest : D dest) (hspan : S span) :
    P Unit (makeStruct cx id f dest span) := by
  refine Aside.ite _ (h.bind (h.fail _ _ hspan nofun) fun _ => ?_) ?_ <;>
    refine Aside.ite _ (h.bind h.giveUp fun _ => ?_) ?_ <;>
      exact h.moveLiteral _ _ hdest hspan

theorem statementUnit {dest : Option Access} (hdest : ∀ a ∈ dest, D a)
    (hspan : S span) : P Unit (statementUnit cx dest span) := by
  cases dest with
  | some dest => exact h.moveUnit (hdest dest rfl) hspan
  | none => exact h.pure ()

end

/-! ## Parts of values -/

variable {value : Access → Lower Unit}

variable (h : Direct S (fun _ => True) P)
include h

theorem settling (dest : Access) (hvalue : ∀ dest, P Unit (value dest)) :
    P Unit (settling cx dest value) := by
  rw [settling_eq]
  exact h.bind (h.recover (hvalue dest)) fun _ => Aside.ite _ (h.pure ()) (h.unsettle dest)

theorem placeOrTemp (hspan : S span) {place : Lower (Option Place)}
    (hplace : P (Option Place) place) (hvalue : ∀ dest, P Unit (value dest)) :
    P Place (placeOrTemp cx span place value) := by
  refine h.bind hplace fun found => ?_
  cases found with
  | some p => exact h.pure p
  | none =>
    refine h.bind (h.newTemp hspan) fun temp => h.bind (h.settling _ hvalue) fun _ => ?_
    exact h.bind (h.registerType temp) fun _ => h.pure _

theorem lowerOperand (hspan : S span) (hvalue : ∀ dest, P Unit (value dest)) :
    P Operand (lowerOperand cx span value) := by
  refine h.bind (h.newTemp hspan) fun temp => h.bind (h.settling _ hvalue) fun _ => ?_
  exact h.bind (h.registerType temp) fun _ => h.pure _

theorem lowerInit (f : Fields) {name : Ident} (hname : S name.span) (hspan : S span)
    (valueSpan : Location) (hvalue : ∀ dest, P Unit (value dest)) :
    P Fields (lowerInit cx f name span valueSpan value) := by
  rw [Lower.lowerInit]
  split
  · exact h.bind (h.complain _ _ hname nofun) fun _ => h.pure _
  · refine Aside.ite _ (h.bind (h.complain _ _ hspan nofun) fun _ => h.pure _) ?_
    refine h.bind (h.newRegister _ _) fun temp => ?_
    exact h.bind (h.recover (h.settling _ hvalue)) fun _ => h.pure _

end Direct

/-! ## Statements -/

namespace Structured

variable {R : Prop} {value : Access → Lower Unit} {span : Location} {step : Lower Unit}

variable (h : Structured S R P)
include h

theorem markAssigned (index : Nat) : P Unit (markAssigned index) :=
  h.change (fun _ => rfl) (fun _ => .refl _) fun _ => rfl

theorem inBlock (hstep : P Unit step) : P Unit (inBlock step) :=
  h.look (fun _ => rfl) fun _ => h.bind hstep fun _ =>
    h.change (fun _ => rfl) (fun _ => .refl _) fun _ => rfl

theorem makeLet {name : Ident} (hname : S name.span) (mutable : Bool)
    {type : Option TypeExpr} (htype : ∀ t ∈ type, (Node.type t).Within S)
    {init : Option (Access → Lower Unit)}
    (hinit : ∀ value, init = some value → ∀ dest, P Unit (value dest)) :
    P Unit (makeLet cx name mutable type init) := by
  refine h.bind (h.letType hname htype) fun type => ?_
  refine h.bind (h.newRegister type _) fun register => ?_
  have hrest : ∀ done, P Unit (do
      modify fun b => { b with
        draft := b.draft.bind name.text register mutable
        locals := b.locals ++ [⟨name.text, register, mutable,
          if init.isSome then .assigned else .unassigned, b.loopDepth⟩] }
      if !done then giveUp) :=
    fun done => h.bind (h.change (fun _ => rfl)
      (fun _ => ⟨prefix_rfl, rfl, prefix_append _ _⟩) fun _ => rfl) fun _ =>
        Aside.ite _ h.giveUp (h.pure ())
  cases init with
  | none => exact h.bind (h.pure true) hrest
  | some value => exact h.bind (h.recover (h.settling _ (hinit value rfl))) hrest

theorem makeLetStmt (hstep : P Unit step) (dest : Option Access) (hspan : S span) :
    P Unit (makeLetStmt cx step dest span) := by
  refine h.bind (h.recover hstep) fun done => ?_
  refine h.bind (h.statementUnit (fun _ _ => trivial) hspan) fun _ => ?_
  exact Aside.ite _ h.giveUp (h.pure ())

theorem makeExprStmt (hvalue : ∀ dest, P Unit (value dest)) (dest : Option Access)
    (hspan : S span) : P Unit (makeExprStmt cx value dest span) := by
  cases dest with
  | some dest => exact h.settling dest hvalue
  | none => exact h.bind (h.newTemp hspan) fun temp => h.settling _ hvalue

/-! ## Expressions -/

mutual

theorem lowerExpr :
    ∀ e : Expr, (Node.expr e).Fits S R → ∀ dest : Access, P Unit (lowerExpr cx e dest)
  | .block stmts span, he, dest =>
    h.inBlock (lowerStmts he.within.span stmts (fun _ hs =>
      he.child (mem_map_of_mem hs)) dest)
  | .int value span, he, dest => h.moveLiteral _ _ trivial he.within.span
  | .bool value span, he, dest => h.moveLiteral _ _ trivial he.within.span
  | .tuple elements span, he, dest =>
    h.bind (lowerOperands elements fun _ hx => he.child (mem_map_of_mem hx)) fun _ =>
      h.moveLiteral _ _ trivial he.within.span
  | .structLit path inits span, he, dest => by
    have hpath : S path.span := he.within.path mem_cons_self
    refine h.look (fun _ => rfl) fun b => ?_
    refine h.bind (h.orReport fun e he => Table.resolveType_arises he hpath) fun id => ?_
    refine h.bind (h.orFault _) fun fields => h.bind (h.orFault _) fun name => ?_
    refine h.bind (lowerInits inits (fun _ hi => he.child (mem_map_of_mem hi)) _) fun written => ?_
    exact h.makeStruct id written trivial he.within.span
  | .name path span, he, dest => by
    refine h.bind (h.namedPlace path .read he.within.span) fun found => ?_
    cases found with
    | some place => exact h.copyPlace place trivial he.within.span
    | none => exact h.lowerDeclValue (he.within.path mem_cons_self) trivial he.within.span
  | .field base field span, he, dest => by
    have hbase := he.child mem_cons_self
    refine h.bind (h.placeOrTemp hbase.within.span (lowerPlace base hbase .read)
      (lowerExpr base hbase)) fun record => ?_
    exact h.bind (h.fieldPlace record hbase.within.span (he.within.name mem_cons_self))
      fun place => h.copyPlace place trivial he.within.span
  | .addressOf mutable operand span, he, dest => by
    have hoperand := he.child mem_cons_self
    exact h.bind (lowerPlace operand hoperand .address) fun place =>
      h.takeAddress mutable place trivial hoperand.within.span he.within.span
  | .deref operand span, he, dest => by
    have hoperand := he.child mem_cons_self
    refine h.bind (h.placeOrTemp hoperand.within.span (lowerPlace operand hoperand .read)
      (lowerExpr operand hoperand)) fun pointer => ?_
    exact h.bind (h.targetPlace pointer hoperand.within.span) fun place =>
      h.copyPlace place trivial he.within.span
  | .call callee args span, he, dest => by
    have hcallee := he.child mem_cons_self
    have hargs : ∀ e ∈ args, (Node.expr e).Fits S R :=
      fun _ ha => he.child (mem_cons_of_mem _ (mem_map_of_mem ha))
    refine h.bind (h.placeOrTemp hcallee.within.span (lowerPlace callee hcallee .read)
      (lowerExpr callee hcallee)) fun place => ?_
    refine h.chain (lowerOperands args hargs) fun operands hoperands => ?_
    refine h.makeCall place (fun o ho => ?_) trivial hcallee.within.span he.within.span
    obtain ⟨e, hmem, hspan⟩ := hoperands.span ho
    exact hspan ▸ (hargs e hmem).within.span
  | .ifElse condition thenBranch none span, he, dest => by
    have hcondition := he.child mem_cons_self
    have hthen := he.child (mem_cons_of_mem _ mem_cons_self)
    refine h.bind (h.conditionRegister condition.span) fun test => ?_
    refine h.bind (h.settling test (lowerExpr condition hcondition)) fun _ => ?_
    exact h.makeWhen cx test hthen.within.span (lowerExpr thenBranch hthen) dest he.within.span
  | .ifElse condition thenBranch (some elseBranch) _, he, dest => by
    have hcondition := he.child mem_cons_self
    have hthen := he.child (mem_cons_of_mem _ mem_cons_self)
    have helse := he.child (mem_cons_of_mem _ (mem_cons_of_mem _ mem_cons_self))
    refine h.bind (h.conditionRegister condition.span) fun test => ?_
    refine h.bind (h.settling test (lowerExpr condition hcondition)) fun _ => ?_
    exact h.makeIfElse cx test (lowerExpr thenBranch hthen) (lowerExpr elseBranch helse) dest
  | .loop condition body span, he, dest => by
    have hcondition := he.child mem_cons_self
    have hbody := he.child (mem_cons_of_mem _ mem_cons_self)
    exact h.makeLoop cx condition.span hbody.within.span (lowerExpr condition hcondition)
      (lowerExpr body hbody) dest he.within.span
  | .assign target value span, he, dest => by
    have htarget := he.child mem_cons_self
    have hvalue := he.child (mem_cons_of_mem _ mem_cons_self)
    refine h.bind (lowerPlace target htarget .assign) fun place => ?_
    refine h.bind (h.assignedPlace place htarget.within.span) fun place => ?_
    refine h.bind (h.settling place.access (lowerExpr value hvalue)) fun _ => ?_
    cases place.localIndex with
    | some index =>
      exact h.bind (h.markAssigned index) fun _ => h.moveUnit trivial he.within.span
    | none => exact h.moveUnit trivial he.within.span
  | .ret (some value) _, he, dest => by
    have hvalue := he.child mem_cons_self
    refine h.bind (h.returnTarget value.span) fun target => ?_
    exact h.bind (h.settling target (lowerExpr value hvalue)) fun _ =>
      h.leave he.leaves cx dest
  | .ret none span, he, dest =>
    h.bind (h.checkBareReturn he.within.span) fun _ => h.leave he.leaves cx dest

theorem lowerPlace :
    ∀ e : Expr, (Node.expr e).Fits S R →
      ∀ purpose : Purpose, P (Option Place) (lowerPlace cx e purpose)
  | .name path span, he, purpose => h.namedPlace path purpose he.within.span
  | .field base field _, he, _ => by
    have hbase := he.child mem_cons_self
    refine h.bind (h.placeOrTemp hbase.within.span (lowerPlace base hbase .read)
      (lowerExpr base hbase)) fun record => ?_
    exact h.bind (h.fieldPlace record hbase.within.span (he.within.name mem_cons_self))
      fun _ => h.pure _
  | .deref operand _, he, _ => by
    have hoperand := he.child mem_cons_self
    refine h.bind (h.placeOrTemp hoperand.within.span (lowerPlace operand hoperand .read)
      (lowerExpr operand hoperand)) fun pointer => ?_
    exact h.bind (h.targetPlace pointer hoperand.within.span) fun _ => h.pure _
  | .block _ _, _, _ | .int _ _, _, _ | .bool _ _, _, _ | .tuple _ _, _, _
  | .structLit _ _ _, _, _ | .addressOf _ _ _, _, _ | .call _ _ _, _, _ | .ifElse _ _ _ _, _, _
  | .loop _ _ _, _, _ | .assign _ _ _, _, _ | .ret _ _, _, _ => h.pure none

theorem lowerOperands :
    ∀ es : List Expr, (∀ e ∈ es, (Node.expr e).Fits S R) → P (List Operand) (lowerOperands cx es)
  | [], _ => h.pure []
  | e :: rest, hes => by
    rw [forall_mem_cons] at hes
    refine h.bind (h.lowerOperand hes.1.within.span (lowerExpr e hes.1)) fun _ => ?_
    exact h.bind (lowerOperands rest hes.2) fun _ => h.pure _

theorem lowerInits :
    ∀ inits : List FieldInit, (∀ i ∈ inits, (Node.init i).Fits S R) →
      ∀ f : Fields, P Fields (lowerInits cx inits f)
  | [], _, f => h.pure f
  | ⟨name, value, span⟩ :: rest, hinits, f => by
    rw [forall_mem_cons] at hinits
    have hvalue := hinits.1.child mem_cons_self
    refine h.bind (h.lowerInit f (hinits.1.within.name mem_cons_self)
      hinits.1.within.span value.span (lowerExpr value hvalue)) fun f => ?_
    exact lowerInits rest hinits.2 f

theorem lowerStmt :
    ∀ stmt : Stmt, (Node.stmt stmt).Fits S R →
      ∀ dest : Option Access, P Unit (lowerStmt cx stmt dest)
  | .expr e _, hs, dest => by
    have he := hs.child mem_cons_self
    exact h.makeExprStmt (lowerExpr e he) dest he.within.span
  | .binding name mutable type none span, hs, dest =>
    h.makeLetStmt (h.makeLet (hs.within.name mem_cons_self) mutable hs.within.annotation
      fun _ hnone => by cases hnone) dest hs.within.span
  | .binding name mutable type (some init) span, hs, dest => by
    have hinit : (Node.expr init).Fits S R :=
      hs.child (mem_append_right _ mem_cons_self)
    refine h.makeLetStmt (h.makeLet (hs.within.name mem_cons_self) mutable
      hs.within.annotation fun value hvalue => ?_) dest hs.within.span
    cases hvalue
    exact lowerExpr init hinit
  | .use path span, hs, dest =>
    h.bind (h.change (fun _ => rfl) (fun _ => .refl _) fun _ => rfl) fun _ =>
      h.statementUnit (fun _ _ => trivial) hs.within.span

theorem lowerStmts {span : Location} (hspan : S span) :
    ∀ stmts : List Stmt, (∀ s ∈ stmts, (Node.stmt s).Fits S R) →
      ∀ dest : Access, P Unit (lowerStmts cx span stmts dest)
  | [], _, _ => h.moveUnit trivial hspan
  | [stmt], hstmts, dest =>
    h.attempt (lowerStmt stmt (hstmts stmt mem_cons_self) (some dest))
  | stmt :: next :: rest, hstmts, dest =>
    h.bind (h.attempt (lowerStmt stmt (hstmts stmt mem_cons_self) none)) fun _ =>
      lowerStmts hspan (next :: rest) (fun s hs => hstmts s (mem_cons_of_mem _ hs)) dest

end

end Structured

/-! ## Invariants -/

namespace Invariant

variable {value : Access → Lower Unit} {span : Location}

variable (h : Invariant S P)
include h

theorem newSegment : P SegmentId newSegment :=
  h.onDraft (h.change (fun _ => rfl) fun _ => ⟨⟨prefix_rfl, rfl, prefix_rfl⟩, .add _⟩)

theorem switchTo (s : SegmentId) : P Unit (switchTo s) :=
  h.onDraft (h.change (fun _ => rfl) fun _ => ⟨⟨prefix_rfl, rfl, prefix_rfl⟩, .refl _⟩)

theorem joinAssignments (other : List Assigned) : P Unit (joinAssignments other) :=
  h.change (fun _ => rfl) fun _ => .refl _

theorem restoreAssignments (before : List Assigned) : P Unit (restoreAssignments before) :=
  h.change (fun _ => rfl) fun _ => .refl _

theorem inLoop {step : Lower Unit} (hstep : P Unit step) : P Unit (inLoop step) :=
  h.bind (h.change (fun _ => rfl) fun _ => .refl _) fun _ =>
    h.bind (h.attempt hstep) fun _ => h.change (fun _ => rfl) fun _ => .refl _

theorem makeWhen (cx : Context) (condition : Access) {thenSpan : Location} (hthen : S thenSpan)
    (hvalue : ∀ dest, P Unit (value dest)) (dest : Access) (hspan : S span) :
    P Unit (makeWhen cx condition thenSpan value dest span) := by
  refine h.bind h.newSegment fun branch => h.bind h.assignments fun before => ?_
  refine h.bind h.newSegment fun join => h.bind (h.terminate _) fun _ => ?_
  refine h.bind (h.switchTo branch) fun _ => h.bind (h.newTemp hthen) fun temp => ?_
  refine h.bind (h.attempt (h.settling _ hvalue)) fun _ => h.bind (h.terminate _) fun _ => ?_
  refine h.bind (h.switchTo join) fun _ => h.bind (h.joinAssignments before) fun _ => ?_
  exact h.moveUnit trivial hspan

theorem joinBoth (thenEnd : SegmentId) (afterThen : List Assigned) : P Unit (do
    let elseEnd ← Lower.currentSegment
    Lower.joinAssignments afterThen
    let join ← Lower.newSegment
    Lower.switchTo thenEnd
    Lower.terminate (.goto join)
    Lower.switchTo elseEnd
    Lower.terminate (.goto join)
    Lower.switchTo join) := by
  refine h.bind h.currentSegment fun elseEnd => h.bind (h.joinAssignments afterThen) fun _ => ?_
  refine h.bind h.newSegment fun join => h.bind (h.switchTo thenEnd) fun _ => ?_
  refine h.bind (h.terminate _) fun _ => h.bind (h.switchTo elseEnd) fun _ => ?_
  exact h.bind (h.terminate _) fun _ => h.switchTo join

theorem makeIfElse (cx : Context) (condition : Access) {other : Access → Lower Unit}
    (hvalue : ∀ dest, P Unit (value dest)) (hother : ∀ dest, P Unit (other dest)) (dest : Access) :
    P Unit (makeIfElse cx condition value other dest) := by
  refine h.bind h.newSegment fun thenStart => h.bind h.assignments fun before => ?_
  refine h.bind h.newSegment fun elseStart => h.bind (h.terminate _) fun _ => ?_
  refine h.bind (h.switchTo thenStart) fun _ => ?_
  refine h.bind (h.attempt (h.settling dest hvalue)) fun _ => ?_
  refine h.bind h.currentSegment fun thenEnd => h.bind h.assignments fun afterThen => ?_
  refine h.bind (h.restoreAssignments before) fun _ => h.bind (h.switchTo elseStart) fun _ => ?_
  exact h.bind (h.attempt (h.settling dest hother)) fun _ => h.joinBoth thenEnd afterThen

theorem endLoop (head after : SegmentId) (before : List Assigned) {dest : Access}
    (hspan : S span) : P Unit (do
    Lower.terminate (.goto head)
    Lower.joinAssignments before
    Lower.switchTo after
    moveUnit cx dest span) := by
  refine h.bind (h.terminate _) fun _ => h.bind (h.joinAssignments before) fun _ => ?_
  exact h.bind (h.switchTo after) fun _ => h.moveUnit trivial hspan

theorem makeLoop (cx : Context) (conditionSpan : Location) {bodySpan : Location}
    (hbodySpan : S bodySpan) {body : Access → Lower Unit} (hvalue : ∀ dest, P Unit (value dest))
    (hbody : ∀ dest, P Unit (body dest)) (dest : Access) (hspan : S span) :
    P Unit (makeLoop cx conditionSpan bodySpan value body dest span) := by
  refine h.bind h.newSegment fun head => h.bind (h.terminate _) fun _ => ?_
  refine h.bind (h.switchTo head) fun _ => h.bind (h.conditionRegister conditionSpan) fun test => ?_
  refine h.bind (h.inLoop (h.settling test hvalue)) fun _ => ?_
  refine h.bind h.assignments fun before => h.bind h.newSegment fun start => ?_
  refine h.bind h.newSegment fun after => h.bind (h.terminate _) fun _ => ?_
  refine h.bind (h.switchTo start) fun _ => h.bind (h.newTemp hbodySpan) fun temp => ?_
  exact h.bind (h.inLoop (h.settling _ hbody)) fun _ => h.endLoop head after before hspan

theorem leave (cx : Context) (dest : Access) : P Unit (leave cx dest) := by
  refine h.bind (h.terminate _) fun _ => h.bind h.newSegment fun dead => ?_
  refine h.bind (h.switchTo dead) fun _ => ?_
  refine h.bind (h.change (fun _ => rfl) fun _ => .refl _) fun _ => ?_
  refine h.bind (h.openSlot? dest) fun found => ?_
  cases found with
  | none => exact h.pure ()
  | some slot => exact h.engine (.markDiverging slot)

/-- What the primitive steps have, they have when they are put together. -/
theorem structured : Structured S True P where
  toDirect := h.toDirect
  change hf hgrows hgraph := h.change hf fun b => ⟨hgrows b, hgraph b ▸ .refl _⟩
  makeWhen cx test _ hthen _ hvalue dest _ hspan := h.makeWhen cx test hthen hvalue dest hspan
  makeIfElse cx test _ _ hvalue hother dest := h.makeIfElse cx test hvalue hother dest
  makeLoop cx conditionSpan _ hbodySpan _ _ hvalue hbody dest _ hspan :=
    h.makeLoop cx conditionSpan hbodySpan hvalue hbody dest hspan
  leave _ := h.leave

/-- **What the primitive steps have, lowering a body has.** -/
theorem lowerRoot {body : Expr} (hbody : (Node.expr body).Within S) :
    P Unit (lowerRoot cx body) := by
  refine h.bind (h.attempt (h.settling cx.result
    (h.structured.lowerExpr body hbody.fits))) fun _ => ?_
  refine h.look (fun _ => rfl) fun b => h.bind (h.orFault _) fun done => ?_
  exact Aside.ite _ (h.terminate _) (h.pure ())

end Invariant

end Lower

end Semcheck
