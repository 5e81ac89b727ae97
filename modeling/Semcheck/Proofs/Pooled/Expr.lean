/-
  Expressions under pooled names and under texts.

  Lowering follows the syntax, and so does the comparison: each expression and each
  statement lowered under pooled names follows the one lowered under texts
  (`lowerExpr_follows`), and with it a whole function (`lowerFunction_follows`).
-/
import Semcheck.Proofs.Lower.Lax
import Semcheck.Proofs.Pooled.Body

namespace Semcheck

open Lower

namespace Pooled

namespace Lower

open Naming

variable {σ π : Type} [DecidableEq σ] [Naming σ π] [LawfulNaming σ π] {p : π} {ρ : Renaming}
  {D : Diagnostic → Diagnostic → Prop} {cx : Context σ} {cx' : Semcheck.Context}

/-! ## Struct values -/

section Follows

variable (hcx : cx.Spells p ρ D cx') (hD : ∀ d, D d d) (hρ : ρ.Faithful)

include hcx hD hρ

theorem structLit_follows (path : Path) (dest : Access) (span : Location)
    {inits : Fields σ → Lower σ π (Fields σ)}
    {inits' : Semcheck.Lower.Fields → Semcheck.Lower Semcheck.Lower.Fields}
    (hinits : ∀ f f', Fields.Spells p ρ f f' →
      Sim (Body.spelling p ρ D) (Fields.Spells p ρ) (inits f) (inits' f')) :
    Follows p ρ D id
      (do
        let id ← lookupStruct cx path
        let fields ← orFault (cx.table.fields id)
        let name ← stepIn cx fun cx => .orFault (cx.table.displayName (.struct id))
        let written ← inits (.unwritten name fields)
        makeStruct cx id written dest span)
      (do
        let scope := (← get).scope
        let id ← Semcheck.Lower.orReport
          (cx'.table.resolveType path.toName path.absolute scope path.span)
        let fields ← Semcheck.Lower.orFault (cx'.table.fields id)
        let name ← Semcheck.Lower.orFault (cx'.table.displayName (.struct id))
        let written ← inits' (.unwritten name fields)
        Semcheck.Lower.makeStruct cx' id written dest span) := by
  dsimp only
  rw [← bind_assoc]
  refine (lookupStruct_follows hcx hD hρ path).andThen fun struct => ?_
  refine .bind (orFault_follows (hcx.table.fields struct)) ?_
  rintro fields _ ⟨hknown, rfl⟩
  have hname : Follows p ρ D id
      (stepIn cx fun cx => .orFault (cx.table.displayName (.struct struct)) : Lower σ π _)
      (.orFault (cx'.table.displayName (.struct (ρ.struct struct)))) :=
    stepIn_follows hcx fun c hc =>
      Sim.mono (Lower.Mirrors.orFault (hc.table.displayName (.struct struct))) fun _ _ h => h.symm
  refine hname.andThen fun name => ?_
  refine .bind (hinits _ _ ⟨hknown, ?_⟩) fun f f' hf =>
    makeStruct_follows hcx hD hρ hf struct dest span
  simp [Fields.spell, Fields.unwritten, Semcheck.Lower.Fields.rename,
    Semcheck.Lower.Fields.unwritten, Function.comp_def]

/-! ## Expressions -/

-- the operands need `hD` for their expressions only
set_option linter.unusedSectionVars false in
mutual

theorem lowerExpr_follows :
    ∀ (e : Expr) (dest : Access), Follows p ρ D id (lowerExpr cx e dest : Lower σ π Unit)
      (.lowerExpr cx' e dest)
  | .block stmts span, dest => inBlock_follows (lowerStmts_follows span stmts dest)
  | .int value span, dest => by
    refine stepIn_follows hcx fun c hc => ?_
    have hmove := moveLiteral_mirrors hc hD hρ (.int value) (.struct .int) dest span
    rwa [Ty.rename_struct, hρ.int] at hmove
  | .bool value span, dest => by
    refine stepIn_follows hcx fun c hc => ?_
    have hmove := moveLiteral_mirrors hc hD hρ (.bool value) (.struct .bool) dest span
    rwa [Ty.rename_struct, hρ.bool] at hmove
  | .tuple elements span, dest =>
    (lowerOperands_follows elements).andThen fun elements =>
      stepIn_follows hcx fun c hc => makeTuple_mirrors hc hD hρ elements dest span
  | .structLit path inits span, dest =>
    structLit_follows hcx hD hρ path dest span (lowerInits_follows inits)
  | .name path span, dest => by
    refine (namedPlace_follows hD path .read span).andThen fun found => ?_
    cases found with
    | some place => exact stepIn_follows hcx fun c hc => copyPlace_mirrors hc hD hρ place dest span
    | none => exact lowerDeclValue_follows hcx hD hρ path dest span
  | .field base field span, dest => by
    refine (placeOrTemp_follows hcx hρ base.span (lowerPlace_follows base .read)
      (lowerExpr_follows base)).andThen fun record => ?_
    refine (fieldPlace_follows hcx hD record base.span field).andThen fun place => ?_
    exact stepIn_follows hcx fun c hc => copyPlace_mirrors hc hD hρ place dest span
  | .addressOf mutable operand span, dest =>
    (lowerPlace_follows operand .address).andThen fun place =>
      stepIn_follows hcx fun c hc =>
        takeAddress_mirrors hc hD hρ mutable place dest operand.span span
  | .deref operand span, dest => by
    refine (placeOrTemp_follows hcx hρ operand.span (lowerPlace_follows operand .read)
      (lowerExpr_follows operand)).andThen fun pointer => ?_
    refine (stepIn_follows hcx fun c hc =>
      targetPlace_mirrors hc hD pointer operand.span).andThen fun place => ?_
    exact stepIn_follows hcx fun c hc => copyPlace_mirrors hc hD hρ place dest span
  | .call callee args span, dest => by
    refine (placeOrTemp_follows hcx hρ callee.span (lowerPlace_follows callee .read)
      (lowerExpr_follows callee)).andThen fun place => ?_
    refine (lowerOperands_follows args).andThen fun args => ?_
    exact stepIn_follows hcx fun c hc =>
      makeCall_mirrors hc hD hρ place args dest callee.span span
  | .ifElse condition thenBranch none span, dest => by
    refine step_then (conditionRegister_mirrors hρ condition.span) fun test => ?_
    refine (settling_follows hcx hρ (lowerExpr_follows condition test)).andThen fun _ => ?_
    exact makeWhen_follows hcx hD hρ test thenBranch.span (lowerExpr_follows thenBranch) dest span
  | .ifElse condition thenBranch (some elseBranch) _, dest => by
    refine step_then (conditionRegister_mirrors hρ condition.span) fun test => ?_
    refine (settling_follows hcx hρ (lowerExpr_follows condition test)).andThen fun _ => ?_
    exact makeIfElse_follows hcx hρ test dest (lowerExpr_follows thenBranch dest)
      (lowerExpr_follows elseBranch dest)
  | .loop condition body span, dest =>
    makeLoop_follows hcx hD hρ condition.span body.span (lowerExpr_follows condition)
      (lowerExpr_follows body) dest span
  | .assign target value span, dest => by
    refine (lowerPlace_follows target .assign).andThen fun place => ?_
    refine step_then (assignedPlace_mirrors hD place target.span) fun place => ?_
    refine (settling_follows hcx hρ (lowerExpr_follows value place.access)).andThen fun _ => ?_
    have hunit : Follows p ρ D id (stepIn cx fun cx => .moveUnit cx dest span : Lower σ π Unit)
        (.moveUnit cx' dest span) :=
      stepIn_follows hcx fun c hc => moveUnit_mirrors hc hD hρ dest span
    have hindex : (place.rename ρ).localIndex = place.localIndex := rfl
    rw [hindex]
    cases place.localIndex with
    | some index =>
      exact step_then (markAssigned_mirrors index) fun _ => hunit
    | none => exact hunit
  | .ret (some value) _, dest => by
    refine (stepIn_follows hcx fun c hc => returnTarget_mirrors hc value.span).andThen
      fun target => ?_
    refine (settling_follows hcx hρ (lowerExpr_follows value target)).andThen fun _ => ?_
    exact stepIn_follows hcx fun c hc => leave_mirrors hc dest
  | .ret none span, dest =>
    (stepIn_follows hcx fun c hc => checkBareReturn_mirrors hc hD span).andThen fun _ =>
      stepIn_follows hcx fun c hc => leave_mirrors hc dest

theorem lowerPlace_follows :
    ∀ (e : Expr) (purpose : Purpose),
      Follows p ρ D (.map (.rename ρ)) (lowerPlace cx e purpose : Lower σ π _)
        (.lowerPlace cx' e purpose)
  | .name path span, purpose => namedPlace_follows hD path purpose span
  | .field base field _, _ => by
    refine (placeOrTemp_follows hcx hρ base.span (lowerPlace_follows base .read)
      (lowerExpr_follows base)).andThen fun record => ?_
    exact (fieldPlace_follows hcx hD record base.span field).andThen fun _ => .pure rfl
  | .deref operand _, _ => by
    refine (placeOrTemp_follows hcx hρ operand.span (lowerPlace_follows operand .read)
      (lowerExpr_follows operand)).andThen fun pointer => ?_
    exact (stepIn_follows hcx fun c hc =>
      targetPlace_mirrors hc hD pointer operand.span).andThen fun _ => .pure rfl
  | .block .., _ | .int .., _ | .bool .., _ | .tuple .., _ | .structLit .., _ | .addressOf .., _
  | .call .., _ | .ifElse .., _ | .loop .., _ | .assign .., _ | .ret .., _ => .pure rfl

theorem lowerOperands_follows : ∀ es : List Expr,
    Follows p ρ D (.map (.rename ρ)) (lowerOperands cx es : Lower σ π _) (.lowerOperands cx' es)
  | [] => .pure rfl
  | e :: rest =>
    (lowerOperand_follows hcx hρ e.span (lowerExpr_follows e)).andThen fun _ =>
      (lowerOperands_follows rest).andThen fun _ => .pure rfl

theorem lowerInits_follows :
    ∀ (inits : List FieldInit) (f : Fields σ) (f' : Semcheck.Lower.Fields),
      Fields.Spells p ρ f f' →
        Sim (Body.spelling p ρ D) (Fields.Spells p ρ) (lowerInits cx inits f : Lower σ π _)
          (Semcheck.Lower.lowerInits cx' inits f')
  | [], _, _, hf => .pure hf
  | ⟨name, value, span⟩ :: rest, _, _, hf =>
    Sim.bind (lowerInit_follows hcx hD hρ hf name span value.span (lowerExpr_follows value))
      fun f f' hf => lowerInits_follows rest f f' hf

theorem lowerStmt_follows :
    ∀ (stmt : Stmt) (dest : Option Access),
      Follows p ρ D id (lowerStmt cx stmt dest : Lower σ π Unit) (.lowerStmt cx' stmt dest)
  | .expr e _, dest => makeExprStmt_follows hcx hρ (lowerExpr_follows e) dest e.span
  | .binding name mutable type none span, dest =>
    makeLetStmt_follows hcx hD hρ (makeLet_follows hcx hD hρ name mutable type .none) dest span
  | .binding name mutable type (some init) span, dest =>
    makeLetStmt_follows hcx hD hρ
      (makeLet_follows hcx hD hρ name mutable type (.some (lowerExpr_follows init)))
      dest span
  | .use path span, dest =>
    (addDirective_follows path).andThen fun _ =>
      stepIn_follows hcx fun _ hc => statementUnit_mirrors hc hD hρ dest span

theorem lowerStmts_follows (span : Location) :
    ∀ (stmts : List Stmt) (dest : Access),
      Follows p ρ D id (lowerStmts cx span stmts dest : Lower σ π Unit)
        (.lowerStmts cx' span stmts dest)
  | [], dest => stepIn_follows hcx fun _ hc => moveUnit_mirrors hc hD hρ dest span
  | [stmt], dest => attempt_follows (lowerStmt_follows stmt (some dest))
  | stmt :: next :: rest, dest =>
    (attempt_follows (lowerStmt_follows stmt none)).andThen fun _ =>
      lowerStmts_follows span (next :: rest) dest

end

/-! ## Functions -/

theorem lowerRoot_follows (body : Expr) :
    Follows p ρ D id (lowerRoot cx body : Lower σ π Unit) (.lowerRoot cx' body) := by
  have hresult : cx'.result = cx.result := hcx.mirrors.result
  rw [Semcheck.Lower.lowerRoot, hresult]
  refine (attempt_follows (settling_follows hcx hρ
    (lowerExpr_follows hcx hD hρ body cx.result))).andThen fun _ => ?_
  rw [← bind_assoc]
  refine step_then isTerminated_mirrors fun done => ?_
  refine .ite Iff.rfl (stepIn_follows hcx fun c hc => ?_) (.pure rfl)
  rw [hc.exit]
  exact terminate_mirrors _

omit [DecidableEq σ] [Naming σ π] [LawfulNaming σ π] hcx hD hρ in
theorem sealFunction_bindings {c : Semcheck.Context} {span : Location} {b b1 : Semcheck.Body}
    {f : Function} (h : (Semcheck.Lower.sealFunction c span).run b = .ok (some f, b1)) :
    f.bindings = b.draft.bindings := by
  obtain ⟨draft, f', hmap, hfinish, hf, -⟩ := Semcheck.Lower.sealFunction_eq_ok.1 h
  cases hf
  obtain ⟨registers, -, hdraft⟩ := bind_eq_ok.1 hmap
  obtain ⟨segments, -, hf⟩ := bind_eq_ok.1 hfinish
  cases hdraft
  cases hf
  rfl

/-- What a function comes to: the names of its bindings are those its body has. -/
def Finishes (p : π) (ρ : Renaming) (D : Diagnostic → Diagnostic → Prop)
    (out : Option Function × Body σ π) (out' : Option Function × Semcheck.Body) : Prop :=
  Option.Rel (fun f f' => f' = f.rename ρ ∧
      f.bindings.map Binding.name = out.2.bindings.map (text out.2.pool)) out.1 out'.1 ∧
    out.2.Spells p ρ D out'.2

theorem lowerFunction_follows (body : Expr) (span : Location) {b : Body σ π}
    {b' : Semcheck.Body} (hb : b.Spells p ρ D b') :
    Alike (fun out out' => Finishes p ρ D out out' ∧ Within b.pool out.2.pool)
      ((lowerFunction cx body span : Lower σ π _).run b)
      ((Semcheck.Lower.lowerFunction cx' body span).run b') := by
  have hclose : Follows p ρ D id (stepIn cx closeTypes : Lower σ π Unit)
      (.closeTypes cx') :=
    stepIn_follows hcx fun _ hc => closeTypes_mirrors hc hD hρ
  refine (lowerRoot_follows hcx hD hρ body b b' hb).bindTo
    (fun _ _ hrel hkeeps => ⟨⟨.none, hrel⟩, hkeeps⟩) fun _ _ b1 b1' _ hb1 hkeeps1 => ?_
  refine (hclose b1 b1' hb1).bindTo
    (fun _ _ hrel hkeeps => ⟨⟨.none, hrel⟩, hkeeps1.trans hkeeps⟩) fun _ _ b2 b2' _ hb2 hkeeps2 => ?_
  have hseal : Follows p ρ D (.rename ρ)
      (stepIn cx fun cx => .sealFunction cx span : Lower σ π _)
      (.sealFunction cx' span) :=
    stepIn_follows hcx fun _ hc => sealFunction_mirrors hc span
  refine (hseal b2 b2' hb2).keep.mono ?_
  rintro ⟨f, b3⟩ ⟨f', b3'⟩ ⟨⟨hvalue, hrel, hkeeps⟩, hrun⟩
  obtain ⟨⟨a, rest⟩, hstep, hout⟩ := bind_eq_ok.1
    (show (Semcheck.Lower.sealFunction (cx.spell b2.pool) span).run b2.spell >>= _ = _ from hrun)
  cases hout
  refine ⟨⟨?_, hrel⟩, hkeeps1.trans (hkeeps2.trans hkeeps)⟩
  cases hvalue with
  | none => exact .none
  | some heq =>
    have hnames := Body.names_spell hb2.localCount hb2.bindingCount
    refine .some ⟨heq, ?_⟩
    rw [sealFunction_bindings hstep]
    exact congrArg (fun names => names.2.1) hnames

end Follows

end Lower

end Pooled

end Semcheck
