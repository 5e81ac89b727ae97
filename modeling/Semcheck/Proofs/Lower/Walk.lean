/-
  Properties that depend on the body.

  What `Lower.Structured` asks of a property does not depend on the body that a step
  starts with.  Some properties do: they speak of the places that may be written to
  and of the tasks that are still to come.  `Lower.Walk` says what has to be shown of
  such a property, and then lowering has it as a whole.  Each part may use how the
  steps before it ended, which is what `Task.Calls` records.

  The registers that are made on the way may be written to as well, so what is shown
  of the rest of a task is shown for more destinations.
-/
import Semcheck.Proofs.Lower.Closure
import Semcheck.Proofs.Lower.Task

namespace Semcheck

/-- One more register is made. -/
inductive Body.Makes (b : Body) : Body → Prop
  | temp (span : Location) : b.Makes (b.withTemp span)
  | register (type : Ty) (span : Location) : b.Makes (b.withRegister type span)

namespace Lower

/-- A property `P` of steps and the bodies they start with.  At `x`, the steps write to `D x` and
    the tasks satisfy `F x`; `W x y` says that more may be written at `y`.  Where names may be
    introduced, `Q` is what is left of the property. -/
structure Walk (cx : Context) {X : Type} (W : X → X → Prop) (D : X → Access → Prop)
    (F : X → Task → Body → Prop) (P Q : X → Body → {α : Type} → Lower α → Prop) : Prop where
  dest : ∀ {x y a}, W x y → D x a → D y a
  fits : ∀ {x y t b}, W x y → F x t b → F y t b
  call : ∀ {x t b t' c}, F x t b → Task.Calls cx t b t' c → F x t' c
  direct : ∀ x, Direct (fun _ => True) (D x) fun _ s => ∀ b, P x b s
  bind : ∀ {x b} {α β : Type} {s : Lower α} {f : α → Lower β}, P x b s →
    (∀ a c, s.run b = .ok (some a, c) → P x c (f a)) → P x b (s >>= f)
  recover : ∀ {x b} {s : Lower Unit}, P x b s → P x b (recover s)
  allocate : ∀ {x b c} {α β : Type} {s : Lower α} {f : α → Lower β} {a : α},
    s.run b = .ok (some a, c) → b.Makes c →
    (∀ y, W x y → D y (.register b.nextRegister) → P y c (f a)) → P x b (s >>= f)
  when : ∀ {x b dest test span e}, D x dest →
    (b.draft.graph.Open → ∀ y, W x y → D y (.register b.nextRegister) →
      P y ((b.taken test).withTemp e.span) (lowerExpr cx e (.register b.nextRegister))) →
    P x b (makeWhen cx test e.span (lowerExpr cx e) dest span)
  ifElse : ∀ {x b dest test e₁ e₂},
    (b.draft.graph.Open → P x (b.taken test) (lowerExpr cx e₁ dest)) →
    (∀ c, b.draft.graph.Open → (attempt (settling cx dest (lowerExpr cx e₁))).run (b.taken test) =
      .ok (some (), c) → P x (b.otherwise c) (lowerExpr cx e₂ dest)) →
    P x b (makeIfElse cx test (lowerExpr cx e₁) (lowerExpr cx e₂) dest)
  loop : ∀ {x b dest span e₁ e₂}, D x dest → F x (.expr (.loop e₁ e₂ span) dest) b →
    (b.draft.graph.Open → ∀ y, W x y → D y (.register b.nextRegister) →
      P y ((b.atHead e₁.span).atDepth (b.loopDepth + 1))
        (lowerExpr cx e₁ (.register b.nextRegister))) →
    (∀ c : Body, b.draft.graph.Open → c.draft.graph.Open →
      (inLoop (settling cx (.register b.nextRegister) (lowerExpr cx e₁))).run (b.atHead e₁.span) =
        .ok (some (), c) → ∀ y, W x y → D y (.register c.nextRegister) →
      P y (((c.taken (.register b.nextRegister)).withTemp e₂.span).atDepth (c.loopDepth + 1))
        (lowerExpr cx e₂ (.register c.nextRegister))) →
    P x b (lowerExpr cx (.loop e₁ e₂ span) dest)
  assign : ∀ {x b dest span target e}, D x dest → F x (.expr (.assign target e span) dest) b →
    P x b (lowerTarget cx target) →
    (∀ p c, (lowerTarget cx target).run b = .ok (some p, c) → D x p.access →
      P x c (lowerExpr cx e p.access)) →
    P x b (lowerExpr cx (.assign target e span) dest)
  ret : ∀ {x b dest span e}, F x (.expr (.ret (some e) span) dest) b →
    (∀ target c, (returnTarget cx e.span).run b = .ok (some target, c) → ∀ y, W x y →
      D y target → P y c (lowerExpr cx e target)) →
    P x b (lowerExpr cx (.ret (some e) span) dest)
  leave : ∀ {x b dest}, P x b (leave cx dest)
  block : ∀ {x b dest span stmts}, D x dest → Q x b (lowerStmts cx span stmts dest) →
    P x b (lowerExpr cx (.block stmts span) dest)
  wide : ∀ {x b} {α : Type} {s : Lower α}, P x b s → Q x b s
  wideBind : ∀ {x b} {α β : Type} {s : Lower α} {f : α → Lower β}, Q x b s →
    (∀ a c, s.run b = .ok (some a, c) → Q x c (f a)) → Q x b (s >>= f)
  wideRecover : ∀ {x b} {s : Lower Unit}, Q x b s → Q x b (Lower.recover s)
  binding : ∀ {x b name mutable type} (init : Option Expr),
    (∀ e ∈ init, ∀ r c, (declareRegister cx name type).run b = .ok (some r, c) → ∀ y, W x y →
      D y (.register r) → P y c (lowerExpr cx e (.register r))) →
    Q x b (makeLet cx name mutable type (init.map (lowerExpr cx)))
  use : ∀ {x b} (path : Path),
    Q x b (modify fun b => { b with scope := b.scope.extend path.toName } : Lower Unit)

namespace Walk

variable {cx : Context} {X : Type} {W : X → X → Prop} {D : X → Access → Prop}
  {F : X → Task → Body → Prop} {P Q : X → Body → {α : Type} → Lower α → Prop} {x : X} {b : Body}
  {dest : Access} {span : Location} {value : Access → Lower Unit}

/-! ## Parts of expressions -/

variable (h : Walk cx W D F P Q)
include h

theorem pure {α : Type} (a : α) : P x b (pure a : Lower α) :=
  (h.direct x).pure a b

theorem settling (hvalue : P x b (value dest)) : P x b (settling cx dest value) := by
  refine h.bind (h.recover hvalue) fun done c _ => ?_
  cases done with
  | true => exact h.pure ()
  | false => exact (h.direct x).unsettle dest c

theorem attempt {s : Lower Unit} (hs : Q x b s) : Q x b (attempt s) :=
  h.wideBind (h.wideRecover hs) fun _ _ _ => h.wide (h.pure ())

theorem readBack {α : Type} (r : RegisterId) (f : Ty → α) :
    P x b (registerType r >>= fun t => Pure.pure (f t)) :=
  (h.direct x).bind ((h.direct x).registerType r) (fun _ => (h.direct x).pure _) b

theorem resolveFields (path : Path) : P x b (resolveFields cx path) := by
  have hd := h.direct x
  refine hd.look (fun _ => rfl) (fun b => ?_) b
  refine hd.bind (hd.orReport fun e he => Table.resolveType_arises he trivial) fun id => ?_
  exact hd.bind (hd.orFault _) fun fields => hd.bind (hd.orFault _) fun name => hd.pure _

theorem holder {e : Expr} (hplace : ∀ {x b}, F x (.place e .read) b → P x b (lowerPlace cx e .read))
    (hvalue : ∀ {x dest b}, D x dest → F x (.expr e dest) b → P x b (lowerExpr cx e dest))
    (hf : F x (.holder e) b) : P x b (lowerHolder cx e) := by
  refine h.bind (hplace (h.call hf .held)) fun found c hrun => ?_
  cases found with
  | some p => exact h.pure p
  | none =>
    refine h.allocate (newTemp_eq _) (.temp _) fun y hy hr => ?_
    have hf := h.fits hy (h.call hf (.spilled hrun (newTemp_eq _)))
    exact h.bind (h.settling (hvalue hr hf)) fun _ _ _ => h.readBack _ _

theorem lowerOperand (hvalue : ∀ y, W x y → D y (.register b.nextRegister) →
      P y (b.withTemp span) (value (.register b.nextRegister))) :
    P x b (lowerOperand cx span value) :=
  h.allocate (newTemp_eq span) (.temp span) fun y hy hr =>
    h.bind (h.settling (hvalue y hy hr)) fun _ _ _ => h.readBack _ _

theorem lowerInit {f : Fields} {name : Ident} {valueSpan : Location}
    (hvalue : ∀ index field, findField name.text f.fields = some (index, field) →
      (f.values[index]?.bind id).isSome = false → ∀ y, W x y → D y (.register b.nextRegister) →
        P y (b.withRegister field.type valueSpan) (value (.register b.nextRegister))) :
    P x b (lowerInit cx f name span valueSpan value) := by
  have hd := h.direct x
  rw [Lower.lowerInit]
  split
  · exact hd.bind (hd.complain _ _ trivial (by rintro ⟨⟩)) (fun _ => hd.pure _) b
  · rename_i index field hfield
    split
    · exact hd.bind (hd.complain _ _ trivial (by rintro ⟨⟩)) (fun _ => hd.pure _) b
    · rename_i hunwritten
      refine h.allocate rfl (.register field.type valueSpan) fun y hy hr => ?_
      refine h.bind (h.recover (h.settling (hvalue index field hfield ?_ y hy hr))) fun _ _ _ =>
        h.pure _
      simpa using hunwritten

theorem makeLetStmt {s : Lower Unit} {dest : Option Access} (hs : Q x b s)
    (hdest : ∀ a ∈ dest, D x a) : Q x b (makeLetStmt cx s dest span) := by
  refine h.wideBind (h.wideRecover hs) fun done c _ => ?_
  refine h.wideBind (h.wide ((h.direct x).statementUnit hdest trivial c)) fun _ c' _ => ?_
  cases done with
  | true => exact h.wide (h.pure ())
  | false => exact h.wide ((h.direct x).giveUp c')

/-! ## Expressions -/

mutual

theorem lowerExpr : ∀ (e : Expr) {x : X} {dest : Access} {b : Body},
    D x dest → F x (.expr e dest) b → P x b (lowerExpr cx e dest)
  | .block stmts span, _, _, _, hdest, hf =>
    h.block hdest (lowerStmts stmts hdest (h.call hf .block))
  | .int value span, x, _, b, hdest, _ => (h.direct x).moveLiteral _ _ hdest trivial b
  | .bool value span, x, _, b, hdest, _ => (h.direct x).moveLiteral _ _ hdest trivial b
  | .tuple elements span, x, _, _, hdest, hf =>
    h.bind (lowerOperands elements (h.call hf .elements)) fun _ c _ =>
      (h.direct x).moveLiteral _ _ hdest trivial c
  | .structLit path inits span, x, _, _, hdest, hf => by
    rw [lowerExpr_structLit]
    refine h.bind (h.resolveFields path) fun found c hfields => ?_
    exact h.bind (lowerInits inits (h.call hf (.fields hfields))) fun written c' _ =>
      (h.direct x).makeStruct _ written hdest trivial c'
  | .name path span, x, _, b, hdest, _ => by
    have hd := h.direct x
    refine hd.bind (hd.namedPlace path .read trivial) (fun found => ?_) b
    cases found with
    | some place => exact hd.copyPlace place hdest trivial
    | none => exact hd.lowerDeclValue trivial hdest trivial
  | .field base field span, x, _, _, hdest, hf => by
    have hd := h.direct x
    refine h.bind (h.holder (lowerPlace base) (lowerExpr base)
      (h.call (h.call (h.call hf .field) .held) .placeRecord)) fun record c _ => ?_
    exact hd.bind (hd.fieldPlace record trivial trivial)
      (fun place => hd.copyPlace place hdest trivial) c
  | .addressOf mutable operand span, x, _, _, hdest, hf =>
    h.bind (lowerPlace operand (h.call hf .addressed)) fun place c _ =>
      (h.direct x).takeAddress mutable place hdest trivial trivial c
  | .deref operand span, x, _, _, hdest, hf => by
    have hd := h.direct x
    refine h.bind (h.holder (lowerPlace operand) (lowerExpr operand)
      (h.call (h.call (h.call hf .deref) .held) .placePointer)) fun pointer c _ => ?_
    exact hd.bind (hd.targetPlace pointer trivial) (fun place => hd.copyPlace place hdest trivial) c
  | .call callee args span, x, _, _, hdest, hf => by
    refine h.bind (h.holder (lowerPlace callee) (lowerExpr callee) (h.call hf .callee))
      fun place c hcallee => ?_
    exact h.bind (lowerOperands args (h.call hf (.args hcallee))) fun operands c' _ =>
      (h.direct x).makeCall place (fun _ _ => trivial) hdest trivial trivial c'
  | .ifElse condition thenBranch none span, _, _, b, hdest, hf => by
    refine h.allocate (a := .register b.nextRegister) rfl (.register (.struct .bool) condition.span)
      fun y hy hr => ?_
    have hf := h.fits hy hf
    refine h.bind (h.settling (lowerExpr condition hr (h.call hf (.condition rfl))))
      fun _ c hvalue => ?_
    refine h.when (h.dest hy hdest) fun ho z hz hr' => lowerExpr thenBranch hr' (h.fits hz ?_)
    exact h.call hf (.whenBranch (lowerCondition_run rfl hvalue) (branchOn_run ho _) (newTemp_eq _))
  | .ifElse condition thenBranch (some elseBranch) span, _, _, b, hdest, hf => by
    refine h.allocate (a := .register b.nextRegister) rfl (.register (.struct .bool) condition.span)
      fun y hy hr => ?_
    have hf := h.fits hy hf
    refine h.bind (h.settling (lowerExpr condition hr (h.call hf (.condition rfl))))
      fun _ c hvalue => ?_
    have htest := lowerCondition_run rfl hvalue
    refine h.ifElse (fun ho => lowerExpr thenBranch (h.dest hy hdest) ?_)
      fun c' ho hthen => lowerExpr elseBranch (h.dest hy hdest) ?_
    · exact h.call hf (.thenBranch htest (branchOn_run ho _))
    · exact h.call hf (.elseBranch htest (branchOn_run ho _) hthen rfl)
  | .loop condition body span, _, _, _, hdest, hf => by
    refine h.loop hdest hf (fun ho y hy hr => lowerExpr condition hr (h.fits hy ?_))
      fun c ho ho' htest y hy hr => lowerExpr body hr (h.fits hy ?_)
    · exact h.call hf (.loopCondition (startLoop_run ho _))
    · exact h.call hf (.loopBody (startLoop_run ho _) htest (branchOn_run ho' _) (newTemp_eq _))
  | .assign target value span, x, _, _, hdest, hf =>
    h.assign hdest hf (h.bind (lowerPlace target (h.call hf .target)) fun place c _ =>
      (h.direct x).assignedPlace place trivial c) fun p c htarget hp =>
        lowerExpr value hp (h.call hf (.value htarget))
  | .ret (some value) _, _, _, _, _, hf =>
    h.ret hf fun target c htarget y hy ht =>
      lowerExpr value ht (h.fits hy (h.call hf (.returned htarget)))
  | .ret none span, x, _, b, _, _ =>
    h.bind ((h.direct x).checkBareReturn trivial b) fun _ _ _ => h.leave

theorem lowerPlace : ∀ (e : Expr) {x : X} {purpose : Purpose} {b : Body},
    F x (.place e purpose) b → P x b (lowerPlace cx e purpose)
  | .name path span, x, purpose, b, _ => (h.direct x).namedPlace path purpose trivial b
  | .field base field _, x, _, _, hf => by
    have hd := h.direct x
    refine h.bind (h.holder (lowerPlace base) (lowerExpr base) (h.call hf .placeRecord))
      fun record c _ => ?_
    exact hd.bind (hd.fieldPlace record trivial trivial) (fun _ => hd.pure _) c
  | .deref operand _, x, _, _, hf => by
    have hd := h.direct x
    refine h.bind (h.holder (lowerPlace operand) (lowerExpr operand) (h.call hf .placePointer))
      fun pointer c _ => ?_
    exact hd.bind (hd.targetPlace pointer trivial) (fun _ => hd.pure _) c
  | .block _ _, _, _, _, _ | .int _ _, _, _, _, _ | .bool _ _, _, _, _, _ | .tuple _ _, _, _, _, _
  | .structLit _ _ _, _, _, _, _ | .addressOf _ _ _, _, _, _, _ | .call _ _ _, _, _, _, _
  | .ifElse _ _ _ _, _, _, _, _ | .loop _ _ _, _, _, _, _ | .assign _ _ _, _, _, _, _
  | .ret _ _, _, _, _, _ => h.pure none

theorem lowerOperands : ∀ (es : List Expr) {x : X} {b : Body},
    F x (.operands es) b → P x b (lowerOperands cx es)
  | [], _, _, _ => h.pure []
  | e :: rest, _, _, hf => by
    refine h.bind (h.lowerOperand fun y hy hr => lowerExpr e hr
      (h.fits hy (h.call hf (.operand (newTemp_eq _))))) fun first c hfirst => ?_
    exact h.bind (lowerOperands rest (h.call hf (.otherOperands hfirst))) fun _ _ _ => h.pure _

theorem lowerInits : ∀ (inits : List FieldInit) {f : Fields} {x : X}
    {b : Body}, F x (.inits inits f) b → P x b (lowerInits cx inits f)
  | [], f, _, _, _ => h.pure f
  | ⟨_, value, _⟩ :: rest, _, _, _, hf =>
    h.bind (h.lowerInit fun _ _ hfield hunwritten _ hy hr => lowerExpr value hr
      (h.fits hy (h.call hf (.init hfield hunwritten rfl)))) fun _ _ hfirst =>
        lowerInits rest (h.call hf (.otherInits hfirst))

theorem lowerStmt : ∀ (s : Stmt) {dest : Option Access} {x : X} {b : Body},
    (∀ a ∈ dest, D x a) → F x (.stmt s dest) b → Q x b (lowerStmt cx s dest)
  | .expr e _, some dest, _, _, hdest, hf =>
    h.wide (h.settling (lowerExpr e (hdest dest rfl) (h.call hf .result)))
  | .expr e _, none, _, _, _, hf => by
    refine h.wide (h.allocate (newTemp_eq _) (.temp _) fun y hy hr => h.settling ?_)
    exact lowerExpr e hr (h.fits hy (h.call hf (.ignored (newTemp_eq _))))
  | .binding name mutable type none span, _, _, _, hdest, _ =>
    h.makeLetStmt (h.binding none nofun) hdest
  | .binding name mutable type (some init) span, _, _, _, hdest, hf => by
    refine h.makeLetStmt (h.binding (some init) fun e he r c hregister y hy hr => ?_) hdest
    cases he
    exact lowerExpr init hr (h.fits hy (h.call hf (.initializer hregister)))
  | .use path span, _, x, _, hdest, _ =>
    h.wideBind (h.use path) fun _ c _ => h.wide ((h.direct x).statementUnit hdest trivial c)

theorem lowerStmts : ∀ (stmts : List Stmt) {span : Location} {x : X}
    {dest : Access} {b : Body}, D x dest → F x (.stmts span stmts dest) b →
      Q x b (lowerStmts cx span stmts dest)
  | [], _, x, _, b, hdest, _ => h.wide ((h.direct x).moveUnit hdest trivial b)
  | [s], _, _, _, _, hdest, hf =>
    h.attempt (lowerStmt s (fun _ ha => by cases ha; exact hdest) (h.call hf .lastStmt))
  | s :: next :: rest, _, _, _, _, hdest, hf =>
    h.wideBind (h.attempt (lowerStmt s nofun (h.call hf .firstStmt))) fun _ c hfirst =>
      lowerStmts (next :: rest) hdest (h.call hf (.otherStmts hfirst))

end

theorem lowerHolder (e : Expr) (hf : F x (.holder e) b) : P x b (lowerHolder cx e) :=
  h.holder (h.lowerPlace e) (h.lowerExpr e) hf

end Walk

end Lower

end Semcheck
