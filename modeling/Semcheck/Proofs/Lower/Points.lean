/-
  What the paths to a point have written.

  A body has a current point, the end of its current segment.  The point is dead if
  no path from the entry leads to it (`Body.Dead`).  A register has a value there on
  every path (`Body.Always`), on some path (`Body.Sometimes`), or on none.

  Lowering an expression into a register gives the register a value on every path, if
  no step gave up (`lowerExpr_delivers`).  This is said of expressions without loops.
-/
import Semcheck.Proofs.Ir.Paths
import Semcheck.Proofs.Lower.Address

namespace Semcheck

open Lower Semcheck.Graph List

/-! ## Points -/

namespace Body

/-- No path leads to the current point. -/
def Dead (b : Body) : Prop :=
  ∀ h, ¬ b.draft.graph.Leads h

/-- Every path to the current point gives the register a value. -/
def Always (b : Body) (r : RegisterId) : Prop :=
  ∀ h, b.draft.graph.Leads h → b.Defined h r

/-- Some path to the current point gives the register a value. -/
def Sometimes (b : Body) (r : RegisterId) : Prop :=
  ∃ h, b.draft.graph.Leads h ∧ b.Defined h r

/-- The current segment is open, and the targets of all jumps exist. -/
structure Wired (b : Body) : Prop where
  opened : b.draft.graph.Open
  linked : b.draft.graph.All fun _ => True

/-- Registers have a value at the point of the second body where they have one at the point of the
    first. -/
structure Alike (r : RegisterId) (b b' : Body) : Prop where
  always : b'.Always r ↔ b.Always r
  sometimes : b'.Sometimes r ↔ b.Sometimes r

/-- The paths to the point of the third body are those to the points of the others. -/
structure Joins (b₁ b₂ b' : Body) : Prop where
  params₁ : b'.draft.paramCount = b₁.draft.paramCount
  params₂ : b'.draft.paramCount = b₂.draft.paramCount
  leads : ∀ h, b'.draft.graph.Leads h ↔ b₁.draft.graph.Leads h ∨ b₂.draft.graph.Leads h

variable {D : Access → Prop} {cx : Context} {b b₁ b₂ b' : Body} {r : RegisterId} {h : History}
  {test : Access} {i : Instruction}

theorem Dead.always (hd : b.Dead) (r : RegisterId) : b.Always r :=
  fun h hh => (hd h hh).elim

theorem Dead.not_sometimes (hd : b.Dead) : ¬ b.Sometimes r :=
  fun ⟨h, hh, _⟩ => hd h hh

/-- A register that always has a value sometimes has one, unless the point is dead. -/
theorem Always.sometimes_or_dead (ha : b.Always r) : b.Sometimes r ∨ b.Dead := by
  by_cases hd : b.Dead
  · exact .inr hd
  · obtain ⟨h, hh⟩ := not_forall_not.1 hd
    exact .inl ⟨h, hh, ha h hh⟩

theorem defined_congr (hp : b'.draft.paramCount = b.draft.paramCount) :
    b'.Defined h r ↔ b.Defined h r := by
  rw [Defined, Defined, hp]

/-! ### Code that is added -/

theorem Ready.wired (hb : b.Ready cx) : b.Wired :=
  ⟨hb.intact.opened, hb.linked⟩

theorem Emits.wired (h : b.Emits D b') (hw : b.Wired) : b'.Wired := by
  obtain ⟨sh, hcode, -⟩ := h
  exact ⟨hcode ▸ (sh.frame hw.opened).opened,
    hcode ▸ Shape.build_all hw.opened hw.linked sh.all_true⟩

theorem Wired.branch (hw : b.Wired) (test : Access) : (b.taken test).Wired :=
  ⟨hw.opened.branch test, hw.linked.branch trivial⟩

theorem Wired.goElse (hw : b.Wired) (h : (b.taken test).Stays D b₁) : (b.otherwise b₁).Wired := by
  have hopen := hw.opened.goElse (h.code.frame (hw.opened.branch test))
  exact ⟨hopen, (h.code.wired (hw.branch test)).linked⟩

/-- Behind a dead point everything is dead. -/
theorem Emits.dead (h : b.Emits D b') (hw : b.Wired) (hd : b.Dead) : b'.Dead := by
  obtain ⟨sh, hcode, -⟩ := h
  rw [Dead, hcode]
  rintro h hleads
  obtain ⟨past, hpast, -⟩ := (leads_build hw.opened hw.linked sh).1 hleads
  exact hd past hpast

/-- A register that was not made has no value. -/
theorem Ready.unwritten (hb : b.Ready cx) (hr : b.draft.registers.length ≤ r.index)
    (hh : b.draft.graph.Leads h) : ¬ b.Defined h r := by
  rintro (hparam | hwrites)
  · have := hb.intact.params
    omega
  · obtain ⟨i, hi, hw⟩ := countP_pos_iff.1 hwrites
    exact (hh.all hb.written i hi i rfl).ne_register hr (of_decide_eq_true hw)

theorem Wired.always_push (hw : b.Wired) (hi : i.dest = .register r)
    (hcode : b'.draft.graph = b.draft.graph.push i) : b'.Always r := by
  intro h hh
  obtain ⟨past, -, rfl⟩ := (leads_push hw.opened hw.linked i).1 (hcode ▸ hh)
  refine .inr ?_
  rw [History.writes_snoc, if_pos (show i.Writes r from hi)]
  omega

theorem Wired.dead_left (hw : b.Wired) (result : Access) : (b.left result).Dead :=
  fun _ => not_leads_exit hw.opened hw.linked result

/-! ### Points with the same paths -/

theorem Alike.of_leads (hp : b'.draft.paramCount = b.draft.paramCount)
    (hl : ∀ h, b'.draft.graph.Leads h ↔ b.draft.graph.Leads h) : Alike r b b' := by
  constructor
  · exact forall_congr' fun h => imp_congr (hl h) (defined_congr hp)
  · exact exists_congr fun h => and_congr (hl h) (defined_congr hp)

theorem Wired.alike_push (hw : b.Wired) (hi : i.dest ≠ .register r) :
    Alike r b (b.withGraph (b.draft.graph.push i)) := by
  have hdefined : ∀ past, (b.withGraph (b.draft.graph.push i)).Defined (past ++ [i]) r ↔
      b.Defined past r := by
    intro past
    rw [Defined, Defined, History.writes_snoc, if_neg (show ¬ i.Writes r from hi)]
    exact .rfl
  constructor
  · constructor
    · intro ha past hpast
      exact (hdefined past).1 (ha _ ((leads_push hw.opened hw.linked i).2 ⟨past, hpast, rfl⟩))
    · intro ha h hh
      obtain ⟨past, hpast, rfl⟩ := (leads_push hw.opened hw.linked i).1 hh
      exact (hdefined past).2 (ha past hpast)
  · constructor
    · rintro ⟨h, hh, hdef⟩
      obtain ⟨past, hpast, rfl⟩ := (leads_push hw.opened hw.linked i).1 hh
      exact ⟨past, hpast, (hdefined past).1 hdef⟩
    · rintro ⟨past, hpast, hdef⟩
      exact ⟨_, (leads_push hw.opened hw.linked i).2 ⟨past, hpast, rfl⟩, (hdefined past).2 hdef⟩

theorem Wired.alike_branch (hw : b.Wired) (test : Access) : Alike r b (b.taken test) :=
  .of_leads rfl fun _ => leads_branch hw.opened hw.linked test

/-- The second branch starts with the paths that the first started with. -/
theorem Wired.leads_else (hw : b.Wired) (hb : (b.taken test).Stays D b₁) :
    (b.otherwise b₁).draft.graph.Leads h ↔ b.draft.graph.Leads h := by
  obtain ⟨sh, hcode, -⟩ := hb.code
  rw [otherwise, withGraph, show b₁.draft.graph = sh.build (b.draft.graph.branch test) from hcode]
  exact Graph.leads_else hw.opened hw.linked test sh

theorem Wired.alike_else (hw : b.Wired) (hb : (b.taken test).Stays D b₁) :
    Alike r b (b.otherwise b₁) :=
  .of_leads hb.draft.paramCount fun _ => hw.leads_else hb

/-! ### Points where paths meet -/

theorem Joins.always (hj : Joins b₁ b₂ b') : b'.Always r ↔ b₁.Always r ∧ b₂.Always r := by
  constructor
  · intro ha
    exact ⟨fun h hh => (defined_congr hj.params₁).1 (ha h ((hj.leads h).2 (.inl hh))),
      fun h hh => (defined_congr hj.params₂).1 (ha h ((hj.leads h).2 (.inr hh)))⟩
  · rintro ⟨ha1, ha2⟩ h hh
    rcases (hj.leads h).1 hh with hh | hh
    · exact (defined_congr hj.params₁).2 (ha1 h hh)
    · exact (defined_congr hj.params₂).2 (ha2 h hh)

theorem Joins.sometimes (hj : Joins b₁ b₂ b') :
    b'.Sometimes r ↔ b₁.Sometimes r ∨ b₂.Sometimes r := by
  constructor
  · rintro ⟨h, hh, hdef⟩
    rcases (hj.leads h).1 hh with hh | hh
    · exact .inl ⟨h, hh, (defined_congr hj.params₁).1 hdef⟩
    · exact .inr ⟨h, hh, (defined_congr hj.params₂).1 hdef⟩
  · rintro (⟨h, hh, hdef⟩ | ⟨h, hh, hdef⟩)
    · exact ⟨h, (hj.leads h).2 (.inl hh), (defined_congr hj.params₁).2 hdef⟩
    · exact ⟨h, (hj.leads h).2 (.inr hh), (defined_congr hj.params₂).2 hdef⟩

theorem Wired.joins_when (hw : b.Wired) (h : (b.taken test).Stays D b₁) :
    Joins b b₁ (b.behindWhen b₁) := by
  obtain ⟨sh, hcode, -⟩ := h.code
  refine ⟨h.draft.paramCount, rfl, fun _ => ?_⟩
  rw [behindWhen, withGraph, show b₁.draft.graph = sh.build (b.draft.graph.branch test) from hcode]
  exact leads_when hw.opened hw.linked test sh

theorem Wired.joins_ifElse (hw : b.Wired) (h1 : (b.taken test).Stays D b₁)
    (h2 : (b.otherwise b₁).Stays D b₂) : Joins b₁ b₂ (b₁.behindBoth b₂) := by
  obtain ⟨sh1, hcode1, -⟩ := h1.code
  obtain ⟨sh2, hcode2, -⟩ := h2.code
  refine ⟨h2.draft.paramCount, rfl, fun _ => ?_⟩
  rw [behindBoth, withGraph, show b₂.draft.graph = sh2.build _ from hcode2, otherwise, withGraph,
    show b₁.draft.graph = sh1.build (b.draft.graph.branch test) from hcode1]
  exact leads_ifElse hw.opened hw.linked test sh1 sh2

end Body

/-! ## Trees without loops -/

namespace Node

def LoopFree (n : Node) : Prop :=
  ∀ m ∈ n.preorder, ∀ condition body span, m ≠ .expr (.loop condition body span)

theorem LoopFree.child {n c : Node} (h : n.LoopFree) (hc : c ∈ n.children) : c.LoopFree := by
  intro m hm
  refine h m ?_
  rw [preorder_eq]
  exact mem_cons_of_mem _ (mem_walk.2 ⟨c, hc, hm⟩)

theorem not_loopFree_loop {condition body : Expr} {span : Location} :
    ¬ (expr (.loop condition body span)).LoopFree := by
  intro h
  refine h _ ?_ condition body span rfl
  rw [preorder_eq]
  exact mem_cons_self

end Node

/-! ## Values that reach their destination -/

namespace Lower

variable {α β : Type} {cx : Context} {b b' : Body} {dest : Access} {r : RegisterId}
  {o : Option Unit} {value : Access → Lower Unit}

theorem settling_ok {a : Unit} (hrun : (settling cx dest value).run b = .ok (some a, b')) :
    (value dest).run b = .ok (some (), b') := by
  obtain ⟨done, b₁, hrecover, hrun⟩ := bind_ok hrun
  rcases recover_eq_ok.1 hrecover with ⟨hvalue, ⟨⟩⟩ | ⟨b₂, -, ⟨⟩, rfl⟩
  · cases hrun
    exact hvalue
  · obtain ⟨found, b3, -, hrun⟩ := bind_ok
      (show (openSlot? cx dest >>= fun _ => _).run _ = _ from hrun)
    cases found with
    | none => cases hrun
    | some slot =>
      obtain ⟨_, b4, -, hrun⟩ := bind_ok hrun
      cases hrun

/-- What is attempted goes through, if it is not remembered that a step gave up. -/
theorem attempt_ok {step : Lower Unit} (hrun : (attempt step).run b = .ok (o, b'))
    (hwhole : b'.gaveUp = false) : step.run b = .ok (some (), b') := by
  obtain ⟨-, hstep | ⟨b₁, -, rfl⟩⟩ := attempt_eq_ok.1 hrun
  · exact hstep
  · cases hwhole

theorem diverge_beside : Beside (diverge cx dest) := by
  refine agreeing_beside.bind (agreeing_beside.openSlot? dest) fun found => ?_
  cases found with
  | none => exact agreeing_beside.pure ()
  | some slot => exact onEngine_beside _

theorem leave_dead (hw : b.Wired) (hrun : (leave cx dest).run b = .ok (o, b')) : b'.Dead := by
  rw [leave_run hw.opened] at hrun
  rw [Body.Dead, draft_eq_of_bare (diverge_beside hrun)]
  exact hw.dead_left cx.result

/-! ## The ends of branches -/

/-- Whatever its destination, lowering the value only adds to a body. -/
structure Orderly (value : Access → Lower Unit) : Prop where
  keeps : ∀ dest b, Keeps (fun _ => True) b (value dest)
  adding : ∀ dest, Adding (value dest)

theorem lowerExpr_orderly (cx : Context) (e : Expr) : Orderly (lowerExpr cx e) :=
  ⟨fun _ _ => walk_keeps.lowerExpr e trivial Task.confined_true, lowerExpr_adding e⟩

theorem Orderly.attempted (hvalue : Orderly value)
    (hrun : (attempt (settling cx dest value)).run b = .ok (o, b')) (ho : b.draft.graph.Open) :
    b.Stays (fun _ => True) b' :=
  (hvalue.keeps dest b).settling.attempt ho hrun

section Branches

variable {value thenValue elseValue : Access → Lower Unit} {test : Access} {o : Option Unit}
  {span thenSpan : Location}

theorem makeWhen_branch (ho : b.draft.graph.Open) (hvalue : Orderly value)
    (hrun : (makeWhen cx test thenSpan value dest span).run b = .ok (o, b')) :
    ∃ b₁, (attempt (settling cx (.register b.nextRegister) value)).run
        ((b.taken test).withTemp thenSpan) = .ok (some (), b₁) ∧
      (b.taken test).Stays (fun _ => True) b₁ ∧
      (moveUnit cx dest span).run (b.behindWhen b₁) = .ok (o, b') := by
  obtain ⟨b₁, hrun1, hunit⟩ := makeWhen_ok ho hrun
  have hbranch := (Body.Stays.withTemp thenSpan).trans (hvalue.attempted hrun1 (ho.branch test))
  exact ⟨b₁, hrun1, hbranch, hunit (hbranch.code.opened (ho.branch test))⟩

theorem makeIfElse_branches (ho : b.draft.graph.Open) (hthen : Orderly thenValue)
    (helse : Orderly elseValue)
    (hrun : (makeIfElse cx test thenValue elseValue dest).run b = .ok (o, b')) :
    ∃ b₁ b₂, (attempt (settling cx dest thenValue)).run (b.taken test) = .ok (some (), b₁) ∧
      (attempt (settling cx dest elseValue)).run (b.otherwise b₁) = .ok (some (), b₂) ∧
      (b.taken test).Stays (fun _ => True) b₁ ∧ (b.otherwise b₁).Stays (fun _ => True) b₂ ∧
      b' = b₁.behindBoth b₂ := by
  obtain ⟨b₁, b₂, hrun1, hrun2, hjoin⟩ := makeIfElse_ok ho hrun
  have h1 := hthen.attempted hrun1 (ho.branch test)
  have hframe := h1.code.frame (ho.branch test)
  have hopen := ho.goElse hframe
  have h2 := helse.attempted hrun2 hopen
  exact ⟨b₁, b₂, hrun1, hrun2, h1, h2, hjoin hframe (h2.code.frame hopen)⟩

theorem makeWhen_keeps_all (hvalue : Orderly value) :
    Keeps (fun _ => True) b (makeWhen cx test thenSpan value dest span) := by
  intro ho r b' hrun
  obtain ⟨b₁, -, hstays, hunit⟩ := makeWhen_branch ho hvalue hrun
  exact hstays.when.trans
    (direct_keeps.moveUnit trivial trivial _ (hstays.when.code.opened ho) hunit)

theorem makeIfElse_keeps_all (hthen : Orderly thenValue) (helse : Orderly elseValue) :
    Keeps (fun _ => True) b (makeIfElse cx test thenValue elseValue dest) :=
  makeIfElse_keeps (fun _ => hthen.keeps dest _) fun _ _ _ => helse.keeps dest _

end Branches

/-! ## Steps that end with a write -/

/-- If the step goes through then with one more instruction, which writes to the destination. -/
def Writes (dest : Access) (x : Lower α) : Prop :=
  ∀ b a b', b.draft.graph.Open → x.run b = .ok (some a, b') →
    ∃ i, i.dest = dest ∧ b'.draft.graph = b.draft.graph.push i

namespace Writes

variable {x : Lower α} {f : α → Lower β}

theorem beside (hx : Beside x) (hf : ∀ a, Writes dest (f a)) : Writes dest (x >>= f) := by
  intro b a b' ho hrun
  obtain ⟨c, b₁, hrun1, hrun2⟩ := bind_ok hrun
  rw [← draft_eq_of_bare (hx hrun1)] at ho ⊢
  exact hf c b₁ a b' ho hrun2

theorem ite (c : Prop) [Decidable c] {y : Lower α} (hx : Writes dest x) (hy : Writes dest y) :
    Writes dest (if c then x else y) := by
  split
  · exact hx
  · exact hy

theorem fail (code : Code) (message : String) (span : Location) :
    Writes dest (fail code message span : Lower α) := by
  rintro b a b' - ⟨⟩

theorem first (hx : Writes dest x) (hf : ∀ a, Beside (f a)) : Writes dest (x >>= f) := by
  intro b a b' ho hrun
  obtain ⟨c, b₁, hrun1, hrun2⟩ := bind_ok hrun
  rw [draft_eq_of_bare (hf c hrun2)]
  exact hx b c b₁ ho hrun1

theorem push (i : Instruction) : Writes i.dest (push i) := by
  intro b a b' ho hrun
  rw [push_run ho] at hrun
  cases hrun
  exact ⟨i, rfl, rfl⟩

variable {span : Location}

theorem moveLiteral (value : Literal) (type : Ty) :
    Writes dest (moveLiteral cx value type dest span) :=
  .first (.push (.literal value dest)) fun _ => agreeing_beside.assign cx dest type trivial

theorem copyPlace (place : Place) : Writes (.register r) (copyPlace cx place (.register r) span) :=
  .first (.push (.move place.access (.register r))) fun _ =>
    agreeing_beside.assign cx _ place.type trivial

theorem lowerDeclValue (path : Path) : Writes dest (lowerDeclValue cx path dest span) := by
  have hget : Beside (get : Lower Body) := by
    rintro b r b' ⟨⟩
    rfl
  refine .beside hget fun b0 => .beside (agreeing_beside.orReport fun e he =>
    Table.resolve_arises he trivial) fun decl => ?_
  cases decl.funct? with
  | some id => exact .beside (agreeing_beside.orFault _) fun f => .moveLiteral _ _
  | none => exact .beside (agreeing_beside.orFault _) fun _ => .fail _ _ _

theorem makeCall (callee : Place) (args : List Operand) (calleeSpan : Location) :
    Writes dest (makeCall cx callee args dest calleeSpan span) :=
  fun _ _ _ ho hrun => ⟨_, rfl, makeCall_ok ho hrun⟩

theorem makeStruct (id : StructId) (f : Fields) : Writes dest (makeStruct cx id f dest span) := by
  refine .ite _ (.beside (agreeing_beside.fail .incompatibleTypes _ trivial nofun) fun _ => ?_) ?_ <;>
    exact .ite _ (.beside agreeing_beside.giveUp fun _ => .moveLiteral _ _) (.moveLiteral _ _)

theorem takeAddress (mutable : Bool) (o : Option Place) (operandSpan : Location) :
    Writes dest (takeAddress cx mutable o dest operandSpan span) := by
  intro b a b' ho hrun
  obtain ⟨p, i, -, -, hassign, hi⟩ := takeAddress_ok ho hrun
  refine ⟨i, ?_, by rw [draft_eq_of_bare (agreeing_beside.assign cx dest _ trivial hassign)]; rfl⟩
  rcases hi with ⟨-, rfl⟩ | ⟨_, -, rfl⟩ <;> rfl

end Writes

/-- Where the step ends every path has written the register, if no step gave up. -/
def Delivers (r : RegisterId) (b : Body) (x : Lower α) : Prop :=
  b.Wired → ∀ a b', x.run b = .ok (some a, b') → b'.gaveUp = false → b'.Always r

namespace Delivers

variable {step : Lower Unit} {value : Access → Lower Unit} {span : Location} {x : Lower α}

theorem of_writes (hx : Writes (.register r) x) : Delivers r b x := by
  intro hw a b' hrun _
  obtain ⟨i, hi, hcode⟩ := hx b a b' hw.opened hrun
  exact hw.always_push hi hcode

theorem after {f : α → Lower β} (hx : Widens (fun _ => True) b x)
    (hf : ∀ a b₁, x.run b = .ok (some a, b₁) → Delivers r b₁ (f a)) : Delivers r b (x >>= f) := by
  intro hw a b' hrun
  obtain ⟨c, b₁, hrun1, hrun2⟩ := bind_ok hrun
  exact hf c b₁ hrun1 ((hx hw.opened hrun1).code.wired hw) a b' hrun2

theorem attempt (h : Delivers r b step) : Delivers r b (attempt step) :=
  fun hw _ b' hrun hwhole => h hw () b' (attempt_ok hrun hwhole) hwhole

theorem settling (h : Delivers r b (value dest)) : Delivers r b (settling cx dest value) :=
  fun hw _ b' hrun => h hw () b' (settling_ok hrun)

theorem inBlock (h : Delivers r b step) : Delivers r b (inBlock step) := by
  intro hw a b' hrun hwhole
  obtain ⟨_, b₁, hrun1, hrun2⟩ := bind_ok (show (step >>= fun _ => _).run b = _ from hrun)
  cases hrun2
  exact h hw () b₁ hrun1 hwhole

theorem leave : Delivers r b (leave cx dest) :=
  fun hw _ _ hrun _ => (leave_dead hw hrun).always r

variable {test : Access}

theorem makeWhen {thenSpan : Location} (hvalue : Orderly value) :
    Delivers r b (makeWhen cx test thenSpan value (.register r) span) := by
  intro hw a b' hrun
  obtain ⟨b₁, -, hbranch, hunit⟩ := makeWhen_branch hw.opened hvalue hrun
  exact of_writes (.moveLiteral _ _) (hbranch.when.code.wired hw) a b' hunit

theorem makeIfElse {thenValue elseValue : Access → Lower Unit} (hthen : Orderly thenValue)
    (helse : Orderly elseValue) (h1 : ∀ b, Delivers r b (thenValue (.register r)))
    (h2 : ∀ b, Delivers r b (elseValue (.register r))) :
    Delivers r b (makeIfElse cx test thenValue elseValue (.register r)) := by
  intro hw a b' hrun hwhole
  obtain ⟨b₁, b₂, hrun1, hrun2, hstays1, hstays2, rfl⟩ :=
    makeIfElse_branches hw.opened hthen helse hrun
  have hlater := invariant_adding.attempt (invariant_adding.settling _ helse.adding) _ _ _ hrun2
  have hwhole1 : b₁.gaveUp = false := hlater.whole hwhole
  refine (hw.joins_ifElse hstays1 hstays2).always.2 ⟨?_, ?_⟩
  · exact (h1 _).settling.attempt (hw.branch test) _ _ hrun1 hwhole1
  · exact (h2 _).settling.attempt (hw.goElse hstays1) _ _ hrun2 hwhole

theorem makeLetStmt (hstep : Widens (fun _ => True) b step) :
    Delivers r b (makeLetStmt cx step (some (.register r)) span) := by
  refine .after hstep.recover fun done b₁ _ => .of_writes (.first (.moveLiteral _ _) fun _ => ?_)
  cases done with
  | true => exact agreeing_beside.pure ()
  | false => exact agreeing_beside.giveUp

end Delivers

/-! ## Expressions -/

theorem lowerHolder_keeps_all (e : Expr) : Keeps (fun _ => True) b (lowerHolder cx e) :=
  walk_keeps.lowerHolder e Task.confined_true

theorem lowerCondition_keeps (condition : Expr) :
    Keeps (fun _ => True) b (lowerCondition cx condition) :=
  .bind (direct_keeps.conditionRegister _ b) fun _ b₁ _ =>
    .bind ((lowerExpr_orderly cx condition).keeps _ b₁).settling fun _ _ _ => .pure _

theorem lowerTarget_keeps (target : Expr) : Keeps (fun _ => True) b (lowerTarget cx target) :=
  .bind (walk_keeps.lowerPlace target Task.confined_true) fun place b₁ _ =>
    direct_keeps.assignedPlace place trivial b₁

mutual

/-- **Behind an expression its destination has a value**, if no step gave up. -/
theorem lowerExpr_delivers (cx : Context) : ∀ (e : Expr), (Node.expr e).LoopFree →
    ∀ (r : RegisterId) (b : Body), Delivers r b (lowerExpr cx e (.register r))
  | .block stmts span, hfree, r, b =>
    .inBlock (lowerStmts_delivers cx stmts (fun s hs => hfree.child (mem_map_of_mem hs)) span r b)
  | .int value span, _, r, b => .of_writes (.moveLiteral _ _)
  | .bool value span, _, r, b => .of_writes (.moveLiteral _ _)
  | .tuple elements span, _, r, b =>
    .after (walk_keeps.lowerOperands elements Task.confined_true).widens fun _ _ _ =>
      .of_writes (.moveLiteral _ _)
  | .structLit path inits span, _, r, b => by
    rw [lowerExpr_structLit]
    refine .after (walk_keeps.resolveFields path).widens fun found b₁ _ => ?_
    exact .after (walk_keeps.lowerInits inits Task.confined_true).widens fun _ _ _ =>
      .of_writes (.makeStruct _ _)
  | .name path span, _, r, b => by
    refine .after (direct_keeps.namedPlace path .read trivial b).widens fun found b₁ _ => ?_
    cases found with
    | some place => exact .of_writes (.copyPlace place)
    | none => exact .of_writes (.lowerDeclValue path)
  | .field base field span, _, r, b =>
    .after (lowerHolder_keeps_all base).widens fun record b₁ _ =>
      .after (direct_keeps.fieldPlace record trivial trivial b₁).widens fun place _ _ =>
        .of_writes (.copyPlace place)
  | .addressOf mutable operand span, _, r, b =>
    .after (walk_keeps.lowerPlace operand Task.confined_true).widens fun place _ _ =>
      .of_writes (.takeAddress mutable place _)
  | .deref operand span, _, r, b =>
    .after (lowerHolder_keeps_all operand).widens fun pointer b₁ _ =>
      .after (direct_keeps.targetPlace pointer trivial b₁).widens fun place _ _ =>
        .of_writes (.copyPlace place)
  | .call callee args span, _, r, b =>
    .after (lowerHolder_keeps_all callee).widens fun place b₁ _ =>
      .after (walk_keeps.lowerOperands args Task.confined_true).widens fun operands _ _ =>
        .of_writes (.makeCall place operands _)
  | .ifElse condition thenBranch none span, _, r, b =>
    .after (direct_keeps.conditionRegister _ b).widens fun test b₁ _ =>
      .after ((lowerExpr_orderly cx condition).keeps test b₁).settling.widens fun _ _ _ =>
        .makeWhen (lowerExpr_orderly cx thenBranch)
  | .ifElse condition thenBranch (some elseBranch) span, hfree, r, b => by
    refine .after (direct_keeps.conditionRegister _ b).widens fun test b₁ _ => ?_
    refine .after ((lowerExpr_orderly cx condition).keeps test b₁).settling.widens fun _ _ _ => ?_
    refine .makeIfElse (lowerExpr_orderly cx thenBranch) (lowerExpr_orderly cx elseBranch)
      (lowerExpr_delivers cx thenBranch (hfree.child ?_) r)
      (lowerExpr_delivers cx elseBranch (hfree.child ?_) r)
    · exact mem_cons_of_mem _ mem_cons_self
    · exact mem_cons_of_mem _ (mem_cons_of_mem _ mem_cons_self)
  | .loop condition body span, hfree, r, b => (Node.not_loopFree_loop hfree).elim
  | .assign target value span, _, r, b => by
    rw [lowerExpr_assign]
    refine .after (lowerTarget_keeps target).widens fun place b₁ _ => ?_
    refine .after ((lowerExpr_orderly cx value).keeps place.access b₁).settling.widens fun _ b₂ _ => ?_
    cases place.localIndex with
    | some index =>
      exact .after (markAssigned_keeps index).widens fun _ _ _ => .of_writes (.moveLiteral _ _)
    | none => exact .of_writes (.moveLiteral _ _)
  | .ret (some value) span, _, r, b =>
    .after (direct_keeps.returnTarget _ b).widens fun target b₁ _ =>
      .after ((lowerExpr_orderly cx value).keeps target b₁).settling.widens fun _ _ _ => .leave
  | .ret none span, _, r, b =>
    .after (direct_keeps.checkBareReturn trivial b).widens fun _ _ _ => .leave

theorem lowerStmt_delivers (cx : Context) : ∀ (s : Stmt), (Node.stmt s).LoopFree →
    ∀ (r : RegisterId) (b : Body), Delivers r b (lowerStmt cx s (some (.register r)))
  | .expr e _, hfree, r, b =>
    .settling (lowerExpr_delivers cx e (hfree.child mem_cons_self) r b)
  | .binding name mutable type none span, _, r, b =>
    .makeLetStmt (makeLet_widens fun _ _ _ hnone => by cases hnone)
  | .binding name mutable type (some init) span, _, r, b =>
    .makeLetStmt (makeLet_widens fun value register b₁ hvalue _ => by
      cases hvalue
      exact walk_keeps.lowerExpr init (.inr rfl) (Task.confined_true.also _))
  | .use path span, _, r, b => fun hw a b' hrun =>
    Delivers.of_writes (b := { b with scope := b.scope.extend path.toName }) (.moveLiteral _ _)
      ⟨hw.opened, hw.linked⟩ a b' hrun

theorem lowerStmts_delivers (cx : Context) : ∀ (stmts : List Stmt),
    (∀ s ∈ stmts, (Node.stmt s).LoopFree) → ∀ (span : Location) (r : RegisterId) (b : Body),
      Delivers r b (lowerStmts cx span stmts (.register r))
  | [], _, _, _, _ => .of_writes (.moveLiteral _ _)
  | [s], hfree, _, r, b => .attempt (lowerStmt_delivers cx s (hfree s mem_cons_self) r b)
  | s :: next :: rest, hfree, span, r, _ =>
    .after (.attempt (walk_keeps.lowerStmt s nofun Task.confined_true)) fun _ b₁ _ =>
      lowerStmts_delivers cx (next :: rest) (fun s hs => hfree s (mem_cons_of_mem _ hs)) span r b₁

end

end Lower

end Semcheck
