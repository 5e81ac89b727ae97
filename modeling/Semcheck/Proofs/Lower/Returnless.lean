/-
  Bodies without `return`.

  Segments are added by conditionals and loops only, whatever is reported on the way, and
  a step that gives up leaves no segment behind that the code does not go on from
  (`Body.Continues`).  So without a `return` the code is left at its end only.

  `lowerFiles_falls_through`: in the function of such a body every segment is reachable,
  and one of them is the exit.
-/
import Semcheck.Proofs.Ir.Coverage
import Semcheck.Proofs.Lower.Convention
import Semcheck.Proofs.Lower.Footprint

namespace Semcheck

open Lower Sample

/-! ## Code that goes on -/

/-- There is more code, which does not leave the function. -/
def Body.Continues (b b' : Body) : Prop :=
  ∃ sh : Shape, b'.draft.graph = sh.build b.draft.graph ∧ sh.All Event.Inner

namespace Body.Continues

variable {b b1 b' : Body}

theorem of_eq (h : b'.draft.graph = b.draft.graph) : b.Continues b' :=
  ⟨.skip, h, trivial⟩

theorem trans (h1 : b.Continues b1) (h2 : b1.Continues b') : b.Continues b' := by
  obtain ⟨sh1, hcode1, hall1⟩ := h1
  obtain ⟨sh2, hcode2, hall2⟩ := h2
  exact ⟨.seq sh1 sh2, by rw [hcode2, hcode1]; rfl, hall1, hall2⟩

theorem frame (h : b.Continues b') (ho : b.draft.graph.Open) :
    Graph.Frame b.draft.graph b'.draft.graph := by
  obtain ⟨sh, hcode, -⟩ := h
  exact hcode ▸ sh.frame ho

theorem opened (h : b.Continues b') (ho : b.draft.graph.Open) : b'.draft.graph.Open :=
  (h.frame ho).opened

end Body.Continues

namespace Lower

variable {α β : Type} {cx : Context} {b b' : Body} {dest test : Access}
  {value thenValue elseValue : Access → Lower Unit}

/-- Whatever becomes of the step, the code goes on behind it. -/
def GoesOn (x : Lower α) : Prop :=
  ∀ b r b', x.run b = .ok (r, b') → b.draft.graph.Open → b.Continues b'

theorem goesOn_of_beside {x : Lower α} (h : Beside x) : GoesOn x :=
  fun _ _ _ hrun _ => .of_eq (congrArg Draft.graph (draft_eq_of_bare (h hrun)))

theorem aside_goesOn : Aside (fun _ => True) fun α (x : Lower α) => GoesOn x :=
  aside_of_related (fun _ => .of_eq rfl) .trans (fun ho h => h.opened ho) (fun _ => .of_eq rfl)
    (fun _ _ => .of_eq rfl) fun _ _ _ => .of_eq rfl

theorem push_goesOn (i : Instruction) : GoesOn (push i) := by
  intro b r b' hrun ho
  rw [push_run ho] at hrun
  cases hrun
  exact ⟨.emit i, rfl, nofun⟩

theorem change_goesOn {f : Body → Body} (h : ∀ b : Body, (f b).draft.graph = b.draft.graph) :
    GoesOn (modify f) := by
  rintro b r b' ⟨⟩ -
  exact .of_eq (h b)

theorem newRegister_goesOn (type : Ty) (span : Location) : GoesOn (newRegister type span) := by
  rintro b r b' ⟨⟩ -
  exact .of_eq rfl

theorem direct_goesOn : Direct (fun _ => True) (fun _ => True) fun α (x : Lower α) => GoesOn x where
  toAside := aside_goesOn
  newRegister := newRegister_goesOn
  push _ := push_goesOn _
  spill _ type span := aside_goesOn.bind (newRegister_goesOn type span) fun _ =>
    aside_goesOn.bind (push_goesOn _) fun _ => aside_goesOn.pure _
  unifyAt cx expected found _ h := goesOn_of_beside (agreeing_beside.unifyAt cx expected found h)
  spoil slot := goesOn_of_beside (agreeing_beside.spoil slot)

/-! ## Control flow -/

theorem attempt_goesOn (h : ∀ dest, GoesOn (value dest)) :
    GoesOn (attempt (settling cx dest value)) :=
  direct_goesOn.attempt (direct_goesOn.settling dest h)

theorem inLoop_goesOn (h : ∀ dest, GoesOn (value dest)) :
    GoesOn (inLoop (settling cx dest value)) :=
  direct_goesOn.bind (change_goesOn fun _ => rfl) fun _ =>
    direct_goesOn.bind (attempt_goesOn h) fun _ => change_goesOn fun _ => rfl

theorem makeWhen_goesOn {thenSpan span : Location} (h : ∀ dest, GoesOn (value dest)) :
    GoesOn (makeWhen cx test thenSpan value dest span) := by
  intro b r b' hrun ho
  obtain ⟨b1, hvalue, hunit⟩ := makeWhen_ok ho hrun
  have hbranch := attempt_goesOn h _ _ _ hvalue (ho.branch test)
  have ho1 := hbranch.opened (ho.branch test)
  obtain ⟨sh, hcode, hall⟩ := hbranch
  have hwhen : b.Continues (b.behindWhen b1) :=
    ⟨.when test sh, (Shape.build_when hcode).symm, nofun, hall⟩
  exact hwhen.trans (direct_goesOn.moveUnit trivial trivial _ _ _ (hunit ho1) (hwhen.opened ho))

theorem makeIfElse_goesOn (hthen : ∀ dest, GoesOn (thenValue dest))
    (helse : ∀ dest, GoesOn (elseValue dest)) :
    GoesOn (makeIfElse cx test thenValue elseValue dest) := by
  intro b r b' hrun ho
  obtain ⟨b1, b2, hrun1, hrun2, hjoin⟩ := makeIfElse_ok ho hrun
  have h1 := attempt_goesOn hthen _ _ _ hrun1 (ho.branch test)
  have hframe := h1.frame (ho.branch test)
  have hopen := ho.goElse hframe
  have h2 := attempt_goesOn helse _ _ _ hrun2 hopen
  obtain rfl := hjoin hframe (h2.frame hopen)
  obtain ⟨sh1, hcode1, hall1⟩ := h1
  obtain ⟨sh2, hcode2, hall2⟩ := h2
  exact ⟨.ifElse test sh1 sh2, (Shape.build_ifElse hcode1 hcode2).symm, nofun, hall1, hall2⟩

theorem makeLoop_goesOn {conditionSpan bodySpan span : Location}
    {condition body : Access → Lower Unit} (hcondition : ∀ dest, GoesOn (condition dest))
    (hbody : ∀ dest, GoesOn (body dest)) :
    GoesOn (makeLoop cx conditionSpan bodySpan condition body dest span) := by
  intro b r b' hrun ho
  obtain ⟨b1, hrun1, hrest⟩ := makeLoop_ok ho hrun
  have h1 := inLoop_goesOn hcondition _ _ _ hrun1 ho.loopHead
  have ho1 := h1.opened ho.loopHead
  obtain ⟨b2, hrun2, hunit⟩ := hrest ho1
  have h2 := inLoop_goesOn hbody _ _ _ hrun2 (ho1.branch _)
  have ho2 := h2.opened (ho1.branch _)
  obtain ⟨sh1, hcode1, hall1⟩ := h1
  obtain ⟨sh2, hcode2, hall2⟩ := h2
  have hloop : b.Continues ((b2.withGraph (b2.draft.graph.jump ⟨b.draft.graph.size⟩
      ⟨b1.draft.graph.size + 1⟩)).joined (b1.locals.map Local.assigned)) :=
    ⟨.loop sh1 (.register b.nextRegister) sh2, (Shape.build_loop hcode1 hcode2).symm, hall1, nofun,
      hall2⟩
  exact hloop.trans (direct_goesOn.moveUnit trivial trivial _ _ _ (hunit ho2) (hloop.opened ho))

/-- **Without a `return`, the code goes on.** -/
theorem structured_goesOn : Structured (fun _ => True) False fun α (x : Lower α) => GoesOn x where
  toDirect := direct_goesOn
  change _ _ hgraph := change_goesOn hgraph
  makeWhen _ _ _ _ _ hvalue _ _ _ := makeWhen_goesOn hvalue
  makeIfElse _ _ _ _ hthen helse _ := makeIfElse_goesOn hthen helse
  makeLoop _ _ _ _ _ _ hcondition hbody _ _ _ := makeLoop_goesOn hcondition hbody
  leave h := h.elim

end Lower

/-! ## Functions -/

def Node.ReturnFree (n : Node) : Prop :=
  ∀ value span, Node.expr (.ret value span) ∉ n.preorder

theorem Node.ReturnFree.fits {n : Node} (h : n.ReturnFree) : n.Fits (fun _ => True) False :=
  ⟨n.within_true, h⟩

section Bodies

variable {table : Table} {pending : PendingFunct} {signature f : Function} {strict : Bool}
  {report : Report}

/-- The shape of a body without `return`. -/
theorem lowerBody_shape (ht : table.Valid) (hp : report.entries = [] → table.Plain)
    (hsig : table.funct? pending.id = some signature) (hh : signature.Header) {body : Expr}
    {report' : Report} {gaveUp : Bool} (hfree : (Node.expr body).ReturnFree)
    (hrun : lowerBody strict table pending body report = .ok (f, report', gaveUp)) :
    ∃ (sh : Shape) (result : Access), sh.All Event.Inner ∧
      f.MadeFrom ((sh.build .start).close (.leave result)) := by
  obtain ⟨result, more, _, _, f', b', rfl, rfl, hresult, -, hb, hrun', hl⟩ :=
    lowerBody_run ht hp hsig hh strict body
  cases hrun.symm.trans (lowerBody_eq hsig hresult hrun')
  obtain ⟨b1, hbody, hmade⟩ := hl.code
  obtain ⟨sh, hcode, hall⟩ := attempt_goesOn
    (structured_goesOn.lowerExpr body hfree.fits) _ _ _ hbody hb.opened
  exact ⟨sh, result, hall, hcode ▸ hmade⟩

end Bodies

/-- **A body without `return` has no dead code and one exit**, whatever is reported about it:
    all segments of its function can be reached, and exactly one has no successor. -/
theorem lowerFiles_falls_through (strict : Bool) (files : List SourceFile) :
    ∃ p, lowerFiles strict files = .ok p ∧
      ∀ pending ∈ (Outline.ofFiles files).functs, ∀ body, pending.decl.body = some body →
        (Node.expr body).ReturnFree → ∃ f, p.table.funct? pending.id = some f ∧
          f.reachable = List.replicate f.segments.length true ∧
          ∃! s, ∃ segment, f.segment? s = some segment ∧ segment.terminator.successors = [] := by
  obtain ⟨signed, outs, p, hp, -, hl⟩ := lowerFiles_run strict files
  refine ⟨p, hp, fun pending hmem body hbody hfree => ?_⟩
  obtain ⟨out, -, hlowers, hout⟩ := hl.funct_of_body hmem hbody
  obtain ⟨body', hbody', hrun⟩ := hlowers.body
  cases hbody.symm.trans hbody'
  have hvalid := hl.signs.later.valid
  have hsig := hl.signs.functs pending hmem
  obtain ⟨hheader, -⟩ := hl.begins hmem hlowers
  -- with the diagnostics of the signatures in the report, their types may be erroneous
  obtain ⟨more, -, hframe⟩ := lowerBody_framed hrun
  obtain ⟨sh, result, hall, hmade⟩ :=
    lowerBody_shape hvalid.table hvalid.plain hsig hheader hfree (hframe signed.report)
  exact ⟨out.funct, hout, hmade.reachable_eq hall, hmade.exists_unique_exit hall⟩

namespace Sample

/-- `{ while if c { x } else { c } { if c { y }; z(c) } }` -/
def failingBody : Expr :=
  .block [step (.loop (.ifElse (var "c") (var "x") (some (var "c")) .nowhere) (.block [
    step (.ifElse (var "c") (var "y") none .nowhere),
    step (.call (var "z") [var "c"] .nowhere)] .nowhere) .nowhere)] .nowhere

/-- A function with this body and the parameter `c: bool`; `x`, `y` and `z` are not declared. -/
def failing : List SourceFile := [⟨⟨0⟩, [
  .funct ⟨name "f", [⟨name "c", false, type "bool", .nowhere⟩], none, some failingBody,
    .nowhere⟩], .nowhere⟩]

theorem failingBody_returnFree : (Node.expr failingBody).ReturnFree := by
  intro value span
  simp [failingBody, Node.preorder, Node.children, Node.ofExpr, Node.ofStmt, var, step]

end Sample

/-- Statements that fail leave no dead segment behind. -/
theorem failing_falls_through : ∃ p f, lowerFiles true Sample.failing = .ok p ∧
    p.report.entries.length = 3 ∧ p.table.funct? ⟨0⟩ = some f ∧
    f.reachable = List.replicate 9 true ∧
    ∃! s, ∃ segment, f.segment? s = some segment ∧ segment.terminator.successors = [] := by
  have hsample : ∃ p ∈ (lowerFiles true Sample.failing).toOption, p.report.entries.length = 3 ∧
      ∃ f ∈ p.table.funct? ⟨0⟩, f.segments.length = 9 := by decide +kernel
  obtain ⟨p, hp, hreport, f, hf, hlength⟩ := hsample
  obtain ⟨p', hp', hall⟩ := lowerFiles_falls_through true Sample.failing
  cases hp'.symm.trans (ok_of_toOption hp)
  obtain ⟨f', hf', hreachable, hexit⟩ := hall _ List.mem_cons_self _ rfl
    Sample.failingBody_returnFree
  cases hf'.symm.trans hf
  exact ⟨p, f, hp', hreport, hf, hlength ▸ hreachable, hexit⟩

end Semcheck
