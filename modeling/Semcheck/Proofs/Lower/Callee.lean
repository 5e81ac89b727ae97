/-
  The callee of a call and its arguments.

  The callee is lowered first, then the arguments, each into a temporary of its
  own, and at last the call.  A callee that is a place is not copied: the call reads
  the place itself.  What comes between can write to it directly, but only by an assignment to
  it in one of the arguments (`lowerExpr_call_callee`).  Such an assignment is not reported:
  `swapped_callee` shows a call of a function that was assigned by an argument.  Writes through
  a pointer to the callee are not looked at here.
-/
import Semcheck.Proofs.Lower.Moments

namespace Semcheck

open Lower

/-! ## Places and their registers -/

/-- The destination is the register that the access starts from, or a part of it. -/
def Access.Overwrites (dest a : Access) : Prop :=
  ∃ r fields, dest = .place r fields false ∧ a.base? = some r

/-- The task comes to an assignment to the access. -/
def Task.AssignsTo (cx : Context) (t : Task) (b : Body) (a : Access) : Prop :=
  ∃ target value span dest c p c', Reaches cx t b (.expr (.assign target value span) dest) c ∧
    (lowerTarget cx target).run c = .ok (some p, c') ∧ p.access = a

/-- The access starts from the register of a local, or from one that was made since. -/
def Access.Rooted (b : Body) (a : Access) : Prop :=
  ∀ r, a.base? = some r → (∃ l ∈ b.locals, l.register = r) ∨ b.draft.registers.length ≤ r.index

/-- What a place starts from is not the result of the function. -/
theorem Access.Rooted.ne_result {cx : Context} {b : Body} {a : Access} (h : a.Rooted b)
    (hb : b.Intact cx) {r : RegisterId} (hr : a.base? = some r) : cx.result ≠ .register r := by
  rcases h r hr with ⟨l, hl, rfl⟩ | hle
  · exact hb.apart l hl
  · exact hb.result_ne hle

namespace Lower

variable {cx : Context} {b b' : Body} {p : Place} {e : Expr} {span : Location}

theorem fail_run {α : Type} (code : Code) (message : String) (span : Location) :
    (fail code message span : Lower α).run b =
      .ok (none, { b with report := b.report.push (.error code message span) }) :=
  rfl

theorem localPlace_ok {index : Nat} {l : Local} {purpose : Purpose}
    (hrun : (localPlace index l purpose span).run b = .ok (some p, b')) :
    b' = b ∧ p.access = .register l.register ∧ p.localIndex = some index := by
  rw [localPlace] at hrun
  split at hrun
  · rw [run_bind_none (fail_run _ _ _)] at hrun
    cases hrun
  · obtain ⟨t, b1, htype, hrun⟩ := bind_ok
      (show (registerType l.register >>= fun _ => _).run b = _ from hrun)
    obtain ⟨_, -, -, rfl⟩ := orFault_eq_ok.1 (show (orFault _).run b = _ from htype)
    cases hrun
    exact ⟨rfl, rfl, rfl⟩

theorem namedPlace_ok {path : Path} {purpose : Purpose}
    (hrun : (namedPlace path purpose span).run b = .ok (some (some p), b')) :
    b' = b ∧ ∃ x index l, findLocal x b.locals = some (index, l) ∧
      p.access = .register l.register ∧ p.localIndex = some index := by
  obtain ⟨found, b1, hlookup, hfound⟩ := bind_ok hrun
  clear hrun
  cases found with
  | none => cases hfound
  | some entry =>
    obtain ⟨index, l⟩ := entry
    obtain ⟨rfl, x, hfind⟩ := lookupLocal_ok hlookup
    obtain ⟨_, b2, hplace, hfound⟩ := bind_ok
      (show (localPlace index l purpose span >>= fun q => pure (some q)).run b1 = _ from hfound)
    cases hfound
    obtain ⟨rfl, haccess, hindex⟩ := localPlace_ok hplace
    exact ⟨rfl, x, index, l, hfind, haccess, hindex⟩

theorem fieldPlace_ok {base : Place} {baseSpan : Location} {field : Ident}
    (hrun : (fieldPlace cx base baseSpan field).run b = .ok (some p, b')) :
    ∃ index, p.access = base.access.field index ∧ p.localIndex = none := by
  obtain ⟨type, b1, -, hrun⟩ := bind_ok hrun
  obtain ⟨found, b2, -, hrun⟩ := bind_ok hrun
  cases found with
  | some member =>
    cases hrun
    exact ⟨_, rfl, rfl⟩
  | none =>
    obtain ⟨_, b3, -, hrun⟩ := bind_ok hrun
    rw [fail_run] at hrun
    cases hrun

theorem pointerRegister_ok {pointer : Place} {type : Ty} {r : RegisterId}
    (hrun : (pointerRegister pointer type span).run b = .ok (some r, b')) :
    pointer.access = .register r ∨ r = b.nextRegister := by
  rw [pointerRegister] at hrun
  split at hrun
  · rename_i register hplain
    cases hrun
    left
    unfold Access.plain? at hplain
    split at hplain
    · cases hplain
      assumption
    · cases hplain
  · have hregister : (newRegister type span).run b =
        .ok (some b.nextRegister, b.withRegister type span) := rfl
    rw [run_bind_some hregister] at hrun
    obtain ⟨_, b1, -, hrun⟩ := bind_ok hrun
    cases hrun
    exact .inr rfl

theorem targetPlace_ok {pointer : Place}
    (hrun : (targetPlace cx pointer span).run b = .ok (some p, b')) :
    ∃ r, p.access = .place r [] true ∧ p.localIndex = none ∧
      (pointer.access = .register r ∨ b.draft.registers.length ≤ r.index) := by
  obtain ⟨type, b1, htype, hrun⟩ := bind_ok hrun
  have hbare := agreeing_beside.shallow _ htype
  cases type with
  | pointer mutable pointee =>
    obtain ⟨r, b2, hregister, hrun⟩ := bind_ok hrun
    cases hrun
    refine ⟨r, rfl, rfl, (pointerRegister_ok hregister).imp id fun hr => ?_⟩
    exact Nat.le_of_eq (by rw [hr, Body.nextRegister, draft_eq_of_bare hbare])
  | slot | error => cases hrun
  | _ =>
    obtain ⟨_, b3, -, hrun⟩ := bind_ok hrun
    rw [fail_run] at hrun
    cases hrun

theorem base?_field (index : Nat) (a : Access) : (a.field index).base? = a.base? := by
  cases a <;> rfl

theorem lowerHolder_rooted (ho : b.draft.graph.Open)
    (hplace : ∀ {p b'}, (lowerPlace cx e .read).run b = .ok (some (some p), b') → p.access.Rooted b)
    (hrun : (lowerHolder cx e).run b = .ok (some p, b')) : p.access.Rooted b := by
  obtain ⟨found, b1, hfound, hrun⟩ := bind_ok hrun
  cases found with
  | some p' =>
    cases hrun
    exact hplace hfound
  | none =>
    have hkept := walk_keeps.lowerPlace e Task.confined_true ho hfound
    rw [run_bind_some (newTemp_eq e.span)] at hrun
    obtain ⟨_, b2, -, hrun⟩ := bind_ok hrun
    obtain ⟨_, b3, -, hrun⟩ := bind_ok hrun
    cases hrun
    rintro r ⟨⟩
    exact .inr hkept.draft.registers.length_le

/-- A place is a part of a local, of a temporary, or of what one of them points to. -/
theorem lowerPlace_rooted (cx : Context) : ∀ (e : Expr) {purpose : Purpose} {b b' : Body}
    {p : Place}, b.draft.graph.Open → (lowerPlace cx e purpose).run b = .ok (some (some p), b') →
      p.access.Rooted b
  | .name path span, purpose, b, b', p, ho, hrun => by
    obtain ⟨-, x, index, l, hfind, haccess, -⟩ := namedPlace_ok hrun
    intro r hr
    rw [haccess] at hr
    cases hr
    exact .inl ⟨l, List.mem_of_getElem? (findLocal_some hfind).1, rfl⟩
  | .field base field span, purpose, b, b', p, ho, hrun => by
    obtain ⟨record, b1, hrecord, hrun⟩ := bind_ok hrun
    obtain ⟨_, b2, hfield, hrun⟩ := bind_ok hrun
    cases hrun
    obtain ⟨index, haccess, -⟩ := fieldPlace_ok hfield
    have hrooted := lowerHolder_rooted ho (lowerPlace_rooted cx base ho) hrecord
    intro r hr
    rw [haccess, base?_field] at hr
    exact hrooted r hr
  | .deref operand span, purpose, b, b', p, ho, hrun => by
    obtain ⟨pointer, b1, hpointer, hrun⟩ := bind_ok hrun
    obtain ⟨_, b2, htarget, hrun⟩ := bind_ok hrun
    cases hrun
    obtain ⟨r, haccess, -, hregister⟩ := targetPlace_ok htarget
    have hrooted := lowerHolder_rooted ho (lowerPlace_rooted cx operand ho) hpointer
    have hkept := walk_keeps.lowerHolder operand Task.confined_true ho hpointer
    intro r' hr
    rw [haccess] at hr
    cases hr
    rcases hregister with hregister | hle
    · exact hrooted r (by rw [hregister]; rfl)
    · exact .inr (Nat.le_trans hkept.draft.registers.length_le hle)
  | .block _ _, _, _, _, _, _, hrun | .int _ _, _, _, _, _, _, hrun
  | .bool _ _, _, _, _, _, _, hrun | .tuple _ _, _, _, _, _, _, hrun
  | .structLit _ _ _, _, _, _, _, _, hrun | .addressOf _ _ _, _, _, _, _, _, hrun
  | .call _ _ _, _, _, _, _, _, hrun | .ifElse _ _ _ _, _, _, _, _, _, hrun
  | .loop _ _ _, _, _, _, _, _, hrun | .assign _ _ _, _, _, _, _, _, hrun
  | .ret _ _, _, _, _, _, _, hrun => by cases hrun

/-! ## Calls -/

theorem makeCall_ok {callee : Place} {args : List Operand} {dest : Access} {calleeSpan : Location}
    (ho : b.draft.graph.Open)
    (hrun : (makeCall cx callee args dest calleeSpan span).run b = .ok (some (), b')) :
    b'.draft.graph = b.draft.graph.push (.call callee.access (args.map Operand.access) dest) := by
  obtain ⟨returns, b1, htype, hrun⟩ := bind_ok hrun
  have hdraft := draft_eq_of_bare
    (agreeing_beside.callType _ (fun _ _ => trivial) trivial trivial htype)
  have ho1 : b1.draft.graph.Open := hdraft ▸ ho
  rw [run_bind_some (push_run ho1 _)] at hrun
  rw [draft_eq_of_bare (agreeing_beside.assign cx dest returns trivial hrun), ← hdraft]
  rfl

end Lower

/-- **Only an assignment in an argument writes to the callee.**  A call that goes through is
    lowered in three parts: the callee, the arguments, and the call itself, which comes last.  If an
    instruction between the first part and the last writes to the register that the callee is read
    from, or to a part of it, and not through a pointer, then one of the arguments assigns to just
    that. -/
theorem lowerExpr_call_callee {strict : Bool} {files : List SourceFile} {cx : Context}
    {callee : Expr} {args : List Expr} {span : Location} {dest : Access} {b b' : Body}
    (hm : Moment strict files cx (.expr (.call callee args span) dest) b)
    (hrun : (lowerExpr cx (.call callee args span) dest).run b = .ok (some (), b')) :
    ∃ (p : Place) (b₁ : Body) (operands : List Operand) (b₂ : Body) (sh : Shape),
      (lowerHolder cx callee).run b = .ok (some p, b₁) ∧
      (lowerOperands cx args).run b₁ = .ok (some operands, b₂) ∧
      b₂.draft.graph = sh.build b₁.draft.graph ∧
      b'.draft.graph =
        b₂.draft.graph.push (.call p.access (operands.map Operand.access) dest) ∧
      sh.All fun ev => ∀ i, ev = .run i → i.dest.Overwrites p.access →
        (Task.operands args).AssignsTo cx b₁ i.dest := by
  obtain ⟨hready, -⟩ := hm.ready
  obtain ⟨p, b₁, hcallee, hrun⟩ := Lower.bind_ok hrun
  obtain ⟨operands, b₂, hargs, hrun⟩ := Lower.bind_ok hrun
  have ho := hready.intact.opened
  obtain ⟨_, hg, hp, -⟩ := (lowerHolder_spec cx callee hready.intact).of_run hcallee
  have ho₁ := hg.intact.opened
  have hstays : b₁.Stays (fun a => a = cx.result ∨ (Task.operands args).AssignsTo cx b₁ a) b₂ :=
    walk_keeps.lowerOperands args ⟨.inl rfl, fun hreach htarget =>
      .inr ⟨_, _, _, _, _, _, _, hreach, htarget, rfl⟩⟩ ho₁ hargs
  obtain ⟨sh, hcode, hall⟩ := hstays.code
  refine ⟨p, b₁, operands, b₂, sh, hcallee, hargs, hcode,
    makeCall_ok (hstays.code.opened ho₁) hrun, hall.mono ?_⟩
  rintro ev hlands i rfl ⟨r, fields, hdest, hbase⟩
  have hrooted := lowerHolder_rooted ho (lowerPlace_rooted cx callee ho) hcallee
  rcases hlands with (hresult | hassigns) | ⟨r', hnew, hle⟩
  · obtain ⟨hdiscard, -⟩ | ⟨q, -, hq, -⟩ := hready.intact.result
    · rw [hdest, hdiscard] at hresult
      cases hresult
    · rw [hdest, hq] at hresult
      cases hresult
      exact absurd hq (hrooted.ne_result hready.intact hbase)
  · exact hassigns
  · rw [hdest] at hnew
    cases hnew
    exact absurd ((hp p rfl).access r hbase) (Nat.not_lt_of_le hle)

namespace Sample

/-- `{ f = g; 1 }` -/
def swappedArg : Expr :=
  .block [step (.assign (var "f") (var "g") .nowhere), step (.int 1 .nowhere)] .nowhere

/-- `f({ f = g; 1 })` -/
def swappedCall : Expr :=
  .call (var "f") [swappedArg] .nowhere

/-- `fn main(mut f: fn(int) -> int, g: fn(int) -> int) -> int` with the body `swappedCall`. -/
def swapped : List SourceFile := [⟨⟨0⟩, [
  .funct ⟨name "main", [⟨name "f", true, .funct [type "int"] (some (type "int")) .nowhere, .nowhere⟩,
    ⟨name "g", false, .funct [type "int"] (some (type "int")) .nowhere, .nowhere⟩],
    some (type "int"), some swappedCall, .nowhere⟩], .nowhere⟩]

/-- Nothing is reported.  The callee is read from register `0`, which an argument assigns. -/
theorem swapped_lowered : ∃ x ∈ entry swapped,
    (∃ out ∈ ((lowerExpr x.1 swappedCall x.1.result).run x.2).toOption, out.1 = some ()) ∧
    ∃ first ∈ ((lowerHolder x.1 (var "f")).run x.2).toOption, ∃ p ∈ first.1,
      p.access = .register ⟨0⟩ ∧ first.2.draft.segments = [.empty] ∧
      ∃ second ∈ ((lowerOperands x.1 [swappedArg]).run first.2).toOption, ∃ operands ∈ second.1,
        second.2.draft.segments = [⟨[.move (.register ⟨1⟩) (.register ⟨0⟩),
          .literal .unit (.register ⟨4⟩), .literal (.int 1) (.register ⟨3⟩)], none⟩] := by
  decide +kernel

end Sample

/-- The call goes through; the argument assigns to its callee. -/
theorem swapped_call_callee : ∃ cx b b', Moment true Sample.swapped cx
      (.expr Sample.swappedCall cx.result) b ∧
    (lowerExpr cx Sample.swappedCall cx.result).run b = .ok (some (), b') ∧
    ∃ (p : Place) (b₁ : Body) (operands : List Operand) (b₂ : Body) (sh : Shape),
      (lowerHolder cx (Sample.var "f")).run b = .ok (some p, b₁) ∧
      (lowerOperands cx [Sample.swappedArg]).run b₁ = .ok (some operands, b₂) ∧
      b₂.draft.graph = sh.build b₁.draft.graph ∧
      b'.draft.graph =
        b₂.draft.graph.push (.call p.access (operands.map Operand.access) cx.result) ∧
      sh.All fun ev => ∀ i, ev = .run i → i.dest.Overwrites p.access →
        (Task.operands [Sample.swappedArg]).AssignsTo cx b₁ i.dest := by
  obtain ⟨x, hx, ⟨⟨_, b'⟩, hrun, rfl⟩, -⟩ := Sample.swapped_lowered
  have hm := Sample.entry_moment rfl hx
  have hrun' := ok_of_toOption hrun
  exact ⟨x.1, x.2, b', hm, hrun', lowerExpr_call_callee hm hrun'⟩

/-- A callee that is a local is not copied: in `f({ f = g; 1 })` the argument assigns to the register
    that the call reads the callee from, so that `g` is called.  Nothing is reported. -/
theorem swapped_callee : ∃ p, lowerFiles true Sample.swapped = .ok p ∧ p.report.entries = [] ∧
    ∃ cx b callee b₁ operands b₂, Moment true Sample.swapped cx
        (.expr (.call (Sample.var "f") [Sample.swappedArg] .nowhere) cx.result) b ∧
      (lowerHolder cx (Sample.var "f")).run b = .ok (some callee, b₁) ∧
      (lowerOperands cx [Sample.swappedArg]).run b₁ = .ok (some operands, b₂) ∧
      b₁.draft.segments = [.empty] ∧ ∃ i rest, b₂.draft.segments = [⟨i :: rest, none⟩] ∧
        i.dest.Overwrites callee.access := by
  obtain ⟨p, hp, hquiet⟩ : ∃ p ∈ (lowerFiles true Sample.swapped).toOption,
      p.report.entries.isEmpty = true := by decide +kernel
  obtain ⟨x, hx, -, ⟨_, b₁⟩, hfirst, callee, ⟨⟩, haccess, hempty, ⟨_, b₂⟩, hsecond, operands, ⟨⟩,
    hsegments⟩ := Sample.swapped_lowered
  refine ⟨p, ok_of_toOption hp, List.isEmpty_iff.1 hquiet, _, _, callee, b₁, operands, b₂,
    Sample.entry_moment rfl hx, ok_of_toOption hfirst, ok_of_toOption hsecond, hempty, _, _,
    hsegments, ⟨0⟩, [], rfl, ?_⟩
  rw [haccess]
  rfl

end Semcheck
