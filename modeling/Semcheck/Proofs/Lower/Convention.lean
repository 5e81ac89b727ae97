/-
  What a function with a body looks like to its callers.

  Lowering a body starts from the signature: the registers of the parameters come
  first, then the one for the result, and a function that returns `()` has none.
  Whatever the body does, errors or not, it keeps these and leaves the function
  with the result.

  * `PendingFunct.Follows`: the convention;
  * `lowerFiles_follows`: every function with a body follows it.
-/
import Semcheck.Proofs.Lower.Meaning

namespace Semcheck

open List

/-- The type syntax is resolved to the type. -/
def TypeExpr.ResolvesTo (table : Table) (scope : UseScope) (e : TypeExpr) (t : Ty) : Prop :=
  ∃ report, (lowerType table scope e).run .empty = .ok (t, report)

/-- The registers and the names of the parameters come first, in the order of their
    declaration, and the function is left with its result. -/
structure PendingFunct.Follows (table : Table) (pending : PendingFunct) (f : Function) : Prop where
  paramCount : f.paramCount = pending.decl.params.length
  registers : ∀ (i : Nat) param, pending.decl.params[i]? = some param → ∃ type,
    param.type.ResolvesTo table pending.scope type ∧ f.registers[i]? = some ⟨type, param.span⟩
  bindings : ∀ (i : Nat) param, pending.decl.params[i]? = some param →
    f.bindings[i]? = some ⟨param.name.text, ⟨i⟩, param.mutable⟩
  entry : f.segments ≠ []
  unit : f.returnType = .unit → ∀ segment ∈ f.segments, segment.terminator.successors = [] →
    segment.terminator = .finish
  value : f.returnType ≠ .unit →
    (∃ span, f.registers[f.paramCount]? = some ⟨f.returnType, span⟩) ∧
      ∀ segment ∈ f.segments, segment.terminator.successors = [] →
        segment.terminator = .ret (.register ⟨f.paramCount⟩)

theorem TypeExpr.resolvesTo_meaning {table : Table} (ht : table.Valid) (scope : UseScope)
    (e : TypeExpr) : e.ResolvesTo table scope (e.meaning table scope).1 := by
  exact ⟨_, lowerType_run ht e .empty⟩

theorem getElem?_of_prefix {α : Type} {xs ys : List α} (h : xs <+: ys) {i : Nat} {x : α}
    (hi : xs[i]? = some x) : ys[i]? = some x := by
  obtain ⟨hlt, rfl⟩ := List.getElem?_eq_some_iff.1 hi
  exact prefix_iff_getElem?.1 h i hlt

namespace PendingFunct

variable {table : Table} {pending : PendingFunct} {i : Nat} {param : ParamDecl}

theorem signature_register (h : pending.decl.params[i]? = some param) :
    (pending.signature table).registers[i]? =
      some ⟨(param.type.meaning table pending.scope).1, param.span⟩ := by
  simp [signature, paramRegisters, h]

theorem signature_binding (h : pending.decl.params[i]? = some param) :
    (pending.signature table).bindings[i]? = some ⟨param.name.text, ⟨i⟩, param.mutable⟩ := by
  simp [signature, paramBindings, h]

end PendingFunct

section Bodies

variable {table : Table} {pending : PendingFunct} {signature f : Function} {strict : Bool}
  {report : Report}

/-- Where the result of a function is, and how it is left then. -/
inductive Function.Returns (signature f : Function) : Prop where
  | unit (type : f.returnType = .unit)
      (exits : ∀ segment ∈ f.segments, segment.terminator.successors = [] →
        segment.terminator = .finish)
  | value (type : f.returnType ≠ .unit) (span : Location)
      (register : f.registers[signature.registers.length]? = some ⟨f.returnType, span⟩)
      (exits : ∀ segment ∈ f.segments, segment.terminator.successors = [] →
        segment.terminator = .ret (.register ⟨signature.registers.length⟩))

/-- The function begins with its signature. -/
structure Function.Begins (signature f : Function) : Prop where
  paramCount : f.paramCount = signature.paramCount
  returnType : f.returnType = signature.returnType
  registers : signature.registers <+: f.registers
  bindings : signature.bindings <+: f.bindings
  entry : f.segments ≠ []
  returns : signature.Returns f

/-- **A body keeps its signature**, and leaves the function with the result. -/
theorem lowerBody_begins (ht : table.Valid) (hp : report.entries = [] → table.Plain)
    (hsig : table.funct? pending.id = some signature) (hh : signature.Header) {body : Expr}
    {report' : Report} {gaveUp : Bool}
    (hrun : lowerBody strict table pending body report = .ok (f, report', gaveUp)) :
    signature.Begins f := by
  obtain ⟨result, more, _, _, f', b', rfl, rfl, hresult, hmore, hb, hrun', hl⟩ :=
    lowerBody_run ht hp hsig hh strict body
  cases hrun.symm.trans (lowerBody_eq hsig hresult hrun')
  -- the registers at the entry have no open part, so inference leaves them alone
  have hkeep : ∀ (j : Nat) register, (signature.registers ++ more)[j]? = some register →
      f.registers[j]? = some register := by
    intro j register hj
    exact hl.registers j register hj (.of_within (hb.registers _ (mem_of_getElem? hj)))
  have hprefix : signature.registers <+: f.registers := by
    rw [prefix_iff_getElem?]
    intro j hj
    refine hkeep j _ ?_
    rw [getElem?_append_left hj, getElem?_eq_getElem hj]
  refine ⟨hl.paramCount, hl.returnType, hprefix, hl.names, hl.entry, ?_⟩
  have hexits := hl.exits
  rcases hmore with ⟨rfl, rfl, hunit⟩ | ⟨rfl, rfl, hne⟩
  · exact .unit (hl.returnType.trans hunit) hexits
  · have htype : f.returnType = signature.returnType := hl.returnType
    refine .value (htype ▸ hne) body.span ?_ hexits
    rw [htype]
    exact hkeep _ _ getElem?_concat_length

theorem Function.Begins.signature_eq (h : signature.Begins f) (hh : signature.Header) :
    f.signature = signature.signature := by
  have htake : f.registers.take signature.paramCount = signature.registers := by
    rw [← hh.registers]
    exact (prefix_iff_eq_take.1 h.registers).symm
  rw [Function.signature, Function.signature, Function.params, Function.params, h.paramCount,
    htake, h.returnType, ← hh.registers, take_length]

theorem Function.Begins.follows (ht : table.Valid) (h : (pending.signature table).Begins f) :
    pending.Follows table f := by
  have hlength : (pending.signature table).registers.length = f.paramCount := by
    rw [h.paramCount]
    simp [PendingFunct.signature, paramRegisters]
  refine ⟨h.paramCount, fun i param hi => ?_, fun i param hi => ?_, h.entry, ?_, ?_⟩
  · refine ⟨_, TypeExpr.resolvesTo_meaning ht pending.scope param.type, ?_⟩
    exact getElem?_of_prefix h.registers (PendingFunct.signature_register hi)
  · exact getElem?_of_prefix h.bindings (PendingFunct.signature_binding hi)
  · intro hunit
    cases h.returns with
    | unit _ hexits => exact hexits
    | value hne => exact absurd hunit hne
  · intro hne
    cases h.returns with
    | unit hunit => exact absurd hunit hne
    | value _ span hregister hexits =>
      rw [hlength] at hregister hexits
      exact ⟨⟨span, hregister⟩, hexits⟩

theorem Outline.Lowers.begins {o : Outline} {signed p : Program} {outs : List LoweredBody}
    (h : o.Lowers strict signed outs p) {out : LoweredBody} (hp : pending ∈ o.functs)
    (hlowers : pending.Lowers strict signed.table out) :
    (pending.signature o.table).Header ∧ (pending.signature o.table).Begins out.funct := by
  have hvalid := h.signs.later.valid
  have hsig := h.signs.functs pending hp
  obtain ⟨entry, hentry, heq⟩ := Table.mem_of_funct? hsig
  have hheader : (pending.signature o.table).Header := heq ▸ hvalid.headed entry hentry
  obtain ⟨body, hbody, hrun⟩ := hlowers.body
  -- with the diagnostics of the signatures in the report, their types may be erroneous
  obtain ⟨more, -, hframe⟩ := lowerBody_framed hrun
  exact ⟨hheader, lowerBody_begins hvalid.table hvalid.plain hsig hheader (hframe signed.report)⟩

end Bodies

/-- **The convention of functions.**  Every function of a program has the type that its
    declaration was resolved to, and if it has a body then the parameters and the result are
    where callers expect them. -/
theorem lowerFiles_follows (strict : Bool) (files : List SourceFile) :
    ∃ p signed, lowerFiles strict files = .ok p ∧
      (lowerSignatures (Outline.ofFiles files)).run
        ⟨(Outline.ofFiles files).table, (Outline.ofFiles files).report, false⟩ =
          .ok ((), signed) ∧
      ∀ id f, p.table.funct? id = some f → ∃ pending ∈ (Outline.ofFiles files).functs,
        pending.id = id ∧
        (∃ signature, signed.table.funct? id = some signature ∧
          f.signature = signature.signature) ∧
        (pending.decl.body.isSome = true → pending.Follows (Outline.ofFiles files).table f) := by
  have ho := Outline.ofFiles_valid files
  obtain ⟨signed, outs, p, hp, hsigned, hl⟩ := lowerFiles_run strict files
  refine ⟨p, signed, hp, hsigned, fun id f hf => ?_⟩
  obtain ⟨pending, hmem, rfl⟩ := hl.exists_pending ho hf
  have hsig := hl.signs.functs pending hmem
  cases hbody : pending.decl.body with
  | none =>
    rw [hl.funct_of_none ho hmem hbody] at hf
    cases hf
    exact ⟨pending, hmem, rfl, ⟨_, hsig, rfl⟩, by simp [hbody]⟩
  | some body =>
    obtain ⟨out, -, hlowers, hout⟩ := hl.funct_of_body hmem hbody
    rw [hout] at hf
    cases hf
    obtain ⟨hheader, hbegins⟩ := hl.begins hmem hlowers
    exact ⟨pending, hmem, rfl, ⟨_, hsig, hbegins.signature_eq hheader⟩, fun _ =>
      hbegins.follows ho.table⟩

end Semcheck
