/-
  Function bodies under pooled names and under texts.

  A body under pooled names spells a body under texts (`Body.Spells`) if its symbols are
  known and with their texts it is the other body, up to a renaming of declarations.  Each
  step under pooled names follows the step under texts (`Lower.Follows`), and the pool
  only grows; the recursive ones by induction on the syntax (`lowerExpr_follows`).

  A lifted step follows a step that it mirrors.  What is left are the steps that look at
  names, and those that take other steps as arguments.
-/
import Semcheck.Pooled.Body
import Semcheck.Proofs.Lower.Rename
import Semcheck.Proofs.Pooled.Signature

namespace Semcheck

open Lower List Table Context

namespace Pooled

open Naming

variable {σ π : Type} [Naming σ π] {p : π} {ρ : Renaming} {D : Diagnostic → Diagnostic → Prop}
  {b : Body σ π} {b' : Semcheck.Body} {cx' : Semcheck.Context}

/-! ## Bodies -/

/-- The symbols of `b` are known, beyond the pool `p`, and under their texts it is `b'` up
    to a renaming. -/
structure Body.Spells (p : π) (ρ : Renaming) (D : Diagnostic → Diagnostic → Prop)
    (b : Body σ π) (b' : Semcheck.Body) : Prop where
  pool : Within p b.pool
  scope : KnowsAll b.pool b.scope
  locals : Knows b.pool b.locals
  bindings : Knows b.pool b.bindings
  localCount : b.locals.length = b.rest.locals.length
  bindingCount : b.bindings.length = b.rest.draft.bindings.length
  mirrors : b.spell.Mirrors ρ D b'

/-- Bodies of which one spells the other, and steps under which the pool grows. -/
def Body.spelling (p : π) (ρ : Renaming) (D : Diagnostic → Diagnostic → Prop) :
    Coupling (Body σ π) Semcheck.Body where
  rel := Spells p ρ D
  keeps b b₁ := Within b.pool b₁.pool
  refl b := .refl b.pool
  trans := Within.trans

/-- The contexts are the same up to the texts of symbols and a renaming. -/
structure Context.Spells (p : π) (ρ : Renaming) (D : Diagnostic → Diagnostic → Prop)
    (cx : Context σ) (cx' : Semcheck.Context) : Prop where
  known : cx.table.Known p
  mirrors : (cx.spell p).Mirrors ρ D cx'

theorem Context.Spells.table {cx : Context σ} (h : cx.Spells p ρ D cx') :
    cx.table.Spells p ρ D cx'.table :=
  ⟨h.known, h.mirrors.table⟩

theorem Context.Spells.grow [LawfulNaming σ π] {cx : Context σ} (h : cx.Spells p ρ D cx') {q : π}
    (hq : Within p q) : (cx.spell q).Mirrors ρ D cx' := by
  have hspell : cx.spell q = cx.spell p := by
    rw [spell, spell, Table.spell_within h.known hq]
  rw [hspell]
  exact h.mirrors

namespace Body

theorem names_spell (hlocals : b.locals.length = b.rest.locals.length)
    (hbindings : b.bindings.length = b.rest.draft.bindings.length) :
    b.spell.names =
      (b.locals.map (text b.pool), b.bindings.map (text b.pool), Naming.scope b.pool b.scope) := by
  have hl : b.spell.locals.map Local.name = b.locals.map (text b.pool) :=
    map_zipWith_rename (fun _ _ => rfl) (by simpa using hlocals)
  have hb : b.spell.draft.bindings.map Binding.name = b.bindings.map (text b.pool) :=
    map_zipWith_rename (fun _ _ => rfl) (by simpa using hbindings)
  rw [Semcheck.Body.names, hl, hb]
  rfl

/-- A body that has the names already is what the symbols spell. -/
theorem spell_rest {rest : Semcheck.Body} (h : rest.names =
      (b.locals.map (text b.pool), b.bindings.map (text b.pool), Naming.scope b.pool b.scope)) :
    ({ b with rest := rest } : Body σ π).spell = rest := by
  obtain ⟨hl, hb, hs⟩ : rest.locals.map Local.name = b.locals.map (text b.pool) ∧
      rest.draft.bindings.map Binding.name = b.bindings.map (text b.pool) ∧
      rest.scope = Naming.scope b.pool b.scope := by
    simpa [Semcheck.Body.names, Prod.ext_iff] using h
  have hlocals : spellLocals b.pool b.locals rest.locals = rest.locals := by
    rw [spellLocals, ← hl]
    exact zipWith_rename_self (fun _ => rfl) _
  have hbindings : Naming.bindings b.pool b.bindings rest.draft.bindings = rest.draft.bindings := by
    rw [Naming.bindings, ← hb]
    exact zipWith_rename_self (fun _ => rfl) _
  simp only [spell, hlocals, hbindings, ← hs]

theorem Spells.scope_eq (h : b.Spells p ρ D b') : b'.scope = Naming.scope b.pool b.scope := by
  obtain ⟨report, function, hentries, rfl⟩ := h.mirrors
  rfl

theorem Spells.spell_grow [LawfulNaming σ π] (h : b.Spells p ρ D b') {q : π}
    (hq : Within b.pool q) : ({ b with pool := q } : Body σ π).spell = b.spell := by
  simp only [spell, spellLocals, Naming.bindings, hq.scope h.scope, hq.map_text h.locals,
    hq.map_text h.bindings]

theorem Spells.grow [LawfulNaming σ π] (h : b.Spells p ρ D b') {q : π} (hq : Within b.pool q) :
    ({ b with pool := q } : Body σ π).Spells p ρ D b' where
  pool := h.pool.trans hq
  scope := hq.knowsAll h.scope
  locals := hq.knows h.locals
  bindings := hq.knows h.bindings
  localCount := h.localCount
  bindingCount := h.bindingCount
  mirrors := by
    rw [h.spell_grow hq]
    exact h.mirrors

end Body

namespace Lower

variable {α β γ δ : Type} {g : α → β} {R : γ → δ → Prop} {y : Semcheck.Lower Unit}
  {x : Lower σ π Unit}

/-- From a body that spells another, both steps stop, or both come to bodies of which one
    spells the other, the second with the value `g` gives. -/
def Follows (p : π) (ρ : Renaming) (D : Diagnostic → Diagnostic → Prop) (g : α → β)
    (x : Lower σ π α) (y : Semcheck.Lower β) : Prop :=
  Sim (Body.spelling p ρ D) (fun a b => b = g a) x y

theorem step_follows {x : Semcheck.Lower α} {y : Semcheck.Lower β}
    (h : Lower.Mirrors ρ D g x y) : Follows p ρ D g (step x : Lower σ π α) y := by
  intro b b' hb
  have hrun := h b.spell b' hb.mirrors
  show Alike _ (x.run b.spell >>= _) (y.run b')
  rw [SimAt] at hrun
  generalize x.run b.spell = out at hrun
  generalize y.run b' = out' at hrun
  cases hrun with
  | error e e' => exact .error e e'
  | @ok out out' h =>
    obtain ⟨hvalue, hmirrors, hkeeps⟩ := h
    have hnames := hkeeps.trans (Body.names_spell hb.localCount hb.bindingCount)
    obtain ⟨hl, hbs, -⟩ : out.2.locals.map Local.name = b.locals.map (text b.pool) ∧
        out.2.draft.bindings.map Binding.name = b.bindings.map (text b.pool) ∧ _ := by
      simpa [Semcheck.Body.names, Prod.ext_iff] using hnames
    refine .ok ⟨hvalue, ⟨hb.pool, hb.scope, hb.locals, hb.bindings, ?_, ?_, ?_⟩, .refl b.pool⟩
    · simpa using (congrArg length hl).symm
    · simpa using (congrArg length hbs).symm
    · rw [Body.spell_rest hnames]
      exact hmirrors

/-- A lifted step, and what comes behind it. -/
theorem step_then {x : Semcheck.Lower α} {y : Semcheck.Lower β} {k : α → Lower σ π γ}
    {k' : β → Semcheck.Lower δ} (h : Lower.Mirrors ρ D g x y)
    (hk : ∀ a, Sim (Body.spelling p ρ D) R (k a) (k' (g a))) :
    Sim (Body.spelling p ρ D) R (step x >>= k) (y >>= k') :=
  (step_follows h).andThen hk

theorem stepIn_follows [LawfulNaming σ π] {cx : Context σ} {cx' : Semcheck.Context}
    (hcx : cx.Spells p ρ D cx') {x : Semcheck.Context → Semcheck.Lower α} {y : Semcheck.Lower β}
    (h : ∀ c, c.Mirrors ρ D cx' → Lower.Mirrors ρ D g (x c) y) :
    Follows p ρ D g (stepIn cx x : Lower σ π α) y := by
  intro b b' hb
  have hstep := step_follows (h (cx.spell b.pool) (hcx.grow hb.pool)) b b' hb
  exact hstep

/-! ## Combinators -/

theorem orFault_follows {R : α → β → Prop} {x : Except Fault α} {y : Except Fault β}
    (h : Alike R x y) :
    Sim (Body.spelling p ρ D) R (orFault x : Lower σ π α) (Semcheck.Lower.orFault y) := by
  intro b b' hb
  cases h with
  | ok h => exact .pure h hb
  | error e e' => exact .error _ _

theorem recover_follows (h : Follows p ρ D id x y) : Follows p ρ D id (recover x) (.recover y) := by
  intro b b' hb
  refine Alike.bind (h b b' hb) ?_
  rintro ⟨a, b1⟩ ⟨a', b1'⟩ ⟨hvalue, hrel, hkeeps⟩
  cases hvalue with
  | some => exact .ok ⟨.some rfl, hrel, hkeeps⟩
  | none =>
    obtain ⟨report, function, hentries, rfl⟩ : b1.spell.Mirrors ρ D b1' := hrel.mirrors
    exact .ok ⟨.some rfl, ⟨hrel.pool, hrel.scope, hrel.locals, hrel.bindings, hrel.localCount,
      hrel.bindingCount, report, function, hentries, rfl⟩, hkeeps⟩

theorem attempt_follows (h : Follows p ρ D id x y) : Follows p ρ D id (attempt x) (.attempt y) :=
  (recover_follows h).andThen fun _ => .pure rfl

theorem depth_follows (change : Nat → Nat) :
    Follows p ρ D id
      (modify fun b : Body σ π =>
        { b with rest := { b.rest with loopDepth := change b.rest.loopDepth } })
      (modify fun b : Semcheck.Body => { b with loopDepth := change b.loopDepth }) := by
  refine .mono (.modify fun b b' hb => ⟨?_, .refl b.pool⟩) fun _ _ _ => rfl
  obtain ⟨report, function, hentries, rfl⟩ := hb.mirrors
  exact ⟨hb.pool, hb.scope, hb.locals, hb.bindings, hb.localCount, hb.bindingCount, report,
    function, hentries, rfl⟩

theorem inLoop_follows (h : Follows p ρ D id x y) : Follows p ρ D id (inLoop x) (.inLoop y) :=
  (depth_follows (· + 1)).andThen fun _ => (attempt_follows h).andThen fun _ =>
    depth_follows (· - 1)

theorem name_of_mem_zip {symbols : List σ} {texts : List String} {locals : List Local}
    (htexts : texts = symbols.map (text p)) {entry : σ × Local}
    (h : entry ∈ symbols.zip (texts.zipWith (fun name l => { l with name := name }) locals)) :
    entry.1 ∈ symbols ∧ entry.2.name = text p entry.1 := by
  subst htexts
  induction symbols generalizing locals with
  | nil => simp at h
  | cons s symbols ih =>
    cases locals with
    | nil => simp at h
    | cons l locals =>
      rcases mem_cons.1 h with rfl | h
      · exact ⟨by simp, rfl⟩
      · obtain ⟨hmem, hname⟩ := ih h
        exact ⟨by simp [hmem], hname⟩

section Steps

variable [LawfulNaming σ π] {cx : Context σ} {cx' : Semcheck.Context} (hcx : cx.Spells p ρ D cx')
  (hD : ∀ d, D d d) (hρ : ρ.Faithful) {value' : Access → Semcheck.Lower Unit}
  {value : Access → Lower σ π Unit} {f' : Semcheck.Lower.Fields} {x : Lower σ π Unit}
  {word : String}

include hcx hρ in
theorem settling_follows {dest : Access} (h : Follows p ρ D id (value dest) (value' dest)) :
    Follows p ρ D id (settling cx dest value) (.settling cx' dest value') := by
  refine (recover_follows h).andThen fun done => ?_
  cases done with
  | true => exact .pure rfl
  | false =>
    refine (stepIn_follows hcx fun c hc => openSlot?_mirrors hc dest).andThen fun slot => ?_
    cases slot with
    | none => exact .failure
    | some slot =>
      have herror : InferM.Commutes ρ.struct id (inferType slot .error) (inferType slot .error) := by
        simpa using InferM.inferType_commutes hρ.struct slot .error
      exact step_then (.onEngine herror) fun _ => .failure

/-! ## Paths -/

/-- Put the segments of a path into the pool, and go on. -/
theorem internPath_follows {path : Path} {k : List σ → Lower σ π γ} {y : Semcheck.Lower δ}
    (hk : ∀ q symbols, Within b.pool q → Knows q symbols → name q symbols = path.toName →
      SimAt (Body.spelling p ρ D) R { b with pool := q } b' (k symbols) y) :
    SimAt (Body.spelling p ρ D) R b b' (internPath path >>= k) y := by
  have hgrown := within_internAll b.pool path.texts
  refine (hk (internAll b.pool path.texts).2 (internAll b.pool path.texts).1 hgrown
    (knows_internAll _ _) (name_internAll _ _)).mono ?_
  rintro out out' ⟨hvalue, hrel, hkeeps⟩
  exact ⟨hvalue, hrel, hgrown.trans hkeeps⟩

theorem intern_follows {k : σ → Lower σ π γ} {y : Semcheck.Lower δ}
    (hk : ∀ q symbol, Within b.pool q → Known q symbol → text q symbol = word →
      SimAt (Body.spelling p ρ D) R { b with pool := q } b' (k symbol) y) :
    SimAt (Body.spelling p ρ D) R b b' (intern word >>= k) y := by
  have hgrown := within_intern b.pool word
  have hknown : Known (Naming.intern b.pool word).2 (Naming.intern b.pool word).1 :=
    known_of_get? (LawfulNaming.get?_intern _ _)
  refine (hk _ _ hgrown hknown (text_intern _ _)).mono ?_
  rintro out out' ⟨hvalue, hrel, hkeeps⟩
  exact ⟨hvalue, hrel, hgrown.trans hkeeps⟩

/-! ## Places -/

theorem findLocal_spell [DecidableEq σ] {symbols : List σ} (hs : Knows p symbols)
    {locals : List Local} (hcount : symbols.length = locals.length) (word : String) :
    Semcheck.Lower.findLocal word (spellLocals p symbols locals) =
      (get? p word).bind fun symbol => findLocal symbol symbols (spellLocals p symbols locals) := by
  have hsnd : (symbols.zip (spellLocals p symbols locals)).map Prod.snd =
      spellLocals p symbols locals :=
    map_snd_zip (by simp [spellLocals, hcount])
  have hfind := find?_symbol (p := p) (symbols.zip (spellLocals p symbols locals)).zipIdx.reverse
    (fun entry => entry.1.1) (fun entry => entry.1.2.name) (fun entry he => by
      obtain ⟨hmem, hname⟩ := name_of_mem_zip rfl (fst_mem_of_mem_zipIdx (mem_reverse.1 he))
      exact ⟨hs _ hmem, hname⟩) word
  have htexts : Semcheck.Lower.findLocal word (spellLocals p symbols locals) =
      ((symbols.zip (spellLocals p symbols locals)).zipIdx.reverse.find? fun entry =>
        entry.1.2.name = word).map fun entry => (entry.2, entry.1.2) := by
    rw [Semcheck.Lower.findLocal]
    nth_rewrite 1 [← hsnd]
    rw [zipIdx_map, ← map_reverse, find?_map, Option.map_map]
    rfl
  rw [htexts, hfind]
  cases get? p word <;> rfl

theorem lookupLocal_follows [DecidableEq σ] (path : Path) :
    Follows p ρ D id (lookupLocal path : Lower σ π _) (.lookupLocal path) := by
  rw [lookupLocal, Semcheck.Lower.lookupLocal]
  cases path.single? with
  | none => exact .pure rfl
  | some name =>
    refine .look fun b b' hb => .pure ?_ hb
    obtain ⟨report, function, hentries, rfl⟩ := hb.mirrors
    exact findLocal_spell hb.locals hb.localCount name.text

include hD in
theorem namedPlace_follows [DecidableEq σ] (path : Path) (purpose : Purpose) (span : Location) :
    Follows p ρ D (.map (.rename ρ)) (namedPlace path purpose span : Lower σ π _)
      (.namedPlace path purpose span) := by
  refine (lookupLocal_follows path).andThen fun found => ?_
  cases found with
  | none => exact .pure rfl
  | some found =>
    exact step_then (localPlace_mirrors hD found.1 found.2 purpose span) fun place => .pure rfl

include hcx hρ in
theorem placeOrTemp_follows (span : Location) {place : Lower σ π (Option Place)}
    {place' : Semcheck.Lower (Option Place)}
    (hplace : Follows p ρ D (.map (.rename ρ)) place place')
    (hvalue : ∀ dest, Follows p ρ D id (value dest) (value' dest)) :
    Follows p ρ D (.rename ρ) (placeOrTemp cx span place value)
      (.placeOrTemp cx' span place' value') := by
  refine hplace.andThen fun found => ?_
  cases found with
  | some found => exact .pure rfl
  | none =>
    exact step_then (newTemp_mirrors span) fun temp =>
      (settling_follows hcx hρ (hvalue (.register temp))).andThen fun _ =>
        step_then (registerType_mirrors temp) fun _ => .pure rfl

section Lookup

variable [DecidableEq σ]

theorem lookupField_follows {fields : List (Field σ)} (hknown : ∀ f ∈ fields, Known p f.name)
    (name : String) {k : Option (Nat × Field σ) → Lower σ π γ} {y : Semcheck.Lower δ}
    (hk : ∀ found, Semcheck.findField name ((fields.map (Field.spell p)).map (Field.rename ρ)) =
      found.map (fun f => (f.1, (f.2.spell p).rename ρ)) →
        Sim (Body.spelling p ρ D) R (k found) y) :
    Sim (Body.spelling p ρ D) R (lookupField fields name >>= k) y := by
  refine fun b b' hb => hk _ ?_ b b' hb
  rw [findField_rename, findField_spell hknown hb.pool, Option.map_map]
  rfl

include hcx hD in
theorem findMember_follows (type : Ty) (field : String) (baseSpan : Location) :
    Follows p ρ D (.map fun m => (m.1, m.2.rename ρ.struct))
      (findMember cx type field baseSpan : Lower σ π _)
      (.findMember cx' (type.rename ρ.struct) field baseSpan) := by
  cases type with
  | struct id =>
    simp only [Ty.rename_struct]
    refine Sim.bind (orFault_follows (hcx.table.fields id)) ?_
    rintro fields _ ⟨hknown, rfl⟩
    refine lookupField_follows hknown field fun found hfound => .pure ?_
    rw [hfound, Option.map_map, Option.map_map]
    rfl
  | _ => exact stepIn_follows hcx fun c hc => findMember_mirrors hc hD _ field baseSpan

include hcx hD in
theorem fieldPlace_follows (base : Place) (baseSpan : Location) (field : Ident) :
    Follows p ρ D (.rename ρ) (fieldPlace cx base baseSpan field : Lower σ π _)
      (.fieldPlace cx' (base.rename ρ) baseSpan field) := by
  refine step_then (shallow_mirrors base.type) fun type => ?_
  refine (findMember_follows hcx hD type field.text baseSpan).andThen fun found => ?_
  cases found with
  | some found => exact .pure rfl
  | none =>
    exact (stepIn_follows hcx fun c hc => typeName_mirrors hc type).andThen fun name =>
      step_follows (fail_mirrors hD _ _ _)

include hcx hD hρ

theorem lookupDecl_follows (path : Path) :
    Follows p ρ D ρ.decl (lookupDecl cx path : Lower σ π _)
      (get >>= fun b => .orReport
        (cx'.table.resolve path.toName path.absolute b.scope path.span)) := by
  intro b b' hb
  refine internPath_follows fun q symbols hq hsymbols hname => ?_
  have hb1 := hb.grow hq
  refine step_follows (orReport_mirrors ?_) _ _ hb1
  rw [Table.resolve_spell (hcx.known.within hb1.pool) hsymbols _ hb1.scope, hname,
    Table.spell_within hcx.known hb1.pool, ← hb1.scope_eq]
  exact resolve_mirrors hcx.mirrors.table hD hρ _ _ _ _

theorem lookupStruct_follows (path : Path) :
    Follows p ρ D ρ.struct (lookupStruct cx path : Lower σ π _)
      (get >>= fun b => .orReport
        (cx'.table.resolveType path.toName path.absolute b.scope path.span)) := by
  intro b b' hb
  refine internPath_follows fun q symbols hq hsymbols hname => ?_
  have hb1 := hb.grow hq
  refine step_follows (orReport_mirrors ?_) _ _ hb1
  rw [Table.resolveType_spell (hcx.known.within hb1.pool) hsymbols _ hb1.scope, hname,
    Table.spell_within hcx.known hb1.pool, ← hb1.scope_eq]
  exact resolveType_mirrors hcx.mirrors.table hD hρ _ _ _ _

/-! ## Values -/

theorem lowerDeclValue_follows (path : Path) (dest : Access) (span : Location) :
    Follows p ρ D id (lowerDeclValue cx path dest span : Lower σ π _)
      (.lowerDeclValue cx' path dest span) := by
  simp only [Semcheck.Lower.lowerDeclValue]
  rw [← bind_assoc]
  refine (lookupDecl_follows hcx hD hρ path).andThen fun decl => ?_
  refine stepIn_follows hcx fun c hc => ?_
  cases decl with
  | struct id =>
    refine Sim.bind (Lower.Mirrors.orFault (hc.table.displayName (.struct id))) ?_
    rintro found _ rfl
    exact fail_mirrors hD _ _ _
  | funct id =>
    refine Sim.andThen (Lower.Mirrors.orFault (hc.table.funct id)) fun f => ?_
    rw [Function.signature_rename]
    exact moveLiteral_mirrors hc hD hρ (.funct id) f.signature dest span

end Lookup

/-! ## Values -/

include hcx hρ

theorem lowerOperand_follows (span : Location)
    (hvalue : ∀ dest, Follows p ρ D id (value dest) (value' dest)) :
    Follows p ρ D (.rename ρ) (lowerOperand cx span value) (.lowerOperand cx' span value') :=
  step_then (newTemp_mirrors span) fun temp =>
    (settling_follows hcx hρ (hvalue (.register temp))).andThen fun _ =>
      step_then (registerType_mirrors temp) fun _ => .pure rfl

/-- The fields of two struct values, as far as they are written. -/
def Fields.Spells (p : π) (ρ : Renaming) (f : Fields σ) (f' : Semcheck.Lower.Fields) : Prop :=
  (∀ field ∈ f.fields, Known p field.name) ∧ f' = (f.spell p).rename ρ

include hD in
theorem lowerInit_follows [DecidableEq σ] {f : Fields σ} (hf : Fields.Spells p ρ f f')
    (name : Ident) (span valueSpan : Location)
    (hvalue : ∀ dest, Follows p ρ D id (value dest) (value' dest)) :
    Sim (Body.spelling p ρ D) (Fields.Spells p ρ) (lowerInit cx f name span valueSpan value)
      (Semcheck.Lower.lowerInit cx' f' name span valueSpan value') := by
  obtain ⟨hknown, rfl⟩ := hf
  refine lookupField_follows hknown name.text fun found hfound => ?_
  have hfind : Semcheck.findField name.text ((f.spell p).rename ρ).fields = _ := hfound
  rw [Semcheck.Lower.lowerInit, hfind]
  cases found with
  | none =>
    exact step_then (complain_mirrors hD _ _ _) fun _ => .pure ⟨hknown, rfl⟩
  | some found =>
    refine .ite Iff.rfl ?_ ?_
    · exact step_then (complain_mirrors hD _ _ _) fun _ => .pure ⟨hknown, rfl⟩
    · refine step_then (newRegister_mirrors _ _) fun temp => ?_
      exact (recover_follows (settling_follows hcx hρ (hvalue (.register temp)))).andThen
        fun done => .pure ⟨hknown, rfl⟩

include hD in
theorem makeStruct_follows {f : Fields σ} (hf : Fields.Spells p ρ f f') (id : StructId)
    (dest : Access) (span : Location) :
    Follows p ρ D (fun u => u) (makeStruct cx id f dest span : Lower σ π _)
      (Semcheck.Lower.makeStruct cx' (ρ.struct id) f' dest span) := by
  obtain ⟨hknown, rfl⟩ := hf
  intro b b' hb
  have hfields : f.fields.map (Field.spell b.pool) = f.fields.map (Field.spell p) := by
    refine map_congr_left fun field hfield => ?_
    rw [Field.spell, Field.spell, hb.pool.text (hknown field hfield)]
  have hspell : f.spell b.pool = f.spell p := by
    rw [Fields.spell, Fields.spell, hfields]
  have hstep : SimAt (Body.spelling p ρ D) (fun u u' => u' = u) b b'
      (step (.makeStruct (cx.spell b.pool) id (f.spell b.pool) dest span))
      (Semcheck.Lower.makeStruct cx' (ρ.struct id) ((f.spell p).rename ρ) dest span) := by
    rw [hspell]
    exact step_follows (makeStruct_mirrors (hcx.grow hb.pool) hD hρ id _ dest span) b b' hb
  rw [makeStruct]
  exact .lookLeft hstep

/-! ## Control flow -/

include hD in
theorem makeWhen_follows (condition : Access) (thenSpan : Location)
    (hvalue : ∀ dest, Follows p ρ D id (value dest) (value' dest)) (dest : Access)
    (span : Location) :
    Follows p ρ D id (makeWhen cx condition thenSpan value dest span)
      (.makeWhen cx' condition thenSpan value' dest span) := by
  refine step_then newSegment_mirrors fun branch => ?_
  refine step_then assignments_mirrors fun before => ?_
  refine step_then newSegment_mirrors fun join => ?_
  refine step_then (terminate_mirrors _) fun _ => ?_
  refine step_then (switchTo_mirrors _) fun _ => ?_
  refine step_then (newTemp_mirrors _) fun temp => ?_
  refine (attempt_follows (settling_follows hcx hρ (hvalue (.register temp)))).andThen fun _ => ?_
  refine step_then (terminate_mirrors _) fun _ => ?_
  refine step_then (switchTo_mirrors _) fun _ => ?_
  refine step_then (updateAssignments_mirrors _ _) fun _ => ?_
  exact stepIn_follows hcx fun c hc => moveUnit_mirrors hc hD hρ dest span

theorem makeIfElse_follows (condition : Access) {thenValue elseValue : Access → Lower σ π Unit}
    {thenValue' elseValue' : Access → Semcheck.Lower Unit} (dest : Access)
    (hthen : Follows p ρ D id (thenValue dest) (thenValue' dest))
    (helse : Follows p ρ D id (elseValue dest) (elseValue' dest)) :
    Follows p ρ D id (makeIfElse cx condition thenValue elseValue dest)
      (.makeIfElse cx' condition thenValue' elseValue' dest) := by
  refine step_then newSegment_mirrors fun thenStart => ?_
  refine step_then assignments_mirrors fun before => ?_
  refine step_then newSegment_mirrors fun elseStart => ?_
  refine step_then (terminate_mirrors _) fun _ => ?_
  refine step_then (switchTo_mirrors _) fun _ => ?_
  refine (attempt_follows (settling_follows hcx hρ hthen)).andThen fun _ => ?_
  refine step_then currentSegment_mirrors fun thenEnd => ?_
  refine step_then assignments_mirrors fun afterThen => ?_
  refine step_then (updateAssignments_mirrors _ _) fun _ => ?_
  refine step_then (switchTo_mirrors _) fun _ => ?_
  refine (attempt_follows (settling_follows hcx hρ helse)).andThen fun _ => ?_
  refine step_then currentSegment_mirrors fun elseEnd => ?_
  refine step_then (updateAssignments_mirrors _ _) fun _ => ?_
  refine step_then newSegment_mirrors fun join => ?_
  refine step_then (switchTo_mirrors _) fun _ => ?_
  refine step_then (terminate_mirrors _) fun _ => ?_
  refine step_then (switchTo_mirrors _) fun _ => ?_
  refine step_then (terminate_mirrors _) fun _ => ?_
  exact step_follows (switchTo_mirrors _)

include hD in
theorem makeLoop_follows (conditionSpan bodySpan : Location)
    {condition body : Access → Lower σ π Unit} {condition' body' : Access → Semcheck.Lower Unit}
    (hcondition : ∀ dest, Follows p ρ D id (condition dest) (condition' dest))
    (hbody : ∀ dest, Follows p ρ D id (body dest) (body' dest)) (dest : Access)
    (span : Location) :
    Follows p ρ D id (makeLoop cx conditionSpan bodySpan condition body dest span)
      (.makeLoop cx' conditionSpan bodySpan condition' body' dest span) := by
  refine step_then newSegment_mirrors fun head => ?_
  refine step_then (terminate_mirrors _) fun _ => ?_
  refine step_then (switchTo_mirrors _) fun _ => ?_
  refine step_then (conditionRegister_mirrors hρ _) fun test => ?_
  refine (inLoop_follows (settling_follows hcx hρ (hcondition test))).andThen fun _ => ?_
  refine step_then assignments_mirrors fun before => ?_
  refine step_then newSegment_mirrors fun start => ?_
  refine step_then newSegment_mirrors fun after => ?_
  refine step_then (terminate_mirrors _) fun _ => ?_
  refine step_then (switchTo_mirrors _) fun _ => ?_
  refine step_then (newTemp_mirrors _) fun temp => ?_
  refine (inLoop_follows (settling_follows hcx hρ (hbody (.register temp)))).andThen fun _ => ?_
  refine step_then (terminate_mirrors _) fun _ => ?_
  refine step_then (updateAssignments_mirrors _ _) fun _ => ?_
  refine step_then (switchTo_mirrors _) fun _ => ?_
  exact stepIn_follows hcx fun c hc => moveUnit_mirrors hc hD hρ dest span

omit hcx hρ

/-! ## Blocks -/

omit [LawfulNaming σ π] in
theorem spellLocals_take (symbols : List σ) (locals : List Local) (n : Nat) :
    spellLocals p (symbols.take n) (locals.take n) = (spellLocals p symbols locals).take n := by
  rw [spellLocals, spellLocals, map_take, take_zipWith]

theorem inBlock_follows (h : Follows p ρ D id x y) : Follows p ρ D id (inBlock x) (.inBlock y) := by
  refine .look fun b b' hb => (h b b' hb).bind fun _ _ b1 b1' _ hrel hkeeps => ?_
  have hscope : KnowsAll b1.pool b.scope := hkeeps.knowsAll hb.scope
  obtain ⟨report, function, hentries, rfl⟩ : b1.spell.Mirrors ρ D b1' := hrel.mirrors
  have hcount : b'.locals.length = b.locals.length := by
    obtain ⟨_, _, _, rfl⟩ := hb.mirrors
    simp [Semcheck.Body.mirror, Body.spell, spellLocals, hb.localCount]
  have hscopes := hb.scope_eq.trans (hkeeps.scope hb.scope).symm
  refine .ok ⟨.some rfl, ⟨hrel.pool, hscope, ?_, hrel.bindings, ?_, hrel.bindingCount, ?_⟩, .refl _⟩
  · exact fun s hs => hrel.locals s (mem_of_mem_take hs)
  · simp [hrel.localCount]
  · refine ⟨report, function, hentries, ?_⟩
    simp only [Body.spell, Semcheck.Body.mirror, spellLocals_take, hcount, hscopes]

theorem addDirective_follows (path : Path) :
    Follows p ρ D id (addDirective path : Lower σ π _)
      (modify fun b => { b with scope := b.scope.extend path.toName }) := by
  intro b b' hb
  refine internPath_follows fun q symbols hq hsymbols hname => ?_
  have hb1 := hb.grow hq
  obtain ⟨report, function, hentries, rfl⟩ := hb1.mirrors
  refine .ok ⟨.some rfl, ⟨hb1.pool, ?_, hb1.locals, hb1.bindings, hb1.localCount, hb1.bindingCount,
    report, function, hentries, ?_⟩, .refl _⟩
  · exact fun n hn => (mem_cons.1 hn).elim (· ▸ hsymbols) (hb1.scope n)
  · simp only [Body.spell, Semcheck.Body.mirror, Naming.scope, map_cons, hname]
    rfl

theorem reporting_follows {R : α → β → Prop} {x : ReportM π α} {y : Semcheck.ReportM β}
    (hb : b.Spells p ρ D b') (h : ReportM.Follows b.pool D R x y) :
    SimAt (Body.spelling p ρ D) R b b' (reporting x) (Semcheck.Lower.reporting y) := by
  obtain ⟨report, function, hentries, rfl⟩ := hb.mirrors
  have hrun := h b.pool b.rest.report report (.refl _) hentries
  show Alike _ ((orFault ((x.run b.pool).run b.rest.report) >>= _ : Lower σ π α).run b)
    ((.orFault (y.run report) >>= _ : Semcheck.Lower β).run _)
  generalize (x.run b.pool).run b.rest.report = out at hrun ⊢
  generalize y.run report = out' at hrun ⊢
  cases hrun with
  | error e e' => exact .error _ _
  | @ok out out' h =>
    obtain ⟨hvalue, hpool, hentries1⟩ := h
    have hb1 := hb.grow hpool
    have hspell : b.spell.mirror ρ out'.2 function =
        ({ b with pool := out.1.2 } : Body σ π).spell.mirror ρ out'.2 function := by
      rw [hb.spell_grow hpool]
    exact .ok ⟨.some hvalue, ⟨hb1.pool, hb1.scope, hb1.locals, hb1.bindings, hb1.localCount,
      hb1.bindingCount, out'.2, function, hentries1, hspell⟩, hpool⟩

include hcx hD hρ

theorem letType_follows [DecidableEq σ] (name : Ident) (type : Option TypeExpr) :
    Follows p ρ D (.rename ρ.struct) (letType cx name type : Lower σ π _)
      (.letType cx' name type) := by
  cases type with
  | none =>
    exact step_then (newSlot_mirrors name.span) fun slot => .pure rfl
  | some type =>
    refine .look fun b b' hb => reporting_follows hb ?_
    have htype := lowerType_follows (hcx.table.grow hb.pool) hb.scope hD hρ type
    obtain ⟨report, function, hentries, rfl⟩ := hb.mirrors
    exact htype

omit [LawfulNaming σ π] hcx hD hρ in
/-- A local under a symbol is the local under its text. -/
theorem declare_follows {name : σ} (register : RegisterId) (mutable : Bool) (state : Assigned)
    (hb : b.Spells p ρ D b') (hname : Known b.pool name) (hword : text b.pool name = word) :
    SimAt (Body.spelling p ρ D) (fun _ _ : Unit => True) b b'
      (declare name word register mutable state)
      (modify fun b => { b with
        draft := b.draft.bind word register mutable
        locals := b.locals ++ [⟨word, register, mutable, state, b.loopDepth⟩] }) := by
  obtain ⟨report, function, hentries, rfl⟩ := hb.mirrors
  have hone : Knows b.pool [name] := fun s hs => mem_singleton.1 hs ▸ hname
  have hlocals : spellLocals b.pool (b.locals ++ [name])
      (b.rest.locals ++ [⟨word, register, mutable, state, b.rest.loopDepth⟩]) =
        spellLocals b.pool b.locals b.rest.locals ++
          [⟨word, register, mutable, state, b.rest.loopDepth⟩] := by
    rw [spellLocals, spellLocals, map_append,
      zipWith_append (by simpa using hb.localCount), ← hword]
    rfl
  have hbindings : Naming.bindings b.pool (b.bindings ++ [name])
      (b.rest.draft.bindings ++ [⟨word, register, mutable⟩]) =
        Naming.bindings b.pool b.bindings b.rest.draft.bindings ++ [⟨word, register, mutable⟩] := by
    rw [Naming.bindings, Naming.bindings, map_append,
      zipWith_append (by simpa using hb.bindingCount), ← hword]
    rfl
  refine .ok ⟨.some trivial, ⟨hb.pool, hb.scope, hb.locals.append hone, hb.bindings.append hone,
    ?_, ?_, report, function, hentries, ?_⟩, .refl _⟩
  · simp [hb.localCount]
  · simp [Draft.bind, hb.bindingCount]
  · simp only [Body.spell, Semcheck.Body.mirror, Draft.bind, hlocals, hbindings]
    rfl

theorem makeLet_follows [DecidableEq σ] (name : Ident) (mutable : Bool)
    (type : Option TypeExpr) {init : Option (Access → Lower σ π Unit)}
    {init' : Option (Access → Semcheck.Lower Unit)}
    (hinit : Option.Rel (fun value value' => ∀ dest, Follows p ρ D id (value dest) (value' dest))
      init init') :
    Follows p ρ D id (makeLet cx name mutable type init)
      (.makeLet cx' name mutable type init') := by
  refine (letType_follows hcx hD hρ name type).andThen fun type => ?_
  refine step_then (newRegister_mirrors _ _) fun register => ?_
  refine fun b b' hb => intern_follows fun q symbol hq hknown hword => ?_
  cases hinit with
  | none =>
    refine .bind (R := Eq) (.pure rfl (hb.grow hq)) fun done _ b1 b1' heq hb1 hkeeps => ?_
    subst heq
    refine (declare_follows register mutable .unassigned hb1 (hkeeps.known hknown)
      ((hkeeps.text hknown).trans hword)).bind fun _ _ b2 b2' _ hb2 _ => ?_
    exact Sim.ite Iff.rfl .failure (.pure rfl) b2 b2' hb2
  | some hvalue =>
    have hdone := recover_follows (settling_follows hcx hρ (hvalue (.register register)))
    -- The name stays known while the initializer is lowered.
    refine (hdone _ _ (hb.grow hq)).bind fun done _ b1 b1' heq hb1 hkeeps => ?_
    subst heq
    refine (declare_follows register mutable .assigned hb1 (hkeeps.known hknown)
      ((hkeeps.text hknown).trans hword)).bind fun _ _ b2 b2' _ hb2 _ => ?_
    exact Sim.ite Iff.rfl .failure (.pure rfl) b2 b2' hb2

theorem makeLetStmt_follows (h : Follows p ρ D id x y) (dest : Option Access) (span : Location) :
    Follows p ρ D id (makeLetStmt cx x dest span) (.makeLetStmt cx' y dest span) := by
  refine (recover_follows h).andThen fun done => ?_
  refine (stepIn_follows hcx fun c hc => statementUnit_mirrors hc hD hρ dest span).andThen
    fun _ => ?_
  exact .ite Iff.rfl .failure (.pure rfl)

omit hD in
theorem makeExprStmt_follows (hvalue : ∀ dest, Follows p ρ D id (value dest) (value' dest))
    (dest : Option Access) (span : Location) :
    Follows p ρ D id (makeExprStmt cx value dest span) (.makeExprStmt cx' value' dest span) := by
  cases dest with
  | some dest => exact settling_follows hcx hρ (hvalue dest)
  | none =>
    exact step_then (newTemp_mirrors span) fun temp =>
      settling_follows hcx hρ (hvalue (.register temp))

end Steps

end Lower

end Pooled

end Semcheck
