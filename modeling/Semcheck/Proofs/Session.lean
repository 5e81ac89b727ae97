/-
  What a session has compiled before cannot be seen.

  A compilation in a session spells the compilation of the same files by themselves
  (`Session.compile_spells`), whatever its pool holds.  So in a session that has compiled
  another program the same is seen as in a new one (`Session.compile_isolated`).
-/
import Semcheck.Proofs.Lower.Independence
import Semcheck.Proofs.Pooled.Program

namespace Semcheck

/-! ## What is seen -/

/-- What is seen of a struct. -/
structure StructView where
  name : String
  text : String
  span : Location
  fieldSpans : List Location

/-- What is seen of a function. -/
structure FunctView where
  name : String
  text : String
  span : Location
  registerSpans : List Location
  signature : Ty
  reachable : List Bool

/-- What is seen of a compilation. -/
structure Compilation.View where
  diagnostics : List Diagnostic
  truncated : Bool
  structs : List StructView
  functs : List FunctView

def StructEntry.view (names : Names) (s : StructEntry) : StructView :=
  ⟨s.name.text, structText names s.name.text s.fields, s.span, s.fields.map Field.span⟩

def FunctEntry.view (names : Names) (f : FunctEntry) : FunctView :=
  ⟨f.name.text, f.funct.text names f.name.text, f.funct.span, f.funct.registers.map Register.span,
    f.funct.signature, f.funct.reachable⟩

def Compilation.view (c : Compilation) : Compilation.View where
  diagnostics := c.report.entries
  truncated := c.truncated
  structs := c.structs.map (StructEntry.view c.table.names)
  functs := c.functs.map (FunctEntry.view c.table.names)

section Sessions

variable {σ π : Type} [DecidableEq σ] [Naming σ π]

/-- What is seen of an output: its symbols are spelled with the pool as it was left. -/
def Output.view (out : Output σ π) : Compilation.View :=
  out.spell.view

variable [LawfulNaming σ π]

/-! ## Compilations in a session -/

/-- A function is found by its name as by the symbols of the name. -/
theorem Output.funct?_spell {out : Output σ π} (h : out.table.Known out.pool) (name : String) :
    out.funct? name = out.spell.funct? name := by
  have hgrown := Naming.within_internAll out.pool (Name.parse name).segments
  have hspell := Pooled.Table.spell_within h hgrown
  have hget := Pooled.Table.get?_spell (h.within hgrown)
    (Naming.knows_internAll out.pool (Name.parse name).segments)
  rw [Naming.name_internAll, hspell] at hget
  have htable : out.spell.table = out.table.spell out.pool := rfl
  simp only [Output.funct?, Compilation.funct?, htable, hspell, ← hget]

theorem Session.compile_spells (s : Session π) (files : List SourceFile) :
    ∃ (out : Output σ π) (s' : Session π), s.compile files = .ok (out, s') ∧
      s'.config = s.config ∧ out.table.Known out.pool ∧
      Semcheck.compile s.config files = .ok out.spell := by
  have hlower := Pooled.lowerFiles_spells s.config.strict files s.pool
  obtain ⟨p, hp, hrealizes⟩ := lowerFiles_spec s.config.strict files
  obtain ⟨c, hfinish, htable, -⟩ := hrealizes.finish s.config
  rw [hp] at hlower
  rw [Session.compile, Semcheck.compile, hp]
  generalize Pooled.lowerFiles s.config.strict files s.pool = x at hlower ⊢
  cases hlower with
  | @ok P P' h =>
    obtain ⟨hknown, rfl⟩ := h
    refine ⟨⟨P.pool, P.table, c.report, c.truncated⟩, { s with pool := P.pool }, ?_, rfl, hknown,
      ?_⟩
    · simp only [bind, Except.bind, hfinish]
      rfl
    · have hspell : c.table = P.table.spell P.pool := htable
      simp only [bind, Except.bind, hfinish]
      rw [Output.spell, ← hspell]
      rfl

/-- **Sessions are isolated.**  In a session that has compiled `p`, compiling `q` gives
    what it gives in a new session. -/
theorem Session.compile_isolated (config : Config) (p q : List SourceFile) :
    ∃ (first second fresh : Output σ π) (s s₁ s₂ : Session π),
      (Session.new config : Session π).compile p = .ok (first, s) ∧
      s.compile q = .ok (second, s₁) ∧
      (Session.new config : Session π).compile q = .ok (fresh, s₂) ∧
      second.view = fresh.view ∧ ∀ name, second.funct? name = fresh.funct? name := by
  obtain ⟨first, s, hfirst, hconfig, -, -⟩ := (Session.new config : Session π).compile_spells p
  obtain ⟨second, s₁, hsecond, -, hknown, hspell⟩ := s.compile_spells q
  obtain ⟨fresh, s₂, hfresh, -, hknown', hspell'⟩ :=
    (Session.new config : Session π).compile_spells q
  rw [hconfig, hspell'] at hspell
  have hsame : fresh.spell = second.spell := Except.ok.inj hspell
  refine ⟨first, second, fresh, s, s₁, s₂, hfirst, hsecond, hfresh, ?_, fun name => ?_⟩
  · rw [Output.view, Output.view, hsame]
  · rw [Output.funct?_spell hknown, Output.funct?_spell hknown', hsame]

end Sessions

/-- The second program has an unknown name.  Its declarations have other symbols than in a
    new session, and the same is seen. -/
theorem sample_isolated :
    ∃ (first second fresh : Output Symbol Interner) (s s₁ s₂ : Session Interner),
      (Session.new .default : Session Interner).compile Sample.program = .ok (first, s) ∧
      s.compile (Sample.calls (Sample.var "y")) = .ok (second, s₁) ∧
      (Session.new .default : Session Interner).compile (Sample.calls (Sample.var "y")) =
        .ok (fresh, s₂) ∧
      second.table.index ≠ fresh.table.index ∧ second.view = fresh.view ∧
      second.funct? "a::id" = fresh.funct? "a::id" := by
  obtain ⟨first, second, fresh, s, s₁, s₂, hfirst, hsecond, hfresh, hview, hfunct⟩ :=
    Session.compile_isolated (π := Interner) .default Sample.program (Sample.calls (Sample.var "y"))
  have hsymbols :
      ∃ one ∈ ((Session.new .default : Session Interner).compile Sample.program).toOption,
      ∃ two ∈ (one.2.compile (Sample.calls (Sample.var "y"))).toOption,
      ∃ new ∈ ((Session.new .default : Session Interner).compile
        (Sample.calls (Sample.var "y"))).toOption,
        two.1.table.index ≠ new.1.table.index := by decide +kernel
  rw [hfirst, hfresh] at hsymbols
  obtain ⟨_, ⟨⟩, two, htwo, _, ⟨⟩, hne⟩ := hsymbols
  rw [hsecond] at htwo
  cases htwo
  exact ⟨first, second, fresh, s, s₁, s₂, hfirst, hsecond, hfresh, hne, hview, hfunct "a::id"⟩

end Semcheck
