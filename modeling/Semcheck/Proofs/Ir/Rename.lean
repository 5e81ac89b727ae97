/-
  Functions with other numbers for structs and functions.

  A `Renaming` says which declaration takes the place of which.  It is faithful if
  different declarations stay different and the builtins stay what they are.  The
  text of a function does not show the numbers, only the names of the declarations,
  so that a renamed function has the same text (`Function.text_rename`).
-/
import Semcheck.Decl.Table
import Semcheck.Ir.Draft
import Semcheck.Proofs.Ty.Rename

namespace Semcheck

open List Ty

/-- Other numbers for the structs and the functions. -/
structure Renaming where
  struct : StructId → StructId
  funct : FunctId → FunctId

namespace Renaming

/-- Every number stays. -/
def identity : Renaming := ⟨id, id⟩

def decl (ρ : Renaming) : Decl → Decl
  | .struct id => .struct (ρ.struct id)
  | .funct id => .funct (ρ.funct id)

structure Faithful (ρ : Renaming) : Prop where
  struct : Function.Injective ρ.struct
  funct : Function.Injective ρ.funct
  int : ρ.struct .int = .int
  bool : ρ.struct .bool = .bool

theorem identity_faithful : identity.Faithful :=
  ⟨fun _ _ h => h, fun _ _ h => h, rfl, rfl⟩

@[simp] theorem decl_identity : identity.decl = id := by
  funext d
  cases d <;> rfl

theorem Faithful.decl {ρ : Renaming} (h : ρ.Faithful) : Function.Injective ρ.decl := by
  intro d e heq
  cases d <;> cases e <;> simp only [Renaming.decl, Decl.struct.injEq, Decl.funct.injEq,
    reduceCtorEq] at heq ⊢
  · exact h.struct heq
  · exact h.funct heq

end Renaming

/-! ## Parts of functions -/

section Parts

variable (ρ : Renaming)

def Literal.rename : Literal → Literal
  | .struct id fields => .struct (ρ.struct id) fields
  | .funct id => .funct (ρ.funct id)
  | .int value => .int value
  | .bool value => .bool value
  | .tuple elements => .tuple elements

def Instruction.rename : Instruction → Instruction
  | .literal value dest => .literal (value.rename ρ) dest
  | .move source dest => .move source dest
  | .address source mutable dest => .address source mutable dest
  | .call callee args dest => .call callee args dest

def Segment.rename (s : Segment) : Segment :=
  { s with instructions := s.instructions.map (Instruction.rename ρ) }

def OpenSegment.rename (s : OpenSegment) : OpenSegment :=
  { s with instructions := s.instructions.map (Instruction.rename ρ) }

def Register.rename (r : Register) : Register :=
  { r with type := r.type.rename ρ.struct }

def Field.rename (f : Field) : Field :=
  { f with type := f.type.rename ρ.struct }

def StructEntry.rename (s : StructEntry) : StructEntry :=
  { s with fields := s.fields.map (Field.rename ρ) }

def Function.rename (f : Function) : Function :=
  { f with
    registers := f.registers.map (Register.rename ρ)
    segments := f.segments.map (Segment.rename ρ)
    returnType := f.returnType.rename ρ.struct }

end Parts

variable {ρ : Renaming}

@[simp] theorem Field.name_rename (f : Field) : (f.rename ρ).name = f.name := rfl

@[simp] theorem Field.type_rename (f : Field) : (f.rename ρ).type = f.type.rename ρ.struct := rfl

theorem findField_rename (name : String) (fields : List Field) :
    findField name (fields.map (.rename ρ)) =
      (findField name fields).map fun found => (found.1, found.2.rename ρ) := by
  rw [findField, findField, zipIdx_map, find?_map, Option.map_map, Option.map_map]
  rfl

theorem Function.signature_rename (f : Function) :
    (f.rename ρ).signature = f.signature.rename ρ.struct := by
  simp [signature, params, rename, map_take, Register.rename, Function.comp_def]

/-! ## Nothing renamed -/

section Identity

@[simp] theorem Ty.rename_identity : Ty.rename Renaming.identity.struct = id :=
  funext rename_id

@[simp] theorem Instruction.rename_identity : rename .identity = id := by
  funext i
  cases i with
  | literal value dest => cases value <;> rfl
  | _ => rfl

@[simp] theorem Segment.rename_identity : rename .identity = id := by
  funext s
  simp [rename]

@[simp] theorem Register.rename_identity : rename .identity = id := by
  funext r
  simp [rename]

@[simp] theorem Field.rename_identity : rename .identity = id := by
  funext f
  simp [rename]

@[simp] theorem StructEntry.rename_identity : rename .identity = id := by
  funext s
  simp [rename]

@[simp] theorem Function.rename_identity : rename .identity = id := by
  funext f
  simp [rename]

end Identity

/-! ## Texts -/

/-- The renamed declarations are printed under the old names. -/
structure Names.Follows (ρ : Renaming) (names names' : Names) : Prop where
  struct : ∀ id, names'.struct (ρ.struct id) = names.struct id
  funct : ∀ id, names'.funct (ρ.funct id) = names.funct id

section Texts

variable {names names' : Names} (h : names.Follows ρ names')
include h

theorem Instruction.text_rename (i : Instruction) : (i.rename ρ).text names' = i.text names := by
  cases i with
  | literal value dest =>
    cases value with
    | struct id fields => simp [rename, Literal.rename, text, Literal.text, h.struct]
    | funct id => simp [rename, Literal.rename, text, Literal.text, h.funct]
    | tuple elements =>
      rcases elements with _ | ⟨a, _ | ⟨b, rest⟩⟩ <;>
        simp [rename, Literal.rename, text, Literal.text]
    | _ => rfl
  | _ => rfl

theorem Function.registerTexts_rename (f : Function) :
    (f.rename ρ).registerTexts names' = f.registerTexts names := by
  simp [registerTexts, rename, zipIdx_map, Function.comp_def, Register.rename, text_rename h.struct]

theorem Function.text_rename (name : String) (f : Function) :
    (f.rename ρ).text names' name = f.text names name := by
  have hreturns : (f.rename ρ).returnType.text names'.struct = f.returnType.text names.struct :=
    Ty.text_rename h.struct f.returnType
  have hheader : (f.rename ρ).header names' name = f.header names name := by
    rw [header, header, registerTexts_rename h, hreturns]
    rfl
  have hlines : (f.rename ρ).lines names' name = f.lines names name := by
    rw [lines, lines, hheader, registerTexts_rename h]
    simp [rename, zipIdx_map, flatMap_map, Segment.rename, Function.comp_def,
      Instruction.text_rename h]
  rw [text, text, hlines]

theorem structText_rename (name : String) (fields : List Field) :
    structText names' name (fields.map (.rename ρ)) = structText names name fields := by
  cases fields with
  | nil => rfl
  | cons field fields =>
    simp [structText, Function.comp_def, text_rename h.struct]

end Texts

end Semcheck
