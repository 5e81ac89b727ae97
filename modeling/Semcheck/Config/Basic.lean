/-
  The settings of a compilation.

  A configuration has three settings, each with a default.  It is read from a
  list of named values, in which a name may occur once and every name has to be
  known (`Config.ofSettings?`), or from JSON (`Config.ofJson?`).
-/
import Semcheck.Json.Basic

namespace Semcheck

/-- The settings of a compilation. -/
structure Config where
  /-- A second type that conflicts with an inferred type is an error, and does
      not replace it. -/
  strict : Bool
  /-- Finished functions are verified. -/
  verify : Bool
  /-- At most so many diagnostics are kept. -/
  maxErrors : Option Nat
deriving DecidableEq

namespace Config

def default : Config := ⟨true, true, none⟩

/-- The names of the settings. -/
def keys : List String := ["strict_inference", "verify_ir", "max_errors"]

/-- The value of a setting in a settings file. -/
inductive Setting where
  | flag (value : Bool)
  | number (value : Int)
deriving DecidableEq

def set (c : Config) : String → Setting → Option Config
  | "strict_inference", .flag b => some { c with strict := b }
  | "verify_ir", .flag b => some { c with verify := b }
  | "max_errors", .number n => if 0 ≤ n then some { c with maxErrors := some n.toNat } else none
  | _, _ => none

/-- The defaults with the given changes; no setting may be given twice. -/
def ofSettings? (settings : List (String × Setting)) : Option Config :=
  if (settings.map Prod.fst).Nodup then
    settings.foldlM (fun c entry => c.set entry.1 entry.2) default
  else none

/-! ## JSON -/

/-- Read a flag; a missing one has its default. -/
def flagOr (value : Bool) : Option Json → Option Bool
  | none => some value
  | some json => json.bool?

/-- Every member of an object is a setting. -/
def knowsMembers : Json → Bool
  | .obj members => members.all fun m => m.1.any fun key => keys.contains key
  | _ => true

/-- Read a configuration: an object whose members are settings, or a list of
    the settings in order. -/
def ofJson? (json : Json) : Option Config := do
  if !knowsMembers json then none
  match ← json.record keys with
  | [strict, verify, maxErrors] =>
    return {
      strict := ← flagOr default.strict strict
      verify := ← flagOr default.verify verify
      maxErrors := ← Json.option? Json.nat64? maxErrors
    }
  | _ => none

def toJson (c : Config) : Json :=
  .object [
    ("strict_inference", .bool c.strict),
    ("verify_ir", .bool c.verify),
    ("max_errors", .ofOption .nat c.maxErrors)]

end Config

end Semcheck
