/-
  What a written name means.

  A name means the declaration that has it and, unless it is absolute, those that have
  it under a directive in scope (`Table.Means`).  Several directives may lead to one
  declaration, and to the one the name itself leads to: looking a name up lists what
  it means, each declaration once (`nodup_lookup`, `Indexed.mem_lookup`).

  Resolving only counts the list (`onlyDecl_eq_ok`, `onlyDecl_undeclared`,
  `onlyDecl_ambiguous`), so it depends on what the name means and not on the order
  of the directives (`resolve_exact`).
-/
import Semcheck.Proofs.Decl.History

namespace Semcheck

open List

/-- The declaration has the name as it is written or, unless this is absolute, the name
    under a directive in scope. -/
def Table.Means (t : Table) (name : Name) (absolute : Bool) (scope : UseScope) (d : Decl) : Prop :=
  t.name? d = some name ∨
    absolute = false ∧ ∃ directive ∈ scope.directives, t.name? d = some (directive.join name)

section Lists

variable {α : Type}

theorem nodup_eraseDups [DecidableEq α] (xs : List α) : xs.eraseDups.Nodup := by
  cases xs with
  | nil => simp
  | cons x xs =>
    have hrest := nodup_eraseDups (xs.filter fun y => !y == x)
    rw [eraseDups_cons]
    exact nodup_cons.2 ⟨by simp, hrest⟩
termination_by xs.length
decreasing_by exact Nat.lt_succ_of_le (length_filter_le _ _)

theorem eq_singleton_iff {xs : List α} (h : xs.Nodup) {a : α} : xs = [a] ↔ ∀ b, b ∈ xs ↔ b = a := by
  rw [← perm_singleton, perm_ext_iff_of_nodup h (nodup_singleton a)]
  simp

theorem two_le_length_iff {xs : List α} (h : xs.Nodup) :
    2 ≤ xs.length ↔ ∃ a b, a ≠ b ∧ a ∈ xs ∧ b ∈ xs := by
  constructor
  · intro hlen
    obtain ⟨a, b, rest, rfl⟩ : ∃ a b rest, xs = a :: b :: rest := by
      rcases xs with _ | ⟨a, _ | ⟨b, rest⟩⟩
      · simp at hlen
      · simp at hlen
      · exact ⟨a, b, rest, rfl⟩
    refine ⟨a, b, fun hab => ?_, by simp, by simp⟩
    simp [hab] at h
  · rintro ⟨a, b, hab, ha, hb⟩
    by_contra hlen
    rcases xs with _ | ⟨c, _ | ⟨d, rest⟩⟩
    · simp at ha
    · exact hab ((mem_singleton.1 ha).trans (mem_singleton.1 hb).symm)
    · simp at hlen

end Lists

namespace Table

variable {t : Table} {name : Name} {absolute : Bool} {scope : UseScope} {span : Location} {d : Decl}
  {candidates : List Decl}

/-! ## The list of candidates -/

theorem mem_readings {full : Name} : full ∈ readings name absolute scope ↔
    full = name ∨ absolute = false ∧ ∃ directive ∈ scope.directives, full = directive.join name := by
  cases absolute with
  | true => simp [readings]
  | false => simp [readings, eq_comm, or_comm]

theorem nodup_lookup (t : Table) (name : Name) (absolute : Bool) (scope : UseScope) :
    (t.lookup name absolute scope).Nodup :=
  nodup_eraseDups _

theorem Indexed.mem_lookup (h : t.Indexed) :
    d ∈ t.lookup name absolute scope ↔ t.Means name absolute scope d := by
  simp only [lookup, mem_eraseDups, mem_filterMap, mem_readings, h _ d, Means]
  constructor
  · rintro ⟨full, rfl | ⟨habsolute, directive, hmem, rfl⟩, hd⟩
    · exact .inl hd
    · exact .inr ⟨habsolute, directive, hmem, hd⟩
  · rintro (hd | ⟨habsolute, directive, hmem, hd⟩)
    · exact ⟨name, .inl rfl, hd⟩
    · exact ⟨_, .inr ⟨habsolute, directive, hmem, rfl⟩, hd⟩

/-- What a name means depends on the directives in scope, not on their order or number. -/
theorem means_congr {scope' : UseScope}
    (h : ∀ directive, directive ∈ scope'.directives ↔ directive ∈ scope.directives) :
    t.Means name absolute scope' d ↔ t.Means name absolute scope d := by
  simp only [Means, h]

/-! ## The only candidate -/

theorem onlyDecl_eq_ok : t.onlyDecl candidates name span = .ok (.ok d) ↔ candidates = [d] := by
  rcases candidates with _ | ⟨c, _ | ⟨c', rest⟩⟩
  · simp [onlyDecl]
  · simp [onlyDecl]
  · cases hnames : t.displayNames (c :: c' :: rest) <;>
      simp [onlyDecl, hnames, Bind.bind, Except.bind, Pure.pure, Except.pure]

theorem onlyDecl_undeclared :
    (∃ suggestions, t.onlyDecl candidates name span =
      .ok (.error (.undeclared name.text span suggestions))) ↔ candidates = [] := by
  rcases candidates with _ | ⟨c, _ | ⟨c', rest⟩⟩
  · simp [onlyDecl]
  · simp [onlyDecl]
  · cases hnames : t.displayNames (c :: c' :: rest) <;>
      simp [onlyDecl, hnames, Bind.bind, Except.bind, Pure.pure, Except.pure]

/-- The names of several candidates are all known. -/
theorem onlyDecl_ambiguous (h : ∀ d ∈ candidates, d.Within t.structs.length t.functs.length) :
    (∃ names, t.onlyDecl candidates name span =
      .ok (.error (.ambiguous name.text names span))) ↔ 2 ≤ candidates.length := by
  rcases candidates with _ | ⟨c, _ | ⟨c', rest⟩⟩
  · simp [onlyDecl]
  · simp [onlyDecl]
  · obtain ⟨names, hnames⟩ := displayNames_ok h
    simp [onlyDecl, hnames, Bind.bind, Except.bind, Pure.pure, Except.pure]

theorem Means.within (h : t.Means name absolute scope d) :
    d.Within t.structs.length t.functs.length := by
  rw [← isSome_name?]
  rcases h with hd | ⟨-, directive, -, hd⟩ <;> rw [hd] <;> rfl

/-- **Looking up is exact.**  The candidates for a name are the declarations it means, each
    once.  The name resolves to `d` exactly if it means `d` and nothing else, is undeclared
    exactly if it means nothing and ambiguous exactly if it means several declarations.
    Directives in another order, or repeated, make no difference to the outcome. -/
theorem resolve_exact (ht : t.Indexed) (name : Name) (absolute : Bool) (scope : UseScope)
    (span : Location) :
    (t.lookup name absolute scope).Nodup ∧
    (∀ d, d ∈ t.lookup name absolute scope ↔ t.Means name absolute scope d) ∧
    (∀ d, t.resolve name absolute scope span = .ok (.ok d) ↔
      ∀ e, t.Means name absolute scope e ↔ e = d) ∧
    ((∃ suggestions, t.resolve name absolute scope span =
      .ok (.error (.undeclared name.text span suggestions))) ↔
        ∀ d, ¬ t.Means name absolute scope d) ∧
    ((∃ candidates, t.resolve name absolute scope span =
      .ok (.error (.ambiguous name.text candidates span))) ↔
        ∃ d e, d ≠ e ∧ t.Means name absolute scope d ∧ t.Means name absolute scope e) ∧
    ∀ scope' : UseScope,
      (∀ directive, directive ∈ scope'.directives ↔ directive ∈ scope.directives) →
      ∀ d, t.resolve name absolute scope' span = .ok (.ok d) ↔
        t.resolve name absolute scope span = .ok (.ok d) := by
  have hresolve : ∀ scope d, t.resolve name absolute scope span = .ok (.ok d) ↔
      ∀ e, t.Means name absolute scope e ↔ e = d := fun scope d => by
    simp only [resolve, onlyDecl_eq_ok, eq_singleton_iff (nodup_lookup ..), ht.mem_lookup]
  refine ⟨nodup_lookup .., fun d => ht.mem_lookup, hresolve scope, ?_, ?_, fun scope' hscope d => ?_⟩
  · simp only [resolve, onlyDecl_undeclared, List.eq_nil_iff_forall_not_mem, ht.mem_lookup]
  · rw [resolve, onlyDecl_ambiguous fun d hd => (ht.mem_lookup.1 hd).within,
      two_le_length_iff (nodup_lookup ..)]
    simp only [ht.mem_lookup]
  · simp only [hresolve, means_congr hscope]

/-- A directive that is repeated or leads to the name itself counts once; two directives
    that lead to two declarations make the name ambiguous. -/
theorem resolve_exact_two_spaces :
    (history [.struct ⟨["a", "x"]⟩ .nowhere, .funct ⟨["b", "x"]⟩ .nowhere]).Indexed ∧
    (history [.struct ⟨["a", "x"]⟩ .nowhere, .funct ⟨["b", "x"]⟩ .nowhere]).resolve ⟨["x"]⟩ false
      ⟨[⟨["a"]⟩, .root, ⟨["a"]⟩]⟩ .nowhere = .ok (.ok (.struct ⟨2⟩)) ∧
    ∃ candidates, (history [.struct ⟨["a", "x"]⟩ .nowhere,
      .funct ⟨["b", "x"]⟩ .nowhere]).resolve ⟨["x"]⟩ false ⟨[⟨["a"]⟩, .root, ⟨["b"]⟩]⟩ .nowhere =
        .ok (.error (.ambiguous (Name.text ⟨["x"]⟩) candidates .nowhere)) := by
  have ht := (history_records
    [.struct ⟨["a", "x"]⟩ .nowhere, .funct ⟨["b", "x"]⟩ .nowhere]).indexed
  refine ⟨ht, ?_, ?_⟩
  · obtain ⟨-, -, -, -, -, hscope⟩ := resolve_exact ht ⟨["x"]⟩ false ⟨[.root, ⟨["a"]⟩]⟩ .nowhere
    exact (hscope ⟨[⟨["a"]⟩, .root, ⟨["a"]⟩]⟩ (by simp [or_comm]) _).2 (by decide)
  · obtain ⟨-, -, -, -, hambiguous, -⟩ :=
      resolve_exact ht ⟨["x"]⟩ false ⟨[⟨["a"]⟩, .root, ⟨["b"]⟩]⟩ .nowhere
    exact hambiguous.2 ⟨.struct ⟨2⟩, .funct ⟨0⟩, by decide,
      .inr ⟨rfl, ⟨["a"]⟩, by decide, by decide⟩, .inr ⟨rfl, ⟨["b"]⟩, by decide, by decide⟩⟩

end Table

end Semcheck
