/-
  What a pool is assumed to do, and lookup by symbols.

  A pool is lawful (`LawfulNaming`) if a text keeps the symbol it was given and a symbol
  gives back its text; different texts then have different symbols.  A pool only grows
  (`Naming.Within`), and a symbol that is known in it stays known, with the same text.

  A table whose symbols are all known answers every question about symbols as the table
  it spells answers the question about their texts: `Table.get?_spell`,
  `Table.resolve_spell`, `findField_spell`.
-/
import Mathlib.Data.List.Basic
import Mathlib.Data.List.Find
import Semcheck.Pooled.Table

namespace Semcheck

open List Option Name

/-! ## Pools -/

/-- A pool that maps equal texts to equal symbols, different texts to different ones,
    and symbols back to their texts. -/
class LawfulNaming (σ : outParam Type) (π : Type) [Naming σ π] : Prop where
  get?_intern : ∀ (pool : π) (text : String),
    Naming.get? (Naming.intern pool text).2 text = some (Naming.intern pool text).1
  get?_kept : ∀ {pool : π} {other : String} {symbol : σ} (text : String),
    Naming.get? pool other = some symbol → Naming.get? (Naming.intern pool text).2 other = some symbol
  text_eq : ∀ {pool : π} {text : String} {symbol : σ},
    Naming.get? pool text = some symbol → Naming.text pool symbol = text

instance : LawfulNaming Symbol Interner where
  get?_intern pool text := by
    show (pool.intern text).2.get? text = some (pool.intern text).1
    cases hget : pool.get? text with
    | some symbol => simp only [Interner.intern, hget]
    | none =>
      have hnew : pool.texts.findIdx? (· = text) = none := by
        simpa [Interner.get?] using hget
      simp only [Interner.intern, hget]
      simp [Interner.get?, findIdx?_append, hnew, findIdx?_cons]
  get?_kept {pool other symbol} text hother := by
    show (pool.intern text).2.get? other = some symbol
    change pool.get? other = some symbol at hother
    cases hget : pool.get? text with
    | some found => simpa only [Interner.intern, hget] using hother
    | none =>
      obtain ⟨i, hi, rfl⟩ := Option.map_eq_some_iff.1 hother
      simp only [Interner.intern, hget]
      simp [Interner.get?, findIdx?_append, hi]
  text_eq {pool text symbol} hget := by
    change pool.get? text = some symbol at hget
    obtain ⟨i, hi, rfl⟩ := Option.map_eq_some_iff.1 hget
    obtain ⟨hlt, htext, -⟩ := findIdx?_eq_some_iff_getElem.1 hi
    show (pool.texts[i]?).getD "" = text
    simpa [getElem?_eq_getElem hlt] using htext

namespace Naming

variable {σ π : Type} [Naming σ π] {p q r : π} {s s' : σ} {word : String} {m n symbols : List σ}
  {ns : List (List σ)}

/-- The texts of the pool `p` have their symbols in `q` as well. -/
def Within (p q : π) : Prop :=
  ∀ (text : String) (s : σ), get? p text = some s → get? q text = some s

/-- The symbol belongs to a text of the pool. -/
def Known (p : π) (s : σ) : Prop :=
  get? p (Naming.text p s) = some s

theorem Within.refl (p : π) : Within p p := fun _ _ h => h

theorem Within.trans (h : Within p q) (h' : Within q r) : Within p r :=
  fun text s hs => h' text s (h text s hs)

/-- Symbols are equal if their texts are. -/
theorem Known.text_inj (hs : Known p s) (hs' : Known p s') :
    Naming.text p s = Naming.text p s' ↔ s = s' := by
  constructor
  · intro h
    exact some.inj (hs.symm.trans (h ▸ hs'))
  · intro h
    rw [h]

def Knows (p : π) (symbols : List σ) : Prop :=
  ∀ s ∈ symbols, Known p s

def KnowsAll (p : π) (names : List (List σ)) : Prop :=
  ∀ n ∈ names, Knows p n

theorem Knows.append (hn : Knows p n) (hm : Knows p m) : Knows p (n ++ m) :=
  fun s hs => (mem_append.1 hs).elim (hn s) (hm s)

theorem name_append (n m : List σ) : name p (n ++ m) = (name p n).join (name p m) := by
  simp [name, Name.join]

theorem name_inj (hn : Knows p n) (hm : Knows p m) : name p n = name p m ↔ n = m := by
  constructor
  · intro h
    have htexts : n.map (Naming.text p) = m.map (Naming.text p) := congrArg segments h
    clear h
    induction n generalizing m with
    | nil =>
      cases m with
      | nil => rfl
      | cons s m => simp at htexts
    | cons s n ih =>
      cases m with
      | nil => simp at htexts
      | cons s' m =>
        simp only [map_cons, cons.injEq] at htexts
        have hs : s = s' := ((hn s (by simp)).text_inj (hm s' (by simp))).1 htexts.1
        have hnm : n = m := ih (fun s hs => hn s (by simp [hs])) (fun s hs => hm s (by simp [hs]))
          htexts.2
        rw [hs, hnm]
  · intro h
    rw [h]

variable [LawfulNaming σ π]

theorem within_intern (p : π) (text : String) : Within p (intern p text).2 :=
  fun _ _ h => LawfulNaming.get?_kept text h

theorem within_internAll (p : π) (texts : List String) : Within p (internAll p texts).2 := by
  induction texts generalizing p with
  | nil => exact .refl p
  | cons text rest ih => exact (within_intern p text).trans (ih _)

theorem known_of_get? (h : get? p word = some s) : Known p s := by
  rw [Known, LawfulNaming.text_eq h]
  exact h

theorem Within.text (h : Within p q) (hs : Known p s) : Naming.text q s = Naming.text p s :=
  LawfulNaming.text_eq (h _ _ hs)

theorem Within.known (h : Within p q) (hs : Known p s) : Known q s :=
  known_of_get? (h _ _ hs)

theorem Known.get?_iff (hs : Known p s) : get? p word = some s ↔ Naming.text p s = word :=
  ⟨LawfulNaming.text_eq, fun h => h ▸ hs⟩

theorem text_intern (p : π) (text : String) : Naming.text (intern p text).2 (intern p text).1 = text :=
  LawfulNaming.text_eq (LawfulNaming.get?_intern p text)

/-! ## Names -/

section

variable (h : Within p q)
include h

theorem Within.knows (hn : Knows p n) : Knows q n :=
  fun s hs => h.known (hn s hs)

theorem Within.knowsAll (hns : KnowsAll p ns) : KnowsAll q ns :=
  fun n hn => h.knows (hns n hn)

theorem Within.map_text (hs : Knows p symbols) :
    symbols.map (Naming.text q) = symbols.map (Naming.text p) :=
  map_congr_left fun s hs' => h.text (hs s hs')

theorem Within.name (hn : Knows p n) : name q n = name p n := by
  rw [Naming.name, Naming.name, h.map_text hn]

theorem Within.scope (hns : KnowsAll p ns) : scope q ns = scope p ns := by
  have hnames : ns.map (Naming.name q) = ns.map (Naming.name p) :=
    map_congr_left fun n hn => h.name (hns n hn)
  rw [Naming.scope, Naming.scope, hnames]

theorem Within.bindings (hs : Knows p symbols) (bs : List Binding) :
    bindings q symbols bs = bindings p symbols bs := by
  rw [Naming.bindings, Naming.bindings, h.map_text hs]

end

theorem knows_internAll (p : π) (texts : List String) :
    Knows (internAll p texts).2 (internAll p texts).1 := by
  induction texts generalizing p with
  | nil => intro s hs; simp [internAll] at hs
  | cons text rest ih =>
    intro s hs
    rcases mem_cons.1 hs with rfl | hs
    · exact (within_internAll _ rest).known (known_of_get? (LawfulNaming.get?_intern p text))
    · exact ih _ s hs

theorem name_internAll (p : π) (texts : List String) :
    name (internAll p texts).2 (internAll p texts).1 = ⟨texts⟩ := by
  induction texts generalizing p with
  | nil => rfl
  | cons text rest ih =>
    have hrest : ((internAll (intern p text).2 rest).1.map
        (Naming.text (internAll (intern p text).2 rest).2)) = rest :=
      congrArg segments (ih (intern p text).2)
    have hfirst : Naming.text (internAll (intern p text).2 rest).2 (intern p text).1 = text := by
      rw [(within_internAll _ rest).text (known_of_get? (LawfulNaming.get?_intern p text)),
        text_intern]
    show Name.mk (Naming.text (internAll (intern p text).2 rest).2 (intern p text).1 ::
      (internAll (intern p text).2 rest).1.map
        (Naming.text (internAll (intern p text).2 rest).2)) = ⟨text :: rest⟩
    rw [hfirst, hrest]

end Naming

/-! ## Names in lists -/

section Named

variable {α : Type} {name : α → String} {rename : String → α → α}

theorem map_zipWith_rename (hname : ∀ text x, name (rename text x) = text) {texts : List String}
    {xs : List α} (h : texts.length = xs.length) : (texts.zipWith rename xs).map name = texts := by
  induction texts generalizing xs with
  | nil => rfl
  | cons text texts ih =>
    cases xs with
    | nil => simp at h
    | cons x xs => simp [hname, ih (Nat.succ.inj h)]

theorem zipWith_rename_self (hself : ∀ x, rename (name x) x = x) (xs : List α) :
    (xs.map name).zipWith rename xs = xs := by
  induction xs with
  | nil => rfl
  | cons x xs ih => simp [hself, ih]

end Named

/-- Bindings that have the names already are what the symbols spell. -/
theorem Naming.bindings_self {σ π : Type} [Naming σ π] {p : π} {symbols : List σ}
    {bs : List Binding} (h : symbols.map (Naming.text p) = bs.map Binding.name) :
    Naming.bindings p symbols bs = bs := by
  rw [Naming.bindings, h]
  exact zipWith_rename_self (fun _ => rfl) bs

/-! ## Tables -/

namespace Pooled

open Naming

variable {σ π : Type} [Naming σ π] {p q : π} {scope : List (List σ)} {n : List σ}
  {fields : List (Field σ)}

/-- All symbols of a table are known, and every binding of a function has a symbol. -/
structure Table.Known (p : π) (t : Table σ) : Prop where
  index : ∀ entry ∈ t.index, Knows p entry.1
  structs : ∀ entry ∈ t.structs, Knows p entry.name ∧ ∀ f ∈ entry.fields, Naming.Known p f.name
  functs : ∀ entry ∈ t.functs, Knows p entry.name ∧ Knows p entry.bindings ∧
    entry.bindings.length = entry.funct.bindings.length

section Growth

variable [LawfulNaming σ π]

theorem Table.Known.within {t : Table σ} (ht : t.Known p) (h : Within p q) : t.Known q where
  index entry he := h.knows (ht.index entry he)
  structs entry he :=
    ⟨h.knows (ht.structs entry he).1, fun f hf => h.known ((ht.structs entry he).2 f hf)⟩
  functs entry he :=
    ⟨h.knows (ht.functs entry he).1, h.knows (ht.functs entry he).2.1, (ht.functs entry he).2.2⟩

theorem Table.spell_within {t : Table σ} (ht : t.Known p) (h : Within p q) :
    t.spell q = t.spell p := by
  have hfields : ∀ entry ∈ t.structs,
      entry.fields.map (Field.spell q) = entry.fields.map (Field.spell p) := by
    intro entry he
    refine map_congr_left fun f hf => ?_
    rw [Field.spell, Field.spell, h.text ((ht.structs entry he).2 f hf)]
  have hindex : t.index.map (fun entry => (name q entry.1, entry.2)) =
      t.index.map fun entry => (name p entry.1, entry.2) :=
    map_congr_left fun entry he => by rw [h.name (ht.index entry he)]
  have hstructs : t.structs.map (StructEntry.spell q) = t.structs.map (StructEntry.spell p) :=
    map_congr_left fun entry he => by
      rw [StructEntry.spell, StructEntry.spell, h.name (ht.structs entry he).1, hfields entry he]
  have hfuncts : t.functs.map (FunctEntry.spell q) = t.functs.map (FunctEntry.spell p) :=
    map_congr_left fun entry he => by
      obtain ⟨hname, hbindings, -⟩ := ht.functs entry he
      rw [FunctEntry.spell, FunctEntry.spell, FunctEntry.function, FunctEntry.function, h.name hname,
        h.bindings hbindings]
  rw [Table.spell, Table.spell, hindex, hstructs, hfuncts]

end Growth

/-! ## Lookup -/

theorem Table.fields_spell (t : Table σ) (id : StructId) :
    (t.spell p).fields id = (t.fields id).map (map (Field.spell p)) := by
  simp only [Semcheck.Table.fields, Semcheck.Table.struct?, Table.fields, Table.spell, getElem?_map]
  cases t.structs[id.index]? <;> rfl

variable {t : Table σ}

theorem Table.fields_eq_ok {id : StructId} :
    t.fields id = .ok fields ↔ ∃ entry, t.structs[id.index]? = some entry ∧
      entry.fields = fields := by
  rw [Table.fields]
  cases t.structs[id.index]? <;> simp

theorem Table.funct_spell (t : Table σ) (id : FunctId) :
    (t.spell p).funct id = (t.funct id).map (FunctEntry.function p) := by
  simp only [Semcheck.Table.funct, Semcheck.Table.funct?, Table.funct, Table.spell, getElem?_map]
  cases t.functs[id.index]? <;> rfl

theorem Table.funct_eq_ok {id : FunctId} {entry : FunctEntry σ} :
    t.funct id = .ok entry ↔ t.functs[id.index]? = some entry := by
  rw [Table.funct]
  cases t.functs[id.index]? <;> simp

variable [DecidableEq σ]

theorem Table.get?_spell (ht : t.Known p) (hn : Knows p n) :
    (t.spell p).get? (name p n) = t.get? n := by
  have hfind : ∀ entries : List (List σ × Decl), (∀ entry ∈ entries, Knows p entry.1) →
      ((entries.map fun entry => (name p entry.1, entry.2)).find? fun entry =>
        entry.1 = name p n).map Prod.snd =
          (entries.find? fun entry => entry.1 = n).map Prod.snd := by
    intro entries
    induction entries with
    | nil => intro _; rfl
    | cons entry entries ih =>
      intro hentries
      rw [forall_mem_cons] at hentries
      by_cases heq : entry.1 = n
      · simp [heq]
      · have hne : name p entry.1 ≠ name p n := fun h => heq ((name_inj hentries.1 hn).1 h)
        simpa [heq, hne] using ih hentries.2
  exact hfind t.index ht.index

theorem Table.lookup_spell (ht : t.Known p) (hn : Knows p n) (absolute : Bool)
    (hscope : KnowsAll p scope) :
    (t.spell p).lookup (name p n) absolute (Naming.scope p scope) = t.lookup n absolute scope := by
  have hreadings : Semcheck.Table.readings (name p n) absolute (Naming.scope p scope) =
      (readings n absolute scope).map (name p) := by
    cases absolute with
    | true => simp [Semcheck.Table.readings, readings]
    | false =>
      simp [Semcheck.Table.readings, readings, Naming.scope, name_append, Function.comp_def]
  have hknown : ∀ m ∈ readings n absolute scope, Knows p m := by
    intro m hm
    cases absolute with
    | true =>
      simp only [readings, if_true, mem_singleton] at hm
      exact hm ▸ hn
    | false =>
      simp only [readings, Bool.false_eq_true, if_false, mem_append, List.mem_map,
        mem_singleton] at hm
      rcases hm with ⟨directive, hdirective, rfl⟩ | rfl
      · exact (hscope directive hdirective).append hn
      · exact hn
  have hfound : ((readings n absolute scope).map (name p)).filterMap (t.spell p).get? =
      (readings n absolute scope).filterMap t.get? := by
    rw [filterMap_map]
    exact filterMap_congr fun m hm => Table.get?_spell ht (hknown m hm)
  rw [Semcheck.Table.lookup, Table.lookup, hreadings, hfound]

theorem Table.resolve_spell (ht : t.Known p) (hn : Knows p n) (absolute : Bool)
    (hscope : KnowsAll p scope) (span : Location) :
    t.resolve p n absolute scope span =
      (t.spell p).resolve (name p n) absolute (Naming.scope p scope) span := by
  rw [Table.resolve, Semcheck.Table.resolve, Table.lookup_spell ht hn absolute hscope]

theorem Table.resolveType_spell (ht : t.Known p) (hn : Knows p n) (absolute : Bool)
    (hscope : KnowsAll p scope) (span : Location) :
    t.resolveType p n absolute scope span =
      (t.spell p).resolveType (name p n) absolute (Naming.scope p scope) span := by
  have hresolve := Table.resolve_spell ht hn absolute hscope span
  show (t.resolve p n absolute scope span >>= _) = _
  exact hresolve ▸ rfl

/-- Looking for a text is looking for its symbol.  A text that is not in the pool is not
    there. -/
theorem find?_symbol [LawfulNaming σ π] {α : Type} (xs : List α) (symbol : α → σ)
    (spelled : α → String)
    (hxs : ∀ x ∈ xs, Naming.Known p (symbol x) ∧ spelled x = Naming.text p (symbol x))
    (word : String) :
    xs.find? (fun x => spelled x = word) =
      (get? p word).bind fun s => xs.find? fun x => symbol x = s := by
  cases hget : get? p word with
  | none =>
    refine find?_eq_none.2 fun x hx => ?_
    obtain ⟨hknown, hspelled⟩ := hxs x hx
    intro heq
    have hsome : get? p word = some (symbol x) :=
      hknown.get?_iff.2 (hspelled.symm.trans (of_decide_eq_true heq))
    rw [hget] at hsome
    cases hsome
  | some s =>
    refine find?_congr fun x hx => ?_
    obtain ⟨hknown, hspelled⟩ := hxs x hx
    rw [hspelled, decide_eq_decide, ← hknown.get?_iff, hget, some.injEq, eq_comm]

/-- A field is found by its text as by its symbol in a grown pool. -/
theorem findField_spell [LawfulNaming σ π] (hf : ∀ f ∈ fields, Naming.Known p f.name)
    (h : Within p q) (word : String) :
    Semcheck.findField word (fields.map (Field.spell p)) =
      ((get? q word).bind fun symbol => findField symbol fields).map fun found =>
        (found.1, found.2.spell p) := by
  have hfind := find?_symbol fields.zipIdx (fun entry => entry.1.name)
    (fun entry => Naming.text p entry.1.name) (fun entry he => by
      have hknown := hf _ (fst_mem_of_mem_zipIdx he)
      exact ⟨h.known hknown, (h.text hknown).symm⟩) word
  have hspelled : Semcheck.findField word (fields.map (Field.spell p)) =
      (fields.zipIdx.find? fun entry => Naming.text p entry.1.name = word).map fun entry =>
        (entry.2, entry.1.spell p) := by
    rw [Semcheck.findField, zipIdx_map, find?_map, Option.map_map]
    rfl
  rw [hspelled, hfind, Option.map_bind]
  cases get? q word with
  | none => rfl
  | some symbol =>
    show _ = (findField symbol fields).map _
    rw [findField, Option.map_map]
    rfl

end Pooled

end Semcheck
