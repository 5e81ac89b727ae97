/-
  Bindings of slots, as substitutions.

  Bindings are ordered (`Bindings.Ordered`): no slot occurs in its own type or
  in the type of a slot that was bound later.  Hence following all bindings
  (`Bindings.apply`) leaves no bound slot behind (`not_mem_slots_apply`),
  following them at the top (`Bindings.head`) stops at a type with the same
  meaning (`apply_head`), and the type that a slot stands for is nearer to the
  end of the list than the slot (`height_head_lt`).
-/
import Semcheck.Infer.Engine
import Semcheck.Proofs.Ty.Subst

namespace Semcheck

open Ty List

namespace Bindings

variable {b : Bindings} {s : Slot} {t : Ty}

def keys (b : Bindings) : List Slot :=
  b.map Prod.fst

/-- No slot occurs in its own type or in a type that was bound later. -/
def Ordered : Bindings → Prop
  | [] => True
  | (s, t) :: rest =>
    s ∉ t.slots ∧ (∀ entry ∈ rest, entry.1 ≠ s ∧ s ∉ entry.2.slots) ∧ Ordered rest

theorem mem_keys : s ∈ b.keys ↔ ∃ t, (s, t) ∈ b := by
  simp [keys]

theorem find?_isSome : (b.find? s).isSome = true ↔ s ∈ b.keys := by
  simp only [find?, Option.isSome_map, List.find?_isSome, decide_eq_true_eq, keys, List.mem_map]

theorem ordered_append {c : Bindings} :
    Ordered (b ++ c) ↔ b.Ordered ∧ c.Ordered ∧ ∀ x ∈ b, ∀ y ∈ c, y.1 ≠ x.1 ∧ x.1 ∉ y.2.slots := by
  induction b with
  | nil => simp [Ordered]
  | cons x b ih =>
    obtain ⟨s, t⟩ := x
    simp only [List.cons_append, Ordered, ih, List.mem_append, List.mem_cons, or_imp, forall_and,
      forall_eq]
    constructor
    · rintro ⟨h1, ⟨⟨h2, h3⟩, h4, h5⟩, h6, h7, h8, h9⟩
      exact ⟨⟨h1, ⟨h2, h4⟩, h6⟩, h7, ⟨h3, h8⟩, h5, h9⟩
    · rintro ⟨⟨h1, ⟨h2, h4⟩, h6⟩, h7, ⟨h3, h8⟩, h5, h9⟩
      exact ⟨h1, ⟨⟨h2, h3⟩, h4, h5⟩, h6, h7, h8, h9⟩

theorem Ordered.filter (h : b.Ordered) (p : Slot × Ty → Bool) : Ordered (List.filter p b) := by
  induction b with
  | nil => exact h
  | cons x b ih =>
    obtain ⟨s, t⟩ := x
    rw [List.filter_cons]
    split
    · exact ⟨h.1, fun e he => h.2.1 e (List.mem_filter.1 he).1, ih h.2.2⟩
    · exact ih h.2.2

theorem Ordered.snoc (h : b.Ordered) (hs : s ∉ b.keys) (hb : ∀ s' ∈ b.keys, s' ∉ t.slots)
    (ht : s ∉ t.slots) : Ordered (b ++ [(s, t)]) := by
  refine ordered_append.2 ⟨h, ⟨ht, by simp, trivial⟩, fun x hx y hy => ?_⟩
  have hk : x.1 ∈ b.keys := mem_keys.2 ⟨x.2, hx⟩
  obtain rfl := mem_singleton.1 hy
  exact ⟨fun e : s = x.1 => hs (e ▸ hk), hb _ hk⟩

theorem Ordered.nodup (h : b.Ordered) : b.keys.Nodup := by
  induction b with
  | nil => exact nodup_nil
  | cons x b ih =>
    refine nodup_cons.2 ⟨fun hs => ?_, ih h.2.2⟩
    obtain ⟨t, ht⟩ := mem_keys.1 hs
    exact (h.2.1 _ ht).1 rfl

theorem Ordered.length_le (h : b.Ordered) {n : Nat} (hn : ∀ entry ∈ b, entry.1.index < n) :
    b.length ≤ n := by
  have hsub : b.keys ⊆ (range n).map Slot.mk := by
    intro s hs
    obtain ⟨t, ht⟩ := mem_keys.1 hs
    exact mem_map.2 ⟨s.index, mem_range.2 (hn _ ht), rfl⟩
  simpa [keys] using h.nodup.length_le_of_subset hsub

/-! ## Following all bindings -/

@[simp] theorem apply_nil (t : Ty) : apply [] t = t := rfl

@[simp] theorem apply_cons (s : Slot) (u : Ty) (b : Bindings) (t : Ty) :
    apply ((s, u) :: b) t = apply b (.subst s u t) := rfl

theorem apply_append (b c : Bindings) (t : Ty) : apply (b ++ c) t = apply c (apply b t) :=
  foldl_append

@[simp] theorem apply_error (b : Bindings) : b.apply .error = .error := by
  induction b with
  | nil => rfl
  | cons x b ih => exact ih

@[simp] theorem apply_struct (b : Bindings) (id : StructId) :
    b.apply (.struct id) = .struct id := by
  induction b with
  | nil => rfl
  | cons x b ih => exact ih

@[simp] theorem apply_pointer (b : Bindings) (m : Bool) (t : Ty) :
    b.apply (.pointer m t) = .pointer m (b.apply t) := by
  induction b generalizing t with
  | nil => rfl
  | cons x b ih => exact ih _

@[simp] theorem apply_functAny (b : Bindings) (r : Ty) :
    b.apply (.functAny r) = .functAny (b.apply r) := by
  induction b generalizing r with
  | nil => rfl
  | cons x b ih => exact ih _

@[simp] theorem apply_tuple (b : Bindings) (ts : List Ty) :
    b.apply (.tuple ts) = .tuple (ts.map b.apply) := by
  induction b generalizing ts with
  | nil => exact congrArg Ty.tuple (map_id ts).symm
  | cons x b ih =>
    rw [apply_cons, subst, ih, substList_eq, map_map]; rfl

@[simp] theorem apply_funct (b : Bindings) (ps : List Ty) (r : Ty) :
    b.apply (.funct ps r) = .funct (ps.map b.apply) (b.apply r) := by
  induction b generalizing ps r with
  | nil => exact congrArg (Ty.funct · r) (map_id ps).symm
  | cons x b ih =>
    rw [apply_cons, subst, ih, substList_eq, map_map]; rfl

theorem apply_eq_self (h : ∀ s ∈ b.keys, s ∉ t.slots) : b.apply t = t := by
  induction b with
  | nil => rfl
  | cons x b ih =>
    rw [apply_cons, subst_eq_self (h _ (by simp [keys]))]
    exact ih fun s hs => h s (mem_cons_of_mem _ hs)

theorem mem_slots_apply (h : s ∈ (b.apply t).slots) :
    s ∈ t.slots ∨ ∃ entry ∈ b, s ∈ entry.2.slots := by
  induction b generalizing t with
  | nil => exact .inl h
  | cons x b ih =>
    rcases ih h with h | ⟨e, he, hs⟩
    · rcases mem_slots_subst h with ⟨-, hu⟩ | ⟨ht, -⟩
      · exact .inr ⟨x, by simp, hu⟩
      · exact .inl ht
    · exact .inr ⟨e, mem_cons_of_mem _ he, hs⟩

theorem not_mem_slots_apply (h : b.Ordered) (hs : s ∈ b.keys) (t : Ty) : s ∉ (b.apply t).slots := by
  induction b generalizing t with
  | nil => simp [keys] at hs
  | cons x b ih =>
    obtain ⟨s', u⟩ := x
    rcases mem_cons.1 hs with rfl | hs
    · -- the first slot is gone after the first step, and no later type brings it back
      intro hmem
      rw [apply_cons] at hmem
      rcases mem_slots_apply hmem with hm | ⟨e, he, hm⟩
      · rcases mem_slots_subst hm with ⟨-, hu⟩ | ⟨-, hne⟩
        · exact h.1 hu
        · exact hne rfl
      · exact (h.2.1 e he).2 hm
    · exact ih h.2.2 hs _

theorem apply_apply (h : b.Ordered) (t : Ty) : b.apply (b.apply t) = b.apply t :=
  apply_eq_self fun _ hs => not_mem_slots_apply h hs t

theorem apply_closed (h : t.Closed) : b.apply t = t :=
  apply_eq_self fun s _ => h s

/-- What holds of the outermost constructor everywhere in the bound types and in the type holds
    everywhere in what the type stands for. -/
theorem all_apply {P : Ty → Prop} (hP : ∀ θ q, q.slot? = none → P q → P (inst θ q))
    (hb : ∀ entry ∈ b, entry.2.All P) (ht : t.All P) : (b.apply t).All P := by
  induction b generalizing t with
  | nil => exact ht
  | cons x b ih =>
    rw [forall_mem_cons] at hb
    exact ih hb.2 (.subst hP hb.1 ht)

theorem within_apply {n k : Nat} (hb : ∀ entry ∈ b, entry.2.Within n k) (ht : t.Within n k) :
    (b.apply t).Within n k :=
  all_apply (fun _ => inRange_inst n) hb ht

theorem plain_apply (hb : ∀ entry ∈ b, entry.2.Plain) (ht : t.Plain) : (b.apply t).Plain :=
  all_apply (fun _ => isPlain_inst) hb ht

/-! ## Following bindings at the top -/

theorem head_cons (s : Slot) (u : Ty) (b : Bindings) (t : Ty) :
    head ((s, u) :: b) t = head b (if t = .slot s then u else t) := rfl

theorem head_append (b c : Bindings) (t : Ty) : head (b ++ c) t = head c (head b t) :=
  foldl_append

theorem head_eq_self (h : ∀ s ∈ b.keys, t ≠ .slot s) : b.head t = t := by
  induction b with
  | nil => rfl
  | cons x b ih =>
    rw [head_cons, if_neg (h _ (by simp [keys]))]
    exact ih fun s hs => h s (mem_cons_of_mem _ hs)

theorem head_unbound (h : s ∉ b.keys) : b.head (.slot s) = .slot s :=
  head_eq_self fun _ hs' he => h (Ty.slot.inj he ▸ hs')

theorem head_of_not_slot (b : Bindings) (h : t.slot? = none) : b.head t = t :=
  head_eq_self fun s _ e => by rw [e] at h; cases h

theorem head_closed (h : t.Closed) : b.head t = t :=
  head_eq_self fun _ _ he => Ty.Closed.not_slot (he ▸ h)

theorem head_slot (b : Bindings) (s : Slot) :
    b.head (.slot s) = .slot s ∨ ∃ entry ∈ b, b.head (.slot s) = entry.2 := by
  suffices h : ∀ t, b.head t = t ∨ ∃ entry ∈ b, b.head t = entry.2 from h _
  induction b with
  | nil => exact fun _ => .inl rfl
  | cons x b ih =>
    intro t
    rw [head_cons]
    split
    · rcases ih x.2 with h | ⟨e, he, h⟩
      · exact .inr ⟨x, by simp, h⟩
      · exact .inr ⟨e, mem_cons_of_mem _ he, h⟩
    · rcases ih t with h | ⟨e, he, h⟩
      · exact .inl h
      · exact .inr ⟨e, mem_cons_of_mem _ he, h⟩

theorem mem_slots_head (h : s ∈ (b.head t).slots) :
    s ∈ t.slots ∨ ∃ entry ∈ b, s ∈ entry.2.slots := by
  cases t with
  | slot s' =>
    rcases head_slot b s' with he | ⟨e, he, heq⟩
    · exact .inl (he ▸ h)
    · exact .inr ⟨e, he, heq ▸ h⟩
  | _ => rw [head_of_not_slot b rfl] at h; exact .inl h

/-- The first slot of ordered bindings does not occur where the head of
    another type stops. -/
theorem not_mem_slots_head {u : Ty} (h : Ordered ((s, u) :: b)) (ht : s ∉ t.slots) :
    s ∉ (b.head t).slots := by
  intro hs
  rcases mem_slots_head hs with hs | ⟨e, he, hs⟩
  · exact ht hs
  · exact (h.2.1 e he).2 hs

theorem head_ne_bound (h : b.Ordered) (ht : b.head t = .slot s) : s ∉ b.keys := by
  induction b generalizing t with
  | nil => simp [keys]
  | cons x b ih =>
    obtain ⟨s', u⟩ := x
    rw [head_cons] at ht
    have hne : s ≠ s' := by
      rintro rfl
      have hmem : s ∈ (head b (if t = .slot s then u else t)).slots := by
        rw [ht]; simp [mem_slots]
      split at ht
      · rename_i hts
        rw [if_pos hts] at hmem
        exact not_mem_slots_head h h.1 hmem
      · rename_i hts
        rw [if_neg hts] at hmem
        cases t with
        | slot s'' =>
          exact not_mem_slots_head h (by simpa [mem_slots, eq_comm] using hts) hmem
        | _ => rw [head_of_not_slot b rfl] at ht; cases ht
    rw [keys, map_cons, mem_cons]
    exact fun hk => hk.elim hne (ih h.2.2 ht)

/-- Following the bindings at the top does not change what a type means. -/
theorem apply_head (h : b.Ordered) (t : Ty) : b.apply (b.head t) = b.apply t := by
  induction b generalizing t with
  | nil => rfl
  | cons x b ih =>
    obtain ⟨s, u⟩ := x
    rw [head_cons, apply_cons]
    split
    · rename_i hts
      subst hts
      rw [subst_eq_self (not_mem_slots_head h h.1), ih h.2.2, apply_cons]
      simp [subst]
    · rename_i hts
      cases t with
      | slot s' =>
        have hs : s ∉ (Ty.slot s').slots := by simpa [mem_slots, eq_comm] using hts
        rw [subst_eq_self (not_mem_slots_head h hs), ih h.2.2, apply_cons, subst_eq_self hs]
      | _ => rw [head_of_not_slot b rfl, apply_cons]

theorem apply_unbound (h : s ∉ b.keys) : b.apply (.slot s) = .slot s :=
  apply_eq_self fun s' hs' hmem => h (by
    have : s' = s := by simpa [mem_slots] using hmem
    exact this ▸ hs')

/-! ## Distance to the end -/

/-- The number of bindings from the first one whose slot occurs in the type. -/
def height : Bindings → Ty → Nat
  | [], _ => 0
  | (s, _) :: rest, t => if s ∈ t.slots then rest.length + 1 else height rest t

theorem height_le (b : Bindings) (t : Ty) : b.height t ≤ b.length := by
  induction b with
  | nil => exact Nat.le_refl _
  | cons x b ih =>
    simp only [height, length_cons]
    split <;> omega

theorem height_mono (b : Bindings) {t' : Ty} (h : ∀ s ∈ t.slots, s ∈ t'.slots) :
    b.height t ≤ b.height t' := by
  induction b with
  | nil => exact Nat.le_refl _
  | cons x b ih =>
    simp only [height]
    split
    · rename_i hs
      exact Nat.le_of_eq (if_pos (h _ hs)).symm
    · split
      · have := height_le b t; omega
      · exact ih

/-- What a bound slot stands for is nearer to the end than the slot. -/
theorem height_head_lt (h : b.Ordered) (hs : s ∈ b.keys) :
    b.height (b.head (.slot s)) < b.height (.slot s) := by
  induction b with
  | nil => simp [keys] at hs
  | cons x b ih =>
    obtain ⟨s', u⟩ := x
    rw [head_cons]
    by_cases he : s = s'
    · subst he
      have hu : s ∉ (head b u).slots := not_mem_slots_head h h.1
      have := height_le b (head b u)
      simp only [if_true, height, hu, if_false, mem_slots, mem_parts_slot]
      omega
    · have hne : s' ∉ (Ty.slot s).slots := by simpa [mem_slots, eq_comm] using he
      have hu : s' ∉ (head b (.slot s)).slots := not_mem_slots_head h hne
      have hs' : s ∈ keys b := (mem_cons.1 hs).resolve_left he
      simpa [height, hne, hu, he] using ih h.2.2 hs'

end Bindings

end Semcheck
