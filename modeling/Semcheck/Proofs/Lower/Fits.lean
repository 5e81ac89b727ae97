/-
  Destinations of a struct type.

  A destination fits a struct if it is known to have that type (`Body.Fits`).  Then the types
  on the way to it are known as well, and what is known of them stays known as long as nothing
  is forgotten (`Lower.Knows.fits`); in the strict mode that is always.

  Writing a value of the struct to such a destination appends an instruction and does nothing
  else (`Lower.moveLiteral_fits`): the two types agree as they are, and even in the lax mode
  none is overwritten.
-/
import Semcheck.Proofs.Lower.Convention
import Semcheck.Proofs.Lower.Later

namespace Semcheck

open Lower Bindings Engine

/-! ## Struct types in the engine -/

/-- Bindings that lead to a struct at the top lead to it everywhere. -/
theorem Bindings.apply_of_head {b : Bindings} {t : Ty} {id : StructId}
    (h : b.head t = .struct id) : b.apply t = .struct id := by
  induction b generalizing t with
  | nil => exact h
  | cons x b ih =>
    obtain ⟨s, u⟩ := x
    refine ih (t := .subst s u t) ?_
    cases t with
    | slot s' =>
      rw [head_cons] at h
      by_cases hs : s' = s
      · simpa [hs, Ty.subst] using h
      · simpa [hs, Ty.subst] using h
    | struct id' => exact h
    | _ => rw [head_of_not_slot _ rfl] at h; cases h

namespace Engine

variable {e e' : Engine} {t root : Ty} {id : StructId} {s : Slot}

theorem checkSlots_singleton : e.checkSlots [s] = .ok () ↔ s.index < e.slots.length := by
  constructor
  · intro h
    by_contra hge
    have hinfo : e.info s = .error (.slot s.index) := by
      rw [info, List.getElem?_eq_none (Nat.not_lt.1 hge)]
    simp [checkSlots, hinfo] at h
  · intro h
    exact checkSlots_eq (by simpa using h)

theorem shallow_eq_ok : e.shallow t = .ok root ↔ e.checkSlots t.slot?.toList = .ok () ∧
    e.checkSlots root.slot?.toList = .ok () ∧ e.bindings.head t = root := by
  constructor
  · intro h
    obtain ⟨⟨⟩, hslots, h⟩ := bind_eq_ok.1 h
    obtain ⟨⟨⟩, hroot, h⟩ := bind_eq_ok.1 h
    cases h
    exact ⟨hslots, hroot, rfl⟩
  · rintro ⟨hslots, hroot, rfl⟩
    rw [shallow, hslots]
    show (e.checkSlots (e.bindings.head t).slot?.toList >>= _) = _
    rw [hroot]
    rfl

theorem shallow_of_not_slot (h : t.slot? = none) : e.shallow t = .ok t :=
  shallow_eq_ok.2 ⟨by rw [h]; rfl, by rw [h]; rfl, head_of_not_slot _ h⟩

theorem shallow_later (hbindings : e.bindings <+: e'.bindings)
    (hslots : e.slots.length ≤ e'.slots.length) (hroot : root.slot? = none)
    (h : e.shallow t = .ok root) : e'.shallow t = .ok root := by
  obtain ⟨ht, -, hhead⟩ := shallow_eq_ok.1 h
  refine shallow_eq_ok.2 ⟨?_, by rw [hroot]; rfl, ?_⟩
  · cases hslot : t.slot? with
    | none => rfl
    | some s =>
      rw [hslot] at ht
      exact checkSlots_singleton.2 (Nat.lt_of_lt_of_le (checkSlots_singleton.1 ht) hslots)
  · obtain ⟨more, hmore⟩ := hbindings
    rw [← hmore, head_append, hhead, head_of_not_slot _ hroot]

end Engine

namespace InferM

variable {e : Engine} {t : Ty} {id : StructId} {s : Slot}

/-- A slot that stands for the struct is not overwritten with it. -/
theorem overwrite_struct (h : e.shallow (.slot s) = .ok (.struct id)) :
    (overwrite s (.struct id)).run e = .ok (.ok false, e) := by
  obtain ⟨hslot, -, hhead⟩ := shallow_eq_ok.1 h
  have hlt := checkSlots_singleton.1 hslot
  have hcurrent : e.resolve (.slot s) = .ok (.struct id) := by
    have hslots : (Ty.slot s).slots = [s] := rfl
    rw [Engine.resolve, hslots, checkSlots_singleton.2 hlt, apply_of_head hhead]
    rfl
  have hincoming : e.resolve (.struct id) = .ok (.struct id) := by
    rw [Engine.resolve, apply_of_head (head_of_not_slot _ rfl)]
    rfl
  rw [overwrite, run_bind_ok (get_run e)]
  by_cases hstrict : e.strict = true
  · rw [if_pos hstrict]
    rfl
  · rw [if_neg hstrict, run_bind_ok (run_ask (isBound_eq hlt))]
    cases (e.bindings.find? s).isSome with
    | false => rfl
    | true =>
      rw [if_neg (by simp), InferM.resolve, run_bind_ok (run_ask hcurrent), InferM.resolve,
        run_bind_ok (run_ask hincoming), if_pos (by simp [Ty.isMatch])]
      rfl

theorem unifyWith_struct {deeper : Ty → Ty → InferM Unit} :
    (unifyWith deeper (.struct id) (.struct id)).run e = .ok (.ok (), e) := by
  have hfound : e.shallow (.struct id) = .ok (.struct id) := shallow_of_not_slot rfl
  rw [unifyWith, shallow, run_bind_ok (run_ask hfound)]
  exact congrFun (if_neg (not_not.2 rfl)) e

theorem unify_struct (h : e.shallow t = .ok (.struct id)) :
    (unify t (.struct id)).run e = .ok (.ok (), e) := by
  have hfound : e.shallow (.struct id) = .ok (.struct id) := shallow_of_not_slot rfl
  rw [unify, run_bind_ok (get_run e)]
  cases t with
  | slot s =>
    -- there is a slot, so that the budget is not used up
    have hlt := checkSlots_singleton.1 (shallow_eq_ok.1 h).1
    obtain ⟨budget, hbudget⟩ : ∃ n, (e.slots.length + 1) * (e.slots.length + 1) = n + 2 :=
      ⟨(e.slots.length + 1) * (e.slots.length + 1) - 2, by
        have hle : 2 * 2 ≤ (e.slots.length + 1) * (e.slots.length + 1) :=
          Nat.mul_le_mul (by omega) (by omega)
        omega⟩
    dsimp only
    rw [hbudget, unifyWithin, unifyWith, run_bind_ok (overwrite_struct h), if_neg (by simp),
      shallow, run_bind_ok (run_ask h), shallow, run_bind_ok (run_ask hfound)]
    exact unifyWith_struct
  | struct id' =>
    cases (shallow_of_not_slot rfl).symm.trans h
    exact unifyWith_struct
  | _ => cases (shallow_of_not_slot rfl).symm.trans h

end InferM

/-! ## Destinations -/

/-- The destination takes values of the type: it discards them, or it is known to have that
    type. -/
def Body.Fits (cx : Context) (b : Body) (dest : Access) (type : Ty) : Prop :=
  ∃ found, (accessType cx dest).run b = .ok (some found, b) ∧
    ∀ t ∈ found, b.engine.shallow t = .ok type

namespace Lower

variable {cx : Context} {b b' : Body} {dest : Access} {t u root : Ty} {id : StructId}

theorem shallow_eq_ok {r : Option Ty} :
    (shallow t).run b = .ok (r, b') ↔ ∃ root, b.engine.shallow t = .ok root ∧ r = some root ∧
      b' = b := by
  rw [shallow, onEngine_eq_ok]
  constructor
  · rintro ⟨root, e, hask, rfl, rfl⟩
    obtain ⟨rfl, hroot⟩ := EngineM.ask_eq_ok.1 hask
    exact ⟨root, hroot, rfl, rfl⟩
  · rintro ⟨root, hroot, rfl, rfl⟩
    exact ⟨root, _, EngineM.ask_eq_ok.2 ⟨rfl, hroot⟩, rfl, rfl⟩

theorem fieldsType_error (cx : Context) (path : List Nat) (b : Body) :
    (fieldsType cx path .error).run b = .ok (some .error, b) := by
  induction path with
  | nil => rfl
  | cons index rest ih =>
    rw [fieldsType, run_bind_some (shallow_eq_ok.2 ⟨_, shallow_of_not_slot rfl, rfl, rfl⟩)]
    exact ih

/-- The registers and the types that are known in `b` are known in `b'`. -/
structure Knows (b b' : Body) : Prop where
  registers : b.draft.registers <+: b'.draft.registers
  bindings : b.engine.bindings <+: b'.engine.bindings
  slots : b.engine.slots.length ≤ b'.engine.slots.length

theorem Knows.shallow (h : Knows b b') (hroot : root.slot? = none)
    (ht : b.engine.shallow t = .ok root) : (shallow t).run b' = .ok (some root, b') :=
  shallow_eq_ok.2 ⟨root, shallow_later h.bindings h.slots hroot ht, rfl, rfl⟩

/-- A part that leads to a struct leads to it for good: on the way there the types are known. -/
theorem Knows.fieldsType (h : Knows b b') {path : List Nat} {c : Body}
    (hrun : (fieldsType cx path t).run b = .ok (some u, c))
    (hu : b.engine.shallow u = .ok (.struct id)) :
    (fieldsType cx path t).run b' = .ok (some u, b') := by
  induction path generalizing t with
  | nil =>
    cases hrun
    rfl
  | cons index rest ih =>
    rw [fieldsType] at hrun ⊢
    rcases bind_eq_ok.1 hrun with ⟨root, b1, hroot, hrun⟩ | ⟨-, ⟨⟩⟩
    obtain ⟨root, hroot, ⟨⟩, rfl⟩ := shallow_eq_ok.1 hroot
    have herror : (fieldsType cx rest .error).run b1 ≠ .ok (some u, c) := by
      intro hrun
      cases (fieldsType_error cx rest _).symm.trans hrun
      cases (shallow_of_not_slot rfl).symm.trans hu
    cases root with
    | struct id' =>
      rw [run_bind_some (h.shallow rfl hroot)]
      rcases bind_eq_ok.1 hrun with ⟨fields, b2, hfields, hrest⟩ | ⟨-, ⟨⟩⟩
      obtain ⟨_, hget, ⟨⟩, rfl⟩ := orFault_eq_ok.1 hfields
      rw [run_bind_some (orFault_eq_ok.2 ⟨fields, hget, rfl, rfl⟩)]
      exact ih hrest
    | tuple elements =>
      rw [run_bind_some (h.shallow rfl hroot)]
      exact ih hrun
    | _ => exact absurd hrun herror

theorem registerType_eq_ok {register : RegisterId} {r : Option Ty} :
    (registerType register).run b = .ok (r, b') ↔
      ∃ type, b.draft.registerType register = .ok type ∧ r = some type ∧ b' = b :=
  orFault_eq_ok

theorem Knows.registerType (h : Knows b b') {register : RegisterId}
    (ht : b.draft.registerType register = .ok t) :
    (registerType register).run b' = .ok (some t, b') := by
  refine registerType_eq_ok.2 ⟨t, ?_, rfl, rfl⟩
  rw [Draft.registerType] at ht ⊢
  cases hr : b.draft.registers[register.index]? with
  | none => rw [hr] at ht; cases ht
  | some entry =>
    have hr' := getElem?_of_prefix h.registers hr
    rw [hr] at ht
    rw [hr']
    exact ht

/-- A destination that fits goes on fitting. -/
theorem Knows.fits (h : Knows b b') (hfits : b.Fits cx dest (.struct id)) :
    b'.Fits cx dest (.struct id) := by
  obtain ⟨found, hrun, hfound⟩ := hfits
  have hstays : ∀ t ∈ found, b'.engine.shallow t = .ok (.struct id) := fun t ht =>
    shallow_later h.bindings h.slots rfl (hfound t ht)
  refine ⟨found, ?_, hstays⟩
  cases dest with
  | discard =>
    cases hrun
    rfl
  | place register fields deref =>
    rw [accessType] at hrun ⊢
    rcases bind_eq_ok.1 hrun with ⟨type, b1, htype, hrun⟩ | ⟨-, ⟨⟩⟩
    obtain ⟨_, htype, ⟨⟩, rfl⟩ := registerType_eq_ok.1 htype
    rw [run_bind_some (h.registerType htype)]
    cases deref with
    | false =>
      rcases bind_eq_ok.1 hrun with ⟨u, b2, hu, hrun⟩ | ⟨-, ⟨⟩⟩
      cases hrun
      exact run_bind_some (h.fieldsType hu (hfound u rfl))
    | true =>
      rcases bind_eq_ok.1 hrun with ⟨root, b2, hroot, hrun⟩ | ⟨-, ⟨⟩⟩
      obtain ⟨_, hroot, ⟨⟩, rfl⟩ := shallow_eq_ok.1 hroot
      cases root with
      | pointer mutable pointee =>
        rcases bind_eq_ok.1 hrun with ⟨u, b3, hu, hrun⟩ | ⟨-, ⟨⟩⟩
        cases hrun
        refine (run_bind_some (h.shallow rfl hroot)).trans ?_
        exact run_bind_some (h.fieldsType hu (hfound u rfl))
      | _ =>
        rcases bind_eq_ok.1 hrun with ⟨u, b3, hu, hrun⟩ | ⟨-, ⟨⟩⟩
        cases hrun
        cases (fieldsType_error cx fields _).symm.trans hu
        cases (shallow_of_not_slot rfl).symm.trans (hfound _ rfl)

/-- A struct literal is written to a destination that fits, and nothing else happens. -/
theorem moveLiteral_fits (ho : b.draft.graph.Open) (hfits : b.Fits cx dest (.struct id))
    (value : Literal) (span : Location) :
    (moveLiteral cx value (.struct id) dest span).run b =
      .ok (some (), b.withGraph (b.draft.graph.push (.literal value dest))) := by
  have hknows : Knows b (b.withGraph (b.draft.graph.push (.literal value dest))) :=
    ⟨List.prefix_rfl, List.prefix_rfl, Nat.le_refl _⟩
  obtain ⟨found, hrun, hfound⟩ := hknows.fits hfits
  rw [moveLiteral, run_bind_some (push_run ho _), assign, run_bind_some hrun]
  cases found with
  | none => rfl
  | some type =>
    have hagree := InferM.unify_struct (hfound type rfl)
    exact run_bind_some (onEngine_eq_ok.2 ⟨_, _, hagree, rfl, rfl⟩)

theorem fits_withRegister (cx : Context) (b : Body) (id : StructId) (span : Location) :
    (b.withRegister (.struct id) span).Fits cx (.register b.nextRegister) (.struct id) := by
  have htype : (b.withRegister (.struct id) span).draft.registerType b.nextRegister =
      .ok (.struct id) := by
    simp [Draft.registerType, Body.withRegister, Draft.addRegister, Body.nextRegister]
  refine ⟨some (.struct id), ?_, ?_⟩
  · exact run_bind_some (registerType_eq_ok.2 ⟨_, htype, rfl, rfl⟩)
  · rintro t ⟨⟩
    exact shallow_of_not_slot rfl

end Lower

end Semcheck
