/-
  How often the register of an immutable local is written.

  * `Shape.Avoids`, `Shape.Bounds`: a shape does not write a register at all,
    or not again once it was written;
  * `Effect`: which locals of its surroundings an expression assigns, which of
    them again in the value of an assignment to them, and what it declares;
  * `Once cx b dest E sh b'`: code of the shape `sh` with the effect `E` writes the
    registers of immutable locals outside of loops at most once, as long as an
    assignment is not nested in the value of another one to the same local.

  There is one rule for every way of putting code together.
-/
import Semcheck.Proofs.Lower.Trace

namespace Semcheck

open List Option

/-! ## Writes of a shape -/

namespace Shape

variable {sh sh1 sh2 : Shape} {r : RegisterId} {n m k : Nat} {h h' : History}

/-- No step of the shape writes the register. -/
def Avoids (sh : Shape) (r : RegisterId) : Prop :=
  sh.All fun ev => ∀ i, ev = .run i → ¬ i.Writes r

/-- On a path on which the register was written at most `n` times it is not
    written again after its first write, and at most `m` times in the end. -/
structure Bounds (sh : Shape) (r : RegisterId) (n m : Nat) : Prop where
  visits : ∀ h, h.writes r ≤ n → ∀ h' i, sh.Visits h h' (.run i) → i.Writes r → h'.writes r = 0
  ends : ∀ h, h.writes r ≤ n → ∀ h', sh.Ends h h' → h'.writes r ≤ m

theorem All.of_visits {P : Event → Prop} (hP : sh.All P) {ev : Event} (hv : sh.Visits h h' ev) :
    P ev := by
  induction sh generalizing h with
  | skip => cases hv
  | emit i =>
    obtain ⟨-, rfl⟩ := hv
    exact hP
  | seq first second ih1 ih2 =>
    rcases hv with hv | ⟨z, -, hv⟩
    · exact ih1 hP.1 hv
    · exact ih2 hP.2 hv
  | when test body ih =>
    rcases hv with ⟨-, rfl⟩ | hv
    · exact hP.1
    · exact ih hP.2 hv
  | ifElse test onTrue onFalse ih1 ih2 =>
    rcases hv with ⟨-, rfl⟩ | hv | hv
    · exact hP.1
    · exact ih1 hP.2.1 hv
    · exact ih2 hP.2.2 hv
  | loop condition test body ih1 ih2 =>
    obtain ⟨z, -, hv | ⟨z', -, ⟨-, rfl⟩ | hv⟩⟩ := hv
    · exact ih1 hP.1 hv
    · exact hP.2.1
    · exact ih2 hP.2.2 hv
  | exit result =>
    obtain ⟨-, rfl⟩ := hv
    exact hP

theorem Avoids.writes_eq (ha : sh.Avoids r) (he : sh.Ends h h') : h'.writes r = h.writes r := by
  induction sh generalizing h h' with
  | skip => cases he; rfl
  | emit i =>
    cases he
    rw [History.writes_snoc, if_neg (ha i rfl)]
    rfl
  | seq first second ih1 ih2 =>
    obtain ⟨z, h1, h2⟩ := he
    exact (ih2 ha.2 h2).trans (ih1 ha.1 h1)
  | when test body ih =>
    rcases he with rfl | he
    · rfl
    · exact ih ha.2 he
  | ifElse test onTrue onFalse ih1 ih2 => exact he.elim (ih1 ha.2.1) (ih2 ha.2.2)
  | loop condition test body ih1 ih2 =>
    obtain ⟨z, hrounds, hlast⟩ := he
    rw [ih1 ha.1 hlast]
    clear hlast
    induction hrounds with
    | refl => rfl
    | tail _ hround ih =>
      obtain ⟨z, hc, hb⟩ := hround
      rw [ih2 ha.2.2 hb, ih1 ha.1 hc, ih]
  | exit result => cases he

theorem Avoids.bounds (ha : sh.Avoids r) (hle : n ≤ m) : sh.Bounds r n m where
  visits _ _ h' i hv hw := absurd hw (All.of_visits ha hv i rfl)
  ends h hn h' he := by rw [ha.writes_eq he]; omega

theorem Avoids.append (h1 : sh1.Avoids r) (h2 : sh2.Avoids r) : (sh1.append sh2).Avoids r :=
  all_append h1 h2

theorem avoids_skip : Shape.skip.Avoids r := trivial

theorem avoids_of_inRange {table : Table} {size : Nat} (hs : sh.All (Event.InRange table size))
    (hr : size ≤ r.index) : sh.Avoids r := by
  refine hs.mono ?_
  rintro _ hev i rfl hw
  have := hev.1 i.dest (by simp [Instruction.accesses]) r (by rw [hw]; rfl)
  omega

theorem Bounds.append (h1 : sh1.Bounds r n m) (h2 : sh2.Bounds r m k) :
    (sh1.append sh2).Bounds r n k where
  visits h hn h' i hv hw := by
    rcases visits_append.1 hv with hv | ⟨z, hz, hv⟩
    · exact h1.visits h hn h' i hv hw
    · exact h2.visits z (h1.ends h hn z hz) h' i hv hw
  ends h hn h' he := by
    obtain ⟨z, hz, he⟩ := ends_append.1 he
    exact h2.ends z (h1.ends h hn z hz) h' he

theorem Bounds.mono {n' m' : Nat} (hb : sh.Bounds r n m) (hn : n' ≤ n) (hm : m ≤ m') :
    sh.Bounds r n' m' :=
  ⟨fun h hle => hb.visits h (Nat.le_trans hle hn),
    fun h hle h' he => Nat.le_trans (hb.ends h (Nat.le_trans hle hn) h' he) hm⟩

theorem Bounds.emit (i : Instruction) : (Shape.emit i).Bounds r 0 1 where
  visits h hn h' j hv _ := by
    obtain ⟨rfl, -⟩ := hv
    omega
  ends h hn h' he := by
    obtain rfl := he
    rw [History.writes_snoc]
    split <;> omega

theorem Bounds.when (hb : sh.Bounds r n m) (hle : n ≤ m) (test : Access) :
    (Shape.when test sh).Bounds r n m where
  visits h hn h' i hv hw := by
    rcases hv with ⟨-, ⟨⟩⟩ | hv
    exact hb.visits h hn h' i hv hw
  ends h hn h' he := by
    rcases he with rfl | he
    · omega
    · exact hb.ends h hn h' he

theorem Bounds.ifElse (h1 : sh1.Bounds r n m) (h2 : sh2.Bounds r n m) (test : Access) :
    (Shape.ifElse test sh1 sh2).Bounds r n m where
  visits h hn h' i hv hw := by
    rcases hv with ⟨-, ⟨⟩⟩ | hv | hv
    · exact h1.visits h hn h' i hv hw
    · exact h2.visits h hn h' i hv hw
  ends h hn h' he := he.elim (h1.ends h hn h') (h2.ends h hn h')

/-- In the rounds of a loop the register is not written; the condition comes
    last. -/
theorem Bounds.loop (h1 : sh1.Avoids r) (h2 : sh2.Avoids r) (hb : sh1.Bounds r n m)
    (test : Access) : (Shape.loop sh1 test sh2).Bounds r n m where
  visits h hn h' i hv hw := by
    have ha : (Shape.loop sh1 test sh2).Avoids r := ⟨h1, by rintro i ⟨⟩, h2⟩
    exact absurd hw (All.of_visits ha hv i rfl)
  ends h hn h' he := by
    obtain ⟨z, hrounds, hlast⟩ := he
    refine hb.ends z ?_ h' hlast
    clear hlast
    induction hrounds with
    | refl => exact hn
    | tail _ hround ih =>
      obtain ⟨z, hc, hbody⟩ := hround
      rw [h2.writes_eq hbody, h1.writes_eq hc]
      exact ih

theorem Bounds.exit (result : Access) : (Shape.exit result).Bounds r n m where
  visits h hn h' i hv _ := by
    obtain ⟨-, ⟨⟩⟩ := hv
  ends h hn h' he := by cases he

end Shape

/-! ## Effects of expressions -/

/-- A `let` in an expression. -/
structure LetInfo where
  name : String
  mutable : Bool
  /-- It is in a loop of the expression. -/
  looped : Bool
  /-- The local is assigned in the value of an assignment to it. -/
  nested : Bool
deriving DecidableEq

/-- What an expression does with locals. -/
structure Effect where
  /-- The locals of the surroundings that are assigned. -/
  assigned : List String
  /-- Those among them that are assigned in the value of an assignment to them. -/
  nested : List String
  /-- The declared locals, in the order in which they come into scope. -/
  lets : List LetInfo
deriving DecidableEq

namespace Effect

def none : Effect := ⟨[], [], []⟩

def seq (E F : Effect) : Effect :=
  ⟨E.assigned ++ F.assigned, E.nested ++ F.nested, E.lets ++ F.lets⟩

def inLoop (E : Effect) : Effect :=
  { E with lets := E.lets.map fun info => { info with looped := true } }

/-- The value of an assignment to a local, if the target is one. -/
def assign (target : Option String) (value : Effect) : Effect :=
  match target with
  | .none => value
  | some x => {
      assigned := x :: value.assigned
      nested := if x ∈ value.assigned then x :: value.nested else value.nested
      lets := value.lets }

/-- A local is declared before the rest of its block. -/
def declare (name : String) (mutable : Bool) (rest : Effect) : Effect where
  assigned := rest.assigned.filter (· ≠ name)
  nested := rest.nested.filter (· ≠ name)
  lets := ⟨name, mutable, false, decide (name ∈ rest.nested)⟩ :: rest.lets

@[simp] theorem seq_none (E : Effect) : E.seq none = E := by
  simp [seq, none]

end Effect

/-- The local that an expression names, if it names one. -/
def Expr.localName? : Expr → Option String
  | .name path _ => path.single?.map Ident.text
  | _ => none

mutual

def Expr.effect : Expr → Effect
  | .block stmts _ => effectOfStmts stmts
  | .int _ _ | .bool _ _ | .name _ _ => .none
  | .tuple elements _ => effectOfExprs elements
  | .structLit _ inits _ => effectOfInits inits
  | .field base _ _ => base.effect
  | .addressOf _ operand _ => operand.effect
  | .deref operand _ => operand.effect
  | .call callee args _ => callee.effect.seq (effectOfExprs args)
  | .ifElse condition thenBranch none _ => condition.effect.seq thenBranch.effect
  | .ifElse condition thenBranch (some elseBranch) _ =>
    condition.effect.seq (thenBranch.effect.seq elseBranch.effect)
  | .loop condition body _ => (condition.effect.seq body.effect).inLoop
  | .assign target value _ => target.effect.seq (.assign target.localName? value.effect)
  | .ret none _ => .none
  | .ret (some value) _ => value.effect
termination_by structural e => e

def effectOfExprs : List Expr → Effect
  | [] => .none
  | e :: rest => e.effect.seq (effectOfExprs rest)
termination_by structural es => es

def effectOfInits : List FieldInit → Effect
  | [] => .none
  | ⟨_, value, _⟩ :: rest => value.effect.seq (effectOfInits rest)
termination_by structural inits => inits

/-- The effect of a statement and of what follows it in the block. -/
def Stmt.effect : Stmt → Effect → Effect
  | .expr e _, rest => e.effect.seq rest
  | .binding name mutable _ none _, rest => .declare name.text mutable rest
  | .binding name mutable _ (some init) _, rest =>
    init.effect.seq (.declare name.text mutable rest)
  | .use _ _, rest => rest
termination_by structural s => s

def effectOfStmts : List Stmt → Effect
  | [] => .none
  | stmt :: rest => stmt.effect (effectOfStmts rest)
termination_by structural stmts => stmts

end

/-! ## Names -/

namespace Lower

variable {ls ls' : List Local} {x : String} {r : RegisterId} {names names' : List String}

theorem findLocal_append (ls : List Local) (new : Local) (x : String) :
    findLocal x (ls ++ [new]) =
      if new.name = x then some (ls.length, new) else findLocal x ls := by
  simp only [findLocal, zipIdx_append, zipIdx_singleton, reverse_append,
    reverse_singleton, singleton_append, find?_cons, Nat.zero_add]
  by_cases hx : new.name = x <;> simp [hx]

theorem findLocal_some {i : Nat} {l : Local} (h : findLocal x ls = some (i, l)) :
    ls[i]? = some l ∧ l.name = x := by
  obtain ⟨⟨l', i'⟩, hfind, heq⟩ := map_eq_some_iff.1 h
  cases heq
  refine ⟨?_, by simpa using find?_some hfind⟩
  have hmem := mem_reverse.1 (mem_of_find?_eq_some hfind)
  exact mem_zipIdx_iff_getElem?.1 hmem

theorem findLocal_fixed (x : String) (ls : List Local) :
    findLocal x (ls.map Local.fixed) =
      (findLocal x ls).map fun entry => (entry.1, entry.2.fixed) := by
  simp only [findLocal, zipIdx_map, ← map_reverse, find?_map, Option.map_map]
  rfl

end Lower

/-- The locals of two points of a block agree but for the assignments. -/
theorem getElem?_of_fixed {ls ls' : List Local} (h : ls'.map Local.fixed = ls.map Local.fixed)
    {i : Nat} {l : Local} (hl : ls[i]? = some l) : ∃ l', ls'[i]? = some l' ∧ l'.fixed = l.fixed := by
  have hi : (ls'.map Local.fixed)[i]? = some l.fixed := by
    rw [h, getElem?_map, hl]
    rfl
  rw [getElem?_map] at hi
  exact map_eq_some_iff.1 hi

/-- The same locals are in scope. -/
def Body.Level (b b' : Body) : Prop :=
  b'.locals.map Local.fixed = b.locals.map Local.fixed

theorem Body.Level.register_lt {cx : Context} {b b' : Body} (h : b.Level b') (hb : b.Intact cx)
    {l : Local} (hl : l ∈ b'.locals) : l.register.index < b.draft.registers.length := by
  have hm : l.register ∈ b.locals.map Local.register :=
    map_register_of_fixed h ▸ mem_map_of_mem hl
  obtain ⟨l', hl', hreg⟩ := mem_map.1 hm
  exact hreg ▸ hb.locals l' hl'

namespace Lower

variable {ls ls' : List Local} {x : String} {r : RegisterId} {names names' : List String}

/-- The register belongs to a local that one of the names stands for. -/
def Touches (ls : List Local) (names : List String) (r : RegisterId) : Prop :=
  ∃ x ∈ names, ∃ i l, findLocal x ls = some (i, l) ∧ l.register = r

theorem touches_append :
    Touches ls (names ++ names') r ↔ Touches ls names r ∨ Touches ls names' r := by
  simp only [Touches, mem_append, or_and_right, exists_or]

theorem touches_fixed : Touches (ls.map Local.fixed) names r ↔ Touches ls names r := by
  constructor
  · rintro ⟨x, hx, i, l, hfind, hr⟩
    rw [findLocal_fixed] at hfind
    obtain ⟨⟨i', l'⟩, hfind', heq⟩ := map_eq_some_iff.1 hfind
    cases heq
    exact ⟨x, hx, i', l', hfind', hr⟩
  · rintro ⟨x, hx, i, l, hfind, hr⟩
    exact ⟨x, hx, i, l.fixed, by rw [findLocal_fixed, hfind]; rfl, hr⟩

theorem touches_congr (h : ls'.map Local.fixed = ls.map Local.fixed) :
    Touches ls' names r ↔ Touches ls names r := by
  exact touches_fixed.symm.trans (h ▸ touches_fixed)

theorem Touches.mem (h : Touches ls names r) : ∃ l ∈ ls, l.register = r := by
  obtain ⟨x, -, i, l, hfind, hr⟩ := h
  exact ⟨l, mem_of_getElem? (findLocal_some hfind).1, hr⟩

/-- A new local hides the older one of its name. -/
theorem touches_declared {new : Local} (hr : new.register ≠ r) :
    Touches (ls ++ [new]) names r ↔ Touches ls (names.filter (· ≠ new.name)) r := by
  constructor
  · rintro ⟨x, hx, i, l, hfind, rfl⟩
    rw [findLocal_append] at hfind
    split at hfind
    · cases hfind
      exact absurd rfl hr
    · rename_i hne
      exact ⟨x, mem_filter.2 ⟨hx, decide_eq_true (.symm hne)⟩, i, l, hfind, rfl⟩
  · rintro ⟨x, hx, i, l, hfind, rfl⟩
    obtain ⟨hx, hne⟩ := mem_filter.1 hx
    refine ⟨x, hx, i, l, ?_, rfl⟩
    rw [findLocal_append, if_neg (Ne.symm (of_decide_eq_true hne))]
    exact hfind

/-- A new local is touched through its name. -/
theorem touches_new {new : Local} (hr : ∀ l ∈ ls, l.register ≠ new.register) :
    Touches (ls ++ [new]) names new.register ↔ new.name ∈ names := by
  constructor
  · rintro ⟨x, hx, i, l, hfind, hreg⟩
    rw [findLocal_append] at hfind
    split at hfind
    · rename_i hname
      exact hname ▸ hx
    · exact absurd hreg (hr l (mem_of_getElem? (findLocal_some hfind).1))
  · intro hx
    exact ⟨new.name, hx, ls.length, new, by rw [findLocal_append, if_pos rfl], rfl⟩

end Lower

/-! ## Single assignment -/

open Lower Body

theorem register_inj {r r' : RegisterId} (h : Access.register r = .register r') : r = r' := by
  cases h
  rfl

/-- How often the register of a local was written at most. -/
def Local.limit (l : Local) : Nat :=
  if l.assigned.possible then 1 else 0

theorem Local.limit_le_one (l : Local) : l.limit ≤ 1 := by
  rw [limit]
  split <;> omega

/-- A local that `b` may have assigned may be assigned in `b'`. -/
def Body.Under (b b' : Body) : Prop :=
  ∀ (i : Nat) (l' : Local), b'.locals[i]? = some l' →
    ∃ l, b.locals[i]? = some l ∧ l.limit ≤ l'.limit

/-- The name belongs to the `let`, and its register is new and written at most
    once in the code. -/
structure Declares (b : Body) (sh : Shape) (x : Binding) (info : LetInfo) : Prop where
  name : x.name = info.name
  mutable : x.mutable = info.mutable
  fresh : b.draft.registers.length ≤ x.register.index
  bounds : info.mutable = false → info.looped = false → info.nested = false → b.loopDepth = 0 →
    sh.Bounds x.register 0 1

/-- What code of the shape `sh` that writes to `dest` does with registers. -/
structure Once (cx : Context) (b : Body) (dest : Access) (E : Effect) (sh : Shape) (b' : Body) :
    Prop where
  /-- Only the destination and assigned locals are written. -/
  keep : ∀ r, cx.result ≠ .register r → r.index < b.draft.registers.length → dest ≠ .register r →
    ¬ Touches b.locals E.assigned r → sh.Avoids r
  /-- The destination is written at the end. -/
  deliver : ∀ r, cx.result ≠ .register r → dest = .register r →
    ¬ Touches b.locals E.assigned r → sh.Bounds r 0 1
  /-- A local is written only where no path has written it. -/
  track : ∀ (i : Nat) (l l' : Local), b.locals[i]? = some l → b'.locals[i]? = some l' →
    l.mutable = false → l.loopDepth = 0 → dest ≠ .register l.register →
    ¬ Touches b.locals E.nested l.register → sh.Bounds l.register l.limit l'.limit
  /-- A local from outside of the loops is not written in a loop. -/
  outer : ∀ l ∈ b.locals, l.mutable = false → l.loopDepth = 0 → b.loopDepth ≠ 0 →
    dest ≠ .register l.register → sh.Avoids l.register
  lets : ∃ new, b'.draft.bindings = b.draft.bindings ++ new ∧
    List.Forall₂ (Declares b sh) new E.lets

namespace Once

variable {cx : Context} {b b1 b2 b3 b' : Body} {dest dest' : Access} {E E1 E2 : Effect}
  {sh sh1 sh2 : Shape}

theorem before (h : Once cx b1 dest E sh b') (hs : b.Steady b1)
    (hle : b.draft.registers.length ≤ b1.draft.registers.length)
    (hd : b1.loopDepth = b.loopDepth) : Once cx b dest E sh b' where
  keep r hf hr := hs.locals ▸ h.keep r hf (Nat.lt_of_lt_of_le hr hle)
  deliver r := hs.locals ▸ h.deliver r
  track i l l' := hs.locals ▸ h.track i l l'
  outer l hl := hd ▸ h.outer l (hs.locals ▸ hl)
  lets := by
    obtain ⟨new, hnew, hlets⟩ := h.lets
    refine ⟨new, hs.named ▸ hnew, hlets.imp fun x info hx => ?_⟩
    exact ⟨hx.name, hx.mutable, Nat.le_trans hle hx.fresh, hd ▸ hx.bounds⟩

theorem after (h : Once cx b dest E sh b1)
    (hl : ∀ (i : Nat) (l : Local), b'.locals[i]? = some l → b1.locals[i]? = some l)
    (hn : b'.draft.bindings = b1.draft.bindings) : Once cx b dest E sh b' where
  keep := h.keep
  deliver := h.deliver
  track i l l' hi hi' := h.track i l l' hi (hl i l' hi')
  outer := h.outer
  lets := hn ▸ h.lets

theorem steady (h : Once cx b dest E sh b1) (hs : b1.Steady b') : Once cx b dest E sh b' :=
  h.after (fun _ _ hl => hs.locals ▸ hl) hs.named

/-- Code that writes no register that was there before. -/
theorem of_avoids (ha : ∀ r, r.index < b.draft.registers.length → dest ≠ .register r → sh.Avoids r)
    (hd : ∀ r, dest = .register r → sh.Bounds r 0 1) (hb : b.Intact cx) (hs : b.Steady b') :
    Once cx b dest .none sh b' where
  keep r _ hr hne _ := ha r hr hne
  deliver r _ hr _ := hd r hr
  track i l l' hi hi' _ _ hne _ := by
    rw [hs.locals, hi] at hi'
    cases hi'
    exact (ha _ (hb.locals l (mem_of_getElem? hi)) hne).bounds (Nat.le_refl _)
  outer l hl _ _ _ hne := ha _ (hb.locals l hl) hne
  lets := ⟨[], by rw [hs.named, append_nil], .nil⟩

theorem skip (hb : b.Intact cx) (hs : b.Steady b') : Once cx b dest .none .skip b' :=
  of_avoids (fun _ _ _ => Shape.avoids_skip)
    (fun _ _ => Shape.avoids_skip.bounds (Nat.zero_le _)) hb hs

theorem emit {i : Instruction} (hb : b.Intact cx) (hs : b.Steady b') (hdest : i.dest = dest) :
    Once cx b dest .none (.emit i) b' := by
  refine of_avoids (fun r _ hne => ?_) (fun r _ => .emit i) hb hs
  rintro _ ⟨⟩ hw
  exact hne (hdest ▸ hw)

/-- The destination is the result, or not among the registers that were there
    before. -/
theorem discard (hb : b.Intact cx) (h : Once cx b dest' E sh b')
    (hd : ∀ r, cx.result ≠ .register r → r.index < b.draft.registers.length →
      dest' ≠ .register r) : Once cx b .discard E sh b' where
  keep r hf hr _ := h.keep r hf hr (hd r hf hr)
  deliver r _ hr := by cases hr
  track i l l' hi hi' hm hz _ := by
    have hl := mem_of_getElem? hi
    exact h.track i l l' hi hi' hm hz (hd _ (hb.apart l hl) (hb.locals l hl))
  outer l hl hm hz hdepth _ :=
    h.outer l hl hm hz hdepth (hd _ (hb.apart l hl) (hb.locals l hl))
  lets := h.lets

theorem avoids (h : Once cx b dest E sh b') {r : RegisterId} (hf : cx.result ≠ .register r)
    (hr : r.index < b.draft.registers.length) (hd : dest ≠ .register r)
    (hl : ∀ l ∈ b.locals, l.register ≠ r) : sh.Avoids r := by
  refine h.keep r hf hr hd fun ht => ?_
  obtain ⟨l, hmem, hreg⟩ := ht.mem
  exact hl l hmem hreg

/-- A register that was made in code that came before is not written. -/
theorem avoids_older (h : Once cx b1 dest E sh b2) (hb : b.Intact cx) (hg : b.Grown cx sh1 b1)
    (hlevel : b.Level b1) (hd : dest.InRange b.draft.registers.length) {x : Binding}
    (hx : x ∈ b1.draft.bindings) (hfresh : b.draft.registers.length ≤ x.register.index) :
    sh.Avoids x.register := by
  refine h.avoids (hb.result_ne hfresh) (hg.intact.bindings x hx) (hd.ne_register hfresh)
    fun l hl hreg => ?_
  exact Nat.not_lt_of_le hfresh (hreg ▸ hlevel.register_lt hb hl)

/-- Names declared in the first piece of code, and then those of the second. -/
theorem lets_append (h1 : Once cx b dest' E1 sh1 b1) (hg1 : b.Grown cx sh1 b1)
    (h2 : Once cx b2 dest E2 sh2 b3) (hn : b2.draft.bindings = b1.draft.bindings)
    (hle : b1.draft.registers.length ≤ b2.draft.registers.length)
    (hdepth : b2.loopDepth = b.loopDepth)
    (hfirst : ∀ x ∈ b1.draft.bindings, b.draft.registers.length ≤ x.register.index →
      sh1.Bounds x.register 0 1 → sh.Bounds x.register 0 1)
    (hsecond : ∀ r : RegisterId, sh1.Avoids r → sh2.Bounds r 0 1 → sh.Bounds r 0 1) :
    ∃ new, b3.draft.bindings = b.draft.bindings ++ new ∧
      Forall₂ (Declares b sh) new (E1.lets ++ E2.lets) := by
  obtain ⟨new1, hnew1, hlets1⟩ := h1.lets
  obtain ⟨new2, hnew2, hlets2⟩ := h2.lets
  refine ⟨new1 ++ new2, by rw [hnew2, hn, hnew1, append_assoc],
    rel_append ?_ (hlets2.imp fun x info hx => ?_)⟩
  · have hmem : ∀ x ∈ new1, x ∈ b1.draft.bindings := fun x hx => by
      rw [hnew1]
      exact mem_append_right _ hx
    refine ((forall₂_and_left _ _).2 ⟨hmem, hlets1⟩).imp fun x info hx => ?_
    exact ⟨hx.2.name, hx.2.mutable, hx.2.fresh, fun hm hl hne hz =>
      hfirst x hx.1 hx.2.fresh (hx.2.bounds hm hl hne hz)⟩
  · refine ⟨hx.name, hx.mutable, Nat.le_trans hg1.registers_le (Nat.le_trans hle hx.fresh),
      fun hm hl hne hz => hsecond _ ?_ (hx.bounds hm hl hne (hdepth.trans hz))⟩
    exact Shape.avoids_of_inRange hg1.steps (Nat.le_trans hle hx.fresh)

/-- Code after code that delivers nothing.  In between, names may have come into scope that hide
    others. -/
theorem andThen {E : Effect} (hb : b.Intact cx) (h1 : Once cx b .discard E1 sh1 b1)
    (h2 : Once cx b2 dest E sh2 b') (hle : b.draft.registers.length ≤ b2.draft.registers.length)
    (hdepth : b2.loopDepth = b.loopDepth)
    (hlocals : ∀ (i : Nat) (l : Local), b.locals[i]? = some l → ∃ l1, b1.locals[i]? = some l1 ∧
      b2.locals[i]? = some l1 ∧ l1.fixed = l.fixed)
    (hassigned : ∀ r : RegisterId, r.index < b.draft.registers.length →
      Touches b2.locals E.assigned r → Touches b.locals E2.assigned r)
    (hnested : ∀ r : RegisterId, r.index < b.draft.registers.length →
      Touches b2.locals E.nested r → Touches b.locals E2.nested r)
    (hd : dest.InRange b.draft.registers.length)
    (hlets : ∃ new, b'.draft.bindings = b.draft.bindings ++ new ∧
      Forall₂ (Declares b (sh1.append sh2)) new (E1.lets ++ E2.lets)) :
    Once cx b dest (E1.seq E2) (sh1.append sh2) b' where
  keep r hf hr hne ht := by
    simp only [Effect.seq, touches_append, not_or] at ht
    exact (h1.keep r hf hr (by rintro ⟨⟩) ht.1).append
      (h2.keep r hf (Nat.lt_of_lt_of_le hr hle) hne (mt (hassigned r hr) ht.2))
  deliver r hf hr ht := by
    simp only [Effect.seq, touches_append, not_or] at ht
    have hlt := hd r (by rw [hr]; rfl)
    exact ((h1.keep r hf hlt (by rintro ⟨⟩) ht.1).bounds (Nat.le_refl 0)).append
      (h2.deliver r hf hr (mt (hassigned r hlt) ht.2))
  track i l l' hi hi' hm hz hne ht := by
    simp only [Effect.seq, touches_append, not_or] at ht
    obtain ⟨l1, hi1, hi2, hfixed⟩ := hlocals i l hi
    obtain ⟨hreg, hmut, hdepth1⟩ := Local.fixed_eq hfixed
    have hb2 := h2.track i l1 l' hi2 hi' (hmut.trans hm) (hdepth1.trans hz) (hreg ▸ hne)
      (hreg ▸ mt (hnested _ (hb.locals l (mem_of_getElem? hi))) ht.2)
    exact (h1.track i l l1 hi hi1 hm hz (by rintro ⟨⟩) ht.1).append (hreg ▸ hb2)
  outer l hl hm hz hdeep hne := by
    obtain ⟨i, hi⟩ := mem_iff_getElem?.1 hl
    obtain ⟨l1, -, hi2, hfixed⟩ := hlocals i l hi
    obtain ⟨hreg, hmut, hdepth1⟩ := Local.fixed_eq hfixed
    have ha2 := h2.outer l1 (mem_of_getElem? hi2) (hmut.trans hm) (hdepth1.trans hz)
      (hdepth ▸ hdeep) (hreg ▸ hne)
    exact (h1.outer l hl hm hz hdeep (by rintro ⟨⟩)).append (hreg ▸ ha2)
  lets := hlets

theorem seq (hb : b.Intact cx) (h1 : Once cx b .discard E1 sh1 b1) (hg1 : b.Grown cx sh1 b1)
    (hlevel : b.Level b1) (h2 : Once cx b1 dest E2 sh2 b2)
    (hd : dest.InRange b.draft.registers.length) :
    Once cx b dest (E1.seq E2) (sh1.append sh2) b2 := by
  refine h1.andThen hb h2 hg1.registers_le hg1.depth (fun i l hi => ?_)
    (fun _ _ => (touches_congr hlevel).1) (fun _ _ => (touches_congr hlevel).1) hd ?_
  · obtain ⟨l1, hi1, hfixed⟩ := getElem?_of_fixed hlevel hi
    exact ⟨l1, hi1, hi1, hfixed⟩
  · refine lets_append h1 hg1 h2 rfl (Nat.le_refl _) hg1.depth (fun x hx hfresh hbounds => ?_)
      fun r ha hbounds => (ha.bounds (Nat.le_refl 0)).append hbounds
    exact hbounds.append ((h2.avoids_older hb hg1 hlevel hd hx hfresh).bounds (Nat.le_refl 1))

theorem assign (hb : b.Intact cx) {x : String} {i : Nat} {l : Local}
    (hfind : findLocal x b.locals = some (i, l))
    (hfree : l.mutable = false → l.assigned.possible = false ∧ l.loopDepth = b.loopDepth)
    (h : Once cx b (.register l.register) E sh b1)
    (hl : b'.locals = b1.locals.modify i fun l => { l with assigned := .assigned })
    (hn : b'.draft.bindings = b1.draft.bindings) :
    Once cx b .discard (.assign (some x) E) sh b' := by
  obtain ⟨hi, hname⟩ := findLocal_some hfind
  have hx : ∀ names : List String, x ∈ names → Touches b.locals names l.register :=
    fun names hx => ⟨x, hx, i, l, hfind, rfl⟩
  -- registers of locals are distinct
  have same : ∀ (j : Nat) (l' : Local), b.locals[j]? = some l' → l'.register = l.register →
      j = i ∧ l' = l := by
    intro j l' hj hreg
    have hji : (b.locals.map Local.register)[j]? = (b.locals.map Local.register)[i]? := by
      rw [getElem?_map, getElem?_map, hj, hi]
      simp [hreg]
    have hlt : j < (b.locals.map Local.register).length := by
      rw [length_map]
      exact (List.getElem?_eq_some_iff.1 hj).1
    have hij : j = i := (getElem?_inj hlt hb.distinct).1 hji
    subst hij
    exact ⟨rfl, by rw [hj] at hi; cases hi; rfl⟩
  refine ⟨fun r hf hr _ ht => ?_, by rintro r _ ⟨⟩, fun j lj lj' hj hj' hm hz _ ht => ?_,
    fun lj hlj hm hz hdepth _ => ?_, hn ▸ h.lets⟩
  · refine h.keep r hf hr ?_ fun ht' => ht ?_
    · rintro heq
      exact ht (register_inj heq ▸ hx _ (by simp [Effect.assign]))
    · obtain ⟨y, hy, hrest⟩ := ht'
      exact ⟨y, mem_cons_of_mem _ hy, hrest⟩
  · by_cases hreg : lj.register = l.register
    · obtain ⟨rfl, rfl⟩ := same j lj hj hreg
      -- the local itself: it was not assigned on any path, and is so now
      have hassigned : ¬ Touches b.locals E.assigned lj.register := by
        rintro ⟨y, hy, k, lk, hk, hregk⟩
        obtain ⟨hk', hnamek⟩ := findLocal_some hk
        obtain ⟨rfl, rfl⟩ := same k lk hk' hregk
        obtain rfl : y = x := hnamek.symm.trans hname
        exact ht (hx _ (by simp [Effect.assign, hy]))
      have hlimit : lj.limit = 0 := by simp [Local.limit, (hfree hm).1]
      have hlimit' : lj'.limit = 1 := by
        rw [hl, getElem?_modify_eq] at hj'
        obtain ⟨l1, -, rfl⟩ := map_eq_some_iff.1 hj'
        rfl
      rw [hlimit, hlimit']
      exact h.deliver _ (hb.apart _ (mem_of_getElem? hj)) rfl hassigned
    · have hne : j ≠ i := by
        rintro rfl
        rw [hj] at hi
        cases hi
        exact hreg rfl
      rw [hl, getElem?_modify_ne _ _ (Ne.symm hne)] at hj'
      refine h.track j lj lj' hj hj' hm hz ?_ fun ht' => ht ?_
      · exact fun heq => hreg (register_inj heq).symm
      · obtain ⟨y, hy, hrest⟩ := ht'
        refine ⟨y, ?_, hrest⟩
        simp only [Effect.assign]
        split
        · exact mem_cons_of_mem _ hy
        · exact hy
  · refine h.outer lj hlj hm hz hdepth ?_
    intro heq
    obtain ⟨j, hj⟩ := mem_iff_getElem?.1 hlj
    obtain ⟨-, rfl⟩ := same j lj hj (register_inj heq).symm
    exact hdepth ((hfree hm).2 ▸ hz)

theorem exit {result : Access} (hn : b'.draft.bindings = b.draft.bindings) :
    Once cx b dest .none (.exit result) b' where
  keep r _ _ _ _ := by rintro i ⟨⟩
  deliver r _ _ _ := .exit result
  track i l l' _ _ _ _ _ _ := .exit result
  outer l _ _ _ _ _ := by rintro i ⟨⟩
  lets := ⟨[], by rw [hn, append_nil], .nil⟩

/-- Behind a conditional a local may be assigned if it may be behind a branch. -/
theorem when (h : Once cx b .discard E sh b1) (test : Access)
    (hj : b.Under b') (hj1 : b1.Under b')
    (hn : b'.draft.bindings = b1.draft.bindings) : Once cx b .discard E (.when test sh) b' where
  keep r hf hr hne ht := ⟨by rintro i ⟨⟩, h.keep r hf hr hne ht⟩
  deliver r _ hr := by cases hr
  track i l l' hi hi' hm hz hne ht := by
    obtain ⟨l0, hi0, hle⟩ := hj i l' hi'
    obtain ⟨l1, hi1, hle1⟩ := hj1 i l' hi'
    cases hi.symm.trans hi0
    exact ((h.track i l l1 hi hi1 hm hz hne ht).mono (Nat.le_refl _) hle1).when hle test
  outer l hl hm hz hdepth hne := ⟨by rintro i ⟨⟩, h.outer l hl hm hz hdepth hne⟩
  lets := by
    obtain ⟨new, hnew, hlets⟩ := h.lets
    refine ⟨new, hn ▸ hnew, hlets.imp fun x info hx => ⟨hx.name, hx.mutable, hx.fresh, ?_⟩⟩
    exact fun hm hl hne hz => (hx.bounds hm hl hne hz).when (Nat.zero_le _) test

theorem ifElse (hb : b.Intact cx) (h1 : Once cx b dest E1 sh1 b1) (hg1 : b.Grown cx sh1 b1)
    (h2 : Once cx b2 dest E2 sh2 b3) (hl2 : b2.locals = b.locals)
    (hn2 : b2.draft.bindings = b1.draft.bindings)
    (hr2 : b2.draft.registers = b1.draft.registers) (hd2 : b2.loopDepth = b1.loopDepth)
    (hd : dest.InRange b.draft.registers.length) (test : Access) (hj1 : b1.Under b')
    (hj3 : b3.Under b') (hn : b'.draft.bindings = b3.draft.bindings) :
    Once cx b dest (E1.seq E2) (.ifElse test sh1 sh2) b' := by
  have hle : b.draft.registers.length ≤ b2.draft.registers.length := hr2 ▸ hg1.registers_le
  have hdepth : b2.loopDepth = b.loopDepth := hd2.trans hg1.depth
  refine ⟨fun r hf hr hne ht => ?_, fun r hf hr ht => ?_,
    fun i l l' hi hi' hm hz hne ht => ?_, fun l hl hm hz hdeep hne => ?_, ?_⟩
  · simp only [Effect.seq, touches_append, not_or] at ht
    exact ⟨by rintro i ⟨⟩, h1.keep r hf hr hne ht.1,
      h2.keep r hf (Nat.lt_of_lt_of_le hr hle) hne (hl2 ▸ ht.2)⟩
  · simp only [Effect.seq, touches_append, not_or] at ht
    exact (h1.deliver r hf hr ht.1).ifElse (h2.deliver r hf hr (hl2 ▸ ht.2)) test
  · simp only [Effect.seq, touches_append, not_or] at ht
    obtain ⟨l1, hi1, hle1⟩ := hj1 i l' hi'
    obtain ⟨l3, hi3, hle3⟩ := hj3 i l' hi'
    have hb1 := h1.track i l l1 hi hi1 hm hz hne ht.1
    have hb3 := h2.track i l l3 (hl2 ▸ hi) hi3 hm hz hne (hl2 ▸ ht.2)
    exact (hb1.mono (Nat.le_refl _) hle1).ifElse (hb3.mono (Nat.le_refl _) hle3) test
  · exact ⟨by rintro i ⟨⟩, h1.outer l hl hm hz hdeep hne,
      h2.outer l (hl2 ▸ hl) hm hz (hdepth ▸ hdeep) hne⟩
  · rw [hn]
    refine lets_append h1 hg1 h2 hn2 (Nat.le_of_eq (by rw [hr2])) hdepth
      (fun x hx hfresh hbounds => hbounds.ifElse ?_ test)
      fun r ha hbounds => (ha.bounds (Nat.zero_le 1)).ifElse hbounds test
    -- a register made for the first branch is not written in the second
    refine (h2.avoids (hb.result_ne hfresh) (hr2 ▸ hg1.intact.bindings x hx)
      (hd.ne_register hfresh) fun l hl hreg => ?_).bounds (Nat.zero_le 1)
    exact Nat.not_lt_of_le hfresh (hreg ▸ hb.locals l (hl2 ▸ hl))

/-- In a loop no immutable local from outside of all loops is written. -/
theorem loop (hdeep : b1.loopDepth ≠ 0) (hl1 : b1.locals = b.locals)
    (hr1 : b.draft.registers.length ≤ b1.draft.registers.length)
    (hn1 : b1.draft.bindings = b.draft.bindings) (h : Once cx b1 .discard E1 sh1 b2)
    (hg : b1.Grown cx sh1 b2) (hlevel : b1.Level b2) (h' : Once cx b2 .discard E2 sh2 b3)
    (test : Access) (hj : b2.Under b') (hn : b'.draft.bindings = b3.draft.bindings) :
    Once cx b .discard (E1.seq E2).inLoop (.loop sh1 test sh2) b' := by
  have avoids : ∀ l ∈ b.locals, l.mutable = false → l.loopDepth = 0 →
      sh1.Avoids l.register ∧ sh2.Avoids l.register := by
    intro l hl hm hz
    obtain ⟨i, hi⟩ := mem_iff_getElem?.1 hl
    obtain ⟨l2, hi2, hfixed⟩ := getElem?_of_fixed hlevel (hl1 ▸ hi)
    obtain ⟨hreg, hmut, hdepth⟩ := Local.fixed_eq hfixed
    have ha := h'.outer l2 (mem_of_getElem? hi2) (hmut.trans hm) (hdepth.trans hz)
      (hg.depth ▸ hdeep) (by rintro ⟨⟩)
    exact ⟨h.outer l (hl1 ▸ hl) hm hz hdeep (by rintro ⟨⟩), hreg ▸ ha⟩
  refine ⟨fun r hf hr hne ht => ?_, (by rintro r _ ⟨⟩), fun i l l' hi hi' hm hz hne ht => ?_,
    fun l hl hm hz _ _ => ?_, ?_⟩
  · simp only [Effect.inLoop, Effect.seq, touches_append, not_or] at ht
    have hr' := Nat.lt_of_lt_of_le hr hr1
    exact ⟨h.keep r hf hr' hne (hl1 ▸ ht.1), by rintro i ⟨⟩,
      h'.keep r hf (Nat.lt_of_lt_of_le hr' hg.registers_le) hne
        (mt (touches_congr hlevel).1 (hl1 ▸ ht.2))⟩
  · simp only [Effect.inLoop, Effect.seq, touches_append, not_or] at ht
    obtain ⟨ha1, ha2⟩ := avoids l (mem_of_getElem? hi) hm hz
    obtain ⟨l2, hi2, hle⟩ := hj i l' hi'
    have hbounds := h.track i l l2 (hl1 ▸ hi) hi2 hm hz hne (hl1 ▸ ht.1)
    exact Shape.Bounds.loop ha1 ha2 (hbounds.mono (Nat.le_refl _) hle) test
  · obtain ⟨ha1, ha2⟩ := avoids l hl hm hz
    exact ⟨ha1, by rintro i ⟨⟩, ha2⟩
  · obtain ⟨new1, hnew1, hlets1⟩ := h.lets
    obtain ⟨new2, hnew2, hlets2⟩ := h'.lets
    refine ⟨new1 ++ new2, by rw [hn, hnew2, hnew1, hn1, append_assoc], ?_⟩
    refine forall₂_map_right_iff.2 (rel_append (hlets1.imp ?_) (hlets2.imp ?_))
    · exact fun x info hx => ⟨hx.name, hx.mutable, Nat.le_trans hr1 hx.fresh,
        fun _ hl => by cases hl⟩
    · exact fun x info hx => ⟨hx.name, hx.mutable,
        Nat.le_trans hr1 (Nat.le_trans hg.registers_le hx.fresh), fun _ hl => by cases hl⟩

/-- The local `new` comes into scope. -/
structure Opens (new : Local) (b b' : Body) : Prop where
  locals : b'.locals = b.locals ++ [new]
  named : b'.draft.bindings = b.draft.bindings ++ [⟨new.name, new.register, new.mutable⟩]
  registers : b'.draft.registers = b.draft.registers
  depth : b'.loopDepth = b.loopDepth

/-- The register of a new local is written as often as its state says. -/
theorem bounds_new (h : Once cx b dest E sh b') (hg : b.Grown cx sh b') {ls : List Local}
    {new : Local} (hl : b.locals = ls ++ [new]) (hm : new.mutable = false)
    (hz : new.loopDepth = 0) (hd : dest ≠ .register new.register)
    (hls : ∀ l ∈ ls, l.register ≠ new.register) (hn : new.name ∉ E.nested) :
    sh.Bounds new.register new.limit 1 := by
  have hlast : b.locals[ls.length]? = some new := by rw [hl, getElem?_concat_length]
  have hlast' : (b'.locals.map Local.fixed)[ls.length]? = some new.fixed := by
    obtain ⟨more, hmore, -⟩ := hg.locals
    rw [hmore, getElem?_append_left, getElem?_map, hlast]
    · rfl
    · rw [length_map]
      exact (List.getElem?_eq_some_iff.1 hlast).1
  rw [getElem?_map] at hlast'
  obtain ⟨l', hl', -⟩ := map_eq_some_iff.1 hlast'
  refine (h.track _ new l' hlast hl' hm hz hd ?_).mono (Nat.le_refl _) l'.limit_le_one
  rw [hl, touches_new hls]
  exact hn

section Declare

variable {new : Local} {type : Ty} (hb : b.Intact cx)
  (hnew : b.Allocates cx type new.register b1) (hdepth : new.loopDepth = b.loopDepth)
  (h1 : Once cx b1 (.register new.register) E1 sh1 b2)
  (hg1 : b1.Grown cx sh1 b2) (hlevel : b1.Level b2)
  (hlimit : sh1.Bounds new.register 0 new.limit) (ho : Opens new b2 b3)
  (h2 : Once cx b3 dest E2 sh2 b') (hg2 : b3.Grown cx sh2 b')
  (hd : dest.InRange b.draft.registers.length)

include hb hnew hdepth h1 hg1 hlevel hlimit ho h2 hg2 hd

/-- The names that the initializer declares, then the new one, then those of the rest. -/
theorem lets_declare : ∃ names, b'.draft.bindings = b.draft.bindings ++ names ∧
    Forall₂ (Declares b (sh1.append sh2)) names
      (E1.lets ++ ⟨new.name, new.mutable, false, decide (new.name ∈ E2.nested)⟩ :: E2.lets) := by
  have hindex := hnew.index
  have hsize := hnew.length
  have hdepth3 : b3.loopDepth = b.loopDepth := ho.depth.trans (hg1.depth.trans hnew.grown.depth)
  have hsize3 : b1.draft.registers.length ≤ b3.draft.registers.length :=
    ho.registers ▸ hg1.registers_le
  have hlevel' : b.Level b2 := hlevel.trans (by rw [hnew.steady.locals])
  have older : ∀ l ∈ b2.locals, l.register.index < b.draft.registers.length :=
    fun l hl => hlevel'.register_lt hb hl
  obtain ⟨names1, hnames1, hlets1⟩ := h1.lets
  obtain ⟨names2, hnames2, hlets2⟩ := h2.lets
  refine ⟨names1 ++ ⟨new.name, new.register, new.mutable⟩ :: names2, ?_,
    rel_append ?_ (.cons ?_ (hlets2.imp fun x info hx => ?_))⟩
  · rw [hnames2, ho.named, hnames1, hnew.steady.named]
    simp
  · have hmem : ∀ x ∈ names1, x ∈ b2.draft.bindings := fun x hx => by
      rw [hnames1]
      exact mem_append_right _ hx
    refine ((forall₂_and_left _ _).2 ⟨hmem, hlets1⟩).imp fun x info hx => ?_
    have hfresh := hx.2.fresh
    refine ⟨hx.2.name, hx.2.mutable, by omega, fun hm hl hn hz => ?_⟩
    have hbounds := hx.2.bounds hm hl hn (hnew.grown.depth.trans hz)
    refine hbounds.append (Shape.Avoids.bounds ?_ (Nat.le_refl 1))
    -- its register is made before the rest, and belongs to no local there
    refine h2.avoids (hb.result_ne (by omega)) (ho.registers ▸ hg1.intact.bindings x hx.1)
      (hd.ne_register (by omega)) fun l hl => ?_
    rw [ho.locals, mem_append, mem_singleton] at hl
    rintro hreg
    rcases hl with hl | rfl
    · have := older l hl
      rw [hreg] at this
      omega
    · rw [hreg] at hindex
      omega
  · -- the new local: written by its initializer, or else tracked in the rest
    refine ⟨rfl, rfl, Nat.le_of_eq hindex.symm, fun hm _ hn hz => hlimit.append ?_⟩
    exact h2.bounds_new hg2 ho.locals hm (hdepth.trans hz) (hd.ne_register (by omega))
      (fun l hl => hnew.ne (older l hl)) (of_decide_eq_false hn)
  · have hfresh := hx.fresh
    refine ⟨hx.name, hx.mutable, by omega, fun hm hl hn hz => ?_⟩
    refine Shape.Bounds.append (Shape.Avoids.bounds ?_ (Nat.le_refl 0))
      (hx.bounds hm hl hn (hdepth3.trans hz))
    exact Shape.avoids_of_inRange hg1.steps (ho.registers ▸ hfresh)

/-- A `let` is in force for the rest of its block. -/
theorem declare :
    Once cx b dest (E1.seq (.declare new.name new.mutable E2)) (sh1.append sh2) b' := by
  have hdepth1 := hnew.grown.depth
  have hsize := hnew.length
  have hlevel' : b.Level b2 := hlevel.trans (by rw [hnew.steady.locals])
  have first : Once cx b .discard E1 sh1 b2 :=
    (h1.before hnew.steady (by omega) hdepth1).discard hb fun r _ hr heq =>
      hnew.ne hr (register_inj heq).symm
  have hidden : ∀ (names : List String) (r : RegisterId), r.index < b.draft.registers.length →
      Touches b3.locals names r → Touches b.locals (names.filter (· ≠ new.name)) r := by
    intro names r hr ht
    rwa [ho.locals, touches_declared (hnew.ne hr).symm, touches_congr hlevel'] at ht
  refine first.andThen hb h2 ?_ (ho.depth.trans (hg1.depth.trans hdepth1)) (fun i l hi => ?_)
    (hidden _) (hidden _) hd
    (lets_declare hb hnew hdepth h1 hg1 hlevel hlimit ho h2 hg2 hd)
  · have := hg1.registers_le
    rw [ho.registers]
    omega
  · obtain ⟨l2, hi2, hfixed⟩ := getElem?_of_fixed hlevel' hi
    refine ⟨l2, hi2, ?_, hfixed⟩
    rwa [ho.locals, getElem?_append_left (List.getElem?_eq_some_iff.1 hi2).1]

end Declare

end Once

end Semcheck
