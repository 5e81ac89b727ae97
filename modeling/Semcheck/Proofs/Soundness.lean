/-
  What is known about a program for which nothing is reported.

  Lowered with strict inference, such a program

  * was lowered as a whole, and all its types are known (`lowered_whole`);
  * is well typed in every segment that can be reached (`lowered_typed`);
  * reads a register only behind a write to it (`lowered_reads`);
  * writes an immutable local once, unless the local is assigned in the value of
    an assignment to it (`lowered_once`).  The exception is needed:
    `nested_writes_twice` shows such a program.  For this it is enough that no step
    of lowering gave up, with lax inference too;
  * is lowered to the same functions with lax inference (`lowered_lax`);
  * writes through mutable pointers and to parts of mutable locals only, and takes
    a mutable address only of such places (`lowered_permitted`).

  With lax inference a step can give up in silence: see `retyped_writes_twice`.
-/
import Semcheck.Ir.Reach
import Semcheck.Proofs.Compilation
import Semcheck.Proofs.Lower.Lax

namespace Semcheck

open List

/-! ## Reachable segments -/

namespace Function

variable {f : Function} {s : SegmentId} {segment : Segment}

/-- Jumps lead from the entry to the segment. -/
def Reachable (f : Function) (s : SegmentId) : Prop :=
  Relation.ReflTransGen (fun s t => t ∈ f.next s) .entry s

theorem Runs.along {past : History} (hr : f.Runs past s 0) (hs : f.segment? s = some segment)
    {i : Nat} (hi : i ≤ segment.instructions.length) :
    f.Runs (past ++ segment.instructions.take i) s i := by
  induction i with
  | zero => simpa using hr
  | succ i ih =>
    have hins : segment.instructions[i]? = some (segment.instructions.get ⟨i, hi⟩) :=
      getElem?_eq_getElem hi
    rw [take_add_one, hins, ← append_assoc]
    exact (ih (Nat.le_of_lt hi)).step hs hins

theorem Reachable.runs (h : f.Reachable s) : ∃ past, f.Runs past s 0 := by
  induction h with
  | refl => exact ⟨[], .entry⟩
  | tail _ hnext ih =>
    obtain ⟨past, hr⟩ := ih
    rw [Function.next] at hnext
    split at hnext
    · rename_i segment hs
      exact ⟨_, (hr.along hs (Nat.le_refl _)).jump hs hnext⟩
    · cases hnext

theorem Reachable.meets (h : f.Reachable s) (hs : f.segment? s = some segment) {i : Instruction}
    (hi : i ∈ segment.instructions) : ∃ past, f.Meets past (.run i) := by
  obtain ⟨past, hr⟩ := h.runs
  obtain ⟨n, hn⟩ := mem_iff_getElem?.1 hi
  have hlt := (List.getElem?_eq_some_iff.1 hn).1
  exact ⟨_, .run (hr.along hs (Nat.le_of_lt hlt)) hs hn⟩

/-- What a segment writes is written on a path. -/
theorem Reachable.runs_writes (h : f.Reachable s) (hs : f.segment? s = some segment)
    (r : RegisterId) :
    ∃ past i, f.Runs past s i ∧ History.writes segment.instructions r ≤ past.writes r := by
  obtain ⟨past, hr⟩ := h.runs
  refine ⟨_, _, hr.along hs (Nat.le_refl _), ?_⟩
  rw [take_length, History.writes, History.writes, countP_append]
  exact Nat.le_add_left _ _

end Function

/-! ## Typing -/

/-- A test is of a truth value, and a result of the type the function returns. -/
def Terminator.Typed (has : Access → Ty → Prop) (returns : Ty) : Terminator → Prop
  | .finish => returns = .unit
  | .ret value => has value returns
  | .goto _ => True
  | .branch test _ _ => has test (.struct .bool)

/-- All steps of the segment are well typed. -/
structure Segment.Typed (table : Table) (f : Function) (segment : Segment) : Prop where
  instructions : ∀ i ∈ segment.instructions, i.Typed table (f.Has table)
  terminator : segment.terminator.Typed (f.Has table) f.returnType

theorem Terminator.Typed.of_event {table : Table} {f : Function} {t : Terminator}
    (hne : t ≠ .ret .discard)
    (h : ∀ ev, t.event? = some ev → ev.Typed table (f.Has table) f.returnType) :
    t.Typed (f.Has table) f.returnType := by
  cases t with
  | goto target => trivial
  | branch test onTrue onFalse => exact h _ rfl
  | finish =>
    rcases h _ rfl with ⟨-, hunit⟩ | hhas
    · exact hunit
    · cases hhas
  | ret value =>
    rcases h _ rfl with ⟨rfl, -⟩ | hhas
    · exact absurd rfl hne
    · exact hhas

/-- If all paths are fine then so is what can be reached. -/
theorem Segment.Typed.of_fine {table : Table} {f : Function} (hwf : f.WellFormed table)
    (hfine : ∀ past ev, f.Meets past ev → f.Fine table past ev) {s : SegmentId} {segment : Segment}
    (hr : f.Reachable s) (hs : f.segment? s = some segment) : segment.Typed table f := by
  have hmem : segment ∈ f.segments := mem_of_getElem? hs
  constructor
  · intro i hi
    obtain ⟨past, hm⟩ := hr.meets hs hi
    exact (hfine past _ hm).typed
  · obtain ⟨past, hruns⟩ := hr.runs
    refine .of_event (hwf.steps segment hmem).2.valued fun ev hev => ?_
    exact (hfine _ _ (.leave (hruns.along hs (Nat.le_refl _)) hs hev)).typed

/-! ## Samples -/

theorem ok_of_toOption {ε α : Type} {x : Except ε α} {a : α} (h : a ∈ x.toOption) : x = .ok a := by
  cases x with
  | ok b => cases h; rfl
  | error e => cases h

namespace Sample

def name (text : String) : Ident := ⟨text, .nowhere⟩

def path (text : String) : Path := ⟨[name text], false, .nowhere⟩

def var (text : String) : Expr := .name (path text) .nowhere

def type (text : String) : TypeExpr := .path (path text) .nowhere

def step (e : Expr) : Stmt := .expr e .nowhere

/-- `fn id(x: int) -> int { x }` and a function `main` that calls it, takes the
    address of a local and writes through it in a loop. -/
def program : List SourceFile := [⟨⟨0⟩, [
  .funct ⟨name "id", [⟨name "x", false, type "int", .nowhere⟩], some (type "int"), some (var "x"),
    .nowhere⟩,
  .funct ⟨name "main", [⟨name "c", false, type "bool", .nowhere⟩], some (type "int"), some (.block [
    .binding (name "n") true (some (type "int")) none .nowhere,
    step (.assign (var "n") (.call (var "id") [.int 1 .nowhere] .nowhere) .nowhere),
    .binding (name "r") false none (some (.addressOf true (var "n") .nowhere)) .nowhere,
    step (.loop (var "c") (.block [
      step (.assign (.deref (var "r") .nowhere) (.int 2 .nowhere) .nowhere)] .nowhere) .nowhere),
    step (var "n")] .nowhere), .nowhere⟩], .nowhere⟩]

/-- `fn main() { let x: int; x = { x = 1; 2 } }` -/
def nested : List SourceFile := [⟨⟨0⟩, [
  .funct ⟨name "main", [], none, some (.block [
    .binding (name "x") false (some (type "int")) none .nowhere,
    step (.assign (var "x") (.block [step (.assign (var "x") (.int 1 .nowhere) .nowhere),
      step (.int 2 .nowhere)] .nowhere) .nowhere)] .nowhere), .nowhere⟩], .nowhere⟩]

/-- `fn f(c: bool) { let x: int; let y; let mut t = (1, 2); if c { return; t.0 = { t = true; y } };
    y = 5; x = (y,); x = 3 }`.  In the lax mode the type of `t` is replaced, `t.0` has no
    type then, and neither has `y`. -/
def retyped : List SourceFile := [⟨⟨0⟩, [
  .funct ⟨name "f", [⟨name "c", false, type "bool", .nowhere⟩], none, some (.block [
    .binding (name "x") false (some (type "int")) none .nowhere,
    .binding (name "y") false none none .nowhere,
    .binding (name "t") true none (some (.tuple [.int 1 .nowhere, .int 2 .nowhere] .nowhere))
      .nowhere,
    step (.ifElse (var "c") (.block [step (.ret none .nowhere),
      step (.assign (.field (var "t") (name "0") .nowhere) (.block [
        step (.assign (var "t") (.bool true .nowhere) .nowhere),
        step (var "y")] .nowhere) .nowhere)] .nowhere) none .nowhere),
    step (.assign (var "y") (.int 5 .nowhere) .nowhere),
    step (.assign (var "x") (.tuple [var "y"] .nowhere) .nowhere),
    step (.assign (var "x") (.int 3 .nowhere) .nowhere)] .nowhere), .nowhere⟩], .nowhere⟩]

/-- `fn main() { let mut t = (1, 2); t.0 = 3; let r = &mut t; (*r).1 = 4 }` -/
def writes : List SourceFile := [⟨⟨0⟩, [
  .funct ⟨name "main", [], none, some (.block [
    .binding (name "t") true none (some (.tuple [.int 1 .nowhere, .int 2 .nowhere] .nowhere))
      .nowhere,
    step (.assign (.field (var "t") (name "0") .nowhere) (.int 3 .nowhere) .nowhere),
    .binding (name "r") false none (some (.addressOf true (var "t") .nowhere)) .nowhere,
    step (.assign (.field (.deref (var "r") .nowhere) (name "1") .nowhere) (.int 4 .nowhere)
      .nowhere)] .nowhere), .nowhere⟩], .nowhere⟩]

/-- Nothing is reported.  Segment `2` of `main` is the loop, where `r` is read. -/
theorem program_lowered : ∃ p ∈ (lowerFiles true program).toOption,
    p.report.entries.isEmpty = true ∧ ∃ entry ∈ p.table.functs, ⟨1⟩ ∈ entry.funct.next .entry ∧
      ⟨2⟩ ∈ entry.funct.next ⟨1⟩ ∧ ∃ segment ∈ entry.funct.segment? ⟨2⟩,
        ∃ i ∈ segment.instructions[0]?, ⟨6⟩ ∈ i.reads := by
  decide +kernel

/-- Nothing is reported, and the entry segment writes the local twice. -/
theorem nested_lowered : ∃ p ∈ (lowerFiles true nested).toOption,
    p.report.entries.isEmpty = true ∧ ∃ entry ∈ p.table.functs, ∃ x ∈ entry.funct.bindings,
      x.mutable = false ∧ ∃ segment ∈ entry.funct.segment? .entry,
        2 ≤ History.writes segment.instructions x.register := by
  decide +kernel

/-- The lax mode gives up the first assignment to `x`, behind the write, and reports
    nothing. -/
theorem retyped_lowered : ∃ p ∈ (lowerFiles false retyped).toOption,
    p.report.entries.isEmpty = true ∧ p.gaveUp = true ∧ ∃ entry ∈ p.table.functs,
      ∃ x ∈ entry.funct.bindings, x.mutable = false ∧ ⟨2⟩ ∈ entry.funct.next .entry ∧
        ∃ segment ∈ entry.funct.segment? ⟨2⟩,
          2 ≤ History.writes segment.instructions x.register := by
  decide +kernel

/-- Nothing is reported.  The local `t` has register `0`, and `r` has register `4`. -/
theorem writes_lowered : ∃ p ∈ (lowerFiles true writes).toOption,
    p.report.entries.isEmpty = true ∧ ∃ entry ∈ p.table.functs,
      ∃ segment ∈ entry.funct.segment? .entry,
        (∃ i ∈ segment.instructions, i.dest = .place ⟨0⟩ [0] false) ∧
        .address (.register ⟨0⟩) true (.register ⟨4⟩) ∈ segment.instructions ∧
        ∃ i ∈ segment.instructions, i.dest = .place ⟨4⟩ [1] true := by
  decide +kernel

/-- An accepted program, with the loop of its function `main`. -/
theorem main_loop : ∃ p, lowerFiles true program = .ok p ∧ p.report.entries = [] ∧
    ∃ entry ∈ p.table.functs, ∃ segment, entry.funct.Reachable ⟨2⟩ ∧
      entry.funct.segment? ⟨2⟩ = some segment ∧
        ∃ i, segment.instructions[0]? = some i ∧ ⟨6⟩ ∈ i.reads := by
  obtain ⟨p, hp, hq, entry, he, h1, h2, segment, hs, i, hi, hr⟩ := program_lowered
  refine ⟨p, ?_, isEmpty_iff.1 hq, entry, he, segment, ?_, hs, i, hi, hr⟩
  · exact ok_of_toOption hp
  · exact (Relation.ReflTransGen.single h1).tail h2

end Sample

/-! ## Programs -/

section Programs

variable {files : List SourceFile} {p : Program}

theorem Program.Realizes.of_lowered {strict : Bool} (h : lowerFiles strict files = .ok p) :
    p.Realizes strict (.ofFiles files) := by
  obtain ⟨p', h', hp⟩ := lowerFiles_spec strict files
  rw [h] at h'
  cases h'
  exact hp

theorem Program.Realizes.fine {o : Outline} (h : p.Realizes true o) (hq : p.report.entries = [])
    {entry : FunctEntry} (he : entry ∈ p.table.functs) {past : History} {ev : Event}
    (hm : entry.funct.Meets past ev) : entry.funct.Fine p.table past ev := by
  obtain ⟨pending, -, hrealized⟩ := h.realized he
  exact hrealized.fine rfl hq past ev hm

/-- **There is no silent failure.**  Every list of files is lowered, and if nothing is
    reported then no step of lowering gave up, and no type of a register, of a result
    or of a field is unknown or erroneous. -/
theorem lowered_whole (files : List SourceFile) :
    ∃ p, lowerFiles true files = .ok p ∧ (p.report.entries = [] →
      p.gaveUp = false ∧ (∀ entry ∈ p.table.functs, entry.funct.Resolved) ∧
      ∀ entry ∈ p.table.structs, ∀ field ∈ entry.fields, field.type.isResolved = true) := by
  obtain ⟨p, hp, h⟩ := lowerFiles_spec true files
  refine ⟨p, hp, fun hq => ⟨h.whole rfl hq, fun entry he => ?_, h.resolved hq⟩⟩
  obtain ⟨pending, -, hrealized⟩ := h.realized he
  exact hrealized.resolved rfl hq

theorem sample_whole : ∃ p, lowerFiles true Sample.program = .ok p ∧ p.report.entries = [] ∧
    p.gaveUp = false ∧ ∀ entry ∈ p.table.functs, entry.funct.Resolved := by
  obtain ⟨p, hp, hq, -⟩ := Sample.main_loop
  obtain ⟨p', hp', h⟩ := lowered_whole Sample.program
  rw [hp] at hp'
  cases hp'
  exact ⟨p, hp, hq, (h hq).1, (h hq).2.1⟩

-- `fn main() { x }`: a step that gives up is remembered
example : ∃ p ∈ (lowerFiles true [⟨⟨0⟩, [.funct ⟨Sample.name "main", [], none,
    some (Sample.var "x"), .nowhere⟩], .nowhere⟩]).toOption, p.gaveUp = true := by
  decide +kernel

/-- **Lowering is type sound.**  If nothing is reported then every segment that can
    be reached is well typed, with respect to the final types of the registers. -/
theorem lowered_typed (h : lowerFiles true files = .ok p) (hq : p.report.entries = [])
    {entry : FunctEntry} (he : entry ∈ p.table.functs) {s : SegmentId} {segment : Segment}
    (hr : entry.funct.Reachable s) (hs : entry.funct.segment? s = some segment) :
    segment.Typed p.table entry.funct :=
  have hp := Program.Realizes.of_lowered h
  .of_fine (hp.wellFormed he) (fun _ _ hm => hp.fine hq he hm) hr hs

theorem sample_typed : ∃ p, lowerFiles true Sample.program = .ok p ∧ p.report.entries = [] ∧
    ∃ entry ∈ p.table.functs, ∃ segment, entry.funct.Reachable ⟨2⟩ ∧
      entry.funct.segment? ⟨2⟩ = some segment ∧ segment.Typed p.table entry.funct := by
  obtain ⟨p, hp, hq, entry, he, segment, hr, hs, -⟩ := Sample.main_loop
  exact ⟨p, hp, hq, entry, he, segment, hr, hs, lowered_typed hp hq he hr hs⟩

/-- **Everything is assigned before it is read.**  If nothing is reported then, on
    every path from the entry, a register that is read is a parameter or the
    destination of an earlier instruction. -/
theorem lowered_reads (h : lowerFiles true files = .ok p) (hq : p.report.entries = [])
    {entry : FunctEntry} (he : entry ∈ p.table.functs) {past : History} {ev : Event}
    (hm : entry.funct.Meets past ev) :
    ∀ r ∈ ev.reads, r.index < entry.funct.paramCount ∨ ∃ i ∈ past, i.Writes r := by
  intro r hr
  have hfine := (Program.Realizes.of_lowered h).fine hq he hm
  refine (hfine.reads r hr).imp id fun hpos => ?_
  simpa [History.writes, List.countP_pos_iff] using hpos

theorem sample_reads : ∃ p, lowerFiles true Sample.program = .ok p ∧ p.report.entries = [] ∧
    ∃ entry ∈ p.table.functs, ∃ past i, entry.funct.Meets past (.run i) ∧ ⟨6⟩ ∈ i.reads ∧
      ((6 : Nat) < entry.funct.paramCount ∨ ∃ i ∈ past, i.Writes ⟨6⟩) := by
  obtain ⟨p, hp, hq, entry, he, segment, hr, hs, i, hi, hread⟩ := Sample.main_loop
  obtain ⟨past, hruns⟩ := hr.runs
  have hm : entry.funct.Meets past (.run i) := .run hruns hs hi
  exact ⟨p, hp, hq, entry, he, past, i, hm, hread, lowered_reads hp hq he hm ⟨6⟩ hread⟩

/-- **Immutable locals are assigned once.**  If no step of lowering gave up, or with strict
    inference nothing is reported, then the names of a function behind its parameters
    are the `let`s of its body.  The register of an immutable one is written at most once
    on every path from the entry, unless the `let` is in a loop or the local is assigned
    in the value of an assignment to it. -/
theorem lowered_once {strict : Bool} (h : lowerFiles strict files = .ok p)
    (hq : p.gaveUp = false ∨ strict = true ∧ p.report.entries = [])
    {pending : PendingFunct} (hp : pending ∈ (Outline.ofFiles files).functs) {body : Expr}
    (hbody : pending.decl.body = some body) :
    ∃ f, p.table.funct? pending.id = some f ∧
      List.Forall₂ (fun x info => x.name = info.name ∧ x.mutable = info.mutable ∧
          (info.mutable = false → info.looped = false → info.nested = false →
            ∀ past s i, f.Runs past s i → past.writes x.register ≤ 1))
        (f.bindings.drop f.paramCount) body.effect.lets := by
  have hrealizes := Program.Realizes.of_lowered h
  have hwhole : p.gaveUp = false := hq.elim id fun hq => hrealizes.whole hq.1 hq.2
  obtain ⟨f, hf, hrealized⟩ := hrealizes.functs pending hp
  exact ⟨f, hf, (hrealized.lets hwhole body hbody).imp fun _ _ ha => ⟨ha.name, ha.mutable, ha.once⟩⟩

theorem sample_once : ∃ p, lowerFiles false Sample.program = .ok p ∧ p.gaveUp = false ∧
    ∃ f, p.table.funct? ⟨1⟩ = some f ∧ ∃ x ∈ f.bindings, x.name = "r" ∧
      ∀ past s i, f.Runs past s i → past.writes x.register ≤ 1 := by
  have hlowered : ∃ p ∈ (lowerFiles false Sample.program).toOption, p.gaveUp = false := by
    decide +kernel
  have hmain : ∃ pending ∈ (Outline.ofFiles Sample.program).functs, pending.id = ⟨1⟩ ∧
      ∃ body ∈ pending.decl.body,
        body.effect.lets = [⟨"n", true, false, false⟩, ⟨"r", false, false, false⟩] := by
    decide +kernel
  obtain ⟨p, hp, hw⟩ := hlowered
  have hp : lowerFiles false Sample.program = .ok p := ok_of_toOption hp
  obtain ⟨pending, hmem, hid, body, hbody, hlets⟩ := hmain
  obtain ⟨f, hf, hall⟩ := lowered_once hp (.inl hw) hmem hbody
  rw [hlets] at hall
  cases hbindings : f.bindings.drop f.paramCount with
  | nil => simp [hbindings] at hall
  | cons n rest =>
    rw [hbindings, List.forall₂_cons] at hall
    obtain ⟨-, hrest⟩ := hall
    obtain ⟨r, rest', ⟨hname, -, honce⟩, -, rfl⟩ := List.forall₂_cons_right_iff.1 hrest
    refine ⟨p, hp, hw, f, hid ▸ hf, r, List.mem_of_mem_drop (i := f.paramCount) ?_, hname,
      honce rfl rfl rfl⟩
    rw [hbindings]
    simp

/-- An immutable local is written twice where it is assigned in the value of an
    assignment to it: whether it may be assigned is checked before the value is
    lowered. -/
theorem nested_writes_twice : ∃ p, lowerFiles true Sample.nested = .ok p ∧ p.report.entries = [] ∧
    ∃ entry ∈ p.table.functs, ∃ x ∈ entry.funct.bindings, x.mutable = false ∧
      ∃ past s i, entry.funct.Runs past s i ∧ 2 ≤ past.writes x.register := by
  obtain ⟨p, hp, hq, entry, he, x, hx, hmutable, segment, hs, htwice⟩ := Sample.nested_lowered
  have hreach : entry.funct.Reachable .entry := .refl
  obtain ⟨past, i, hruns, hle⟩ := hreach.runs_writes hs x.register
  exact ⟨p, ok_of_toOption hp, List.isEmpty_iff.1 hq, entry, he, x, hx, hmutable, past, _, i, hruns,
    Nat.le_trans htwice hle⟩

/-- The lax mode does not have these properties: a step can give up in silence, and an
    assignment that gives up may have written the local already. -/
theorem retyped_writes_twice : ∃ p, lowerFiles false Sample.retyped = .ok p ∧
    p.report.entries = [] ∧ p.gaveUp = true ∧ ∃ entry ∈ p.table.functs,
      ∃ x ∈ entry.funct.bindings, x.mutable = false ∧
        ∃ past s i, entry.funct.Runs past s i ∧ 2 ≤ past.writes x.register := by
  obtain ⟨p, hp, hq, hgave, entry, he, x, hx, hmutable, hnext, segment, hs, htwice⟩ :=
    Sample.retyped_lowered
  have hreach : entry.funct.Reachable ⟨2⟩ := .single hnext
  obtain ⟨past, i, hruns, hle⟩ := hreach.runs_writes hs x.register
  exact ⟨p, ok_of_toOption hp, isEmpty_iff.1 hq, hgave, entry, he, x, hx, hmutable, past, _, i,
    hruns, Nat.le_trans htwice hle⟩

/-- **Lax inference is conservative.**  If strict inference has nothing to report then
    lax inference comes to the same program: it has nothing to report either, and all
    structs and functions are the same. -/
theorem lowered_lax (files : List SourceFile) :
    ∃ p, lowerFiles true files = .ok p ∧
      (p.report.entries = [] → lowerFiles false files = .ok p) := by
  obtain ⟨p, hrun, -⟩ := lowerFiles_spec true files
  refine ⟨p, hrun, fun hq => ?_⟩
  obtain ⟨program, bodies, hsignatures, hbodies, hset⟩ := lowerFiles_eq_ok.1 hrun
  have ho := Outline.ofFiles_valid files
  obtain ⟨program', hsignatures', hl⟩ := lowerSignatures_spec ho
  cases hsignatures.symm.trans hsignatures'
  refine lowerFiles_eq_ok.2 ⟨program, bodies, hsignatures, ?_, hset⟩
  exact lowerBodies_lax hl.valid.table hl.valid.headed (fun pending hp => hl.functs ▸ ho.lt hp)
    hl.valid.plain hbodies hq

theorem sample_lax : ∃ p, lowerFiles true Sample.program = .ok p ∧ p.report.entries = [] ∧
    lowerFiles false Sample.program = .ok p := by
  obtain ⟨p, hp, hq, -⟩ := Sample.main_loop
  obtain ⟨p', hp', h⟩ := lowered_lax Sample.program
  rw [hp] at hp'
  cases hp'
  exact ⟨p, hp, hq, h hq⟩

-- the lax mode accepts more
example : ∃ p ∈ (lowerFiles true Sample.retyped).toOption, p.report.entries.isEmpty = false := by
  decide +kernel

/-- **What is written may be written.**  If nothing is reported then, in every segment
    that can be reached, an instruction writes through a pointer only if it is a mutable
    one, and to a part of a register only if that belongs to a mutable local or parameter;
    and it takes a mutable address only of such places. -/
theorem lowered_permitted (h : lowerFiles true files = .ok p) (hq : p.report.entries = [])
    {entry : FunctEntry} (he : entry ∈ p.table.functs) {s : SegmentId} {segment : Segment}
    (hr : entry.funct.Reachable s) (hs : entry.funct.segment? s = some segment) :
    ∀ i ∈ segment.instructions, i.Permitted entry.funct.Points entry.funct.Binds := by
  intro i hi
  obtain ⟨past, hm⟩ := hr.meets hs hi
  obtain ⟨pending, -, hrealized⟩ := (Program.Realizes.of_lowered h).realized he
  exact hrealized.permitted rfl hq past _ hm

theorem writes_permitted : ∃ p, lowerFiles true Sample.writes = .ok p ∧ p.report.entries = [] ∧
    ∃ entry ∈ p.table.functs, ∃ segment, entry.funct.Reachable .entry ∧
      entry.funct.segment? .entry = some segment ∧
      (∃ i ∈ segment.instructions, i.dest = .place ⟨0⟩ [0] false ∧ entry.funct.Binds ⟨0⟩) ∧
      (.address (.register ⟨0⟩) true (.register ⟨4⟩) ∈ segment.instructions ∧
        entry.funct.Binds ⟨0⟩) ∧
      ∃ i ∈ segment.instructions, i.dest = .place ⟨4⟩ [1] true ∧ entry.funct.Points ⟨4⟩ := by
  obtain ⟨p, hp, hq, entry, he, segment, hs, ⟨i, hi, hfield⟩, haddress, j, hj, htarget⟩ :=
    Sample.writes_lowered
  have hp : lowerFiles true Sample.writes = .ok p := ok_of_toOption hp
  have hq : p.report.entries = [] := List.isEmpty_iff.1 hq
  have hpermitted := lowered_permitted hp hq he .refl hs
  refine ⟨p, hp, hq, entry, he, segment, .refl, hs, ⟨i, hi, hfield, ?_⟩, ⟨haddress, ?_⟩,
    j, hj, htarget, ?_⟩
  · exact (hpermitted i hi).dest.field _ _ hfield (by simp)
  · exact (hpermitted _ haddress).address _ _ rfl
  · exact (hpermitted j hj).dest.deref _ _ htarget

-- `fn main() { let t = (1, 2); return; t.0 = 3 }`: no path leads to the assignment
example : ∃ p ∈ (lowerFiles true [⟨⟨0⟩, [.funct ⟨Sample.name "main", [], none, some (.block [
    .binding (Sample.name "t") false none
      (some (.tuple [.int 1 .nowhere, .int 2 .nowhere] .nowhere)) .nowhere,
    Sample.step (.ret none .nowhere),
    Sample.step (.assign (.field (Sample.var "t") (Sample.name "0") .nowhere) (.int 3 .nowhere)
      .nowhere)] .nowhere), .nowhere⟩], .nowhere⟩]).toOption,
    p.report.entries.isEmpty = true ∧ ∃ entry ∈ p.table.functs,
      ∃ segment ∈ entry.funct.segments, ∃ i ∈ segment.instructions,
        i.dest = .place ⟨0⟩ [0] false ∧ ∀ x ∈ entry.funct.bindings, x.mutable = false := by
  decide +kernel

end Programs

end Semcheck
