/-
  Reading a syntax tree back.

  Two JSON values are alike (`Json.Alike`) if they differ in the order of the
  members of objects only.  A reader reads a value from what was written
  (`Json.Reads`) if it reads the value from every JSON value that is alike, with
  an allowance that covers the nesting.

  There is one such lemma for each kind of node, by induction on the syntax.  It
  follows that what is written for a file is read back as the file, and that
  what is written for another file is not alike (`SourceFile.decode_encode`).
-/
import Mathlib.Data.List.Forall2
import Mathlib.Data.List.Nodup
import Semcheck.Tree.Decode
import Semcheck.Tree.Encode

namespace Semcheck

open List Option Json

/-! ## Values up to the order of members -/

namespace Json

variable {ps ns : List (Option String × Json)} {α : Type} {decode : Nat → Json → Option α}
  {encode : α → Json} {x : Json} {b : Bool}

/-- The two values are equal but for the order of members. -/
inductive Alike : Json → Json → Prop where
  | refl (json : Json) : Alike json json
  | arr {xs ys : List Json} (h : List.Forall₂ Alike xs ys) : Alike (.arr xs) (.arr ys)
  | obj {ms ps ns : List (Option String × Json)} (hkeys : ms.map Prod.fst = ps.map Prod.fst)
      (hvalues : List.Forall₂ Alike (ms.map Prod.snd) (ps.map Prod.snd)) (hperm : ps.Perm ns) :
      Alike (.obj ms) (.obj ns)

namespace Alike

variable {json : Json}

theorem null_left (h : Alike .null json) : json = .null := by
  cases h
  rfl

theorem null_right (h : Alike json .null) : json = .null := by
  cases h
  rfl

theorem bool_left {b : Bool} (h : Alike (.bool b) json) : json = .bool b := by
  cases h
  rfl

theorem int_left {i : Int} (h : Alike (.int i) json) : json = .int i := by
  cases h
  rfl

theorem text_left {s : String} (h : Alike (text s) json) : json = text s := by
  cases h
  rfl

theorem arr_left {xs : List Json} (h : Alike (.arr xs) json) :
    ∃ ys, json = .arr ys ∧ Forall₂ Alike xs ys := by
  cases h with
  | refl => exact ⟨xs, rfl, forall₂_same.2 fun x _ => .refl x⟩
  | arr h => exact ⟨_, rfl, h⟩

theorem obj_left {ms : List (Option String × Json)} (h : Alike (.obj ms) json) :
    ∃ ps ns : List (Option String × Json), json = .obj ns ∧ ms.map Prod.fst = ps.map Prod.fst ∧
      Forall₂ Alike (ms.map Prod.snd) (ps.map Prod.snd) ∧ ps.Perm ns := by
  cases h with
  | refl => exact ⟨ms, ms, rfl, rfl, forall₂_same.2 fun x _ => .refl x, .refl _⟩
  | obj hkeys hvalues hperm => exact ⟨_, _, rfl, hkeys, hvalues, hperm⟩

end Alike

/-! ## Records -/

/-- Where no key is repeated, a key selects one member. -/
theorem filter_key (h : (ps.map Prod.fst).Nodup) {p : Option String × Json} (hp : p ∈ ps) :
    ps.filter (fun q => q.1 = p.1) = [p] := by
  induction ps with
  | nil => cases hp
  | cons q ps ih =>
    rw [map_cons, nodup_cons] at h
    rcases mem_cons.1 hp with rfl | hp
    · have hnone : ps.filter (fun q => q.1 = p.1) = [] :=
        filter_eq_nil_iff.2 fun q hq heq =>
          h.1 (mem_map.2 ⟨q, hq, by simpa using heq⟩)
      simp [hnone]
    · have hne : q.1 ≠ p.1 := fun heq => h.1 (heq ▸ mem_map_of_mem hp)
      simpa [hne] using ih h.2 hp

theorem member?_of_perm (hperm : ps.Perm ns) (h : (ps.map Prod.fst).Nodup) {key : String}
    {value : Json} (hp : (some key, value) ∈ ps) : member? key ns = some (some value) := by
  have hfilter := hperm.filter fun q => q.1 = some key
  rw [filter_key h hp] at hfilter
  rw [member?, perm_singleton.1 hfilter.symm]

theorem mapM_member? (hperm : ps.Perm ns) (h : (ps.map Prod.fst).Nodup) :
    ∀ {keys : List String} {qs : List (Option String × Json)},
      keys.map some = qs.map Prod.fst → (∀ q ∈ qs, q ∈ ps) →
        keys.mapM (fun key => member? key ns) = some ((qs.map Prod.snd).map some)
  | [], [], _, _ => rfl
  | key :: keys, (name, value) :: qs, hkeys, hmem => by
    simp only [map_cons, cons.injEq] at hkeys
    obtain ⟨rfl, hkeys⟩ := hkeys
    rw [forall_mem_cons] at hmem
    simp [member?_of_perm hperm h hmem.1, mapM_member? hperm h hkeys hmem.2]

/-- The fields of a record are found whatever their order. -/
theorem Alike.record {ms : List (String × Json)} (hkeys : (ms.map Prod.fst).Nodup) {json : Json}
    (h : (object ms).Alike json) :
    ∃ values, json.record (ms.map Prod.fst) = some (values.map some) ∧
      json.objectRecord (ms.map Prod.fst) = some (values.map some) ∧
        Forall₂ Alike (ms.map Prod.snd) values := by
  obtain ⟨ps, ns, rfl, hfst, hsnd, hperm⟩ := h.obj_left
  have hnames : (ms.map Prod.fst).map some = ps.map Prod.fst := by
    rw [← hfst]
    simp
  have hnodup : (ps.map Prod.fst).Nodup :=
    hnames ▸ hkeys.map fun _ _ => some.inj
  have hsome : ns.all (fun m => m.1.isSome) = true := by
    refine all_eq_true.2 fun m hm => ?_
    have hmem : m.1 ∈ ps.map Prod.fst := mem_map_of_mem (hperm.mem_iff.2 hm)
    rw [← hnames] at hmem
    obtain ⟨key, -, hkey⟩ := mem_map.1 hmem
    rw [← hkey]
    rfl
  have hrecord : Json.record (ms.map Prod.fst) (.obj ns) = some ((ps.map Prod.snd).map some) := by
    rw [Json.record, if_pos hsome]
    exact mapM_member? hperm hnodup hnames fun _ hq => hq
  exact ⟨ps.map Prod.snd, hrecord, hrecord, by simpa [Function.comp_def] using hsnd⟩

/-! ## What a reader is given -/

theorem depth_le_depthOfItems {xs : List Json} (h : x ∈ xs) : x.depth ≤ depthOfItems xs := by
  induction xs with
  | nil => cases h
  | cons y xs ih =>
    rw [depthOfItems]
    rcases mem_cons.1 h with rfl | h
    · exact Nat.le_max_left _ _
    · exact Nat.le_trans (ih h) (Nat.le_max_right _ _)

theorem depth_le_depthOfMembers {m : Option String × Json} {ms : List (Option String × Json)}
    (h : m ∈ ms) : m.2.depth ≤ depthOfMembers ms := by
  induction ms with
  | nil => cases h
  | cons p ms ih =>
    rw [depthOfMembers]
    rcases mem_cons.1 h with rfl | h
    · exact Nat.le_max_left _ _
    · exact Nat.le_trans (ih h) (Nat.le_max_right _ _)

/-- A reader with the allowance `n` is given a value that is alike to what was
    written, and the allowance covers the nesting. -/
structure Given (n : Nat) (written json : Json) : Prop where
  alike : written.Alike json
  depth_le : written.depth ≤ n

/-- The reader reads the value `a` from what was written. -/
def Reads {α : Type} (decode : Nat → Json → Option α) (written : Json) (a : α) : Prop :=
  ∀ ⦃n : Nat⦄ ⦃json : Json⦄, Given n written json → decode n json = some a

namespace Given

variable {n : Nat} {json : Json} {ms : List (String × Json)} {xs : List Json}

theorem forall₂ {ys : List Json} (h : Forall₂ Alike xs ys) (hn : ∀ x ∈ xs, x.depth ≤ n) :
    Forall₂ (Given n) xs ys := by
  induction h with
  | nil => exact .nil
  | cons hx _ ih =>
    rw [forall_mem_cons] at hn
    exact .cons ⟨hx, hn.1⟩ (ih hn.2)

theorem arr (h : Given n (.arr xs) json) :
    ∃ m ys, n = m + 1 ∧ json = .arr ys ∧ Forall₂ (Given m) xs ys := by
  obtain ⟨ys, rfl, hys⟩ := h.alike.arr_left
  have hdepth := h.depth_le
  rw [depth] at hdepth
  obtain ⟨m, rfl⟩ := Nat.exists_eq_add_of_le' (Nat.le_trans (Nat.le_add_right 1 _) hdepth)
  refine ⟨m, ys, rfl, rfl, forall₂ hys fun x hx => ?_⟩
  have := depth_le_depthOfItems hx
  omega

theorem exists_eq_succ (h : Given n (object ms) json) : ∃ m, n = m + 1 := by
  have hdepth := h.depth_le
  rw [object, depth] at hdepth
  exact Nat.exists_eq_add_of_le' (Nat.le_trans (Nat.le_add_right 1 _) hdepth)

/-- The fields of a record, read with the rest of the allowance. -/
theorem fields (h : Given n (object ms) json) (keys : List String) (hkeys : ms.map Prod.fst = keys)
    (hnodup : keys.Nodup) :
    ∃ m values, n = m + 1 ∧ json.record keys = some (values.map some) ∧
      json.objectRecord keys = some (values.map some) ∧
        Forall₂ (Given m) (ms.map Prod.snd) values := by
  subst hkeys
  obtain ⟨values, hrecord, hobject, hvalues⟩ := h.alike.record hnodup
  obtain ⟨m, rfl⟩ := h.exists_eq_succ
  have hdepth := h.depth_le
  rw [object, depth] at hdepth
  refine ⟨m, values, rfl, hrecord, hobject, forall₂ hvalues fun x hx => ?_⟩
  obtain ⟨p, hp, rfl⟩ := mem_map.1 hx
  have hle : p.2.depth ≤ _ :=
    depth_le_depthOfMembers (mem_map_of_mem (f := fun m => (some m.1, m.2)) hp)
  omega

theorem variant {key : String} {x : Json} (h : Given n (object [(key, x)]) json) :
    ∃ m y, n = m + 1 ∧ json.variant? = some (key, y) ∧ Given m x y := by
  obtain ⟨ps, ns, rfl, hfst, hsnd, hperm⟩ := h.alike.obj_left
  obtain ⟨⟨name, y⟩, rfl⟩ : ∃ p, ps = [p] :=
    length_eq_one_iff.1 (by simpa using congrArg length hfst.symm)
  obtain rfl := perm_singleton.1 hperm.symm
  obtain rfl : some key = name := by simpa using hfst
  have hy : x.Alike y := by simpa using hsnd
  have hdepth : 1 + max x.depth 0 ≤ n := h.depth_le
  exact ⟨n - 1, y, by omega, rfl, hy, by omega⟩

end Given

/-! ## Scalars, options and lists -/

variable {n : Nat} {json : Json}

theorem Given.word? {w : UInt32} (h : Given n (.nat w.toNat) json) : json.word? = some w := by
  rw [h.alike.int_left, Json.word?, if_pos ⟨by omega, w.toNat_lt⟩, Int.toNat_natCast,
    UInt32.ofNat_toNat]

theorem Given.int64? {v : Int64} (h : Given n (.int v.toInt) json) : json.int64? = some v := by
  rw [h.alike.int_left, Json.int64?, if_pos ⟨v.minValue_le_toInt, v.toInt_le⟩, Int64.ofInt_toInt]

theorem Given.bool? (h : Given n (.bool b) json) : json.bool? = some b := by
  rw [h.alike.bool_left, Json.bool?]

theorem Given.flag? (h : Given n (.bool b) json) : flag? (some json) = some b :=
  h.bool?

theorem Given.text? {s : String} (h : Given n (.text s) json) : json.text? = some s := by
  rw [h.alike.text_left, text, Json.text?]

theorem option?_some_of_ne (decode : Json → Option α) (h : json ≠ .null) :
    option? decode (some json) = (decode json).map some := by
  cases json with
  | null => exact absurd rfl h
  | _ => rfl

/-- An option is read back if its value is, and if no value is written as `null`. -/
theorem Reads.option (hnull : ∀ a, encode a ≠ .null) {o : Option α}
    (ho : ∀ a ∈ o, Reads decode (encode a) a) (h : Given n (ofOption encode o) json) :
    option? (decode n) (some json) = some o := by
  cases o with
  | none =>
    rw [h.alike.null_left]
    rfl
  | some a =>
    have hne : json ≠ .null := by
      rintro rfl
      exact hnull a h.alike.null_right
    rw [option?_some_of_ne _ hne, ho a rfl h]
    rfl

/-- Values that are read from what is alike are the same. -/
theorem Reads.inj {y : Json} {a b : α} (hx : Reads decode x a) (hy : Reads decode y b)
    (h : x.Alike y) : a = b := by
  have ha : decode (max x.depth y.depth) y = some a := hx ⟨h, Nat.le_max_left _ _⟩
  have hb : decode (max x.depth y.depth) y = some b := hy ⟨.refl y, Nat.le_max_right _ _⟩
  exact some.inj (ha.symm.trans hb)

theorem mapM_of_forall₂ :
    ∀ {as : List α} {ys : List Json}, (∀ a ∈ as, Reads decode (encode a) a) →
      Forall₂ (Given n) (as.map encode) ys → ys.mapM (decode n) = some as
  | [], _, _, .nil => rfl
  | a :: as, y :: ys, ha, .cons hy hys => by
    rw [forall_mem_cons] at ha
    simp [ha.1 hy, mapM_of_forall₂ ha.2 hys]

theorem Reads.list {as : List α} (h : ∀ a ∈ as, Reads decode (encode a) a) :
    Reads (Decode.list decode) (.arr (as.map encode)) as := by
  intro n json hjson
  obtain ⟨m, ys, rfl, rfl, hys⟩ := hjson.arr
  exact mapM_of_forall₂ h hys

end Json

open Json (Given Reads)

/-! ## Positions and names -/

theorem Span.reads (s : Span) : Reads Decode.span s.encode s := by
  intro n json h
  obtain ⟨m, _, rfl, hrecord, -, hvalues⟩ := h.fields ["start", "end"] rfl (by decide)
  obtain _ | ⟨hstart, _ | ⟨hstop, _ | _⟩⟩ := hvalues
  simp [Decode.span, hrecord, hstart.word?, hstop.word?]

theorem Location.reads (l : Location) : Reads Decode.location l.encode l := by
  intro n json h
  obtain ⟨m, _, rfl, hrecord, -, hvalues⟩ := h.fields ["file", "span"] rfl (by decide)
  obtain _ | ⟨hfile, _ | ⟨hspan, _ | _⟩⟩ := hvalues
  simp [Decode.location, hrecord, hfile.word?, l.span.reads hspan]

theorem Ident.reads (i : Ident) : Reads Decode.ident i.encode i := by
  intro n json h
  obtain ⟨m, _, rfl, hrecord, -, hvalues⟩ := h.fields ["text", "span"] rfl (by decide)
  obtain _ | ⟨htext, _ | ⟨hspan, _ | _⟩⟩ := hvalues
  simp [Decode.ident, hrecord, htext.text?, i.span.reads hspan]

theorem Ident.encode_ne_null (i : Ident) : i.encode ≠ .null := nofun

theorem Path.reads (p : Path) : Reads Decode.path p.encode p := by
  intro n json h
  obtain ⟨m, _, rfl, hrecord, -, hvalues⟩ :=
    h.fields ["segments", "absolute", "span"] rfl (by decide)
  obtain _ | ⟨hsegments, _ | ⟨habsolute, _ | ⟨hspan, _ | _⟩⟩⟩ := hvalues
  have hlist := Reads.list (fun i _ => i.reads) hsegments
  simp [Decode.path, hrecord, hlist, habsolute.flag?, p.span.reads hspan]

variable {span : Location} {kind : String} {x json : Json} {n : Nat}

/-- The tag, the contents and the location of a node. -/
theorem Json.Given.node (h : Given n (node kind x span) json) :
    ∃ m y, n = m + 3 ∧ Decode.node (m + 1) json = some (kind, y, span) ∧ Given (m + 1) x y := by
  obtain ⟨m, _, rfl, hrecord, -, hvalues⟩ := h.fields ["kind", "span"] rfl (by decide)
  obtain _ | ⟨hkind, _ | ⟨hspan, _ | _⟩⟩ := hvalues
  obtain ⟨k, y, rfl, hvariant, hy⟩ := hkind.variant
  -- a location is nested two deep, so that one is left of the allowance
  obtain ⟨k, rfl⟩ : ∃ j, k = j + 1 :=
    Nat.exists_eq_add_of_le' (Nat.le_of_succ_le_succ hspan.depth_le)
  exact ⟨k, y, rfl, by simp [Decode.node, hrecord, hvariant, span.reads hspan], hy⟩

/-- A node is read back if it is read from its tag, its contents and its location. -/
theorem Json.Reads.node {α : Type} {decode : Nat → Json → Option α}
    {step : Nat → String × Json × Location → Option α} {a : α}
    (hdecode : ∀ n json, decode (n + 3) json = Decode.node (n + 1) json >>= step n)
    (h : ∀ {n : Nat} {body : Json}, Given (n + 1) x body → step n (kind, body, span) = some a) :
    Reads decode (.node kind x span) a := by
  intro n json hjson
  obtain ⟨m, body, rfl, hnode, hbody⟩ := hjson.node
  rw [hdecode, hnode]
  exact h hbody

/-- The record inside an alternative is an object, so it is read in either form. -/
theorem Json.Given.payload {ms : List (String × Json)} (h : Given (n + 1) (object ms) json)
    (form : Form) (keys : List String) (hkeys : ms.map Prod.fst = keys) (hnodup : keys.Nodup) :
    ∃ values, Decode.payload form keys json = some (values.map some) ∧
      Forall₂ (Given n) (ms.map Prod.snd) values := by
  obtain ⟨m, values, hm, hrecord, hobject, hvalues⟩ := h.fields keys hkeys hnodup
  obtain rfl : n = m := Nat.succ.inj hm
  refine ⟨values, ?_, hvalues⟩
  cases form with
  | text => exact hrecord
  | value => exact hobject

/-! ## Types -/

variable (form : Form)

theorem encodeTypes_eq_map (ts : List TypeExpr) : encodeTypes ts = ts.map TypeExpr.encode := by
  induction ts with
  | nil => rfl
  | cons t ts ih => rw [encodeTypes, ih, map_cons]

theorem Decode.types_eq_list : types form = list (typeExpr form) := by
  funext n json
  cases n <;> rw [types, list]

theorem TypeExpr.encode_ne_null (t : TypeExpr) : t.encode ≠ .null := by
  fun_cases TypeExpr.encode t <;> exact nofun

theorem TypeExpr.encode_funct (params : List TypeExpr) (returns : Option TypeExpr)
    (span : Location) : (TypeExpr.funct params returns span).encode =
      .node "funct" (.object [("params", .arr (encodeTypes params)),
        ("returns", .ofOption TypeExpr.encode returns)]) span := by
  cases returns <;> rw [TypeExpr.encode, ofOption]

mutual

theorem TypeExpr.reads : ∀ t : TypeExpr, Reads (Decode.typeExpr form) t.encode t
  | .path name span => by
    rw [TypeExpr.encode]
    refine .node (fun _ _ => by rw [Decode.typeExpr]) fun hbody => ?_
    simp [name.reads hbody]
  | .pointer mutable lifetime pointee span => by
    rw [TypeExpr.encode]
    refine .node (fun _ _ => by rw [Decode.typeExpr]) fun hbody => ?_
    obtain ⟨_, hpayload, hvalues⟩ :=
      hbody.payload form ["mutable", "lifetime", "pointee"] rfl (by decide)
    obtain _ | ⟨hmutable, _ | ⟨hlifetime, _ | ⟨hpointee, _ | _⟩⟩⟩ := hvalues
    have hoption := Reads.option Ident.encode_ne_null (fun i _ => i.reads) hlifetime
    simp [hpayload, hmutable.bool?, hoption, pointee.reads hpointee]
  | .tuple elements span => by
    rw [TypeExpr.encode, encodeTypes_eq_map]
    refine .node (fun _ _ => by rw [Decode.typeExpr]) fun hbody => ?_
    have hlist := Reads.list (TypeExpr.reads_of_mem elements) hbody
    simp [Decode.types_eq_list, hlist]
  | .funct params returns span => by
    rw [TypeExpr.encode_funct, encodeTypes_eq_map]
    refine .node (fun _ _ => by rw [Decode.typeExpr]) fun hbody => ?_
    obtain ⟨_, hpayload, hvalues⟩ := hbody.payload form ["params", "returns"] rfl (by decide)
    obtain _ | ⟨hparams, _ | ⟨hreturns, _ | _⟩⟩ := hvalues
    have hlist := Reads.list (TypeExpr.reads_of_mem params) hparams
    have hoption :=
      Reads.option TypeExpr.encode_ne_null (TypeExpr.reads_of_mem? returns) hreturns
    simp [Decode.types_eq_list, hpayload, hlist, hoption]

theorem TypeExpr.reads_of_mem :
    ∀ ts : List TypeExpr, ∀ t ∈ ts, Reads (Decode.typeExpr form) t.encode t
  | [] => nofun
  | t :: ts => forall_mem_cons.2 ⟨TypeExpr.reads t, TypeExpr.reads_of_mem ts⟩

theorem TypeExpr.reads_of_mem? :
    ∀ o : Option TypeExpr, ∀ t ∈ o, Reads (Decode.typeExpr form) t.encode t
  | none => nofun
  | some t => by
    rintro _ ⟨⟩
    exact TypeExpr.reads t

end

/-! ## Expressions and statements -/

/-- What is written for the value of a field. -/
def FieldInit.encode (i : FieldInit) : Json :=
  .object [("name", i.name.encode), ("value", i.value.encode), ("span", i.span.encode)]

theorem encodeExprs_eq_map (es : List Expr) : encodeExprs es = es.map Expr.encode := by
  induction es with
  | nil => rfl
  | cons e es ih => rw [encodeExprs, ih, map_cons]

theorem encodeStmts_eq_map (ss : List Stmt) : encodeStmts ss = ss.map Stmt.encode := by
  induction ss with
  | nil => rfl
  | cons s ss ih => rw [encodeStmts, ih, map_cons]

theorem encodeInits_eq_map (fs : List FieldInit) : encodeInits fs = fs.map FieldInit.encode := by
  induction fs with
  | nil => rfl
  | cons f fs ih =>
    obtain ⟨name, value, span⟩ := f
    rw [encodeInits, ih, map_cons, FieldInit.encode]

theorem Decode.exprs_eq_list : exprs form = list (expr form) := by
  funext n json
  cases n <;> rw [exprs, list]

theorem Decode.stmts_eq_list : stmts form = list (stmt form) := by
  funext n json
  cases n <;> rw [stmts, list]

theorem Decode.inits_eq_list : inits form = list (init form) := by
  funext n json
  cases n <;> rw [inits, list]

theorem Expr.encode_ne_null (e : Expr) : e.encode ≠ .null := by
  fun_cases Expr.encode e <;> exact nofun

theorem Expr.encode_ifElse (condition thenBranch : Expr) (elseBranch : Option Expr)
    (span : Location) : (Expr.ifElse condition thenBranch elseBranch span).encode =
      .node "if" (.object [("condition", condition.encode), ("then_branch", thenBranch.encode),
        ("else_branch", .ofOption Expr.encode elseBranch)]) span := by
  cases elseBranch <;> rw [Expr.encode, ofOption]

theorem Expr.encode_ret (value : Option Expr) (span : Location) :
    (Expr.ret value span).encode = .node "return" (.ofOption Expr.encode value) span := by
  cases value <;> rw [Expr.encode, ofOption]

theorem Stmt.encode_binding (name : Ident) (mutable : Bool) (type : Option TypeExpr)
    (init : Option Expr) (span : Location) : (Stmt.binding name mutable type init span).encode =
      .node "let" (.object [("name", name.encode), ("mutable", .bool mutable),
        ("ty", .ofOption TypeExpr.encode type), ("init", .ofOption Expr.encode init)]) span := by
  cases init <;> rw [Stmt.encode, ofOption]

mutual

theorem Expr.reads : ∀ e : Expr, Reads (Decode.expr form) e.encode e
  | .block stmts span => by
    rw [Expr.encode, encodeStmts_eq_map]
    refine .node (fun _ _ => by rw [Decode.expr]) fun hbody => ?_
    have hlist := Reads.list (Stmt.reads_of_mem stmts) hbody
    simp [Decode.stmts_eq_list, hlist]
  | .int value span => by
    rw [Expr.encode]
    refine .node (fun _ _ => by rw [Decode.expr]) fun hbody => ?_
    simp [hbody.int64?]
  | .bool value span => by
    rw [Expr.encode]
    refine .node (fun _ _ => by rw [Decode.expr]) fun hbody => ?_
    simp [hbody.bool?]
  | .tuple elements span => by
    rw [Expr.encode, encodeExprs_eq_map]
    refine .node (fun _ _ => by rw [Decode.expr]) fun hbody => ?_
    have hlist := Reads.list (Expr.reads_of_mem elements) hbody
    simp [Decode.exprs_eq_list, hlist]
  | .structLit path fields span => by
    rw [Expr.encode, encodeInits_eq_map]
    refine .node (fun _ _ => by rw [Decode.expr]) fun hbody => ?_
    obtain ⟨_, hpayload, hvalues⟩ := hbody.payload form ["path", "fields"] rfl (by decide)
    obtain _ | ⟨hpath, _ | ⟨hfields, _ | _⟩⟩ := hvalues
    have hlist := Reads.list (FieldInit.reads_of_mem fields) hfields
    simp [Decode.inits_eq_list, hpayload, path.reads hpath, hlist]
  | .name path span => by
    rw [Expr.encode]
    refine .node (fun _ _ => by rw [Decode.expr]) fun hbody => ?_
    simp [path.reads hbody]
  | .field base member span => by
    rw [Expr.encode]
    refine .node (fun _ _ => by rw [Decode.expr]) fun hbody => ?_
    obtain ⟨_, hpayload, hvalues⟩ := hbody.payload form ["base", "field"] rfl (by decide)
    obtain _ | ⟨hbase, _ | ⟨hmember, _ | _⟩⟩ := hvalues
    simp [hpayload, base.reads hbase, member.reads hmember]
  | .addressOf mutable operand span => by
    rw [Expr.encode]
    refine .node (fun _ _ => by rw [Decode.expr]) fun hbody => ?_
    obtain ⟨_, hpayload, hvalues⟩ := hbody.payload form ["mutable", "operand"] rfl (by decide)
    obtain _ | ⟨hmutable, _ | ⟨hoperand, _ | _⟩⟩ := hvalues
    simp [hpayload, hmutable.bool?, operand.reads hoperand]
  | .deref operand span => by
    rw [Expr.encode]
    refine .node (fun _ _ => by rw [Decode.expr]) fun hbody => ?_
    simp [operand.reads hbody]
  | .call callee args span => by
    rw [Expr.encode, encodeExprs_eq_map]
    refine .node (fun _ _ => by rw [Decode.expr]) fun hbody => ?_
    obtain ⟨_, hpayload, hvalues⟩ := hbody.payload form ["callee", "args"] rfl (by decide)
    obtain _ | ⟨hcallee, _ | ⟨hargs, _ | _⟩⟩ := hvalues
    have hlist := Reads.list (Expr.reads_of_mem args) hargs
    simp [Decode.exprs_eq_list, hpayload, callee.reads hcallee, hlist]
  | .ifElse condition thenBranch elseBranch span => by
    rw [Expr.encode_ifElse]
    refine .node (fun _ _ => by rw [Decode.expr]) fun hbody => ?_
    obtain ⟨_, hpayload, hvalues⟩ :=
      hbody.payload form ["condition", "then_branch", "else_branch"] rfl (by decide)
    obtain _ | ⟨hcondition, _ | ⟨hthen, _ | ⟨helse, _ | _⟩⟩⟩ := hvalues
    have hoption := Reads.option Expr.encode_ne_null (Expr.reads_of_mem? elseBranch) helse
    simp [hpayload, condition.reads hcondition, thenBranch.reads hthen, hoption]
  | .loop condition inner span => by
    rw [Expr.encode]
    refine .node (fun _ _ => by rw [Decode.expr]) fun hbody => ?_
    obtain ⟨_, hpayload, hvalues⟩ := hbody.payload form ["condition", "body"] rfl (by decide)
    obtain _ | ⟨hcondition, _ | ⟨hinner, _ | _⟩⟩ := hvalues
    simp [hpayload, condition.reads hcondition, inner.reads hinner]
  | .assign target value span => by
    rw [Expr.encode]
    refine .node (fun _ _ => by rw [Decode.expr]) fun hbody => ?_
    obtain ⟨_, hpayload, hvalues⟩ := hbody.payload form ["target", "value"] rfl (by decide)
    obtain _ | ⟨htarget, _ | ⟨hvalue, _ | _⟩⟩ := hvalues
    simp [hpayload, target.reads htarget, value.reads hvalue]
  | .ret value span => by
    rw [Expr.encode_ret]
    refine .node (fun _ _ => by rw [Decode.expr]) fun hbody => ?_
    have hoption := Reads.option Expr.encode_ne_null (Expr.reads_of_mem? value) hbody
    simp [hoption]

theorem Expr.reads_of_mem : ∀ es : List Expr, ∀ e ∈ es, Reads (Decode.expr form) e.encode e
  | [] => nofun
  | e :: es => forall_mem_cons.2 ⟨Expr.reads e, Expr.reads_of_mem es⟩

theorem Expr.reads_of_mem? : ∀ o : Option Expr, ∀ e ∈ o, Reads (Decode.expr form) e.encode e
  | none => nofun
  | some e => by
    rintro _ ⟨⟩
    exact Expr.reads e

theorem Stmt.reads : ∀ s : Stmt, Reads (Decode.stmt form) s.encode s
  | .expr e span => by
    rw [Stmt.encode]
    refine .node (fun _ _ => by rw [Decode.stmt]) fun hbody => ?_
    simp [e.reads hbody]
  | .binding name mutable type init span => by
    rw [Stmt.encode_binding]
    refine .node (fun _ _ => by rw [Decode.stmt]) fun hbody => ?_
    obtain ⟨_, hpayload, hvalues⟩ :=
      hbody.payload form ["name", "mutable", "ty", "init"] rfl (by decide)
    obtain _ | ⟨hname, _ | ⟨hmutable, _ | ⟨htype, _ | ⟨hinit, _ | _⟩⟩⟩⟩ := hvalues
    have htype := Reads.option TypeExpr.encode_ne_null (fun t _ => t.reads form) htype
    have hinit := Reads.option Expr.encode_ne_null (Expr.reads_of_mem? init) hinit
    simp [hpayload, name.reads hname, hmutable.flag?, htype, hinit]
  | .use path span => by
    rw [Stmt.encode]
    refine .node (fun _ _ => by rw [Decode.stmt]) fun hbody => ?_
    simp [path.reads hbody]

theorem Stmt.reads_of_mem : ∀ ss : List Stmt, ∀ s ∈ ss, Reads (Decode.stmt form) s.encode s
  | [] => nofun
  | s :: ss => forall_mem_cons.2 ⟨Stmt.reads s, Stmt.reads_of_mem ss⟩

theorem FieldInit.reads : ∀ i : FieldInit, Reads (Decode.init form) i.encode i
  | ⟨name, value, span⟩ => by
    intro n json h
    obtain ⟨m, _, rfl, hrecord, -, hvalues⟩ := h.fields ["name", "value", "span"] rfl (by decide)
    obtain _ | ⟨hname, _ | ⟨hvalue, _ | ⟨hspan, _ | _⟩⟩⟩ := hvalues
    simp [Decode.init, hrecord, name.reads hname, value.reads hvalue, span.reads hspan]

theorem FieldInit.reads_of_mem :
    ∀ fs : List FieldInit, ∀ f ∈ fs, Reads (Decode.init form) f.encode f
  | [] => nofun
  | f :: fs => forall_mem_cons.2 ⟨FieldInit.reads f, FieldInit.reads_of_mem fs⟩

end

/-! ## Items -/

theorem FieldDecl.reads (f : FieldDecl) : Reads (Decode.fieldDecl form) f.encode f := by
  intro n json h
  obtain ⟨m, _, rfl, hrecord, -, hvalues⟩ := h.fields ["name", "ty", "span"] rfl (by decide)
  obtain _ | ⟨hname, _ | ⟨htype, _ | ⟨hspan, _ | _⟩⟩⟩ := hvalues
  simp [Decode.fieldDecl, hrecord, f.name.reads hname, f.type.reads form htype, f.span.reads hspan]

theorem ParamDecl.reads (p : ParamDecl) : Reads (Decode.paramDecl form) p.encode p := by
  intro n json h
  obtain ⟨m, _, rfl, hrecord, -, hvalues⟩ :=
    h.fields ["name", "mutable", "ty", "span"] rfl (by decide)
  obtain _ | ⟨hname, _ | ⟨hmutable, _ | ⟨htype, _ | ⟨hspan, _ | _⟩⟩⟩⟩ := hvalues
  simp [Decode.paramDecl, hrecord, p.name.reads hname, hmutable.flag?, p.type.reads form htype,
    p.span.reads hspan]

theorem StructDecl.reads (d : StructDecl) : Reads (Decode.structDecl form) d.encode d := by
  intro n json h
  obtain ⟨m, _, rfl, hrecord, -, hvalues⟩ := h.fields ["name", "fields", "span"] rfl (by decide)
  obtain _ | ⟨hname, _ | ⟨hfields, _ | ⟨hspan, _ | _⟩⟩⟩ := hvalues
  have hlist := Reads.list (fun f _ => FieldDecl.reads form f) hfields
  simp [Decode.structDecl, hrecord, d.name.reads hname, hlist, d.span.reads hspan]

theorem FunctDecl.reads (d : FunctDecl) : Reads (Decode.functDecl form) d.encode d := by
  intro n json h
  obtain ⟨m, _, rfl, hrecord, -, hvalues⟩ :=
    h.fields ["name", "params", "returns", "body", "span"] rfl (by decide)
  obtain _ | ⟨hname, _ | ⟨hparams, _ | ⟨hreturns, _ | ⟨hbody, _ | ⟨hspan, _ | _⟩⟩⟩⟩⟩ := hvalues
  have hlist := Reads.list (fun p _ => ParamDecl.reads form p) hparams
  have hreturns := Reads.option TypeExpr.encode_ne_null (fun t _ => t.reads form) hreturns
  have hbody := Reads.option Expr.encode_ne_null (fun e _ => e.reads form) hbody
  simp [Decode.functDecl, hrecord, d.name.reads hname, hlist, hreturns, hbody, d.span.reads hspan]

theorem encodeItems_eq_map (items : List Item) : encodeItems items = items.map Item.encode := by
  induction items with
  | nil => rfl
  | cons i items ih => rw [encodeItems, ih, map_cons]

theorem Decode.items_eq_list : items form = list (item form) := by
  funext n json
  cases n <;> rw [items, list]

mutual

theorem Item.reads : ∀ i : Item, Reads (Decode.item form) i.encode i
  | .space name items span => by
    intro n json h
    rw [Item.encode, encodeItems_eq_map] at h
    obtain ⟨m, body, rfl, hvariant, hbody⟩ := h.variant
    obtain ⟨k, _, rfl, hrecord, -, hvalues⟩ :=
      hbody.fields ["name", "items", "span"] rfl (by decide)
    obtain _ | ⟨hname, _ | ⟨hitems, _ | ⟨hspan, _ | _⟩⟩⟩ := hvalues
    have hlist := Reads.list (Item.reads_of_mem items) hitems
    simp [Decode.item, Decode.items_eq_list, hvariant, hrecord, name.reads hname, hlist,
      span.reads hspan]
  | .use path span => by
    intro n json h
    rw [Item.encode] at h
    obtain ⟨m, body, rfl, hvariant, hbody⟩ := h.variant
    obtain ⟨k, _, rfl, hrecord, -, hvalues⟩ :=
      hbody.fields ["path", "items", "span"] rfl (by decide)
    obtain _ | ⟨hpath, _ | ⟨hitems, _ | ⟨hspan, _ | _⟩⟩⟩ := hvalues
    simp [Decode.item, hvariant, hrecord, path.reads hpath, hitems.alike.null_left, option?,
      span.reads hspan]
  | .useBlock path items span => by
    intro n json h
    rw [Item.encode, encodeItems_eq_map] at h
    obtain ⟨m, body, rfl, hvariant, hbody⟩ := h.variant
    obtain ⟨k, _, rfl, hrecord, -, hvalues⟩ :=
      hbody.fields ["path", "items", "span"] rfl (by decide)
    obtain _ | ⟨hpath, _ | ⟨hitems, _ | ⟨hspan, _ | _⟩⟩⟩ := hvalues
    have hlist := Reads.list (Item.reads_of_mem items) hitems
    obtain ⟨_, ys, -, rfl, -⟩ := hitems.arr
    simp [Decode.item, Decode.items_eq_list, hvariant, hrecord, path.reads hpath, option?,
      hlist, span.reads hspan]
  | .struct decl => by
    intro n json h
    rw [Item.encode] at h
    obtain ⟨m, body, rfl, hvariant, hbody⟩ := h.variant
    obtain ⟨k, rfl⟩ := hbody.exists_eq_succ
    simp [Decode.item, hvariant, decl.reads form hbody]
  | .funct decl => by
    intro n json h
    rw [Item.encode] at h
    obtain ⟨m, body, rfl, hvariant, hbody⟩ := h.variant
    obtain ⟨k, rfl⟩ := hbody.exists_eq_succ
    simp [Decode.item, hvariant, decl.reads form hbody]

theorem Item.reads_of_mem : ∀ items : List Item, ∀ i ∈ items, Reads (Decode.item form) i.encode i
  | [] => nofun
  | i :: items => forall_mem_cons.2 ⟨Item.reads i, Item.reads_of_mem items⟩

end

/-! ## Files -/

theorem SourceFile.reads (f : SourceFile) : Reads (Decode.sourceFile form) f.encode f := by
  intro n json h
  rw [SourceFile.encode, encodeItems_eq_map] at h
  obtain ⟨m, _, rfl, hrecord, -, hvalues⟩ := h.fields ["file", "items", "span"] rfl (by decide)
  obtain _ | ⟨hfile, _ | ⟨hitems, _ | ⟨hspan, _ | _⟩⟩⟩ := hvalues
  have hlist := Reads.list (Item.reads_of_mem form f.items) hitems
  simp [Decode.sourceFile, Decode.items_eq_list, hrecord, hfile.word?, hlist, f.span.reads hspan]

theorem reads_encodeFiles (files : List SourceFile) :
    Reads (Decode.list (Decode.sourceFile form)) (encodeFiles files) files :=
  Reads.list fun f _ => f.reads form

/-- What is written for a file is read back as the file, from a value or from a
    text and whatever the order of members.  So what is written for two files
    that differ is not alike.  The same holds of programs. -/
theorem SourceFile.decode_encode :
    (∀ (f : SourceFile) (form : Form) (n : Nat) (json : Json), f.encode.Alike json →
      f.encode.depth ≤ n → Decode.sourceFile form n json = some f) ∧
    (∀ f g : SourceFile, f.encode.Alike g.encode ↔ f = g) ∧
    (∀ files : List SourceFile, decodeFiles (encodeFiles files) = some files) ∧
    ∀ files files' : List SourceFile,
      (encodeFiles files).Alike (encodeFiles files') ↔ files = files' := by
  refine ⟨fun f form n json h hn => f.reads form ⟨h, hn⟩, fun f g => ⟨fun h => ?_, ?_⟩,
    fun files => ?_, fun files files' => ⟨fun h => ?_, ?_⟩⟩
  · exact (f.reads .value).inj (g.reads .value) h
  · rintro rfl
    exact .refl _
  · exact reads_encodeFiles .value files ⟨.refl _, Nat.le_refl _⟩
  · exact (reads_encodeFiles .value files).inj (reads_encodeFiles .value files') h
  · rintro rfl
    exact .refl _

end Semcheck
