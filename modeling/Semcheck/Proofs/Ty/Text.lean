/-
  Types can be read off their texts.

  The text of a type shows where it ends, as long as what follows does not begin with a digit:
  texts that begin with types and are equal begin with one type (`Ty.readable`).  So types
  with the same text are equal (`Ty.anonymousText_inj`).
-/
import Semcheck.Proofs.Ty.Subst
import Semcheck.Ty.Text

namespace Semcheck

open List

/-- No digit comes first. -/
def Stops (cs : List Char) : Prop :=
  cs.takeWhile Char.isDigit = []

theorem Stops.cons {c : Char} (hc : c.isDigit = false) (cs : List Char) : Stops (c :: cs) := by
  simp [Stops, hc]

/-- A number can be read off its digits. -/
theorem toString_append_inj {n m : Nat} {rest rest' : List Char} (hs : Stops rest)
    (hs' : Stops rest') (h : (toString n).toList ++ rest = (toString m).toList ++ rest') :
    n = m ∧ rest = rest' := by
  have hdigits (k : Nat) {cs : List Char} (hcs : Stops cs) :
      ((toString k).toList ++ cs).takeWhile Char.isDigit = Nat.toDigits 10 k := by
    have hall : ∀ c ∈ Nat.toDigits 10 k, c.isDigit = true :=
      fun _ => Nat.isDigit_of_mem_toDigits (by decide) (by decide)
    rw [Nat.toString_eq_repr, Nat.toList_repr, takeWhile_append_of_pos hall, hcs, append_nil]
  have hn : Nat.toDigits 10 n = Nat.toDigits 10 m := by
    rw [← hdigits n hs, h, hdigits m hs']
  obtain rfl : n = m := by
    rw [← @Nat.ofDigitChars_ten_toDigits n, hn, Nat.ofDigitChars_ten_toDigits]
  exact ⟨rfl, append_cancel_left h⟩

namespace Ty

/-- The characters of a type as text. -/
def chars (t : Ty) : List Char :=
  t.anonymousText.toList

/-- The characters of the types of a list, each behind a comma. -/
def tailChars (ts : List Ty) : List Char :=
  ts.flatMap fun t => ',' :: ' ' :: t.chars

/-- The characters of the types of a list, with commas between them. -/
def listChars : List Ty → List Char
  | [] => []
  | t :: ts => t.chars ++ tailChars ts

/-- The characters behind the elements of a tuple. -/
def closing : List Ty → List Char
  | [_] => [',', ')']
  | _ => [')']

theorem toList_join (ts : List Ty) :
    (joinWith ", " (texts StructId.text ts)).toList = listChars ts := by
  have htexts : ∀ us, texts StructId.text us = us.map anonymousText := fun us => by
    induction us with
    | nil => rfl
    | cons u us ih => exact congrArg (u.anonymousText :: ·) ih
  cases ts with
  | nil => rfl
  | cons t ts =>
    rw [htexts, map_cons, toList_joinWith, flatMap_map]
    rfl

section Equations

variable (t r : Ty) (ts : List Ty)

@[simp] theorem chars_error : error.chars = "\x7berror\x7d".toList := by
  simp [chars, anonymousText, text]

@[simp] theorem chars_slot (s : Slot) : (slot s).chars = '?' :: (toString s.index).toList := by
  simp [chars, anonymousText, text, Slot.text]

@[simp] theorem chars_pointer (m : Bool) : (pointer m t).chars =
    '*' :: ((if m then "mut " else "const ").toList ++ t.chars) := by
  cases m <;> simp [chars, anonymousText, text]

@[simp] theorem chars_struct (id : StructId) :
    (struct id).chars = "struct#".toList ++ (toString id.index).toList := by
  simp [chars, anonymousText, text, StructId.text]

@[simp] theorem chars_funct : (funct ts r).chars =
    "fn(".toList ++ (listChars ts ++ (") -> ".toList ++ r.chars)) := by
  simp [chars, anonymousText, text, toList_join]

@[simp] theorem chars_functAny : (functAny r).chars = "fn(..) -> ".toList ++ r.chars := by
  simp [chars, anonymousText, text]

@[simp] theorem chars_tuple : (tuple ts).chars = '(' :: (listChars ts ++ closing ts) := by
  rcases ts with _ | ⟨t, _ | ⟨u, ts⟩⟩ <;>
    simp [chars, anonymousText, text, toList_join, closing, listChars, tailChars]

end Equations

/-- No type begins like the end of a list, or like a list that is not known. -/
theorem chars_append_ne (t : Ty) (rest rest' : List Char) :
    t.chars ++ rest ≠ ')' :: rest' ∧ t.chars ++ rest ≠ '.' :: rest' := by
  cases t <;> simp

/-- The type can be read off a text that begins with it. -/
def Readable (t : Ty) : Prop :=
  ∀ {t' rest rest'}, Stops rest → Stops rest' → t.chars ++ rest = t'.chars ++ rest' →
    t = t' ∧ rest = rest'

theorem funct_ne_functAny (ps : List Ty) (r r' : Ty) (rest rest' : List Char) :
    (funct ps r).chars ++ rest ≠ (functAny r').chars ++ rest' := by
  cases ps with
  | nil => simp [listChars]
  | cons p ps => simp [listChars, (chars_append_ne p _ _).2]

section Lists

variable {t t' : Ty} {ts ts' : List Ty} {rest rest' : List Char}

theorem stops_tailChars (ts : List Ty) (rest : List Char) :
    Stops (tailChars ts ++ ')' :: rest) := by
  cases ts <;> exact .cons rfl _

theorem tailChars_inj (hts : ∀ t ∈ ts, Readable t)
    (h : tailChars ts ++ ')' :: rest = tailChars ts' ++ ')' :: rest') :
    ts = ts' ∧ rest = rest' := by
  induction ts generalizing ts' with
  | nil => cases ts' <;> simp_all [tailChars]
  | cons t ts ih =>
    cases ts' with
    | nil => simp [tailChars] at h
    | cons t' ts' =>
      rw [forall_mem_cons] at hts
      simp only [tailChars, flatMap_cons, cons_append, append_assoc, cons.injEq, true_and] at h
      obtain ⟨rfl, htail⟩ := hts.1 (stops_tailChars ts _) (stops_tailChars ts' _) h
      obtain ⟨rfl, rfl⟩ := ih hts.2 htail
      exact ⟨rfl, rfl⟩

/-- The types of a list can be read off a text that begins with them. -/
theorem listChars_inj (hts : ∀ t ∈ ts, Readable t)
    (h : listChars ts ++ ')' :: rest = listChars ts' ++ ')' :: rest') :
    ts = ts' ∧ rest = rest' := by
  cases ts with
  | nil =>
    cases ts' with
    | nil => simpa [listChars] using h
    | cons t' ts' => simp [listChars, (chars_append_ne t' _ _).1.symm] at h
  | cons t ts =>
    cases ts' with
    | nil => simp [listChars, (chars_append_ne t _ _).1] at h
    | cons t' ts' => exact tailChars_inj hts (by simpa [listChars, tailChars] using h)

theorem stops_closing (t : Ty) (ts : List Ty) (rest : List Char) :
    Stops (tailChars ts ++ (closing (t :: ts) ++ rest)) := by
  cases ts <;> exact .cons rfl _

theorem closing_inj (hts : ∀ t ∈ ts, Readable t)
    (h : tailChars ts ++ (closing (t :: ts) ++ rest) =
      tailChars ts' ++ (closing (t' :: ts') ++ rest')) : ts = ts' ∧ rest = rest' := by
  cases ts with
  | nil => cases ts' <;> simp_all [tailChars, closing]
  | cons u us =>
    cases ts' with
    | nil => simp [tailChars, closing] at h
    | cons u' us' => exact tailChars_inj hts h

end Lists

theorem readable (t : Ty) : Readable t := by
  intro t' rest rest' hs hs' h
  induction t using Ty.induct generalizing t' rest rest' with
  | error =>
    cases t' with
    | error => simpa using h
    | _ => simp at h
  | slot s =>
    cases t' with
    | slot s' =>
      obtain ⟨hindex, rfl⟩ := toString_append_inj hs hs' (by simpa using h)
      exact ⟨congrArg slot (congrArg Slot.mk hindex), rfl⟩
    | _ => simp at h
  | struct id =>
    cases t' with
    | struct id' =>
      obtain ⟨hindex, rfl⟩ := toString_append_inj hs hs' (by simpa using h)
      exact ⟨congrArg struct (congrArg StructId.mk hindex), rfl⟩
    | _ => simp at h
  | pointer m t ih =>
    cases t' with
    | pointer m' t' =>
      obtain rfl : m = m' := by cases m <;> cases m' <;> simp at h ⊢
      obtain ⟨rfl, rfl⟩ := ih hs hs' (by simpa using h)
      exact ⟨rfl, rfl⟩
    | _ => simp at h
  | functAny r ih =>
    cases t' with
    | functAny r' =>
      obtain ⟨rfl, rfl⟩ := ih hs hs' (by simpa using h)
      exact ⟨rfl, rfl⟩
    | funct ps r' => exact absurd h.symm (funct_ne_functAny _ _ _ _ _)
    | _ => simp at h
  | funct ps r hps hr =>
    cases t' with
    | funct ps' r' =>
      obtain ⟨rfl, hreturns⟩ := listChars_inj hps (by simpa using h)
      obtain ⟨rfl, rfl⟩ := hr hs hs' (by simpa using hreturns)
      exact ⟨rfl, rfl⟩
    | functAny r' => exact absurd h (funct_ne_functAny _ _ _ _ _)
    | _ => simp at h
  | tuple ts hts =>
    cases t' with
    | tuple ts' =>
      cases ts with
      | nil =>
        cases ts' with
        | nil => simpa using h
        | cons t' ts' => simp [listChars, closing, (chars_append_ne t' _ _).1.symm] at h
      | cons t ts =>
        cases ts' with
        | nil => simp [listChars, closing, (chars_append_ne t _ _).1] at h
        | cons t' ts' =>
          rw [forall_mem_cons] at hts
          obtain ⟨rfl, htail⟩ := hts.1 (stops_closing t ts _) (stops_closing t' ts' _)
            (by simpa [listChars] using h)
          obtain ⟨rfl, rfl⟩ := closing_inj hts.2 htail
          exact ⟨rfl, rfl⟩
    | _ => simp at h

/-- Types with the same text are equal. -/
theorem anonymousText_inj (a b : Ty) : a.anonymousText = b.anonymousText ↔ a = b := by
  refine ⟨fun h => ?_, congrArg _⟩
  have hchars : a.chars ++ [] = b.chars ++ [] := congrArg (String.toList · ++ []) h
  have hnil : Stops [] := rfl
  exact (readable a hnil hnil hchars).1

end Ty

end Semcheck
