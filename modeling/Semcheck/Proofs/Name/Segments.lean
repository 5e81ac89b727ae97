/-
  Texts and their segments.

  Cutting a text at every `::` loses nothing (`join_splitSegments`), and the segments have no
  `::` in them (`splitChars_clear`).  Conversely, segments without colons can be read off the
  text that joins them (`split_joinSegments`), and so can a name whose segments are not empty
  either (`Name.parse_text`).
-/
import Semcheck.Name.Basic
import Semcheck.Tree.Builder

namespace Semcheck

open List

/-! ## Cutting and joining -/

theorem splitChars_append (cs : List Char) :
    (splitChars cs).1 ++ (splitChars cs).2.flatMap (':' :: ':' :: ·) = cs := by
  fun_induction splitChars cs with
  | case1 => rfl
  | case2 rest ih => simp [ih]
  | case3 c rest hsep ih => simp [ih]

/-- No segment has a separator in it. -/
theorem splitChars_clear (cs : List Char) :
    ∀ segment ∈ (splitChars cs).1 :: (splitChars cs).2, ¬ [':', ':'] <:+: segment := by
  fun_induction splitChars cs with
  | case1 => simp
  | case2 rest ih => simpa using ih
  | case3 c rest hsep ih =>
    rw [forall_mem_cons] at ih ⊢
    refine ⟨fun hinfix => ?_, ih.2⟩
    rcases infix_cons_iff.1 hinfix with hprefix | hinfix
    · -- the segment begins as the text does, which does not begin with a separator
      have htext : c :: (splitChars rest).1 <+: c :: rest :=
        (prefix_cons_inj c).2 ⟨_, splitChars_append rest⟩
      obtain ⟨more, hmore⟩ := hprefix.trans htext
      cases hmore
      exact hsep more rfl rfl
    · exact ih.1 hinfix

theorem join_splitSegments (s : String) : joinSegments (splitSegments s) = s := by
  rw [← String.toList_inj, joinSegments, splitSegments, map_cons, toList_joinWith,
    String.toList_ofList, flatMap_map]
  simpa using splitChars_append s.toList

theorem mem_splitSegments {s segment : String} (h : segment ∈ splitSegments s) :
    ¬ "::".toList <:+: segment.toList := by
  obtain ⟨cs, hcs, rfl⟩ := mem_map.1 h
  simpa using splitChars_clear _ cs hcs

/-! ## Paths -/

namespace Builder

theorem map_text_idents (texts : List String) (b : Builder) :
    ((texts.mapM ident).run b).1.map Ident.text = texts := by
  induction texts generalizing b with
  | nil => rfl
  | cons text rest ih =>
    rw [mapM_cons]
    exact congrArg (text :: ·) (ih _)

/-- A leading separator is kept apart; the rest of the text is cut. -/
theorem path_cases (text : String) (b : Builder) : ∃ rest absolute whole c,
    ((path text).run b).1 = ⟨(((splitSegments rest).mapM ident).run c).1, absolute, whole⟩ ∧
      text = (if absolute then "::" else "") ++ rest := by
  rw [path]
  cases hroot : stripRoot text.toList with
  | none => exact ⟨text, false, _, _, rfl, by simp⟩
  | some rest =>
    have htext : text.toList = ':' :: ':' :: rest := by
      unfold stripRoot at hroot
      split at hroot
      · cases hroot
        assumption
      · cases hroot
    refine ⟨.ofList rest, true, _, _, rfl, ?_⟩
    simp [← String.toList_inj, htext]

/-- **A path reads as it was written.**  It has the text it is built from, whatever separators
    stand in it and wherever, and none of its segments has a separator in it. -/
theorem path_text (text : String) (b : Builder) :
    ((path text).run b).1.text = text ∧
      ∀ segment ∈ ((path text).run b).1.segments, ¬ "::".toList <:+: segment.text.toList := by
  obtain ⟨rest, absolute, whole, c, hpath, htext⟩ := path_cases text b
  have hidents := map_text_idents (splitSegments rest) c
  rw [hpath]
  refine ⟨?_, fun segment hs => mem_splitSegments (hidents ▸ List.mem_map_of_mem hs)⟩
  rw [Path.text, Path.texts, hidents, join_splitSegments, ← htext]

end Builder

/-! ## Names -/

/-- A text that can stand between separators. -/
def Proper (segment : String) : Prop :=
  segment ≠ "" ∧ ':' ∉ segment.toList

instance (segment : String) : Decidable (Proper segment) :=
  inferInstanceAs (Decidable (_ ∧ _))

theorem splitChars_segment {w : List Char} (hw : ':' ∉ w) (rest : List Char) :
    splitChars (w ++ rest) = (w ++ (splitChars rest).1, (splitChars rest).2) := by
  induction w with
  | nil => rfl
  | cons c w ih =>
    obtain ⟨hc, hw⟩ := not_or.1 (mt mem_cons.2 hw)
    rw [cons_append, splitChars.eq_3 _ _ fun _ h => absurd h.symm hc, ih hw]
    rfl

theorem splitChars_separated {ws : List (List Char)} (hws : ∀ w ∈ ws, ':' ∉ w) :
    splitChars (ws.flatMap (':' :: ':' :: ·)) = ([], ws) := by
  induction ws with
  | nil => rfl
  | cons w ws ih =>
    rw [forall_mem_cons] at hws
    simp [splitChars, splitChars_segment hws.1, ih hws.2]

theorem split_joinSegments {s : String} {rest : List String}
    (h : ∀ segment ∈ s :: rest, ':' ∉ segment.toList) :
    splitSegments (joinSegments (s :: rest)) = s :: rest := by
  rw [forall_mem_cons] at h
  have hrest := splitChars_separated (forall_mem_map.2 h.2)
  rw [flatMap_map] at hrest
  have hchars : splitChars (joinSegments (s :: rest)).toList =
      (s.toList, rest.map String.toList) := by
    rw [joinSegments, toList_joinWith, splitChars_segment h.1]
    simp [hrest]
  simp [splitSegments, hchars]

namespace Name

/-- Every segment of the name can stand between separators. -/
def Proper (n : Name) : Prop :=
  ∀ segment ∈ n.segments, Semcheck.Proper segment

/-- **A name can be read off its text.** -/
theorem parse_text {n : Name} (h : n.Proper) : parse n.text = n := by
  obtain ⟨segments⟩ := n
  cases segments with
  | nil => rfl
  | cons s rest =>
    rw [parse, text, split_joinSegments fun segment hs => (h segment hs).2]
    exact congrArg mk (filter_eq_self.2 fun segment hs => by simpa using (h segment hs).1)

end Name

end Semcheck
