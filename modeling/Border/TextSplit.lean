/-
# Splitting a text at a character

`String.splitOn` scans a text by byte positions.  Here it is read as the split of the list of
characters (`splitOn_eq`), and joining what a split gives is the text again
(`intercalate_splitOn`).
-/
import Mathlib

namespace TextSplit

open String

/-- The character behind a text that has been scanned. -/
theorem get_at (before : List Char) (c : Char) (after : List Char) :
    Pos.Raw.get (ofList (before ++ c :: after)) ⟨utf8Len before⟩ = c :=
  get_of_valid before (c :: after)

/-- The scan has left behind the parts `acc` and the text `l` they come from, holds `m` of the
part it is in, and has `r` to go. -/
theorem splitOnAux_eq (sep : Char) (l m r : List Char) (acc : List String) :
    splitOnAux (ofList (l ++ m ++ r)) (ofList [sep]) ⟨utf8Len l⟩ ⟨utf8Len (l ++ m)⟩ 0 acc =
      acc.reverse ++ (List.splitOnPPrepend (· == sep) r m.reverse).map ofList := by
  induction r generalizing l m acc with
  | nil =>
    have hend : Pos.Raw.atEnd (ofList (l ++ m ++ [])) ⟨utf8Len (l ++ m)⟩ = true :=
      (atEnd_of_valid (l ++ m) []).mpr rfl
    rw [splitOnAux, if_pos hend, utf8Len_append, extract_of_valid]
    simp
  | cons c r ih =>
    have hend : ¬ Pos.Raw.atEnd (ofList (l ++ m ++ c :: r)) ⟨utf8Len (l ++ m)⟩ = true := by
      rw [atEnd_of_valid]
      simp
    have hget := get_at (l ++ m) c r
    have hnext : Pos.Raw.next (ofList (l ++ m ++ c :: r)) ⟨utf8Len (l ++ m)⟩
        = ⟨utf8Len (l ++ m ++ [c])⟩ := by
      rw [next_of_valid, utf8Len_append _ [c]]
      simp
    have hsep : Pos.Raw.get (ofList [sep]) 0 = sep := get_at [] sep []
    have hnextSep : Pos.Raw.next (ofList [sep]) 0 = ⟨sep.utf8Size⟩ := by
      have h := next_of_valid [] sep []
      simpa using h
    rw [splitOnAux, if_neg hend, hget, hsep]
    by_cases hc : c = sep
    · -- the separator ends the part
      subst hc
      rw [if_pos (beq_self_eq_true c)]
      have hdone : Pos.Raw.atEnd (ofList [c]) ⟨c.utf8Size⟩ = true := by
        have h := (atEnd_of_valid [c] []).mpr rfl
        simpa using h
      dsimp only
      rw [hnext, hnextSep, if_pos hdone]
      have hback : Pos.Raw.unoffsetBy ⟨utf8Len (l ++ m ++ [c])⟩ ⟨c.utf8Size⟩
          = ⟨utf8Len l + utf8Len m⟩ := by
        rw [utf8Len_append, utf8Len_append]
        simp [Pos.Raw.unoffsetBy]
      rw [hback, extract_of_valid]
      have hrest := ih (l ++ m ++ [c]) [] (ofList m :: acc)
      simp only [List.append_nil, List.append_assoc, List.cons_append, List.nil_append] at hrest ⊢
      rw [hrest, List.splitOnPPrepend_cons_pos (by simp)]
      simp
    · -- any other character is one of the part
      rw [if_neg (by simpa using hc)]
      have hstay : Pos.Raw.unoffsetBy ⟨utf8Len (l ++ m)⟩ 0 = ⟨utf8Len (l ++ m)⟩ := by
        simp [Pos.Raw.unoffsetBy]
      rw [hstay, hnext]
      have hrest := ih l (m ++ [c]) acc
      simp only [List.append_assoc, List.cons_append, List.nil_append] at hrest ⊢
      rw [hrest, List.splitOnPPrepend_cons_neg (by simpa using hc)]
      simp

/-- **The split of a text** is the split of its characters. -/
theorem splitOn_eq (text : String) (sep : Char) :
    text.splitOn (ofList [sep]) = (text.toList.splitOn sep).map ofList := by
  have hne : ¬ (ofList [sep] == "") = true := by simp
  have h := splitOnAux_eq sep [] [] text.toList []
  rw [splitOn, if_neg hne]
  simpa [List.splitOn_eq_splitOnP] using h

/-- A split has at least one part. -/
theorem splitOn_ne_nil (text : String) (sep : Char) : text.splitOn (ofList [sep]) ≠ [] := by
  rw [splitOn_eq]
  simp

/-- **Split and join.** -/
theorem intercalate_splitOn (text : String) (sep : Char) :
    (ofList [sep]).intercalate (text.splitOn (ofList [sep])) = text := by
  rw [← String.toList_inj, toList_intercalate, splitOn_eq, List.map_map]
  have hid : toList ∘ ofList = id := by
    funext l
    simp
  rw [hid, List.map_id, toList_ofList, List.intercalate_splitOn]

/-- Parts joined to those of a text stand behind it. -/
theorem intercalate_splitOn_append (text : String) (sep : Char) {parts : List String}
    (hparts : parts ≠ []) :
    (ofList [sep]).intercalate (text.splitOn (ofList [sep]) ++ parts)
      = text ++ ofList [sep] ++ (ofList [sep]).intercalate parts := by
  rw [intercalate_append_of_ne_nil (splitOn_ne_nil text sep) hparts, intercalate_splitOn]

end TextSplit
