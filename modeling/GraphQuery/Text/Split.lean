/-!
# Cutting texts at a character

`cut` takes a text apart at the first place where a character stands, and `split` at each of them. A text is split on
both sides of a separator (`split_append`), so texts without separators are split where they were joined
(`split_intercalate`).
-/

namespace GraphQuery.Text

/-- The characters before the first `sep`, and those after it if there is one. -/
def cutChars (sep : Char) (s : List Char) : List Char × Option (List Char) :=
  (s.takeWhile (· ≠ sep), (s.dropWhile (· ≠ sep)).tail? )

/-- The text before the first `sep`, and the text after it if there is one. -/
def cut (sep : Char) (s : String) : String × Option String :=
  let (before, after) := cutChars sep s.toList
  (String.ofList before, after.map String.ofList)

/-- The runs of characters between the places where `sep` stands; one more run than places. -/
def splitChars (sep : Char) : List Char → List (List Char)
  | [] => [[]]
  | c :: cs =>
    if c = sep then [] :: splitChars sep cs
    else
      match splitChars sep cs with
      | run :: runs => (c :: run) :: runs
      | [] => [[c]]

/-- The texts between the places where `sep` stands. -/
def split (sep : Char) (s : String) : List String := (splitChars sep s.toList).map String.ofList

section Chars

variable {sep c : Char} {s : List Char}

theorem splitChars_ne_nil (sep : Char) (s : List Char) : splitChars sep s ≠ [] := by
  cases s with
  | nil => exact List.cons_ne_nil _ _
  | cons c s =>
    unfold splitChars
    split
    · exact List.cons_ne_nil _ _
    · split <;> exact List.cons_ne_nil _ _

theorem splitChars_cons (h : c ≠ sep) : ∃ run runs, splitChars sep s = run :: runs ∧
    splitChars sep (c :: s) = (c :: run) :: runs := by
  obtain ⟨run, runs, hs⟩ := List.exists_cons_of_ne_nil (splitChars_ne_nil sep s)
  exact ⟨run, runs, hs, by rw [splitChars, if_neg h, hs]⟩

theorem splitChars_of_not_mem (h : sep ∉ s) : splitChars sep s = [s] := by
  induction s with
  | nil => rfl
  | cons c s ih =>
    obtain ⟨hc, hs⟩ := not_or.1 (mt List.mem_cons.2 h)
    rw [splitChars, if_neg (Ne.symm hc), ih hs]

theorem splitChars_append (sep : Char) (s t : List Char) :
    splitChars sep (s ++ sep :: t) = splitChars sep s ++ splitChars sep t := by
  induction s with
  | nil =>
    have hsep : splitChars sep (sep :: t) = [] :: splitChars sep t := by rw [splitChars, if_pos rfl]
    exact hsep
  | cons c s ih =>
    by_cases hc : c = sep
    · rw [List.cons_append, splitChars, if_pos hc, splitChars, if_pos hc, ih, List.cons_append]
    · obtain ⟨run, runs, hs, hcons⟩ := splitChars_cons (s := s) hc
      rw [List.cons_append, hcons, splitChars, if_neg hc, ih, hs, List.cons_append, List.cons_append]

end Chars

variable {sep : Char} {mark : String}

theorem split_ne_nil (sep : Char) (s : String) : split sep s ≠ [] :=
  mt List.map_eq_nil_iff.1 (splitChars_ne_nil sep s.toList)

theorem split_append (h : mark.toList = [sep]) (s t : String) :
    split sep (s ++ mark ++ t) = split sep s ++ split sep t := by
  rw [split, String.toList_append, String.toList_append, h, List.append_assoc, List.singleton_append,
    splitChars_append, List.map_append, ← split, ← split]

theorem split_of_not_mem {s : String} (h : sep ∉ s.toList) : split sep s = [s] := by
  rw [split, splitChars_of_not_mem h, List.map_singleton, String.ofList_toList]

theorem split_intercalate (h : mark.toList = [sep]) {ss : List String} (hne : ss ≠ [])
    (hss : ∀ s ∈ ss, sep ∉ s.toList) : split sep (mark.intercalate ss) = ss := by
  induction ss with
  | nil => exact absurd rfl hne
  | cons s ss ih =>
    obtain ⟨hs, hrest⟩ := List.forall_mem_cons.1 hss
    cases ss with
    | nil => rw [String.intercalate_singleton, split_of_not_mem hs]
    | cons t ts =>
      rw [String.intercalate_cons_cons, split_append h, split_of_not_mem hs, ih (List.cons_ne_nil t ts) hrest,
        List.singleton_append]

end GraphQuery.Text
