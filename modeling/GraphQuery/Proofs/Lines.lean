import GraphQuery.Fragment.Render

/-!
# Lines without repetition

Lines are added to a list one after the other, and one that is already there is not added again (`addLines`). Nothing
that is there moves, and what comes behind it are exactly the new lines (`addLines_split`); so no line stands twice
(`nodup_addLines`), and a line stands behind the lines that were met before it was met first (`addLines_first`).
The last line with a property is therefore the one that is met first after all others (`getLast?_filter_addLines_iff`).
What comes behind other lines does not depend on them otherwise: it is what the new lines make by themselves, less those
that are there (`addLines_eq_append_filter`).
-/

namespace GraphQuery

/-- The lines together with more lines, each of them added if it is not there yet. -/
def addLines (lines new : List String) : List String := new.foldl addLine lines

variable {lines before : List String} {line : String}

theorem addLine_of_mem (h : line ∈ lines) : addLine lines line = lines := by
  simp [addLine, h]

theorem addLine_of_not_mem (h : line ∉ lines) : addLine lines line = lines ++ [line] := by
  simp [addLine, h]

@[simp] theorem addLines_nil (lines : List String) : addLines lines [] = lines := rfl

theorem addLines_cons (lines : List String) (line : String) (new : List String) :
    addLines lines (line :: new) = addLines (addLine lines line) new := rfl

theorem addLines_append (lines xs ys : List String) : addLines lines (xs ++ ys) = addLines (addLines lines xs) ys :=
  List.foldl_append

theorem addLines_concat (lines xs : List String) (line : String) :
    addLines lines (xs ++ [line]) = addLine (addLines lines xs) line := addLines_append _ _ _

/-- The lines stay in front, and behind them stand the new lines that were not among them. -/
theorem addLines_split : ∀ (lines new : List String),
    ∃ rest, addLines lines new = lines ++ rest ∧ ∀ x, x ∈ rest ↔ x ∈ new ∧ x ∉ lines
  | lines, [] => ⟨[], by simp, by simp⟩
  | lines, line :: new => by
    rw [addLines_cons]
    by_cases h : line ∈ lines
    · obtain ⟨rest, hrest, hmem⟩ := addLines_split lines new
      refine ⟨rest, by rw [addLine_of_mem h, hrest], fun x => ?_⟩
      rw [hmem, List.mem_cons]
      constructor
      · rintro ⟨hx, hn⟩
        exact ⟨.inr hx, hn⟩
      · rintro ⟨rfl | hx, hn⟩
        · exact absurd h hn
        · exact ⟨hx, hn⟩
    · obtain ⟨rest, hrest, hmem⟩ := addLines_split (lines ++ [line]) new
      refine ⟨line :: rest, by rw [addLine_of_not_mem h, hrest, List.append_assoc]; rfl, fun x => ?_⟩
      by_cases hx : x = line
      · subst hx; simp [h]
      · simp [hmem, hx]

theorem mem_addLines {new : List String} {x : String} : x ∈ addLines lines new ↔ x ∈ lines ∨ x ∈ new := by
  obtain ⟨rest, hrest, hmem⟩ := addLines_split lines new
  rw [hrest, List.mem_append, hmem]
  by_cases h : x ∈ lines <;> simp [h]

theorem nodup_addLine (h : lines.Nodup) : (addLine lines line).Nodup := by
  by_cases hl : line ∈ lines
  · rwa [addLine_of_mem hl]
  · rw [addLine_of_not_mem hl]
    exact List.nodup_append.2 ⟨h, by simp, fun x hx y hy hxy => hl (by simp_all)⟩

/-- No line is added twice. -/
theorem nodup_addLines : ∀ {lines : List String} (new : List String), lines.Nodup → (addLines lines new).Nodup
  | _, [], h => h
  | _, _ :: new, h => nodup_addLines new (nodup_addLine h)

/-- A line stands directly behind all the lines that were met before it, and before those that are met later only. -/
theorem addLines_first (after : List String) (h : line ∉ before) : ∃ rest,
    addLines [] (before ++ line :: after) = addLines [] before ++ line :: rest ∧
      ∀ x, x ∈ rest ↔ x ∈ after ∧ x ∉ before ∧ x ≠ line := by
  have hnew : line ∉ addLines [] before := by simpa [mem_addLines] using h
  obtain ⟨rest, hrest, hmem⟩ := addLines_split (addLines [] before ++ [line]) after
  refine ⟨rest, ?_, fun x => by simp [hmem, mem_addLines]⟩
  rw [addLines_append, addLines_cons, addLine_of_not_mem hnew, hrest, List.append_assoc]
  rfl

/-- Of the lines with a property, a line comes last exactly when all others were met before it was met first. -/
theorem getLast?_filter_addLines_iff {p : String → Bool} {met : List String} (hmet : line ∈ met) (hp : p line) :
    ((addLines [] met).filter p).getLast? = some line ↔
      ∀ x ∈ met, p x → x ≠ line → x ∈ met.takeWhile (· ≠ line) := by
  obtain ⟨before, after, rfl, hnot⟩ := List.eq_append_cons_of_mem hmet
  obtain ⟨rest, hrest, hmem⟩ := addLines_first after hnot
  have hbefore : (before ++ line :: after).takeWhile (· ≠ line) = before := by
    rw [List.takeWhile_append_of_pos fun x hx => by simpa using fun e : x = line => hnot (e ▸ hx)]
    simp
  have hlast : ((addLines [] (before ++ line :: after)).filter p).getLast? = some line ↔ rest.filter p = [] := by
    rw [hrest, List.filter_append, List.filter_cons_of_pos hp, List.getLast?_append]
    cases hr : rest.filter p with
    | nil => simp
    | cons y ys =>
      have hne : (y :: ys).getLast? ≠ some line := fun hl => by
        have hrest : line ∈ rest.filter p := hr ▸ List.mem_of_getLast? hl
        exact ((hmem line).1 (List.mem_filter.1 hrest).1).2.2 rfl
      simpa using hne
  rw [hlast, hbefore, List.filter_eq_nil_iff]
  constructor
  · intro hnone x hx hpx hxl
    by_cases hxb : x ∈ before
    · exact hxb
    · have hxa : x ∈ after := by simpa [hxb, hxl] using hx
      exact absurd hpx (hnone x ((hmem x).2 ⟨hxa, hxb, hxl⟩))
  · intro hall x hx hpx
    obtain ⟨hxa, hxb, hxl⟩ := (hmem x).1 hx
    exact hxb (hall x (by simp [hxa]) hpx hxl)

/-! ## Lines added behind others -/

/-- A line that is added behind some lines is one that is added apart from them, and left out if it is among them. -/
theorem addLine_append_filter (lines added : List String) (line : String) :
    addLine (lines ++ added.filter (· ∉ lines)) line = lines ++ (addLine added line).filter (· ∉ lines) := by
  by_cases hold : line ∈ lines
  · have hfilter : (addLine added line).filter (· ∉ lines) = added.filter (· ∉ lines) := by
      by_cases hadded : line ∈ added
      · rw [addLine_of_mem hadded]
      · simp [addLine_of_not_mem hadded, hold]
    rw [addLine_of_mem (List.mem_append_left _ hold), hfilter]
  · by_cases hadded : line ∈ added
    · have hmem : line ∈ lines ++ added.filter (· ∉ lines) := by simp [hadded, hold]
      rw [addLine_of_mem hadded, addLine_of_mem hmem]
    · have hmem : line ∉ lines ++ added.filter (· ∉ lines) := by simp [hadded, hold]
      rw [addLine_of_not_mem hadded, addLine_of_not_mem hmem]
      simp [hold]

/-- Lines that are added to others are those that they make by themselves, less the ones that are there. -/
theorem addLines_eq_append_filter (lines new : List String) :
    addLines lines new = lines ++ (addLines [] new).filter (· ∉ lines) := by
  have hrun : ∀ new added : List String,
      addLines (lines ++ added.filter (· ∉ lines)) new = lines ++ (addLines added new).filter (· ∉ lines) := by
    intro new
    induction new with
    | nil => exact fun _ => rfl
    | cons line new ih =>
      intro added
      rw [addLines_cons, addLines_cons, addLine_append_filter, ih]
  simpa using hrun new []

end GraphQuery
