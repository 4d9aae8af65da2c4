import GraphQuery.Proofs.Occurrence

/-!
# Fragments one behind the other

The bindings of two fragments one behind the other are those of the one and then those of the other
(`Fragment.bindings_append`), and their text is the two texts with the gap between the chunks that meet
(`Fragment.written_append`). A gap is a blank or nothing (`Fragment.seam_cases`), and which of them it is does not
depend on the value beside it; so the script around a value is what is before it, the value, and what is behind it
(`Fragment.script_around`).

A verbatim text without characters takes away the blank between its neighbours: it makes no difference exactly where
they are not separated anyway (`empty_text_neutral_iff`), and two keywords around it become one word
(`keywords_run_together`).
-/

namespace GraphQuery

/-! ## Texts and bindings -/

/-- What stands between two fragments: the gap between the last chunk of the one and the first chunk of the other. -/
def Fragment.seam (f g : Fragment) : String :=
  match f.getLast? with
  | some c => c.gap g
  | none => ""

theorem Fragment.written_singleton (c : Chunk) : Fragment.written [c] = c.written := by
  simp [Fragment.written, Chunk.gap]

theorem Fragment.written_of_needsSpace {c d : Chunk} (h : c.needsSpace d = true) (f : Fragment) :
    Fragment.written (c :: d :: f) = c.written ++ " " ++ Fragment.written (d :: f) := by
  rw [Fragment.written, Chunk.gap, if_pos h]

theorem Fragment.bindings_append : ∀ f g : List Chunk,
    Fragment.bindings (f ++ g) = Fragment.bindings f ++ Fragment.bindings g
  | [], _ => rfl
  | c :: f, g => by
    simp only [List.cons_append, Fragment.bindings]
    rw [Fragment.bindings_append f g, List.append_assoc]

theorem Fragment.written_append : ∀ f g : List Chunk,
    Fragment.written (f ++ g) = Fragment.written f ++ Fragment.seam f g ++ Fragment.written g
  | [], g => by simp [Fragment.written, Fragment.seam]
  | [c], g => by simp [Fragment.written, Fragment.seam, Chunk.gap]
  | c :: d :: f, g => by
    have ih := Fragment.written_append (d :: f) g
    have hgap : c.gap (d :: f ++ g) = c.gap (d :: f) := rfl
    have hseam : Fragment.seam (c :: d :: f) g = Fragment.seam (d :: f) g := by simp [Fragment.seam]
    rw [List.cons_append, Fragment.written, Fragment.written, ih, hgap, hseam]
    simp only [String.append_assoc]

/-! ## Gaps -/

theorem Chunk.gap_cases (c : Chunk) (f : List Chunk) : c.gap f = "" ∨ c.gap f = " " := by
  cases f with
  | nil => exact .inl rfl
  | cons d f => by_cases h : c.needsSpace d <;> simp [Chunk.gap, h]

theorem Fragment.seam_cases (f g : Fragment) : Fragment.seam f g = "" ∨ Fragment.seam f g = " " := by
  unfold Fragment.seam
  split
  · exact Chunk.gap_cases _ g
  · exact .inl rfl

/-- The gap behind a value does not depend on the value. -/
theorem Chunk.gap_value (v w : Value) (f : List Chunk) : (Chunk.value v).gap f = (Chunk.value w).gap f := by
  cases f <;> rfl

/-- The gap in front of a value does not depend on the value. -/
theorem Fragment.seam_value (f g h : Fragment) (v w : Value) :
    Fragment.seam f (.value v :: g) = Fragment.seam f (.value w :: h) := by
  unfold Fragment.seam
  split <;> rfl

/-! ## Around a value -/

/-- What the script of a fragment has in front of a value between two parts of the fragment. -/
def Fragment.ahead (f g : Fragment) : String :=
  String.join ((f ++ g).compile.bindings.map (· ++ "\n")) ++ Fragment.written f ++ Fragment.seam f [.value .null]

/-- What the script of a fragment has behind a value in front of the rest of the fragment. -/
def Fragment.behind (g : Fragment) : String := (Chunk.value .null).gap g ++ Fragment.written g

theorem Fragment.script_around (f g : Fragment) (v : Value) :
    (Fragment.compile (f ++ .value v :: g)).script = Fragment.ahead f g ++ v.inline ++ Fragment.behind g := by
  have hbindings : Fragment.bindings (f ++ .value v :: g) = Fragment.bindings (f ++ g) := by
    simp [Fragment.bindings_append, Fragment.bindings, Chunk.bindings]
  have hwritten : Fragment.written (f ++ .value v :: g) =
      Fragment.written f ++ Fragment.seam f [.value .null] ++ (v.inline ++ Fragment.behind g) := by
    rw [Fragment.written_append, Fragment.seam_value f g [] v .null, Fragment.written, Chunk.gap_value v .null,
      Fragment.behind, Chunk.written]
    simp only [String.append_assoc]
  simp only [Statement.script, Fragment.compile_eq, Fragment.ahead, hbindings, hwritten, String.append_assoc]

/-! ## Around an empty text -/

theorem Chunk.gap_raw_empty (f : List Chunk) : (Chunk.raw "").gap f = "" := by
  cases f <;> rfl

theorem Chunk.gap_before_raw_empty (c : Chunk) (f : List Chunk) : c.gap (.raw "" :: f) = "" := by
  simp [Chunk.gap, Chunk.needsSpace, Chunk.startsBlank]

theorem Fragment.seam_raw_empty (f g : Fragment) : Fragment.seam f (.raw "" :: g) = "" := by
  unfold Fragment.seam
  split
  · exact Chunk.gap_before_raw_empty _ g
  · rfl

/-- Nothing stands between two fragments unless their chunks that meet are separated by a blank. -/
theorem Fragment.seam_eq_empty_iff (f g : Fragment) :
    Fragment.seam f g = "" ↔ ∀ c ∈ f.getLast?, ∀ d ∈ g.head?, c.needsSpace d = false := by
  unfold Fragment.seam
  cases f.getLast? with
  | none => simp
  | some c =>
    cases g with
    | nil => simp [Chunk.gap]
    | cons d g => cases h : c.needsSpace d <;> simp [Chunk.gap, h]

/-- What stands on both sides of an empty text is written without anything in between. -/
theorem Fragment.written_around_empty (f g : Fragment) :
    Fragment.written (f ++ [.raw ""] ++ g) = Fragment.written f ++ Fragment.written g := by
  rw [List.append_assoc, List.singleton_append, Fragment.written_append, Fragment.seam_raw_empty, Fragment.written,
    Chunk.gap_raw_empty, Chunk.written]
  simp

/-- **Empty texts**: what is before an empty text and what is behind it are set next to each other; this is the text
that they have without the empty text exactly when the chunks that meet are not separated by a blank; and the lines in
front of the statement are the same in any case. -/
theorem empty_text_neutral_iff (f g : Fragment) :
    Fragment.text (f ++ [.raw ""] ++ g) = f.text ++ g.text ∧
    (Fragment.text (f ++ [.raw ""] ++ g) = Fragment.text (f ++ g) ↔
      ∀ c ∈ f.getLast?, ∀ d ∈ g.head?, c.needsSpace d = false) ∧
    (Fragment.compile (f ++ [.raw ""] ++ g)).bindings = (Fragment.compile (f ++ g)).bindings := by
  have hbindings : Fragment.bindings (f ++ [.raw ""] ++ g) = Fragment.bindings (f ++ g) := by
    simp [Fragment.bindings_append, Fragment.bindings, Chunk.bindings]
  simp only [Fragment.text_eq, Fragment.compile_eq, hbindings, Fragment.written_around_empty, and_true, true_and]
  rw [Fragment.written_append, ← Fragment.seam_eq_empty_iff]
  constructor
  · intro h
    have hlength := congrArg String.length h
    simp only [String.length_append] at hlength
    rcases Fragment.seam_cases f g with hseam | hseam
    · exact hseam
    · have hone : (Fragment.seam f g).length = 1 := by rw [hseam]; rfl
      omega
  · intro h
    rw [h, String.append_empty]

/-- Two keywords with an empty text between them. -/
theorem keywords_run_together :
    Fragment.text ([.keyword .select] ++ [.raw ""] ++ [.keyword .from_]) = "SELECTFROM" ∧
    Fragment.text ([.keyword .select] ++ [.keyword .from_]) = "SELECT FROM" :=
  ⟨by decide, by decide⟩

end GraphQuery
