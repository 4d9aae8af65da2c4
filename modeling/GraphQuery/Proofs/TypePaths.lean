import GraphQuery.Proofs.Names
import GraphQuery.Schema.Model

/-!
# Paths of types

A type is written as a path: segments with double colons behind them, the name of the type, and its arguments in angle
brackets, which are types again (`TypeText`). A segment is a name, or it tells the implementation in which the type is
declared: `<T as Trait>` or `<impl Trait for T>`.

The default table of a model is the name of its type exactly when all segments of its path are names
(`default_table_iff`). A path is cut at its first angle bracket, which opens the arguments only then; the bracket of an
implementation stands behind the segments before it, which end with colons (`lead_cases`), and so nothing is left behind
the last colons: a model that is declared in an implementation has a table without a name (`nameless_table`).
-/

namespace GraphQuery

/-! ## Types as they are written -/

/-- A character that neither opens arguments nor ends a segment. -/
def isPathNameChar (c : Char) : Bool := c != '<' && c != ':'

/-- A name in a path. -/
structure PathName where
  text : String
  not_empty : text ≠ ""
  plain : text.toList.all isPathNameChar

theorem PathName.ne_of_mem {name : PathName} {c : Char} (h : c ∈ name.text.toList) : c ≠ '<' ∧ c ≠ ':' := by
  have hc := List.all_eq_true.1 name.plain c h
  simpa [isPathNameChar] using hc

mutual

/-- A type: a path with a name and arguments, or other types with marks between them, as references and tuples are. -/
inductive TypeText
  | path (lead : List PathSegment) (name : PathName) (arguments : List TypeText)
  | mark (text : String)
  | composed (parts : List TypeText)

/-- A segment of a path in front of its name. -/
inductive PathSegment
  | named (name : PathName)
  | qualified (self trait : TypeText)
  | implementation (trait self : TypeText)

end

/-- The segment is a name. -/
def PathSegment.isNamed : PathSegment → Bool
  | named _ => true
  | _ => false

namespace TypeText

/-- The written arguments of a type. -/
def argumentsText : List String → String
  | [] => ""
  | texts => "<" ++ ", ".intercalate texts ++ ">"

mutual

/-- The written form of a type. -/
def text : TypeText → String
  | path lead name arguments => leadText lead ++ name.text ++ argumentsText (texts arguments)
  | mark s => s
  | composed parts => String.join (texts parts)

/-- The written form of a segment. -/
def segmentText : PathSegment → String
  | .named name => name.text
  | .qualified self trait => "<" ++ self.text ++ " as " ++ trait.text ++ ">"
  | .implementation trait self => "<impl " ++ trait.text ++ " for " ++ self.text ++ ">"

/-- The written form of the segments in front of a name, each with a double colon behind it. -/
def leadText : List PathSegment → String
  | [] => ""
  | s :: ss => segmentText s ++ "::" ++ leadText ss

/-- The written forms of types. -/
def texts : List TypeText → List String
  | [] => []
  | t :: ts => t.text :: texts ts

end

end TypeText

/-! ## The last segment -/

namespace Model

theorem upToColons_append {name : List Char} (h : ':' ∉ name) (rest : List Char) :
    upToColons (name ++ rest) = name ++ upToColons rest := by
  induction name with
  | nil => rfl
  | cons c name ih =>
    obtain ⟨hc, hname⟩ := not_or.1 (mt List.mem_cons.2 h)
    rw [List.cons_append, upToColons, ih hname, List.cons_append]
    rintro _ rfl
    exact absurd rfl hc

/-- A text without colons belongs to the last segment. -/
theorem lastSegment_append {name : List Char} (h : ':' ∉ name) (lead : List Char) :
    lastSegment (lead ++ name) = lastSegment lead ++ name := by
  rw [lastSegment, List.reverse_append, upToColons_append (mt List.mem_reverse.1 h), List.reverse_append,
    List.reverse_reverse, ← lastSegment]

theorem lastSegment_colons (lead : List Char) : lastSegment (lead ++ [':', ':']) = [] := by
  rw [lastSegment, List.reverse_append]
  rfl

end Model

namespace TypeText

/-- What stands in front of a name is nothing, or it ends with a double colon. -/
theorem lead_cases (ss : List PathSegment) : leadText ss = "" ∨ ∃ front, leadText ss = front ++ "::" := by
  induction ss with
  | nil => exact .inl rfl
  | cons s ss ih =>
    rw [leadText]
    rcases ih with hss | ⟨front, hss⟩
    · exact .inr ⟨segmentText s, by rw [hss, String.append_empty]⟩
    · refine .inr ⟨segmentText s ++ "::" ++ front, ?_⟩
      rw [hss]
      exact String.append_assoc.symm

/-- Nothing stands behind the last colons of the segments in front of a name. -/
theorem lastSegment_leadText (ss : List PathSegment) : Model.lastSegment (leadText ss).toList = [] := by
  rcases lead_cases ss with hss | ⟨front, hss⟩
  · rw [hss]
    rfl
  · rw [hss, String.toList_append]
    exact Model.lastSegment_colons front.toList

/-- Where all segments are names, no bracket stands in front of the name. -/
theorem bracket_not_mem_lead {ss : List PathSegment} (h : ∀ s ∈ ss, s.isNamed) : '<' ∉ (leadText ss).toList := by
  induction ss with
  | nil => exact List.not_mem_nil
  | cons s ss ih =>
    obtain ⟨hs, hss⟩ := List.forall_mem_cons.1 h
    cases s with
    | named name =>
      rw [leadText, segmentText, String.toList_append, String.toList_append]
      intro hmem
      rcases List.mem_append.1 hmem with hmem | hmem
      · rcases List.mem_append.1 hmem with hmem | hmem
        · exact (PathName.ne_of_mem hmem).1 rfl
        · simp at hmem
      · exact ih hss hmem
    | qualified self trait => cases hs
    | implementation trait self => cases hs

/-- A segment that is no name opens with a bracket. -/
theorem segmentText_of_not_isNamed {s : PathSegment} (h : s.isNamed = false) :
    ∃ rest, (segmentText s).toList = '<' :: rest := by
  cases s with
  | named name => cases h
  | qualified self trait => exact ⟨_, by simp only [segmentText, String.toList_append]; rfl⟩
  | implementation trait self => exact ⟨_, by simp only [segmentText, String.toList_append]; rfl⟩

theorem leadText_append (ss ts : List PathSegment) : leadText (ss ++ ts) = leadText ss ++ leadText ts := by
  induction ss with
  | nil => rw [List.nil_append, leadText, String.empty_append]
  | cons s ss ih => simp only [List.cons_append, leadText, ih, String.append_assoc]

/-! ## The default table -/

section Path

variable {lead : List PathSegment} (name : PathName) (arguments : List TypeText)

theorem text_toList : (path lead name arguments).text.toList =
    (leadText lead).toList ++ (name.text.toList ++ (argumentsText (texts arguments)).toList) := by
  rw [text, String.toList_append, String.toList_append, List.append_assoc]

/-- No bracket stands in front of the arguments, which are none or open with one. -/
theorem defaultTable_of_named (h : ∀ s ∈ lead, s.isNamed) :
    Model.defaultTable ⟨(path lead name arguments).text⟩ = name.text := by
  have hfront : ∀ c ∈ (leadText lead).toList ++ name.text.toList, decide (c ≠ '<') := by
    intro c hc
    refine decide_eq_true ?_
    rcases List.mem_append.1 hc with hc | hc
    · exact ne_of_mem_of_not_mem hc (bracket_not_mem_lead h)
    · exact (PathName.ne_of_mem hc).1
  have harguments : Text.Ends (fun c => decide (c ≠ '<')) (argumentsText (texts arguments)).toList := by
    intro c hc
    cases arguments with
    | nil => cases hc
    | cons t ts =>
      rw [texts, argumentsText, String.toList_append, String.toList_append] at hc
      · cases hc
        rfl
      · exact List.cons_ne_nil _ _
  have hcolon : ':' ∉ name.text.toList := fun hmem => (PathName.ne_of_mem hmem).2 rfl
  rw [Model.defaultTable, text_toList, ← List.append_assoc, (Text.span_append hfront harguments).1,
    Model.lastSegment_append hcolon, lastSegment_leadText, List.nil_append, String.ofList_toList]

/-- The first bracket is that of the first segment that is no name, and it stands behind a double colon or nothing. -/
theorem defaultTable_of_not_named (h : ∃ s ∈ lead, s.isNamed = false) :
    Model.defaultTable ⟨(path lead name arguments).text⟩ = "" := by
  obtain ⟨s, hfirst⟩ : ∃ s, lead.find? (!·.isNamed) = some s := by
    obtain ⟨s, hmem, hs⟩ := h
    exact Option.isSome_iff_exists.1 (List.find?_isSome.2 ⟨s, hmem, by rw [hs]; rfl⟩)
  obtain ⟨hs, before, after, rfl, hbefore⟩ := List.find?_eq_some_iff_append.1 hfirst
  obtain ⟨rest, hrest⟩ := segmentText_of_not_isNamed ((Bool.not_eq_true' s.isNamed).mp hs)
  have hfront : ∀ c ∈ (leadText before).toList, decide (c ≠ '<') := by
    intro c hc
    have hnamed : ∀ s ∈ before, s.isNamed := fun s hs => by simpa using hbefore s hs
    exact decide_eq_true (ne_of_mem_of_not_mem hc (bracket_not_mem_lead hnamed))
  have hbracket (t : List Char) : Text.Ends (fun c => decide (c ≠ '<')) ('<' :: t) := by
    intro c hc
    cases hc
    rfl
  have hlead : leadText (before ++ s :: after) = leadText before ++ (segmentText s ++ ("::" ++ leadText after)) := by
    rw [leadText_append, leadText, String.append_assoc]
  rw [Model.defaultTable, text_toList, hlead, String.toList_append, String.toList_append, hrest, List.append_assoc,
    List.cons_append, List.cons_append, (Text.span_append hfront (hbracket _)).1, lastSegment_leadText]

end Path

end TypeText

/-- **Default tables**: whatever the arguments of a type are, its model has a table of the type's own name exactly when
all segments in front of the name are names themselves. Where one of them tells an implementation, the table has no name
at all. -/
theorem default_table_iff (lead : List PathSegment) (name : PathName) (arguments : List TypeText) :
    (Model.defaultTable ⟨(TypeText.path lead name arguments).text⟩ = name.text ↔ ∀ s ∈ lead, s.isNamed) ∧
    (Model.defaultTable ⟨(TypeText.path lead name arguments).text⟩ = "" ↔ ∃ s ∈ lead, s.isNamed = false) := by
  by_cases h : ∀ s ∈ lead, s.isNamed
  · have hnone : ¬ ∃ s ∈ lead, s.isNamed = false := by
      rintro ⟨s, hs, hfalse⟩
      rw [h s hs] at hfalse
      cases hfalse
    rw [TypeText.defaultTable_of_named name arguments h]
    exact ⟨iff_of_true rfl h, iff_of_false name.not_empty hnone⟩
  · have hsome : ∃ s ∈ lead, s.isNamed = false := by simpa using h
    rw [TypeText.defaultTable_of_not_named name arguments hsome]
    exact ⟨iff_of_false name.not_empty.symm h, iff_of_true rfl hsome⟩

/-- A type that is declared in a function of an implementation has a name, and its table has none. -/
theorem nameless_table :
    (TypeText.path [.qualified (.path [.named ⟨"shop", by decide, rfl⟩] ⟨"Cart", by decide, rfl⟩ [])
        (.path [.named ⟨"shop", by decide, rfl⟩] ⟨"Seed", by decide, rfl⟩ []), .named ⟨"seed", by decide, rfl⟩]
      ⟨"Order", by decide, rfl⟩ []).text = "<shop::Cart as shop::Seed>::seed::Order" ∧
    Model.defaultTable ⟨"<shop::Cart as shop::Seed>::seed::Order"⟩ = "" :=
  ⟨by decide, by decide⟩

/-- The arguments do not count, whatever paths they hold. -/
example : Model.defaultTable ⟨"shop::Box<shop::Deep<alloc::vec::Vec<shop::Order>>>"⟩ = "Box" := by decide

end GraphQuery
