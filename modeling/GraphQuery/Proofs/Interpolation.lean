import GraphQuery.Proofs.Occurrence
import GraphQuery.Proofs.Quoting

/-!
# Strings in templates

A reader of a text meets pieces (`Scan.pieces`): characters outside of quotes, and texts between quotes with what they
spell. In a template of texts and strings, where a reader is outside of quotes whenever a string starts
(`Template.Ready`), each string is one piece between single quotes that spells the string, and the pieces around the
strings are those of the texts alone (`Template.frame`). So a second choice of the strings changes nothing but what
those pieces spell (`interpolated_strings_keep_structure`).
-/

namespace GraphQuery

/-! ## Pieces of a text -/

namespace Scan

/-- What a reader meets: a character outside of quotes, or what is spelled between quotes; quotes that are never closed
take the rest of the text. -/
inductive Piece
  | bare (c : Char)
  | quoted (quote : Char) (spelled : List Char)
  | unclosed (quote : Char) (rest : List Char)
deriving DecidableEq

/-- The pieces of a text, read from outside of quotes. -/
def pieces (q : Quotes) : List Char → List Piece
  | [] => []
  | c :: cs =>
    if q.opens c then
      match _h : Text.readQuoted c cs with
      | some (s, rest) => .quoted c s :: pieces q rest
      | none => [.unclosed c cs]
    else .bare c :: pieces q cs
termination_by cs => cs.length
decreasing_by
  · obtain ⟨body, -, rfl⟩ := Text.spells_of_readQuoted _h
    simp only [List.length_cons, List.length_append]
    omega
  · simp

variable {q : Quotes} {c : Char} {cs s rest xs ys : List Char}

theorem ne_backslash_of_opens (hc : q.opens c) : c ≠ '\\' := by
  rintro rfl
  simp [Quotes.opens, Text.backtick] at hc

theorem pieces_quoted (hc : q.opens c) (h : Text.readQuoted c cs = some (s, rest)) :
    pieces q (c :: cs) = .quoted c s :: pieces q rest := by
  rw [pieces, if_pos hc]
  split
  · next h' =>
    rw [h] at h'
    cases h'
    rfl
  · next h' =>
    rw [h] at h'
    cases h'

theorem pieces_bare (hc : q.opens c = false) (cs : List Char) : pieces q (c :: cs) = .bare c :: pieces q cs := by
  rw [pieces, if_neg (by simp [hc])]

/-- A text that is closed is read apart from what follows it. -/
theorem pieces_append (hx : Closed q xs) (ys : List Char) : pieces q (xs ++ ys) = pieces q xs ++ pieces q ys := by
  induction xs using pieces.induct q with
  | case1 => simp [pieces]
  | case2 c cs hc s rest hread ih =>
    have hquote := ne_backslash_of_opens hc
    have hrest : Closed q rest := by
      rw [Closed, run_cons, step, if_pos hc, run_of_readQuoted hquote hread] at hx
      exact hx
    rw [List.cons_append, pieces_quoted hc (Text.readQuoted_append hquote hread ys), pieces_quoted hc hread, ih hrest]
    rfl
  | case3 c cs hc hread =>
    rw [Closed, run_cons, step, if_pos hc] at hx
    exact absurd hx (run_of_unread hread)
  | case4 c cs hc ih =>
    have hopen : q.opens c = false := by simpa using hc
    have hrest : Closed q cs := by
      rw [Closed, run_cons, step, if_neg hc] at hx
      exact hx
    rw [List.cons_append, pieces_bare hopen, pieces_bare hopen, ih hrest]
    rfl

theorem closed_singleQuoted (hq : q.opens '\'') (s : List Char) : Closed q (Text.singleQuotedChars s) := by
  have hread := (Text.spells_escapeSingle s).readQuoted (by decide) []
  rw [Closed, Text.singleQuotedChars, run_cons, step, if_pos hq, run_of_readQuoted (by decide) hread]
  rfl

/-- A string between single quotes is one piece, and reading goes on behind it. -/
theorem pieces_singleQuoted (hq : q.opens '\'') (s ys : List Char) :
    pieces q (Text.singleQuotedChars s ++ ys) = .quoted '\'' s :: pieces q ys := by
  have hread := (Text.spells_escapeSingle s).readQuoted (by decide) ys
  rw [Text.singleQuotedChars, List.cons_append, List.append_assoc, List.singleton_append, pieces_quoted hq hread]

end Scan

/-! ## Templates of texts and strings -/

open Scan

namespace Template

/-- The text of a template. -/
def text (t : Template) : String := t.toFragment.text

theorem text_eq (t : Template) : t.text = written t := by
  cases t with
  | nil => rfl
  | cons part parts => simp [text, toFragment, Fragment.text_eq, Fragment.written, Chunk.written, Chunk.gap]

theorem text_cons (part : Part) (t : Template) : text (part :: t) = part.written ++ text t := by
  rw [text_eq, text_eq, written]

theorem text_append (t u : Template) : text (t ++ u) = text t ++ text u := by
  induction t with
  | nil => simp [text_eq, written]
  | cons part t ih => rw [List.cons_append, text_cons, text_cons, ih, String.append_assoc]

/-- A reader that has come so far is outside of quotes whenever a value of the template starts. -/
def Ready : State → Template → Prop
  | _, [] => True
  | s, .value v :: t => s = .outside ∧ Ready (run .all s v.inline.toList) t
  | s, part :: t => Ready (run .all s part.written.toList) t

/-- Two templates of texts and strings that differ at most in their strings. -/
inductive SameTexts : Template → Template → Prop
  | nil : SameTexts [] []
  | text (s : String) {t u : Template} : SameTexts t u → SameTexts (.text s :: t) (.text s :: u)
  | string (a b : String) {t u : Template} : SameTexts t u →
      SameTexts (.value (.string a) :: t) (.value (.string b) :: u)

/-- The strings of a template in order. -/
def strings : Template → List String
  | [] => []
  | .value (.string s) :: t => s :: strings t
  | _ :: t => strings t

/-- The pieces of the texts in front of, between and behind the values of a template, with `before` as the text that
stands directly in front of it. -/
def frame (before : List Char) : Template → List (List Piece)
  | [] => [pieces .all before]
  | .value _ :: t => pieces .all before :: frame [] t
  | part :: t => frame (before ++ part.written.toList) t

/-- Pieces with strings between them, each of them one piece between single quotes. -/
def weave : List (List Piece) → List String → List Piece
  | run :: runs, s :: ss => run ++ .quoted '\'' s.toList :: weave runs ss
  | runs, _ => runs.flatten

variable {t u : Template}

/-! ## What a choice of strings changes -/

theorem SameTexts.symm (h : SameTexts t u) : SameTexts u t := by
  induction h with
  | nil => exact .nil
  | text s _ ih => exact ih.text s
  | string a b _ ih => exact ih.string b a

theorem SameTexts.trans {v : Template} (h : SameTexts t u) (h' : SameTexts u v) : SameTexts t v := by
  induction h generalizing v with
  | nil => exact h'
  | text s _ ih =>
    cases h' with
    | text _ h' => exact (ih h').text s
  | string a b _ ih =>
    cases h' with
    | string _ c h' => exact (ih h').string a c

theorem SameTexts.frame_eq (h : SameTexts t u) (before : List Char) : frame before t = frame before u := by
  induction h generalizing before with
  | nil => rfl
  | text s _ ih => exact ih _
  | string a b _ ih => exact congrArg (pieces .all before :: ·) (ih [])

theorem closed_string (s : String) : Closed .all (Value.string s).inline.toList := by
  rw [Value.inline, Text.singleQuoted, String.toList_ofList]
  exact closed_singleQuoted rfl s.toList

/-- Behind a string a reader is where it was in front of it, whatever the string. -/
theorem SameTexts.ready {s : State} (h : SameTexts t u) (hready : Ready s t) : Ready s u := by
  induction h generalizing s with
  | nil => trivial
  | text a _ ih => exact ih hready
  | string a b _ ih =>
    obtain ⟨rfl, hrest⟩ := hready
    refine ⟨rfl, ?_⟩
    rw [closed_string a] at hrest
    rw [closed_string b]
    exact ih hrest

/-- In front of each value of a template that is ready, a reader is outside of quotes. -/
theorem Ready.run_before {s : State} {before after : Template} {v : Value}
    (h : Ready s (before ++ .value v :: after)) : run .all s before.text.toList = .outside := by
  induction before generalizing s with
  | nil => exact h.1
  | cons part before ih =>
    rw [text_cons, String.toList_append, run_append]
    cases part with
    | value w => exact ih h.2
    | text a => exact ih h
    | binding b => exact ih h
    | fragment f => exact ih h

/-- The strings are pieces of their own among the pieces of the texts. -/
theorem SameTexts.pieces_text (h : SameTexts t u) (before : List Char)
    (hready : Ready (run .all .outside before) t) :
    pieces .all (before ++ t.text.toList) = weave (frame before t) t.strings := by
  -- A text joins what stands in front of the rest, and a string is cut off from it, since it is closed there.
  induction h generalizing before with
  | nil => simp [text_eq, written, frame, strings, weave]
  | @text s t u _ ih =>
    have hrest := ih (before ++ s.toList) (by rw [run_append]; exact hready)
    rw [text_cons, Part.written, String.toList_append, ← List.append_assoc]
    exact hrest
  | @string a b t u _ ih =>
    obtain ⟨hclosed, hready⟩ := hready
    have hrest : pieces .all t.text.toList = weave (frame [] t) t.strings := by
      rw [hclosed, closed_string a] at hready
      exact ih [] hready
    rw [text_cons, String.toList_append, pieces_append hclosed, Part.written, Value.inline, Text.singleQuoted,
      String.toList_ofList, pieces_singleQuoted rfl, hrest]
    rfl

end Template

open Template in
/-- **Interpolated strings** of a template that is ready for them: whatever they are, the template is ready for any
others, a reader meets each of them as one piece between single quotes that spells it, with the same pieces around
them, and is outside of quotes in front of it and behind it. -/
theorem interpolated_strings_keep_structure {t u : Template} (hready : t.Ready .outside) (h : SameTexts t u) :
    u.Ready .outside ∧
    pieces .all t.text.toList = weave (t.frame []) t.strings ∧
    pieces .all u.text.toList = weave (t.frame []) u.strings ∧
    ∀ (before after : Template) (s : String), t = before ++ .value (.string s) :: after →
      t.text = before.text ++ Text.singleQuoted s ++ after.text ∧
      Closed .all before.text.toList ∧ Closed .all (before.text ++ Text.singleQuoted s).toList ∧
      pieces .all t.text.toList =
        pieces .all before.text.toList ++ .quoted '\'' s.toList :: pieces .all after.text.toList := by
  have hready' := h.ready hready
  have hsame : SameTexts u u := h.symm.trans h
  refine ⟨hready', h.pieces_text [] hready, ?_, ?_⟩
  · rw [h.frame_eq []]
    exact hsame.pieces_text [] hready'
  · rintro before after s rfl
    have hbefore : Closed .all before.text.toList := hready.run_before
    have htext : text (before ++ .value (.string s) :: after) = before.text ++ Text.singleQuoted s ++ after.text := by
      rw [text_append, text_cons, String.append_assoc]
      rfl
    refine ⟨htext, hbefore, ?_, ?_⟩
    · rw [String.toList_append]
      exact hbefore.append (closed_string s)
    · rw [htext, String.append_assoc, String.toList_append, String.toList_append, pieces_append hbefore,
        Text.singleQuoted, String.toList_ofList, pieces_singleQuoted rfl]

/-- Strings with quotes, backslashes and a second statement in them, in place of strings without. -/
theorem interpolated_strings_exchanged :
    let texts (a b : String) : Template :=
      [.text "SELECT * FROM user WHERE tag = \"'\" AND name = ", .value (.string a), .text " AND `x ", .text "'y` = ",
        .value (.string b)]
    pieces .all (texts "o" "p").text.toList = Template.weave (Template.frame [] (texts "o" "p")) ["o", "p"] ∧
    pieces .all (texts "\\' OR 1; --" "\\\\").text.toList =
      Template.weave (Template.frame [] (texts "o" "p")) ["\\' OR 1; --", "\\\\"] := by
  intro texts
  have hsame : Template.SameTexts (texts "o" "p") (texts "\\' OR 1; --" "\\\\") :=
    .text _ (.string _ _ (.text _ (.text _ (.string _ _ .nil))))
  have hready : Template.Ready .outside (texts "o" "p") := ⟨by decide, by decide, trivial⟩
  have h := interpolated_strings_keep_structure hready hsame
  exact ⟨h.2.1, h.2.2.1⟩

end GraphQuery
