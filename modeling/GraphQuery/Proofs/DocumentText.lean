import GraphQuery.Proofs.Concatenation
import GraphQuery.Proofs.Literal
import GraphQuery.Proofs.Members

/-!
# The literals of documents

The text of a document and the literal of its value are written from the same pieces in the same order
(`Json.text_eq_written`, `Value.literal_ofJson`): each piece is the same text in both of them, but for a null, which is
the word `null` in the one and `NULL` in the other. So they are one text exactly where there is no null
(`literal_writes_document`). No member is left out of the literal, because the value of a document is never absent, and
members in the order of their keys stay in it when they are gathered to an object (`Value.ofMembers_ofJsonMembers`).
-/

namespace GraphQuery

namespace Json

/-! ## Pieces of texts -/

/-- A piece of a written document: a null, or a text that is always the same. -/
inductive Piece
  | null
  | text (s : String)

/-- Pieces one after the other, with a word for null. -/
def Piece.written (word : String) (ps : List Piece) : String :=
  String.join (ps.map fun
    | null => word
    | text s => s)

/-- Lists of pieces with commas between them, and a text on either side. -/
def Piece.enclosed (opening : String) (pss : List (List Piece)) (closing : String) : List Piece :=
  .text opening :: ([.text ","].intercalate pss ++ [.text closing])

mutual

/-- The pieces that a document is written from. -/
def pieces : Json → List Piece
  | null => [.null]
  | bool b => [.text (boolText b)]
  | number n => [.text n.text]
  | string s => [.text (Text.doubleQuoted s)]
  | array items => Piece.enclosed "[" (itemPieces items) "]"
  | object members => Piece.enclosed "\x7b" (memberPieces members) "\x7d"

/-- The pieces of each item of an array. -/
def itemPieces : List Json → List (List Piece)
  | [] => []
  | j :: js => j.pieces :: itemPieces js

/-- The pieces of each member of an object: the key with a colon, and the value. -/
def memberPieces : List (String × Json) → List (List Piece)
  | [] => []
  | (k, j) :: ms => (.text (Text.doubleQuoted k ++ ":") :: j.pieces) :: memberPieces ms

end

mutual

/-- There is a null in the document, at any depth. -/
def hasNull : Json → Bool
  | null => true
  | array items => anyItemHasNull items
  | object members => anyMemberHasNull members
  | _ => false

/-- There is a null in one of the items. -/
def anyItemHasNull : List Json → Bool
  | [] => false
  | j :: js => j.hasNull || anyItemHasNull js

/-- There is a null in the value of one of the members. -/
def anyMemberHasNull : List (String × Json) → Bool
  | [] => false
  | (_, j) :: ms => j.hasNull || anyMemberHasNull ms

end

namespace Piece

variable {word : String}

theorem written_null (ps : List Piece) : written word (null :: ps) = word ++ written word ps := by simp [written]

theorem written_text (s : String) (ps : List Piece) : written word (text s :: ps) = s ++ written word ps := by
  simp [written]

theorem written_append (ps qs : List Piece) : written word (ps ++ qs) = written word ps ++ written word qs := by
  simp [written]

theorem written_commas : ∀ pss : List (List Piece),
    written word ([text ","].intercalate pss) = ",".intercalate (pss.map (written word))
  | [] => rfl
  | [ps] => by simp
  | ps :: qs :: pss => by
    have ih := written_commas (qs :: pss)
    have hcomma : written word [text ","] = "," := by simp [written]
    rw [List.intercalate_cons_cons, written_append, written_append, hcomma, ih]
    exact String.intercalate_cons_cons.symm

theorem written_enclosed (opening closing : String) (pss : List (List Piece)) :
    written word (enclosed opening pss closing) = opening ++ ",".intercalate (pss.map (written word)) ++ closing := by
  rw [enclosed, written_text, written_append, written_commas]
  simp [written, String.append_assoc]

theorem null_mem_commas : ∀ pss : List (List Piece), null ∈ [text ","].intercalate pss ↔ ∃ ps ∈ pss, null ∈ ps
  | [] => by simp
  | [ps] => by simp
  | ps :: qs :: pss => by
    have ih := null_mem_commas (qs :: pss)
    rw [List.intercalate_cons_cons, List.mem_append, List.mem_append, ih]
    simp

theorem null_mem_enclosed {opening closing : String} {pss : List (List Piece)} :
    null ∈ enclosed opening pss closing ↔ ∃ ps ∈ pss, null ∈ ps := by
  simp [enclosed, null_mem_commas]

/-- Pieces with two words for null are one text exactly where there is no null. -/
theorem written_eq_iff {ps : List Piece} : written "NULL" ps = written "null" ps ↔ null ∉ ps := by
  induction ps with
  | nil => simp [written]
  | cons p ps ih =>
    cases p with
    | null =>
      have hne : written "NULL" (null :: ps) ≠ written "null" (null :: ps) := by
        intro h
        rw [written_null, written_null] at h
        have hhead := congrArg (fun s => s.toList.head?) h
        simp at hhead
      simp [hne]
    | text s =>
      rw [written_text, written_text, String.append_right_inj, ih]
      simp

end Piece

/-! ## Texts of documents -/

mutual

theorem text_eq_written : ∀ j : Json, j.text = Piece.written "null" j.pieces
  | null | bool _ | number _ | string _ => by simp [text, pieces, Piece.written]
  | array items => by rw [text, itemTexts_eq_map items, pieces, Piece.written_enclosed]
  | object members => by rw [text, memberTexts_eq_map members, pieces, Piece.written_enclosed]

theorem itemTexts_eq_map : ∀ js : List Json, itemTexts js = (itemPieces js).map (Piece.written "null")
  | [] => rfl
  | j :: js => by rw [itemTexts, itemPieces, List.map_cons, text_eq_written j, itemTexts_eq_map js]

theorem memberTexts_eq_map : ∀ ms : List (String × Json), memberTexts ms = (memberPieces ms).map (Piece.written "null")
  | [] => rfl
  | (k, j) :: ms => by
    rw [memberTexts, memberPieces, List.map_cons, Piece.written_text, text_eq_written j, memberTexts_eq_map ms]

end

mutual

/-- A document has a null exactly where there is one among its pieces. -/
theorem null_mem_pieces : ∀ j : Json, Piece.null ∈ j.pieces ↔ j.hasNull
  | null | bool _ | number _ | string _ => by simp [pieces, hasNull]
  | array items => by rw [pieces, Piece.null_mem_enclosed, exists_itemPieces items, hasNull]
  | object members => by rw [pieces, Piece.null_mem_enclosed, exists_memberPieces members, hasNull]

theorem exists_itemPieces : ∀ js : List Json, (∃ ps ∈ itemPieces js, Piece.null ∈ ps) ↔ anyItemHasNull js
  | [] => by simp [itemPieces, anyItemHasNull]
  | j :: js => by simp [itemPieces, anyItemHasNull, null_mem_pieces j, exists_itemPieces js]

theorem exists_memberPieces : ∀ ms : List (String × Json),
    (∃ ps ∈ memberPieces ms, Piece.null ∈ ps) ↔ anyMemberHasNull ms
  | [] => by simp [memberPieces, anyMemberHasNull]
  | (_, j) :: ms => by simp [memberPieces, anyMemberHasNull, null_mem_pieces j, exists_memberPieces ms]

end

end Json

/-! ## Literals of documents -/

namespace Value

theorem isAbsent_ofJson (j : Json) : (ofJson j).isAbsent = false := by
  cases j <;> rfl

theorem ofJsonMembers_eq (ms : List (String × Json)) : ofJsonMembers ms = ms.map fun m => (m.1, ofJson m.2) := by
  induction ms with
  | nil => rfl
  | cons m ms ih => rw [ofJsonMembers, ih, List.map_cons]

/-- No member of a document is left out. -/
theorem there_ofJsonMembers (ms : List (String × Json)) : there (ofJsonMembers ms) = ofJsonMembers ms := by
  rw [there, List.filter_eq_self, ofJsonMembers_eq]
  intro m hm
  obtain ⟨m', -, rfl⟩ := List.mem_map.1 hm
  rw [isAbsent_ofJson]
  rfl

mutual

/-- The literal of the value of a document is written from the pieces of the document. -/
theorem literal_ofJson : ∀ j : Json, (ofJson j).literal = Json.Piece.written "NULL" j.pieces
  | .null | .bool _ | .number _ | .string _ => by simp [ofJson, literal, Json.pieces, Json.Piece.written]
  | .array items => by
    rw [ofJson, literal, literalItems_eq, map_literal_ofJson items, Json.pieces, Json.Piece.written_enclosed]
  | .object members => by
    rw [ofJson, literal, literalMembers_eq, there_ofJsonMembers, map_memberLiteral_ofJson members, Json.pieces,
      Json.Piece.written_enclosed]

theorem map_literal_ofJson : ∀ js : List Json,
    (ofJsonItems js).map literal = (Json.itemPieces js).map (Json.Piece.written "NULL")
  | [] => rfl
  | j :: js => by
    rw [ofJsonItems, List.map_cons, Json.itemPieces, List.map_cons, literal_ofJson j, map_literal_ofJson js]

theorem map_memberLiteral_ofJson : ∀ ms : List (String × Json),
    (ofJsonMembers ms).map memberLiteral = (Json.memberPieces ms).map (Json.Piece.written "NULL")
  | [] => rfl
  | (k, j) :: ms => by
    rw [ofJsonMembers, List.map_cons, memberLiteral, Json.memberPieces, List.map_cons, Json.Piece.written_text,
      literal_ofJson j, map_memberLiteral_ofJson ms]

end

/-! ## Members in the order of their keys -/

/-- The members of a document in the order of their keys stay so when the values of them are gathered to an object. -/
theorem ofMembers_ofJsonMembers {ms : Members Json} (h : Members.Sorted ms) :
    ofMembers (ofJsonMembers ms) = ofJson (.object ms) := by
  have hsorted : Members.Sorted (ofJsonMembers ms) := by
    rw [ofJsonMembers_eq]
    exact List.pairwise_map.2 h
  rw [ofMembers, Members.ofList_eq_self_iff.2 hsorted, ofJson]

end Value

/-- **Literals of documents**: the text of a document and the literal of its value are made from the same pieces, and
only the word for null is another. So they are the same text exactly where the document has no null. -/
theorem literal_writes_document (j : Json) :
    (Fragment.json j).text = Json.Piece.written "null" j.pieces ∧
    (Value.ofJson j).literal = Json.Piece.written "NULL" j.pieces ∧
    ((Value.ofJson j).literal = (Fragment.json j).text ↔ j.hasNull = false) ∧
    ∀ ms, j = .object ms → Members.Sorted ms → Value.ofMembers (Value.ofJsonMembers ms) = Value.ofJson j := by
  have htext : (Fragment.json j).text = Json.Piece.written "null" j.pieces := by
    rw [Fragment.text_eq, Fragment.json, Fragment.written_singleton]
    exact j.text_eq_written
  refine ⟨htext, Value.literal_ofJson j, ?_, ?_⟩
  · rw [htext, Value.literal_ofJson, Json.Piece.written_eq_iff, Json.null_mem_pieces, Bool.not_eq_true]
  · rintro ms rfl hms
    exact Value.ofMembers_ofJsonMembers hms

/-- Members that are put in out of order, and one of them twice, make a document whose members are in order. -/
theorem gathered_members_written :
    Members.Sorted (Members.ofList [("b", Json.int 1), ("a", .null), ("b", .string "null")]) ∧
    Value.ofMembers (Value.ofJsonMembers (Members.ofList [("b", .int 1), ("a", .null), ("b", .string "null")])) =
      Value.ofJson (Json.ofMembers [("b", .int 1), ("a", .null), ("b", .string "null")]) := by
  have hsorted := Members.ofList_sorted [("b", Json.int 1), ("a", .null), ("b", .string "null")]
  exact ⟨hsorted, (literal_writes_document (Json.ofMembers _)).2.2.2 _ rfl hsorted⟩

/-- A string is no null, whatever it says. -/
example : (Value.ofJson (.array [.string "null", .null])).literal = "[\"null\",NULL]" := by decide

end GraphQuery
