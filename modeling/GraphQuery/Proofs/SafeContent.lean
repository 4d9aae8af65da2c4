import GraphQuery.Proofs.Payload

/-!
# Contents of documents

A document may be made safe as it is, or be taken for a value whose content is stored; this is the same
(`Value.content_ofJson`), because nothing in a document is absent. The documents that stay as they are are those in
which all numbers are safe integers (`Json.safe_eq_self_iff`). Contents are such documents, so what was stored once is
stored unchanged when it is taken for a value again (`contents_agree`).
-/

namespace GraphQuery

/-! ## Documents as values -/

namespace Value

mutual

/-- The content of a document is the document with its numbers made safe. -/
theorem content_ofJson : ∀ j : Json, (ofJson j).content = some j.safe
  | .null | .bool _ | .number _ | .string _ => rfl
  | .array items => by rw [ofJson, content, Json.safe, contentItems_ofJson items]
  | .object members => by rw [ofJson, content, Json.safe, contentMembers_ofJson members]

theorem contentItems_ofJson : ∀ js : List Json, contentItems (ofJsonItems js) = Json.safeItems js
  | [] => rfl
  | j :: js => by
    simp only [ofJsonItems, contentItems, Json.safeItems]
    rw [content_ofJson j, contentItems_ofJson js]

theorem contentMembers_ofJson : ∀ ms : List (String × Json),
    contentMembers (ofJsonMembers ms) = Json.safeMembers ms
  | [] => rfl
  | (_, j) :: ms => by
    simp only [ofJsonMembers, contentMembers, Json.safeMembers]
    rw [content_ofJson j, contentMembers_ofJson ms]

end

end Value

/-! ## Documents that are safe already -/

namespace Json

theorem safeNumber_of_isSafe {n : Number} (h : n.IsSafe) : safeNumber n = number n := by
  obtain ⟨i, rfl, hle⟩ := h
  exact safeNumber_of_le rfl hle

mutual

/-- Nothing changes where all numbers are safe integers. -/
theorem safe_of_numbers : ∀ j : Json, (∀ n ∈ j.numbers, n.IsSafe) → j.safe = j
  | null, _ | bool _, _ | string _, _ => rfl
  | number n, h => safeNumber_of_isSafe (h n List.mem_cons_self)
  | array items, h => by rw [safe, safeItems_of_numbers items h]
  | object members, h => by rw [safe, safeMembers_of_numbers members h]

theorem safeItems_of_numbers : ∀ js : List Json, (∀ n ∈ numbersOfItems js, n.IsSafe) → safeItems js = js
  | [], _ => rfl
  | j :: js, h => by
    obtain ⟨hfirst, hrest⟩ := List.forall_mem_append.1 h
    rw [safeItems, safe_of_numbers j hfirst, safeItems_of_numbers js hrest]

theorem safeMembers_of_numbers : ∀ ms : List (String × Json),
    (∀ n ∈ numbersOfMembers ms, n.IsSafe) → safeMembers ms = ms
  | [], _ => rfl
  | (_, j) :: ms, h => by
    obtain ⟨hfirst, hrest⟩ := List.forall_mem_append.1 h
    rw [safeMembers, safe_of_numbers j hfirst, safeMembers_of_numbers ms hrest]

end

/-- All numbers of a document that was made safe are safe integers. -/
theorem numbers_safe (j : Json) : ∀ n ∈ j.safe.numbers, n.IsSafe := Value.numbers_content (Value.content_ofJson j)

/-- A document is safe exactly when all its numbers are safe integers. -/
theorem safe_eq_self_iff {j : Json} : j.safe = j ↔ ∀ n ∈ j.numbers, n.IsSafe := by
  refine ⟨fun h => ?_, safe_of_numbers j⟩
  rw [← h]
  exact j.numbers_safe

end Json

/-! ## What was stored is stored again -/

/-- **Contents of documents**: the content of a document is the document made safe; making it safe again changes
nothing; and the content of any value is its own content. -/
theorem contents_agree :
    (∀ j : Json, (Value.ofJson j).content = some j.safe ∧ j.safe.safe = j.safe) ∧
    ∀ (v : Value) (j : Json), v.content = some j → (Value.ofJson j).content = some j := by
  refine ⟨fun j => ⟨Value.content_ofJson j, Json.safe_eq_self_iff.2 j.numbers_safe⟩, fun v j h => ?_⟩
  rw [Value.content_ofJson, Json.safe_of_numbers j (Value.numbers_content h)]

/-- A value with a link, a number that is not safe, a whole double, and two places that are absent. -/
def mixedValue : Value :=
  .object [("at", .link ⟨"user", "tobie"⟩), ("gone", .absent),
    ("list", .array [.absent, .int 9007199254740992, .number (.float ⟨false, 4503599627370496, -51, by decide⟩)])]

/-- What is stored for it. -/
def mixedContent : Json :=
  .object [("at", .string "user:tobie"), ("list", .array [.string "9007199254740992", .int 2])]

theorem mixed_content_stored_again : mixedValue.content = some mixedContent ∧
    (Value.ofJson mixedContent).content = some mixedContent :=
  have hstored : mixedValue.content = some mixedContent := rfl
  ⟨hstored, contents_agree.2 mixedValue mixedContent hstored⟩

end GraphQuery
