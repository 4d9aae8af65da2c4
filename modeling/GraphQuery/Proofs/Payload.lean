import GraphQuery.Proofs.Concatenation
import GraphQuery.Proofs.Names
import GraphQuery.Proofs.NumberText
import GraphQuery.Proofs.Requests
import GraphQuery.Session
import Mathlib.Data.List.Forall2

/-!
# What is written

The document that is stored for a value is given by a relation that does not compute it (`Value.Stored`): a link is its
text, a number is the safe integer that it is equal to or else its text, the items of an array are those of the items
that are there, and an object has the keys of the members that are there. The content of a value is the one document
in this relation to it (`Value.content_eq_some_iff`), and there are no other numbers in it than safe integers
(`Value.numbers_content`).

Each operation that writes a value sends it as one statement of a fixed form around the text of this document, or it
sends nothing (`payloads_stored`).
-/

namespace GraphQuery

/-! ## Safe integers -/

/-- An integer that is not greater than `2 ^ 53 - 1` in absolute value. -/
def Number.IsSafe (n : Number) : Prop := ∃ i : Int, n = .int i ∧ i.natAbs ≤ 9007199254740991

namespace Json

mutual

/-- The numbers in a document, at any depth. -/
def numbers : Json → List Number
  | number n => [n]
  | array items => numbersOfItems items
  | object members => numbersOfMembers members
  | _ => []

/-- The numbers in the items of an array. -/
def numbersOfItems : List Json → List Number
  | [] => []
  | j :: js => j.numbers ++ numbersOfItems js

/-- The numbers in the members of an object. -/
def numbersOfMembers : List (String × Json) → List Number
  | [] => []
  | (_, j) :: ms => j.numbers ++ numbersOfMembers ms

end

theorem safeNumber_of_le {n : Number} {i : Int} (hi : n.toInt? = some i) (hle : i.natAbs ≤ 9007199254740991) :
    safeNumber n = number (.int i) := by
  have hsafe : n.safeInt? = some i := by
    rw [Number.safeInt?, hi, Option.filter_some, if_pos]
    exact decide_eq_true hle
  rw [safeNumber, hsafe]

theorem safeNumber_of_lt {n : Number} (h : ∀ i, n.toInt? = some i → 9007199254740991 < i.natAbs) :
    safeNumber n = string n.text := by
  have hnone : n.safeInt? = none := by
    rw [Number.safeInt?, Option.filter_eq_none_iff]
    intro i hi hle
    exact Nat.not_le.2 (h i hi) (of_decide_eq_true hle)
  rw [safeNumber, hnone]

end Json

/-! ## Stored documents -/

namespace Value

/-- The document is stored for the value. -/
inductive Stored : Value → Json → Prop
  | null : Stored .null .null
  | bool (b : Bool) : Stored (.bool b) (.bool b)
  | string (s : String) : Stored (.string s) (.string s)
  | link (l : Link) : Stored (.link l) (.string (l.table ++ ":" ++ l.key))
  | integer {n : Number} {i : Int} (hi : n.toInt? = some i) (hle : i.natAbs ≤ 9007199254740991) :
    Stored (.number n) (.number (.int i))
  | digits {n : Number} (h : ∀ i, n.toInt? = some i → 9007199254740991 < i.natAbs) :
    Stored (.number n) (.string n.text)
  | array {items : List Value} {docs : List Json} (h : List.Forall₂ Stored (items.filter fun v => !v.isAbsent) docs) :
    Stored (.array items) (.array docs)
  | object {members : List (String × Value)} {docs : List (String × Json)}
    (hkeys : docs.map (·.1) = (members.filter fun m => !m.2.isAbsent).map (·.1))
    (hdocs : List.Forall₂ Stored ((members.filter fun m => !m.2.isAbsent).map (·.2)) (docs.map (·.2))) :
    Stored (.object members) (.object docs)

theorem stored_number_iff {n : Number} {j : Json} : Stored (.number n) j ↔ Json.safeNumber n = j := by
  constructor
  · intro h
    cases h with
    | integer hi hle => exact Json.safeNumber_of_le hi hle
    | digits h => exact Json.safeNumber_of_lt h
  · rintro rfl
    by_cases h : ∃ i, n.toInt? = some i ∧ i.natAbs ≤ 9007199254740991
    · obtain ⟨i, hi, hle⟩ := h
      rw [Json.safeNumber_of_le hi hle]
      exact .integer hi hle
    · have hlt : ∀ i, n.toInt? = some i → 9007199254740991 < i.natAbs := by
        intro i hi
        exact Nat.not_le.1 fun hle => h ⟨i, hi, hle⟩
      rw [Json.safeNumber_of_lt hlt]
      exact .digits hlt

theorem stored_array_iff {items : List Value} {j : Json} : Stored (.array items) j ↔
    ∃ docs, j = .array docs ∧ List.Forall₂ Stored (items.filter fun v => !v.isAbsent) docs := by
  constructor
  · intro hstored
    cases hstored with
    | array h => exact ⟨_, rfl, h⟩
  · rintro ⟨docs, rfl, h⟩
    exact .array h

theorem stored_object_iff {members : List (String × Value)} {j : Json} : Stored (.object members) j ↔
    ∃ docs, j = .object docs ∧ docs.map (·.1) = (members.filter fun m => !m.2.isAbsent).map (·.1) ∧
      List.Forall₂ Stored ((members.filter fun m => !m.2.isAbsent).map (·.2)) (docs.map (·.2)) := by
  constructor
  · intro hstored
    cases hstored with
    | object hkeys hdocs => exact ⟨_, rfl, hkeys, hdocs⟩
  · rintro ⟨docs, rfl, hkeys, hdocs⟩
    exact .object hkeys hdocs

theorem isAbsent_of_content {v : Value} {j : Json} (h : v.content = some j) : v.isAbsent = false := by
  cases v with
  | absent => cases h
  | _ => rfl

mutual

/-- **Contents**: the content of a value is the one document that is stored for it. -/
theorem content_eq_some_iff : ∀ (v : Value) (j : Json), v.content = some j ↔ Stored v j
  | .absent, _ => ⟨nofun, nofun⟩
  | .null, _ => ⟨fun h => Option.some.inj h ▸ .null, fun | .null => rfl⟩
  | .bool b, _ => ⟨fun h => Option.some.inj h ▸ .bool b, fun | .bool _ => rfl⟩
  | .number n, j => by rw [content, Option.some.injEq, stored_number_iff]
  | .string s, _ => ⟨fun h => Option.some.inj h ▸ .string s, fun | .string _ => rfl⟩
  | .link l, _ => ⟨fun h => Option.some.inj h ▸ .link l, fun | .link _ => rfl⟩
  | .array items, j => by
    rw [content, Option.some.injEq, stored_array_iff]
    constructor
    · rintro rfl
      exact ⟨_, rfl, (contentItems_eq_iff items _).1 rfl⟩
    · rintro ⟨docs, rfl, h⟩
      rw [(contentItems_eq_iff items docs).2 h]
  | .object members, j => by
    rw [content, Option.some.injEq, stored_object_iff]
    constructor
    · rintro rfl
      exact ⟨_, rfl, (contentMembers_eq_iff members _).1 rfl⟩
    · rintro ⟨docs, rfl, h⟩
      rw [(contentMembers_eq_iff members docs).2 h]

theorem contentItems_eq_iff : ∀ (items : List Value) (docs : List Json),
    contentItems items = docs ↔ List.Forall₂ Stored (items.filter fun v => !v.isAbsent) docs
  | [], docs => by simp [contentItems, eq_comm]
  | v :: vs, docs => by
    rw [contentItems]
    cases hv : v.content with
    | none =>
      obtain rfl := content_eq_none_iff.1 hv
      exact contentItems_eq_iff vs docs
    | some j =>
      have hstored : Stored v j := (content_eq_some_iff v j).1 hv
      rw [List.filter_cons_of_pos (by simp [isAbsent_of_content hv])]
      constructor
      · rintro rfl
        exact .cons hstored ((contentItems_eq_iff vs _).1 rfl)
      · rintro (_ | ⟨hj, hrest⟩)
        have hj := Option.some.inj (hv.symm.trans ((content_eq_some_iff v _).2 hj))
        rw [(contentItems_eq_iff vs _).2 hrest, hj]

theorem contentMembers_eq_iff : ∀ (members : List (String × Value)) (docs : List (String × Json)),
    contentMembers members = docs ↔ docs.map (·.1) = (members.filter fun m => !m.2.isAbsent).map (·.1) ∧
      List.Forall₂ Stored ((members.filter fun m => !m.2.isAbsent).map (·.2)) (docs.map (·.2))
  | [], docs => by
    constructor
    · rintro rfl
      exact ⟨rfl, .nil⟩
    · rintro ⟨hkeys, -⟩
      exact (List.map_eq_nil_iff.1 hkeys).symm
  | (k, v) :: ms, docs => by
    rw [contentMembers]
    cases hv : v.content with
    | none =>
      obtain rfl := content_eq_none_iff.1 hv
      exact contentMembers_eq_iff ms docs
    | some j =>
      have hstored : Stored v j := (content_eq_some_iff v j).1 hv
      rw [List.filter_cons_of_pos (by simp [isAbsent_of_content hv])]
      constructor
      · rintro rfl
        obtain ⟨hkeys, hdocs⟩ := (contentMembers_eq_iff ms _).1 rfl
        exact ⟨congrArg (k :: ·) hkeys, .cons hstored hdocs⟩
      · rintro ⟨hkeys, hdocs⟩
        obtain _ | ⟨⟨k', j'⟩, docs⟩ := docs
        · cases hkeys
        · obtain ⟨hk, hrest⟩ := List.cons.inj hkeys
          obtain _ | ⟨hj, hdocs⟩ := hdocs
          have hk : k' = k := hk
          have hj : j = j' := Option.some.inj (hv.symm.trans ((content_eq_some_iff v j').2 hj))
          rw [(contentMembers_eq_iff ms docs).2 ⟨hrest, hdocs⟩, hk, hj]

end

/-! ## Numbers of contents -/

theorem numbers_safeNumber (n : Number) : ∀ m ∈ (Json.safeNumber n).numbers, m.IsSafe := by
  have hstored : Stored (.number n) (Json.safeNumber n) := stored_number_iff.2 rfl
  generalize Json.safeNumber n = j at hstored
  cases hstored with
  | integer _ hle => exact List.forall_mem_singleton.2 ⟨_, rfl, hle⟩
  | digits _ => exact List.forall_mem_nil _

mutual

/-- All numbers in a content are safe integers. -/
theorem numbers_content : ∀ {v : Value} {j : Json}, v.content = some j → ∀ n ∈ j.numbers, n.IsSafe
  | .null, _, h | .bool _, _, h | .string _, _, h | .link _, _, h => by
    cases h
    exact List.forall_mem_nil _
  | .number n, _, h => by
    cases h
    exact numbers_safeNumber n
  | .array items, _, h => by
    cases h
    exact numbers_contentItems items
  | .object members, _, h => by
    cases h
    exact numbers_contentMembers members

theorem numbers_contentItems : ∀ items : List Value, ∀ n ∈ Json.numbersOfItems (contentItems items), n.IsSafe
  | [] => List.forall_mem_nil _
  | v :: vs => by
    rw [contentItems]
    cases hv : v.content with
    | none => exact numbers_contentItems vs
    | some j => exact List.forall_mem_append.2 ⟨numbers_content hv, numbers_contentItems vs⟩

theorem numbers_contentMembers : ∀ members : List (String × Value),
    ∀ n ∈ Json.numbersOfMembers (contentMembers members), n.IsSafe
  | [] => List.forall_mem_nil _
  | (_, v) :: ms => by
    rw [contentMembers]
    cases hv : v.content with
    | none => exact numbers_contentMembers ms
    | some j => exact List.forall_mem_append.2 ⟨numbers_content hv, numbers_contentMembers ms⟩

end

end Value

/-! ## Statements around a document -/

theorem Json.isBlank_of_isNumberChar {c : Char} (h : isNumberChar c) : Text.isBlank c = false := by
  simp only [isNumberChar, Bool.or_eq_true, beq_iff_eq] at h
  rcases h with ((((hdigit | rfl) | rfl) | rfl) | rfl) | rfl
  · exact isBlank_of_isNameChar (by simp [Text.isNameChar, Char.isAlphanum, hdigit])
  all_goals decide

/-- The text of a document starts with a character that is no blank. -/
theorem Json.text_toList : ∀ j : Json, ∃ c cs, j.text.toList = c :: cs ∧ Text.isBlank c = false
  | null => ⟨'n', _, rfl, rfl⟩
  | bool true => ⟨'t', _, rfl, rfl⟩
  | bool false => ⟨'f', _, rfl, rfl⟩
  | number n => by
    obtain ⟨hne, hchars⟩ := n.text_isNumberChar
    obtain ⟨c, cs, htext⟩ := List.exists_cons_of_ne_nil hne
    exact ⟨c, cs, htext, isBlank_of_isNumberChar (hchars c (htext ▸ List.mem_cons_self))⟩
  | string s => ⟨'"', _, by rw [text, Text.doubleQuoted, String.toList_ofList]; rfl, rfl⟩
  | array items => ⟨'[', _, by rw [text, String.toList_append, String.toList_append]; rfl, rfl⟩
  | object members => ⟨'\x7b', _, by rw [text, String.toList_append, String.toList_append]; rfl, rfl⟩

theorem Json.startsBlank_text (j : Json) : (Chunk.raw j.text).startsBlank = false := by
  obtain ⟨c, cs, htext, hc⟩ := j.text_toList
  have hempty : j.text.isEmpty = false := by
    rw [← Bool.not_eq_true, String.isEmpty_iff]
    intro h
    rw [h] at htext
    cases htext
  rw [Chunk.startsBlank, hempty, Text.startsBlank, htext]
  exact hc

/-- A document is set apart from a chunk before it that is a keyword or a name. -/
theorem Chunk.gap_json {c : Chunk} (j : Json) (hend : c.endsBlank = false) (hopen : c.opensUp = false) :
    c.gap [.raw j.text] = " " := by
  have hclose : (Chunk.raw j.text).closesUp = false := rfl
  have hparen : (Chunk.raw j.text).isOpenParen = false := rfl
  simp [Chunk.gap, Chunk.needsSpace, hend, hopen, j.startsBlank_text, hclose, hparen]

/-- The script of a fragment without bindings that ends with a document. -/
theorem script_json {f : Fragment} {c : Chunk} (hbindings : Fragment.bindings f = []) (hlast : f.getLast? = some c)
    (hend : c.endsBlank = false) (hopen : c.opensUp = false) (j : Json) :
    (Fragment.compile (f ++ Fragment.json j)).script = Fragment.written f ++ " " ++ j.text := by
  have hseam : Fragment.seam f [.raw j.text] = " " := by
    rw [Fragment.seam, hlast]
    exact Chunk.gap_json j hend hopen
  rw [Fragment.compile_eq, Statement.script, Fragment.json, Fragment.bindings_append, hbindings,
    Fragment.written_append, hseam]
  simp [Fragment.bindings, Chunk.bindings, Fragment.written, Chunk.written, Chunk.gap]

namespace Statements

/-- The written form of a target: the link of a record, or the name of the table. -/
def targetText (table : String) : Option String → String
  | some key => (Link.of table key).text
  | none => Text.identifier table

theorem script_create (table : String) (j : Json) :
    (create table j).compile.script = "CREATE " ++ Text.identifier table ++ " CONTENT " ++ j.text := by
  rw [create, script_json rfl rfl rfl rfl, Fragment.written_of_needsSpace rfl, Fragment.written_of_needsSpace rfl,
    Fragment.written_singleton]
  simp only [String.append_assoc]
  rfl

theorem script_insert (table : String) (j : Json) :
    (insert table j).compile.script = "INSERT INTO " ++ Text.identifier table ++ " " ++ j.text := by
  rw [insert, script_json rfl rfl rfl rfl, Fragment.written_of_needsSpace rfl, Fragment.written_of_needsSpace rfl,
    Fragment.written_singleton]
  simp only [String.append_assoc]
  rfl

theorem script_update (table : String) (key : Option String) (mode : UpdateMode) (j : Json) :
    (update (target table key) mode j).compile.script =
      "UPDATE " ++ targetText table key ++ (" " ++ mode.keyword.text ++ " ") ++ j.text := by
  have hscript (c : Chunk) (hbindings : c.bindings = []) (hlead : (Chunk.keyword .update).needsSpace c = true)
      (hmode : c.needsSpace (.keyword mode.keyword) = true) :
      (Fragment.compile ([.keyword .update, c, .keyword mode.keyword] ++ Fragment.json j)).script =
        "UPDATE " ++ c.written ++ (" " ++ mode.keyword.text ++ " ") ++ j.text := by
    have hnone : Fragment.bindings [.keyword .update, c, .keyword mode.keyword] = [] := by
      simp [Fragment.bindings, hbindings, Chunk.keyword, Chunk.bindings]
    rw [script_json hnone rfl rfl rfl, Fragment.written_of_needsSpace hlead, Fragment.written_of_needsSpace hmode,
      Fragment.written_singleton]
    simp only [String.append_assoc]
    rfl
  cases key with
  | none => exact hscript (.ident table) rfl rfl rfl
  | some key => exact hscript (.value (.link (.of table key))) rfl rfl rfl

end Statements

/-! ## Operations that write a value -/

/-- An operation that writes a value. -/
inductive Write
  | create | insert | update | merge
deriving DecidableEq, Repr

namespace Write

/-- The operation on the table of a model, or on a record of it for an operation that takes a key. -/
def exchange (s : Session) (m : Model) (key : Option String) (v : Value) : Write → Exchange Rows
  | create => s.create m v
  | insert => s.insert m v
  | update => s.update m key v
  | merge => s.merge m key v

/-- The statement that writes a document. -/
def statement (table : String) (key : Option String) (j : Json) : Write → Fragment
  | create => Statements.create table j
  | insert => Statements.insert table j
  | update => Statements.update (Statements.target table key) .content j
  | merge => Statements.update (Statements.target table key) .merge j

/-- The statement that writes a document with a text, as it is sent. -/
def text (table : String) (key : Option String) (document : String) : Write → String
  | create => "CREATE " ++ Text.identifier table ++ " CONTENT " ++ document
  | insert => "INSERT INTO " ++ Text.identifier table ++ " " ++ document
  | update => "UPDATE " ++ Statements.targetText table key ++ " CONTENT " ++ document
  | merge => "UPDATE " ++ Statements.targetText table key ++ " MERGE " ++ document

/-- There is something to write: the value is there, and an array to be inserted has an item that is. -/
def Sends (v : Value) : Write → Prop
  | insert => v ≠ .absent ∧ ∀ items, v = .array items → ∃ item ∈ items, item ≠ .absent
  | _ => v ≠ .absent

end Write

theorem Value.isAbsent_iff {v : Value} : v.isAbsent ↔ v = .absent := by
  cases v <;> simp [isAbsent]

/-- Only an array without any item that is there has the empty array as its content. -/
theorem Value.content_eq_array_nil_iff {v : Value} :
    v.content = some (.array []) ↔ ∃ items, v = .array items ∧ ∀ item ∈ items, item = .absent := by
  have hnone (items : List Value) : (items.filter fun v => !v.isAbsent) = [] ↔ ∀ item ∈ items, item = .absent := by
    simp [List.filter_eq_nil_iff, isAbsent_iff]
  rw [content_eq_some_iff]
  constructor
  · intro hstored
    cases hstored with
    | array h => exact ⟨_, rfl, (hnone _).1 (List.forall₂_nil_right_iff.1 h)⟩
  · rintro ⟨items, rfl, hitems⟩
    exact .array (List.forall₂_nil_right_iff.2 ((hnone items).2 hitems))

theorem Write.sends_insert_iff {v : Value} :
    insert.Sends v ↔ v ≠ .absent ∧ v.content ≠ some (.array []) := by
  simp [Sends, Value.content_eq_array_nil_iff]

theorem Session.insert_eq_raw {s : Session} {m : Model} {v : Value} {j : Json} (hv : v.content = some j)
    (hne : j ≠ .array []) : s.insert m v = raw (Statements.insert (s.table m).name j).compile := by
  rw [insert, hv]
  split
  · next h => cases h
  · next h => exact absurd (Option.some.inj h) hne
  · next h => rw [Option.some.inj h]

theorem Session.write_eq_raw {s : Session} {m : Model} {key : Option String} {mode : Statements.UpdateMode} {v : Value}
    {j : Json} (hv : v.content = some j) :
    s.write m key mode v = raw (Statements.update (Statements.target (s.table m).name key) mode j).compile := by
  rw [write, hv]

namespace Write

variable {v : Value} {w : Write}

theorem script_statement (table : String) (key : Option String) (j : Json) (w : Write) :
    (w.statement table key j).compile.script = w.text table key j.text := by
  cases w with
  | create => exact Statements.script_create table j
  | insert => exact Statements.script_insert table j
  | update => exact Statements.script_update table key .content j
  | merge => exact Statements.script_update table key .merge j

theorem not_sends_iff : ¬ w.Sends v ↔
    v = .absent ∨ w = insert ∧ ∃ items, v = .array items ∧ ∀ item ∈ items, item = .absent := by
  cases w with
  | insert =>
    rw [sends_insert_iff, not_and_or, not_not, not_not, Value.content_eq_array_nil_iff]
    simp
  | _ => simp [Sends]

/-- Where there is something to write, one statement around the content of the value is sent. -/
theorem exchange_eq_raw (h : w.Sends v) (s : Session) (m : Model) (key : Option String) :
    ∃ j, v.content = some j ∧ w.exchange s m key v = Session.raw (w.statement (s.table m).name key j).compile := by
  cases hv : v.content with
  | none =>
    obtain rfl := Value.content_eq_none_iff.1 hv
    exact absurd h (not_sends_iff.2 (.inl rfl))
  | some j =>
    refine ⟨j, rfl, ?_⟩
    cases w with
    | create => rw [exchange, Session.create, hv, statement]
    | insert =>
      have hne : j ≠ .array [] := by
        rintro rfl
        exact (sends_insert_iff.1 h).2 hv
      exact Session.insert_eq_raw hv hne
    | update => exact Session.write_eq_raw hv
    | merge => exact Session.write_eq_raw hv

/-- What an operation sends for a value: nothing, or one statement around its content. -/
theorem requests_exchange {σ : Type} (conn : Connection σ) (state : σ) (s : Session) (m : Model)
    (key : Option String) (v : Value) (w : Write) :
    (¬ w.Sends v ∧ (w.exchange s m key v).requests conn state = []) ∨
    (w.Sends v ∧ ∃ j, v.content = some j ∧
      (w.exchange s m key v).requests conn state = [.query (w.text (s.table m).name key j.text)]) := by
  by_cases h : w.Sends v
  · obtain ⟨j, hv, hraw⟩ := exchange_eq_raw h s m key
    exact .inr ⟨h, j, hv, by rw [hraw, Session.requests_raw, script_statement]⟩
  · refine .inl ⟨h, ?_⟩
    rcases not_sends_iff.1 h with rfl | ⟨rfl, items, rfl, hitems⟩
    · cases w <;> rfl
    · rw [exchange, Session.insert, Value.content_eq_array_nil_iff.2 ⟨items, rfl, hitems⟩]
      rfl

end Write

/-- **Payloads**: whatever the table, the key and the value, an operation that writes a value sends nothing where there
is nothing to write, and otherwise one statement of a fixed form around the text of a document; the document is the
content of the value and the only one that is stored for it, and all numbers in it are safe integers. -/
theorem payloads_stored {σ : Type} (conn : Connection σ) (state : σ) (s : Session) (m : Model) (key : Option String)
    (v : Value) (w : Write) :
    (¬ w.Sends v ∧ (w.exchange s m key v).requests conn state = []) ∨
    (w.Sends v ∧ ∃ j,
      (w.exchange s m key v).requests conn state = [.query (w.text (s.table m).name key j.text)] ∧
      v.content = some j ∧ (∀ doc, v.Stored doc ↔ doc = j) ∧ ∀ n ∈ j.numbers, n.IsSafe) := by
  rcases Write.requests_exchange conn state s m key v w with hnone | ⟨hsends, j, hv, hrequests⟩
  · exact .inl hnone
  · refine .inr ⟨hsends, j, hrequests, hv, fun doc => ?_, Value.numbers_content hv⟩
    rw [← Value.content_eq_some_iff, hv, Option.some.injEq, eq_comm]

-- A link is its text, a number that is not safe is a string, and what is absent is left out of arrays and objects.
example : (Value.object [("age", .int 9007199254740992), ("friends", .array [.absent, .link ⟨"user", "tobie"⟩]),
    ("nick", .absent), ("rank", .int 3)]).content.map Json.text =
      some "\x7b\"age\":\"9007199254740992\",\"friends\":[\"user:tobie\"],\"rank\":3\x7d" := by
  decide +kernel

end GraphQuery
