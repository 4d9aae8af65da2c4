import GraphQuery.Proofs.JsonString
import GraphQuery.Proofs.Names
import GraphQuery.Proofs.NumberText
import GraphQuery.Value.Literal

/-!
# Literals are unambiguous

Two values without record links have the same literal exactly when they are the same value once the members that are
absent are left out at every level (`literal_eq_iff`). A literal is read from the left: its first characters tell what
kind of value it is (`Value.readKind_literal`), and with any text behind it that does not add to a number, it determines
the value up to absent members and the text (`Value.Determined`). A list of texts with commas between them, and a
closing mark behind them, determines what its texts determine (`joined_inj`).
-/

namespace GraphQuery

namespace Value

mutual

/-- There is no record link in the value. -/
def linkFree : Value → Bool
  | link _ => false
  | array items => linkFreeItems items
  | object members => linkFreeMembers members
  | _ => true

/-- There is no record link in the items. -/
def linkFreeItems : List Value → Bool
  | [] => true
  | v :: vs => v.linkFree && linkFreeItems vs

/-- There is no record link in the members. -/
def linkFreeMembers : List (String × Value) → Bool
  | [] => true
  | (_, v) :: ms => v.linkFree && linkFreeMembers ms

end

mutual

/-- The value without the members that are absent, at every level. -/
def present : Value → Value
  | array items => array (presentItems items)
  | object members => object (presentMembers members)
  | v => v

/-- The items, each without the members that are absent. -/
def presentItems : List Value → List Value
  | [] => []
  | v :: vs => v.present :: presentItems vs

/-- The members that are there, each without the members that are absent. -/
def presentMembers : List (String × Value) → List (String × Value)
  | [] => []
  | (k, v) :: ms => if v.isAbsent then presentMembers ms else (k, v.present) :: presentMembers ms

end

/-! ## Members that are there -/

/-- The members that are there. -/
def there (members : List (String × Value)) : List (String × Value) := members.filter (!·.2.isAbsent)

/-- The literal of a member: the key, a colon and the value. -/
def memberLiteral (member : String × Value) : String := Text.doubleQuoted member.1 ++ ":" ++ member.2.literal

theorem memberLiteral_append (m : String × Value) (t : List Char) : (memberLiteral m).toList ++ t =
    Text.doubleQuotedChars m.1.toList ++ ':' :: (m.2.literal.toList ++ t) := by
  simp [memberLiteral, Text.doubleQuoted]

/-- No member starts with the brace that closes an object. -/
theorem head?_memberLiteral_ne (m : String × Value) (cs : List Char) :
    ((memberLiteral m).toList ++ cs).head? ≠ some '\x7d' := by
  rw [memberLiteral_append]
  nofun

theorem literalItems_eq (items : List Value) : literalItems items = items.map literal := by
  induction items with
  | nil => rfl
  | cons v vs ih => rw [literalItems, ih, List.map_cons]

theorem presentItems_eq (items : List Value) : presentItems items = items.map present := by
  induction items with
  | nil => rfl
  | cons v vs ih => rw [presentItems, ih, List.map_cons]

theorem literalMembers_eq (members : List (String × Value)) :
    literalMembers members = (there members).map memberLiteral := by
  induction members with
  | nil => rfl
  | cons m ms ih =>
    obtain ⟨k, v⟩ := m
    by_cases h : v.isAbsent <;> simp [literalMembers, there, h, ih, memberLiteral]

theorem presentMembers_eq (members : List (String × Value)) :
    presentMembers members = (there members).map fun m => (m.1, m.2.present) := by
  induction members with
  | nil => rfl
  | cons m ms ih =>
    obtain ⟨k, v⟩ := m
    by_cases h : v.isAbsent <;> simp [presentMembers, there, h, ih]

/-! ## Kinds of values -/

/-- The kinds of values that a reader tells apart by the start of a literal. -/
inductive Kind
  | absent
  | null
  | bool (b : Bool)
  | number
  | string
  | link
  | array
  | object

/-- The kind of a value. -/
def kind : Value → Kind
  | absent => .absent
  | null => .null
  | bool b => .bool b
  | number _ => .number
  | string _ => .string
  | link _ => .link
  | array _ => .array
  | object _ => .object

/-- The kind of literal that a text starts with. -/
def readKind : List Char → Kind
  | [] => .number
  | c :: cs =>
    if c = 'N' then if cs.head? = some 'O' then .absent else .null
    else if c = 't' then .bool true
    else if c = 'f' then .bool false
    else if c = '"' then .string
    else if c = '[' then .array
    else if c = '\x7b' then .object
    else .number

theorem literal_array_toList (items : List Value) : (array items).literal.toList =
    '[' :: ([','].intercalate (items.map fun v => v.literal.toList) ++ [']']) := by
  rw [literal, literalItems_eq, String.toList_append, String.toList_append, String.toList_intercalate, List.map_map]
  rfl

theorem literal_object_toList (members : List (String × Value)) : (object members).literal.toList =
    '\x7b' :: ([','].intercalate ((there members).map fun m => (memberLiteral m).toList) ++ ['\x7d']) := by
  rw [literal, literalMembers_eq, String.toList_append, String.toList_append, String.toList_intercalate, List.map_map]
  rfl

theorem literal_string_toList (s : String) : (string s).literal.toList = Text.doubleQuotedChars s.toList := by
  rw [literal, Text.doubleQuoted, String.toList_ofList]

/-- The literal of a number starts with a number character. -/
theorem literal_number_toList (n : Number) : ∃ c cs, (number n).literal.toList = c :: cs ∧ Json.isNumberChar c := by
  obtain ⟨hne, hchars⟩ := n.text_isNumberChar
  rw [literal]
  cases hn : n.text.toList with
  | nil => exact absurd hn hne
  | cons c cs => exact ⟨c, cs, rfl, hchars c (hn ▸ List.mem_cons_self)⟩

theorem readKind_literal {v : Value} (hv : v.linkFree) (t : List Char) : readKind (v.literal.toList ++ t) = v.kind := by
  cases v with
  | absent => rfl
  | null => rfl
  | bool b => cases b <;> rfl
  | number n =>
    obtain ⟨c, cs, hn, hc⟩ := literal_number_toList n
    have hne : ∀ d, Json.isNumberChar d = false → c ≠ d := fun d hd => ne_of_class hc hd
    rw [hn, List.cons_append, readKind, if_neg (hne 'N' rfl), if_neg (hne 't' rfl), if_neg (hne 'f' rfl),
      if_neg (hne '"' rfl), if_neg (hne '[' rfl), if_neg (hne '\x7b' rfl)]
    rfl
  | string s =>
    rw [literal_string_toList]
    rfl
  | link l => cases hv
  | array items =>
    rw [literal_array_toList]
    rfl
  | object members =>
    rw [literal_object_toList]
    rfl

/-! ## Texts with commas between them -/

/-- What may stand behind a literal: nothing that would add to a number. -/
abbrev Closes (t : List Char) : Prop := Text.Ends Json.isNumberChar t

section Joined

variable {α β : Type} (write : α → List Char) (close : Char)

/-- Elements with commas between them, with a closing mark and a text behind them. -/
def joined (as : List α) (t : List Char) : List Char := [','].intercalate (as.map write) ++ close :: t

/-- What stands behind an element: a comma and further elements, or the closing mark. -/
def behind (as : List α) (t : List Char) : List Char :=
  if as.isEmpty then close :: t else ',' :: joined write close as t

variable {write close} {as bs : List α} {t u : List Char}

theorem joined_cons (a : α) (as : List α) (t : List Char) :
    joined write close (a :: as) t = write a ++ behind write close as t := by
  cases as with
  | nil => simp [joined, behind]
  | cons b bs => simp [joined, behind, List.intercalate_cons_cons]

theorem closes_behind (hclose : Json.isNumberChar close = false) (as : List α) (t : List Char) :
    Closes (behind write close as t) := by
  intro c hc
  cases as with
  | nil =>
    cases hc
    exact hclose
  | cons a as =>
    cases hc
    rfl

/-- If each element determines its view and what stands behind it, and none starts with the closing mark, then the list
determines the views of its elements and what stands behind the mark. -/
theorem joined_inj {view : α → β} (hcomma : close ≠ ',') (hclose : Json.isNumberChar close = false)
    (hstart : ∀ a, a ∈ as ∨ a ∈ bs → ∀ cs, (write a ++ cs).head? ≠ some close)
    (hdet : ∀ a ∈ as, ∀ b ∈ bs, ∀ t u, Closes t → Closes u → write a ++ t = write b ++ u → view a = view b ∧ t = u)
    (h : joined write close as t = joined write close bs u) : as.map view = bs.map view ∧ t = u := by
  induction as generalizing bs with
  | nil =>
    cases bs with
    | nil => exact ⟨rfl, List.tail_eq_of_cons_eq h⟩
    | cons b bs =>
      rw [joined_cons] at h
      exact absurd (congrArg List.head? h).symm (hstart b (.inr List.mem_cons_self) _)
  | cons a as ih =>
    cases bs with
    | nil =>
      rw [joined_cons] at h
      exact absurd (congrArg List.head? h) (hstart a (.inl List.mem_cons_self) _)
    | cons b bs =>
      rw [joined_cons, joined_cons] at h
      obtain ⟨hview, hbehind⟩ := hdet a List.mem_cons_self b List.mem_cons_self _ _ (closes_behind hclose as t)
        (closes_behind hclose bs u) h
      have hrest : as.map view = bs.map view ∧ t = u := by
        cases as with
        | nil =>
          cases bs with
          | nil => exact ⟨rfl, List.tail_eq_of_cons_eq hbehind⟩
          | cons b' bs => exact absurd (List.head_eq_of_cons_eq hbehind) hcomma
        | cons a' as =>
          cases bs with
          | nil => exact absurd (List.head_eq_of_cons_eq hbehind).symm hcomma
          | cons b' bs =>
            refine ih (fun c hc => hstart c (hc.imp (List.mem_cons_of_mem _) (List.mem_cons_of_mem _)))
              (fun c hc d hd => hdet c (List.mem_cons_of_mem _ hc) d (List.mem_cons_of_mem _ hd))
              (List.tail_eq_of_cons_eq hbehind)
      exact ⟨by rw [List.map_cons, List.map_cons, hview, hrest.1], hrest.2⟩

end Joined

/-! ## Reading literals -/

/-- With a text behind it that may stand there, the literal determines the value up to absent members, and the text. -/
def Determined (v : Value) : Prop := ∀ (w : Value) (t u : List Char), w.linkFree → Closes t → Closes u →
  v.literal.toList ++ t = w.literal.toList ++ u → v.present = w.present ∧ t = u

theorem linkFree_of_mem_items {items : List Value} (h : linkFreeItems items) : ∀ v ∈ items, v.linkFree := by
  induction items with
  | nil => exact nofun
  | cons v vs ih =>
    obtain ⟨hv, hvs⟩ := Bool.and_eq_true_iff.1 h
    exact List.forall_mem_cons.2 ⟨hv, ih hvs⟩

theorem linkFree_of_mem_members {members : List (String × Value)} (h : linkFreeMembers members) :
    ∀ m ∈ members, m.2.linkFree := by
  induction members with
  | nil => exact nofun
  | cons m ms ih =>
    obtain ⟨hm, hms⟩ := Bool.and_eq_true_iff.1 h
    exact List.forall_mem_cons.2 ⟨hm, ih hms⟩

/-- Equal literals are of one kind, whatever stands behind them. -/
theorem kind_eq {v w : Value} {t u : List Char} (hv : v.linkFree) (hw : w.linkFree)
    (h : v.literal.toList ++ t = w.literal.toList ++ u) : v.kind = w.kind := by
  rw [← readKind_literal hv t, h, readKind_literal hw u]

/-- No literal starts with the bracket that closes an array. -/
theorem head?_literal_ne {v : Value} (hv : v.linkFree) (cs : List Char) :
    (v.literal.toList ++ cs).head? ≠ some ']' := by
  intro h
  obtain ⟨rest, hrest⟩ : ∃ rest, v.literal.toList ++ cs = ']' :: rest := List.head?_eq_some_iff.1 h
  have hk : Kind.number = v.kind := by
    rw [← readKind_literal hv cs, hrest]
    rfl
  cases v with
  | number n =>
    obtain ⟨c, rest', hn, hc⟩ := literal_number_toList n
    rw [hn, List.cons_append, List.cons.injEq] at hrest
    exact ne_of_class hc rfl hrest.1
  | _ => nomatch hk

theorem number_determined (n : Number) : (number n).Determined := by
  intro w t u hw ht hu h
  have hk := kind_eq rfl hw h
  cases w with
  | number m =>
    rw [literal, literal] at h
    obtain ⟨-, hn⟩ := n.text_isNumberChar
    obtain ⟨-, hm⟩ := m.text_isNumberChar
    -- The text of a number is all the number characters up to what stands behind it.
    have htext : n.text.toList = m.text.toList := by
      rw [← (Text.span_append hn ht).1, h, (Text.span_append hm hu).1]
    have hrest : t = u := by
      rw [← (Text.span_append hn ht).2, h, (Text.span_append hm hu).2]
    rw [Number.text_injective (String.toList_inj.1 htext)]
    exact ⟨rfl, hrest⟩
  | _ => nomatch hk

theorem string_determined (s : String) : (string s).Determined := by
  intro w t u hw _ _ h
  have hk := kind_eq rfl hw h
  cases w with
  | string s' =>
    rw [literal_string_toList, literal_string_toList] at h
    obtain ⟨hs, hrest⟩ := doubleQuotedChars_append_inj h
    rw [String.toList_inj.1 hs]
    exact ⟨rfl, hrest⟩
  | _ => nomatch hk

theorem array_determined {items : List Value} (hitems : linkFreeItems items) (hdet : ∀ v ∈ items, v.Determined) :
    (array items).Determined := by
  intro w t u hw ht hu h
  have hk := kind_eq (v := array items) hitems hw h
  cases w with
  | array items' =>
    have hfree := linkFree_of_mem_items hitems
    have hfree' := linkFree_of_mem_items hw
    have hjoined : joined (fun v : Value => v.literal.toList) ']' items t =
        joined (fun v : Value => v.literal.toList) ']' items' u := by
      rw [literal_array_toList, literal_array_toList] at h
      simpa [joined] using h
    obtain ⟨hpresent, hrest⟩ : items.map present = items'.map present ∧ t = u := joined_inj (by decide) rfl
      (fun v hv => head?_literal_ne (hv.elim (hfree v) (hfree' v)))
      (fun v hv w hw t u => hdet v hv w t u (hfree' w hw)) hjoined
    rw [present, present, presentItems_eq, presentItems_eq, hpresent]
    exact ⟨rfl, hrest⟩
  | _ => nomatch hk

/-- The literal of a member determines its key, its value and what stands behind it. -/
theorem member_determined {m m' : String × Value} {t u : List Char} (hdet : m.2.Determined) (hfree : m'.2.linkFree)
    (ht : Closes t) (hu : Closes u) (h : (memberLiteral m).toList ++ t = (memberLiteral m').toList ++ u) :
    (m.1, m.2.present) = (m'.1, m'.2.present) ∧ t = u := by
  rw [memberLiteral_append, memberLiteral_append] at h
  obtain ⟨hkey, hvalue⟩ := doubleQuotedChars_append_inj h
  obtain ⟨hpresent, hrest⟩ := hdet m'.2 t u hfree ht hu (List.tail_eq_of_cons_eq hvalue)
  rw [String.toList_inj.1 hkey, hpresent]
  exact ⟨rfl, hrest⟩

theorem object_determined {members : List (String × Value)} (hmembers : linkFreeMembers members)
    (hdet : ∀ m ∈ members, m.2.Determined) : (object members).Determined := by
  intro w t u hw ht hu h
  have hk := kind_eq (v := object members) hmembers hw h
  cases w with
  | object members' =>
    have hfree' := linkFree_of_mem_members hw
    have hjoined : joined (fun m => (memberLiteral m).toList) '\x7d' (there members) t =
        joined (fun m => (memberLiteral m).toList) '\x7d' (there members') u := by
      rw [literal_object_toList, literal_object_toList] at h
      simpa [joined] using h
    have hmember : ∀ m ∈ there members, ∀ m' ∈ there members', ∀ t u, Closes t → Closes u →
        (memberLiteral m).toList ++ t = (memberLiteral m').toList ++ u →
        (m.1, m.2.present) = (m'.1, m'.2.present) ∧ t = u := fun m hm m' hm' _ _ =>
      member_determined (hdet m (List.mem_filter.1 hm).1) (hfree' m' (List.mem_filter.1 hm').1)
    obtain ⟨hpresent, hrest⟩ := joined_inj (by decide) rfl
      (fun m _ => head?_memberLiteral_ne m) hmember hjoined
    rw [present, present, presentMembers_eq, presentMembers_eq, hpresent]
    exact ⟨rfl, hrest⟩
  | _ => nomatch hk

/-- The only value of its kind is determined. -/
theorem determined_of_kind {v : Value} (hv : v.linkFree) (honly : ∀ w : Value, v.kind = w.kind → w = v) :
    v.Determined := by
  intro w t u hw _ _ h
  obtain rfl := honly w (kind_eq hv hw h)
  exact ⟨rfl, List.append_cancel_left h⟩

mutual

/-- Every value without links is determined. -/
theorem determined : ∀ {v : Value}, v.linkFree → v.Determined
  | .absent, hv => determined_of_kind hv fun w hk => by
    cases w with
    | absent => rfl
    | _ => nomatch hk
  | .null, hv => determined_of_kind hv fun w hk => by
    cases w with
    | null => rfl
    | _ => nomatch hk
  | .bool b, hv => determined_of_kind hv fun w hk => by
    cases w with
    | bool b' =>
      cases hk
      rfl
    | _ => nomatch hk
  | .number n, _ => number_determined n
  | .string s, _ => string_determined s
  | .array _, hv => array_determined hv (determinedItems hv)
  | .object _, hv => object_determined hv (determinedMembers hv)

theorem determinedItems : ∀ {items : List Value}, linkFreeItems items → ∀ v ∈ items, v.Determined
  | [], _ => nofun
  | _ :: _, h => List.forall_mem_cons.2
    ⟨determined (Bool.and_eq_true_iff.1 h).1, determinedItems (Bool.and_eq_true_iff.1 h).2⟩

theorem determinedMembers : ∀ {members : List (String × Value)}, linkFreeMembers members →
    ∀ m ∈ members, m.2.Determined
  | [], _ => nofun
  | _ :: _, h => List.forall_mem_cons.2
    ⟨determined (Bool.and_eq_true_iff.1 h).1, determinedMembers (Bool.and_eq_true_iff.1 h).2⟩

end

/-! ## Absent members are not written -/

theorem isAbsent_present (v : Value) : v.present.isAbsent = v.isAbsent := by
  cases v <;> rfl

mutual

/-- A literal does not tell whether a member is absent or was left out. -/
theorem literal_present : ∀ v : Value, v.present.literal = v.literal
  | .absent | .null | .bool _ | .number _ | .string _ | .link _ => rfl
  | .array items => by rw [present, literal, literal, literalItems_present items]
  | .object members => by rw [present, literal, literal, literalMembers_present members]

theorem literalItems_present : ∀ items : List Value, literalItems (presentItems items) = literalItems items
  | [] => rfl
  | v :: vs => by rw [presentItems, literalItems, literalItems, literal_present v, literalItems_present vs]

theorem literalMembers_present : ∀ members : List (String × Value),
    literalMembers (presentMembers members) = literalMembers members
  | [] => rfl
  | (k, v) :: ms => by
    rw [presentMembers, literalMembers]
    split
    · exact literalMembers_present ms
    · next h => rw [literalMembers, isAbsent_present, if_neg h, literal_present v, literalMembers_present ms]

end

end Value

/-- **Literals are unambiguous**: two values without record links have the same literal exactly when they are the same
value once the absent members are left out. -/
theorem literal_eq_iff {v w : Value} (hv : v.linkFree) (hw : w.linkFree) :
    v.literal = w.literal ↔ v.present = w.present := by
  constructor
  · intro h
    have hchars : v.literal.toList ++ [] = w.literal.toList ++ [] := by rw [h]
    exact (Value.determined hv w [] [] hw nofun nofun hchars).1
  · intro h
    rw [← Value.literal_present v, h, Value.literal_present w]

/-- An absent member is not written, and a member that is null is; an absent item of an array is written. -/
theorem absent_members_not_written :
    let written : Value := .object [("a", .absent), ("b", .array [.absent, .number (.int 1)])]
    let short : Value := .object [("b", .array [.absent, .number (.int 1)])]
    let nulled : Value := .object [("a", .null), ("b", .array [.absent, .number (.int 1)])]
    written.literal = short.literal ∧ written.literal ≠ nulled.literal :=
  ⟨(literal_eq_iff rfl rfl).2 rfl, fun h => absurd ((literal_eq_iff rfl rfl).1 h) (by simp [Value.present,
    Value.presentMembers, Value.isAbsent])⟩

end GraphQuery
