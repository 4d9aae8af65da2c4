import GraphQuery.Proofs.Requests
import Mathlib.Data.List.Forall2

/-!
# Decoded rows

Rows are decoded exactly when each of them is, one decoded row for each row and in the same order
(`Rows.decode_eq_ok_iff`); otherwise the first row that cannot be decoded says why (`Rows.decode_eq_error_iff`). The first
row is that of the decoded rows, and so it is not found where a later row cannot be decoded: what is found is what the
first row by itself says exactly when the rows behind a first row that can be decoded can be decoded too
(`first_row_alone_iff`).
-/

namespace GraphQuery

/-! ## Steps that may fail -/

section Steps

variable {ε α β : Type} {f : α → Except ε β}

theorem mapM_cons_eq (a : α) (as : List α) :
    (a :: as).mapM f = (f a).bind fun b => (as.mapM f).map fun bs => b :: bs := by
  rw [List.mapM_cons]
  cases f a with
  | error e => rfl
  | ok b => cases as.mapM f <;> rfl

/-- The steps give results exactly when each step gives its own. -/
theorem mapM_eq_ok_iff {as : List α} {bs : List β} :
    as.mapM f = .ok bs ↔ List.Forall₂ (fun a b => f a = .ok b) as bs := by
  induction as generalizing bs with
  | nil =>
    rw [List.mapM_nil, List.forall₂_nil_left_iff]
    exact ⟨fun h => (Except.ok.inj h).symm, fun h => congrArg Except.ok h.symm⟩
  | cons a as ih =>
    rw [mapM_cons_eq, bind_eq_ok_iff, List.forall₂_cons_left_iff]
    constructor
    · rintro ⟨b, hb, hrest⟩
      obtain ⟨bs, hbs, rfl⟩ := map_eq_ok_iff.1 hrest
      exact ⟨b, bs, hb, ih.1 hbs, rfl⟩
    · rintro ⟨b, bs, hb, hbs, rfl⟩
      exact ⟨b, hb, map_eq_ok_iff.2 ⟨bs, ih.2 hbs, rfl⟩⟩

/-- The steps fail exactly when one of them fails behind steps that do not, and they fail as it does. -/
theorem mapM_eq_error_iff {as : List α} {e : ε} : as.mapM f = .error e ↔
    ∃ before a after, as = before ++ a :: after ∧ (∀ b ∈ before, ∃ c, f b = .ok c) ∧ f a = .error e := by
  induction as with
  | nil => simp [pure, Except.pure]
  | cons a as ih =>
    rw [mapM_cons_eq, bind_eq_error_iff]
    constructor
    · rintro (ha | ⟨b, hb, hrest⟩)
      · exact ⟨[], a, as, rfl, List.forall_mem_nil _, ha⟩
      · obtain ⟨before, a', after, rfl, hbefore, ha'⟩ := ih.1 (map_eq_error_iff.1 hrest)
        exact ⟨a :: before, a', after, rfl, List.forall_mem_cons.2 ⟨⟨b, hb⟩, hbefore⟩, ha'⟩
    · rintro ⟨before, a', after, hsplit, hbefore, ha'⟩
      cases before with
      | nil =>
        cases hsplit
        exact .inl ha'
      | cons b before =>
        cases hsplit
        obtain ⟨⟨c, hc⟩, hbefore⟩ := List.forall_mem_cons.1 hbefore
        exact .inr ⟨c, hc, map_eq_error_iff.2 (ih.2 ⟨before, a', after, rfl, hbefore, ha'⟩)⟩

theorem exists_forall₂_iff {R : α → β → Prop} {as : List α} :
    (∃ bs, List.Forall₂ R as bs) ↔ ∀ a ∈ as, ∃ b, R a b := by
  induction as with
  | nil => exact ⟨fun _ => List.forall_mem_nil _, fun _ => ⟨[], .nil⟩⟩
  | cons a as ih =>
    rw [List.forall_mem_cons, ← ih]
    constructor
    · rintro ⟨_, _ | ⟨hb, hbs⟩⟩
      exact ⟨⟨_, hb⟩, _, hbs⟩
    · rintro ⟨⟨b, hb⟩, bs, hbs⟩
      exact ⟨b :: bs, .cons hb hbs⟩

end Steps

namespace Rows

variable {α : Type} {d : Decoder α} {r : Rows}

/-! ## All rows -/

theorem decode_eq_ok_iff {as : List α} : r.decode d = .ok as ↔ List.Forall₂ (fun row a => d row = .ok a) r.toList as := by
  rw [← mapM_eq_ok_iff, decode]
  cases r.toList.mapM d <;> simp [Except.mapError]

theorem decode_eq_error_iff {err : QueryError} : r.decode d = .error err ↔
    ∃ before row after cause, r.toList = before ++ row :: after ∧ (∀ row' ∈ before, ∃ a, d row' = .ok a) ∧
      d row = .error cause ∧ err = .mapping cause := by
  rw [decode, mapError_eq_error_iff]
  constructor
  · rintro ⟨cause, hcause, rfl⟩
    obtain ⟨before, row, after, hrows, hbefore, hrow⟩ := mapM_eq_error_iff.1 hcause
    exact ⟨before, row, after, cause, hrows, hbefore, hrow, rfl⟩
  · rintro ⟨before, row, after, cause, hrows, hbefore, hrow, rfl⟩
    exact ⟨cause, mapM_eq_error_iff.2 ⟨before, row, after, hrows, hbefore, hrow⟩, rfl⟩

/-- Rows are decoded exactly when each of them is. -/
theorem exists_decode_iff : (∃ as, r.decode d = .ok as) ↔ ∀ row ∈ r.toList, ∃ a, d row = .ok a := by
  simp only [decode_eq_ok_iff, exists_forall₂_iff]

/-- There are as many decoded rows as there are rows. -/
theorem length_decode {as : List α} (h : r.decode d = .ok as) : as.length = r.length := by
  rw [← r.length_toList, (decode_eq_ok_iff.1 h).length_eq]

/-! ## The first row -/

theorem first_eq_none_iff : r.first d = .ok none ↔ r.length = 0 := by
  rw [first, map_eq_ok_iff, ← r.length_toList, List.length_eq_zero_iff]
  constructor
  · rintro ⟨as, has, hhead⟩
    obtain rfl := List.head?_eq_none_iff.1 hhead
    exact List.forall₂_nil_right_iff.1 (decode_eq_ok_iff.1 has)
  · intro h
    refine ⟨[], decode_eq_ok_iff.2 ?_, rfl⟩
    rw [h]
    exact .nil

theorem first_eq_some_iff {a : α} : r.first d = .ok (some a) ↔
    ∃ row rest, r.toList = row :: rest ∧ d row = .ok a ∧ ∀ row' ∈ rest, ∃ a', d row' = .ok a' := by
  rw [first, map_eq_ok_iff]
  constructor
  · rintro ⟨as, has, hhead⟩
    obtain ⟨as, rfl⟩ := List.head?_eq_some_iff.1 hhead
    obtain ⟨row, rest, hrow, hrest, hrows⟩ := List.forall₂_cons_right_iff.1 (decode_eq_ok_iff.1 has)
    exact ⟨row, rest, hrows, hrow, exists_forall₂_iff.1 ⟨as, hrest⟩⟩
  · rintro ⟨row, rest, hrows, hrow, hrest⟩
    obtain ⟨as, has⟩ := exists_forall₂_iff.2 hrest
    refine ⟨a :: as, decode_eq_ok_iff.2 ?_, rfl⟩
    rw [hrows]
    exact .cons hrow has

theorem first_eq_error_iff {err : QueryError} : r.first d = .error err ↔ r.decode d = .error err := map_eq_error_iff

/-- What is found as the first row is what the first row by itself says: the decoded row, nothing where there are no
rows, and an error where the first row cannot be decoded. -/
structure FollowsFirst (d : Decoder α) (r : Rows) : Prop where
  decoded : ∀ row rest a, r.toList = row :: rest → d row = .ok a → r.first d = .ok (some a)
  none_iff : r.first d = .ok none ↔ r.length = 0
  mapping_iff : (∃ cause, r.first d = .error (.mapping cause)) ↔
    ∃ row rest cause, r.toList = row :: rest ∧ d row = .error cause

theorem followsFirst_iff : r.FollowsFirst d ↔
    ∀ row rest a, r.toList = row :: rest → d row = .ok a → ∀ row' ∈ rest, ∃ a', d row' = .ok a' := by
  constructor
  · intro h row rest a hrows hrow
    obtain ⟨row', rest', hrows', -, hrest⟩ := first_eq_some_iff.1 (h.decoded row rest a hrows hrow)
    obtain ⟨-, rfl⟩ := List.cons.inj (hrows.symm.trans hrows')
    exact hrest
  · intro h
    refine ⟨?_, first_eq_none_iff, ?_⟩
    · intro row rest a hrows hrow
      exact first_eq_some_iff.2 ⟨row, rest, hrows, hrow, h row rest a hrows hrow⟩
    · constructor
      · rintro ⟨_, hfirst⟩
        obtain ⟨before, row, after, cause, hrows, hbefore, hrow, -⟩ := decode_eq_error_iff.1 (first_eq_error_iff.1 hfirst)
        cases before with
        | nil => exact ⟨row, after, cause, hrows, hrow⟩
        | cons head before =>
          -- The head can be decoded, so the row behind it that cannot be decoded is against the condition.
          obtain ⟨a, ha⟩ := hbefore head List.mem_cons_self
          obtain ⟨a', ha'⟩ := h head _ a hrows ha row (by simp)
          rw [hrow] at ha'
          cases ha'
      · rintro ⟨row, rest, cause, hrows, hrow⟩
        refine ⟨cause, first_eq_error_iff.2 (decode_eq_error_iff.2 ?_)⟩
        exact ⟨[], row, rest, cause, hrows, List.forall_mem_nil _, hrow, rfl⟩

end Rows

/-- **The first row**: rows are decoded exactly when each of them is; the decoded rows are then as many as the rows are
counted, and stand in their order. No first row is found exactly where there are no rows. And what is found as the first
row is what the first row by itself says exactly when all rows behind a first row that can be decoded can be decoded
too: it is found only where they can be. -/
theorem first_row_alone_iff {α : Type} (d : Decoder α) (r : Rows) :
    ((∃ as, r.decode d = .ok as) ↔ ∀ row ∈ r.toList, ∃ a, d row = .ok a) ∧
    (∀ as, r.decode d = .ok as ↔ as.length = r.length ∧ List.Forall₂ (fun row a => d row = .ok a) r.toList as) ∧
    (r.first d = .ok none ↔ r.length = 0) ∧
    (∀ a, r.first d = .ok (some a) ↔
      ∃ row rest, r.toList = row :: rest ∧ d row = .ok a ∧ ∀ row' ∈ rest, ∃ a', d row' = .ok a') ∧
    (r.FollowsFirst d ↔
      ∀ row rest a, r.toList = row :: rest → d row = .ok a → ∀ row' ∈ rest, ∃ a', d row' = .ok a') := by
  refine ⟨Rows.exists_decode_iff, fun as => ⟨fun h => ?_, fun h => ?_⟩, Rows.first_eq_none_iff,
    fun a => Rows.first_eq_some_iff, Rows.followsFirst_iff⟩
  · exact ⟨Rows.length_decode h, Rows.decode_eq_ok_iff.1 h⟩
  · exact Rows.decode_eq_ok_iff.2 h.2

/-- The first row is an integer, and it is not found, because of the text behind it. -/
theorem first_row_lost :
    Decoder.int64 (.int 1) = .ok 1 ∧
    Rows.first Decoder.int64 ⟨.array [.int 1, .string "x"]⟩ = .error (.mapping (.wrongType "string \"x\"" "an integer")) ∧
    ¬ Rows.FollowsFirst Decoder.int64 ⟨.array [.int 1, .string "x"]⟩ := by
  refine ⟨rfl, rfl, fun h => ?_⟩
  have hfirst := h.decoded (.int 1) [.string "x"] 1 rfl rfl
  cases hfirst

/-- A result that is no list is a row by itself. -/
example : Rows.first Decoder.int64 ⟨.int 7⟩ = .ok (some 7) := rfl

end GraphQuery
