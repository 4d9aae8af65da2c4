import GraphQuery.Members

/-!
# Members put in one by one

What is under a key after a member was put in (`Members.get?_insert`), and after members with different keys were put in
one after the other (`Members.get?_ofList`): what was under the key in the members themselves. Members stay as they are
exactly when they are in the order of their keys already (`Members.ofList_eq_self_iff`).
-/

namespace GraphQuery.Members

variable {α : Type} {ms : Members α}

/-! ## Keys -/

theorem get?_cons (m : String × α) (ms : Members α) (key : String) :
    get? (m :: ms) key = if m.1 = key then some m.2 else get? ms key := by
  by_cases h : m.1 = key <;> simp [get?, h]

theorem get?_eq_none_of_not_mem {key : String} (h : key ∉ ms.map Prod.fst) : get? ms key = none := by
  rw [get?, Option.map_eq_none_iff, List.find?_eq_none]
  intro m hm hkey
  exact h (List.mem_map.2 ⟨m, hm, eq_of_beq hkey⟩)

theorem get?_insert (key : String) (value : α) (ms : Members α) (k : String) :
    get? (insert key value ms) k = if key = k then some value else get? ms k := by
  induction ms with
  | nil => exact get?_cons (key, value) [] k
  | cons m ms ih =>
    unfold insert
    split
    · exact get?_cons (key, value) (m :: ms) k
    · split
      · next hkey =>
        rw [get?_cons, get?_cons, ← hkey]
        split
        · rfl
        · rfl
      · next hkey =>
        rw [get?_cons, ih, get?_cons]
        by_cases hk : m.1 = k
        · have hne : key ≠ k := fun h => hkey (h.trans hk.symm)
          rw [if_pos hk, if_neg hne, if_pos hk]
        · rw [if_neg hk, if_neg hk]

/-- Of members with different keys, put in behind others, each one counts. -/
theorem get?_foldl_insert {done : Members α} (h : (ms.map Prod.fst).Nodup) (key : String) :
    get? (ms.foldl (fun ms m => insert m.1 m.2 ms) done) key = (get? ms key).or (get? done key) := by
  induction ms generalizing done with
  | nil => rfl
  | cons m ms ih =>
    obtain ⟨hm, hms⟩ := List.nodup_cons.1 h
    rw [List.foldl_cons, ih hms, get?_insert, get?_cons]
    split
    · next hkey => rw [get?_eq_none_of_not_mem (hkey ▸ hm), Option.none_or, Option.some_or]
    · rfl

/-- Under each key stands what stood there in members with different keys. -/
theorem get?_ofList (h : (ms.map Prod.fst).Nodup) (key : String) : get? (ofList ms) key = get? ms key :=
  (get?_foldl_insert h key).trans Option.or_none

/-! ## Order -/

/-- A member whose key is behind all others is put at the end. -/
theorem insert_last {key : String} {value : α} (h : ∀ m ∈ ms, m.1 < key) : insert key value ms = ms ++ [(key, value)] := by
  induction ms with
  | nil => rfl
  | cons m ms ih =>
    obtain ⟨hm, hms⟩ := List.forall_mem_cons.1 h
    have hne : key ≠ m.1 := by
      rintro rfl
      exact String.lt_irrefl _ hm
    rw [insert, if_neg (String.lt_asymm hm), if_neg hne, ih hms, List.cons_append]

theorem foldl_insert {done : Members α} (h : Sorted (done ++ ms)) :
    ms.foldl (fun ms m => insert m.1 m.2 ms) done = done ++ ms := by
  induction ms generalizing done with
  | nil => exact (List.append_nil done).symm
  | cons m ms ih =>
    have hlast : ∀ m' ∈ done, m'.1 < m.1 := fun m' hm' =>
      (List.pairwise_append.1 h).2.2 m' hm' m List.mem_cons_self
    have hrest : Sorted ((done ++ [m]) ++ ms) := by rwa [List.append_assoc]
    rw [List.foldl_cons, insert_last hlast, ih hrest, List.append_assoc]
    rfl

/-- Members stay as they are exactly when they are in the order of their keys, with no key twice. -/
theorem ofList_eq_self_iff : ofList ms = ms ↔ Sorted ms := by
  constructor
  · intro h
    have hsorted := ofList_sorted ms
    rwa [h] at hsorted
  · intro h
    have h : Sorted ([] ++ ms) := h
    exact foldl_insert h

end GraphQuery.Members
