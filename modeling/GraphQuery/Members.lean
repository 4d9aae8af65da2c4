/-!
# Member lists

The members of an object are pairs of a key and a value, kept in the order of the keys with no key twice. `insert`
adds or replaces a member and keeps the list so (`insert_sorted`), and so a list that is made of any pairs is in order
(`ofList_sorted`); `get?` finds the value of a key.
-/

namespace GraphQuery

/-- Pairs of a key and a value. -/
abbrev Members (α : Type) := List (String × α)

namespace Members

variable {α : Type}

/-- The keys increase strictly in the order of their code points. -/
def Sorted (ms : Members α) : Prop := ms.Pairwise fun a b => a.1 < b.1

/-- The member list with this value under this key. -/
def insert (key : String) (value : α) : Members α → Members α
  | [] => [(key, value)]
  | (k, v) :: rest =>
    if key < k then (key, value) :: (k, v) :: rest
    else if key = k then (key, value) :: rest
    else (k, v) :: insert key value rest

/-- The member list of some pairs; of several with one key the last counts. -/
def ofList (pairs : List (String × α)) : Members α := pairs.foldl (fun ms p => insert p.1 p.2 ms) []

/-- The value under a key. -/
def get? (ms : Members α) (key : String) : Option α := (ms.find? fun m => m.1 == key).map (·.2)

/-- The key is among the keys. -/
def contains (ms : Members α) (key : String) : Bool := ms.any fun m => m.1 == key

theorem mem_insert {key : String} {value : α} {ms : Members α} {p : String × α} (h : p ∈ insert key value ms) :
    p = (key, value) ∨ p ∈ ms := by
  induction ms with
  | nil => simpa [insert] using h
  | cons m rest ih =>
    unfold insert at h
    split at h
    · simpa using h
    · split at h
      · rcases List.mem_cons.1 h with h | h
        · exact .inl h
        · exact .inr (List.mem_cons_of_mem _ h)
      · rcases List.mem_cons.1 h with h | h
        · exact .inr (h ▸ List.mem_cons_self)
        · exact (ih h).imp id (List.mem_cons_of_mem _)

theorem insert_sorted {key : String} {value : α} {ms : Members α} (h : Sorted ms) : Sorted (insert key value ms) := by
  induction ms with
  | nil => simp [insert, Sorted]
  | cons m rest ih =>
    obtain ⟨hm, hrest⟩ := List.pairwise_cons.1 h
    unfold insert
    split
    · next hlt =>
      refine List.pairwise_cons.2 ⟨fun p hp => ?_, h⟩
      rcases List.mem_cons.1 hp with rfl | hp
      · exact hlt
      · exact String.lt_trans hlt (hm p hp)
    · split
      · next heq => exact List.pairwise_cons.2 ⟨fun p hp => heq ▸ hm p hp, hrest⟩
      · next hlt hne =>
        refine List.pairwise_cons.2 ⟨fun p hp => ?_, ih hrest⟩
        rcases mem_insert hp with rfl | hp
        · exact Decidable.byContradiction fun hge =>
            hne (String.le_antisymm (String.not_lt.1 hge) (String.not_lt.1 hlt))
        · exact hm p hp

theorem ofList_sorted (pairs : List (String × α)) : Sorted (ofList pairs) := by
  have hfold : ∀ done : Members α, Sorted done → Sorted (pairs.foldl (fun ms p => insert p.1 p.2 ms) done) := by
    induction pairs with
    | nil => exact fun _ h => h
    | cons p pairs ih => exact fun done h => ih (insert p.1 p.2 done) (insert_sorted h)
  exact hfold [] List.Pairwise.nil

theorem contains_insert (key : String) (value : α) (ms : Members α) (k : String) :
    (insert key value ms).contains k = (key == k || ms.contains k) := by
  induction ms with
  | nil => simp [insert, contains]
  | cons m rest ih =>
    unfold contains at ih ⊢
    unfold insert
    split
    · rfl
    · split
      · next h => simp [h]
      · rw [List.any_cons, ih, List.any_cons, Bool.or_left_comm]

end Members

end GraphQuery
