/-!
# Declarations by name

A list of named things in the order in which their names were first declared. Declaring a name again replaces what
stands under it and keeps its place (`Declared.put`).
-/

namespace GraphQuery.Declared

variable {α : Type}

/-- The list with `a` in the place of the thing with its name, or at the end. -/
def put (name : α → String) (a : α) : List α → List α
  | [] => [a]
  | b :: bs => if name b = name a then a :: bs else b :: put name a bs

/-- The thing with a name. -/
def get? (name : α → String) (as : List α) (n : String) : Option α := as.find? fun a => name a == n

theorem mem_put {name : α → String} {a b : α} {as : List α} (h : b ∈ put name a as) : b = a ∨ b ∈ as := by
  induction as with
  | nil => simpa [put] using h
  | cons c cs ih =>
    unfold put at h
    split at h
    · exact (List.mem_cons.1 h).imp id (List.mem_cons_of_mem _)
    · rcases List.mem_cons.1 h with rfl | h
      · exact .inr List.mem_cons_self
      · exact (ih h).imp id (List.mem_cons_of_mem _)

/-- No name is declared twice. -/
theorem put_nodup {name : α → String} {a : α} {as : List α} (h : (as.map name).Nodup) :
    ((put name a as).map name).Nodup := by
  induction as with
  | nil => simp [put]
  | cons b bs ih =>
    obtain ⟨hb, hbs⟩ := List.nodup_cons.1 h
    unfold put
    split
    · next heq => exact List.nodup_cons.2 ⟨heq ▸ hb, hbs⟩
    · next hne =>
      refine List.nodup_cons.2 ⟨fun hmem => ?_, ih hbs⟩
      obtain ⟨c, hc, hcb⟩ := List.mem_map.1 hmem
      rcases mem_put hc with rfl | hc
      · exact hne hcb.symm
      · exact hb (hcb ▸ List.mem_map_of_mem hc)

end GraphQuery.Declared
