import GraphQuery.Schema.Registry
import Mathlib.Data.List.Induction

/-!
# Tables follow their declarations

Whatever the order of the declarations, the fields of a table are the declared fields other than the identity, in the
order in which their names were declared first and each as it was declared last, and then the identity; a look-up by
name gives the field of this list that has the name (`fields_follow_declarations`).

The invariant is that of a list under `Declared.put`: its names are those of the things that were put, without
repetition (`map_name_putAll`), and under each name stands the last thing that was put with it (`get?_putAll`). A
declaration that is registered for a model has the effect that it has on a table (`Registry.declare_eq`).
-/

namespace GraphQuery

/-! ## Things put by name -/

theorem eraseDups_concat {β : Type} [DecidableEq β] (bs : List β) (b : β) :
    (bs ++ [b]).eraseDups = bs.eraseDups ++ if b ∈ bs then [] else [b] := by
  rw [List.eraseDups_append, List.removeAll]
  by_cases h : b ∈ bs
  · rw [List.filter_cons_of_neg (by simpa using h), if_pos h]
    simp
  · rw [List.filter_cons_of_pos (by simpa using h), if_neg h, List.eraseDups_cons]
    simp

namespace Declared

variable {α : Type} {name : α → String}

/-- The last of the things with a name. -/
def latest (name : α → String) (as : List α) (n : String) : Option α := (as.filter fun a => name a = n).getLast?

/-- Things put one after the other. -/
def putAll (name : α → String) (as : List α) : List α := as.foldl (fun bs a => put name a bs) []

theorem putAll_concat (as : List α) (a : α) : putAll name (as ++ [a]) = put name a (putAll name as) := by
  simp [putAll]

theorem map_name_put (a : α) (as : List α) :
    (put name a as).map name = if name a ∈ as.map name then as.map name else as.map name ++ [name a] := by
  induction as with
  | nil => simp [put]
  | cons b bs ih =>
    unfold put
    by_cases h : name b = name a
    · simp [h]
    · have hne : name a ≠ name b := Ne.symm h
      simp only [h, if_false, List.map_cons, ih, List.mem_cons, hne, false_or]
      by_cases hm : name a ∈ bs.map name <;> simp [hm]

theorem get?_put (a : α) (as : List α) (n : String) :
    get? name (put name a as) n = if name a = n then some a else get? name as n := by
  induction as with
  | nil => by_cases h : name a = n <;> simp [put, get?, h]
  | cons b bs ih =>
    unfold get? at ih ⊢
    unfold put
    by_cases h : name b = name a
    · by_cases hn : name a = n <;> simp [h, hn]
    · rw [if_neg h, List.find?_cons, List.find?_cons, ih]
      by_cases hb : name b = n
      · have hn : name a ≠ n := fun e => h (hb.trans e.symm)
        simp [hb, hn]
      · have hbeq : (name b == n) = false := by simp [hb]
        rw [hbeq]

theorem name_of_get? {as : List α} {n : String} {a : α} (h : get? name as n = some a) : name a = n := by
  simpa using List.find?_some h

theorem name_of_latest {as : List α} {n : String} {a : α} (h : latest name as n = some a) : name a = n := by
  simpa using (List.mem_filter.1 (List.mem_of_getLast? h)).2

theorem latest_concat (as : List α) (a : α) (n : String) :
    latest name (as ++ [a]) n = if name a = n then some a else latest name as n := by
  unfold latest
  by_cases h : name a = n <;> simp [h]

/-- The names of the things that were put, in the order in which they came first. -/
theorem map_name_putAll (as : List α) : (putAll name as).map name = (as.map name).eraseDups := by
  induction as using List.reverseRecOn with
  | nil => rfl
  | append_singleton as a ih =>
    rw [putAll_concat, map_name_put, ih, List.map_append, List.map_singleton, eraseDups_concat]
    by_cases h : name a ∈ as.map name
    · rw [if_pos (List.mem_eraseDups.2 h), if_pos h, List.append_nil]
    · rw [if_neg (mt List.mem_eraseDups.1 h), if_neg h]

/-- Under each name stands what was put with it last. -/
theorem get?_putAll (as : List α) (n : String) : get? name (putAll name as) n = latest name as n := by
  induction as using List.reverseRecOn with
  | nil => rfl
  | append_singleton as a ih => rw [putAll_concat, get?_put, latest_concat, ih]

theorem nodup_putAll (as : List α) : ((putAll name as).map name).Nodup := by
  induction as using List.reverseRecOn with
  | nil => exact List.nodup_nil
  | append_singleton as a ih =>
    rw [putAll_concat]
    exact put_nodup ih

theorem nodup_eraseDups (names : List String) : names.eraseDups.Nodup := by
  have h : ((putAll id names).map id).Nodup := nodup_putAll names
  rwa [map_name_putAll, List.map_id] at h

/-- Where no name stands twice, what stands under the name of a member is the member. -/
theorem get?_name {as : List α} (h : (as.map name).Nodup) {a : α} (ha : a ∈ as) : get? name as (name a) = some a := by
  induction as with
  | nil => cases ha
  | cons b bs ih =>
    obtain ⟨hb, hbs⟩ := List.nodup_cons.1 h
    rcases List.mem_cons.1 ha with rfl | ha
    · simp [get?]
    · have hne : name b ≠ name a := by
        intro e
        exact hb (e ▸ List.mem_map_of_mem ha)
      simpa [get?, hne] using ih hbs ha

end Declared

/-! ## What declarations say -/

namespace Declaration

/-- The field that is declared. -/
def asField? : Declaration → Option Field
  | .field f => some f
  | _ => none

/-- The name that is declared for the identity. -/
def asIdentity? : Declaration → Option String
  | .identity n => some n
  | _ => none

/-- The fields that are declared, in the order of their declarations. -/
def fields (ds : List Declaration) : List Field := ds.filterMap asField?

/-- The name of the identity: the one that was declared last. -/
def identityName (ds : List Declaration) : String := (ds.filterMap asIdentity?).getLastD "id"

/-- The last declaration of a field with a name. -/
def latest (ds : List Declaration) (n : String) : Option Field := Declared.latest Field.name (fields ds) n

/-- The names of the declared fields other than the identity, in the order of their first declarations. -/
def visibleNames (ds : List Declaration) : List String :=
  ((fields ds).map Field.name).eraseDups.filter (· != identityName ds)

theorem fields_concat (ds : List Declaration) (d : Declaration) :
    fields (ds ++ [d]) = fields ds ++ d.asField?.toList := by
  cases d <;> simp [fields, asField?]

theorem identityName_concat (ds : List Declaration) (d : Declaration) :
    identityName (ds ++ [d]) = d.asIdentity?.getD (identityName ds) := by
  cases d <;> simp [identityName, asIdentity?]

end Declaration

open Declaration

theorem Table.declareAll_concat (t : Table) (ds : List Declaration) (d : Declaration) :
    t.declareAll (ds ++ [d]) = (t.declareAll ds).declare d := by
  simp [Table.declareAll]

/-- The declared fields are put by name, and no identity has a shape or an index. -/
theorem Table.declareAll_bare (name : String) (ds : List Declaration) :
    ((bare name).declareAll ds).declared = Declared.putAll Field.name (Declaration.fields ds) ∧
      ((bare name).declareAll ds).identityField = .id (identityName ds) := by
  induction ds using List.reverseRecOn with
  | nil => exact ⟨rfl, rfl⟩
  | append_singleton ds d ih =>
    obtain ⟨hdeclared, hidentity⟩ := ih
    rw [Table.declareAll_concat, fields_concat, identityName_concat]
    cases d with
    | name _ => simpa [declare, asField?, asIdentity?] using And.intro hdeclared hidentity
    | index _ => simpa [declare, asField?, asIdentity?] using And.intro hdeclared hidentity
    | identity n =>
      -- The index that the new identity takes over is that of an identity, which has none.
      have hindex : ((bare name).declareAll ds).identityField.index = none := by rw [hidentity]; rfl
      refine ⟨by simpa [declare, asField?] using hdeclared, ?_⟩
      simp [declare, asIdentity?, hindex, Field.id, Field.plain]
    | field f =>
      refine ⟨?_, by simpa [declare, asIdentity?] using hidentity⟩
      simp [declare, asField?, hdeclared, Declared.putAll_concat]

/-! ## The fields of a table -/

section Fields

variable (name : String) (ds : List Declaration)

theorem Table.identity_declareAll : ((bare name).declareAll ds).identity = identityName ds := by
  rw [Table.identity, (Table.declareAll_bare name ds).2]
  rfl

theorem Table.map_name_declared :
    ((bare name).declareAll ds).declared.map Field.name = ((Declaration.fields ds).map Field.name).eraseDups := by
  rw [(Table.declareAll_bare name ds).1, Declared.map_name_putAll]

/-- The names of the fields: the visible ones and the identity. -/
theorem Table.map_name_fields :
    ((bare name).declareAll ds).fields.map Field.name = visibleNames ds ++ [identityName ds] := by
  have hfilter : (fun f : Field => f.name != identityName ds) = (fun n => n != identityName ds) ∘ Field.name := rfl
  rw [Table.fields, Table.identity_declareAll, (Table.declareAll_bare name ds).2, List.map_append, hfilter,
    ← List.filter_map, Table.map_name_declared]
  rfl

/-- Each visible name stands for the last field that was declared with it. -/
theorem Table.map_some_fields : ((bare name).declareAll ds).fields.map some =
    (visibleNames ds).map (latest ds) ++ [some (.id (identityName ds))] := by
  obtain ⟨hdeclared, hidentity⟩ := Table.declareAll_bare name ds
  have hlatest : ∀ f ∈ ((bare name).declareAll ds).declared, latest ds f.name = some f := by
    intro f hf
    rw [hdeclared] at hf
    rw [latest, ← Declared.get?_putAll]
    exact Declared.get?_name (Declared.nodup_putAll _) hf
  rw [Table.fields, hidentity, Table.identity_declareAll, List.map_append, visibleNames, ← Table.map_name_declared name,
    List.filter_map, List.map_map]
  refine congrArg (· ++ _) (List.map_congr_left ?_)
  intro f hf
  exact (hlatest f (List.mem_filter.1 hf).1).symm

theorem nodup_visibleNames : (visibleNames ds).Nodup := (Declared.nodup_eraseDups _).filter _

theorem Table.nodup_fields : (((bare name).declareAll ds).fields.map Field.name).Nodup := by
  rw [Table.map_name_fields]
  refine List.nodup_append.2 ⟨nodup_visibleNames ds, by simp, ?_⟩
  intro n hn m hm hnm
  have hne : n ≠ identityName ds := by simpa using (List.mem_filter.1 hn).2
  exact hne (hnm.trans (List.mem_singleton.1 hm))

end Fields

/-- A look-up by name is a look-up in the list of fields. -/
theorem Table.field?_eq_get? (t : Table) (n : String) : t.field? n = Declared.get? Field.name t.fields n := by
  unfold Table.field? Declared.get? Table.fields
  rw [List.find?_append, List.find?_filter]
  by_cases h : t.identity = n
  · have hnone : t.declared.find? (fun f => decide ((f.name != t.identity) = true ∧ (f.name == n) = true)) = none := by
      rw [List.find?_eq_none]
      intro f _
      subst h
      simp
    have hid : [t.identityField].find? (fun f => f.name == n) = some t.identityField := by
      simpa [Table.identity] using h
    rw [if_pos h, hnone, hid, Option.none_or]
  · have hsame : (fun f : Field => decide ((f.name != t.identity) = true ∧ (f.name == n) = true)) =
        fun f => f.name == n := by
      funext f
      by_cases hf : f.name = n
      · subst hf
        simpa using Ne.symm h
      · simp [hf]
    have hid : [t.identityField].find? (fun f => f.name == n) = none := by
      simpa [Table.identity] using h
    rw [if_neg h, hsame, hid, Option.or_none]

theorem Table.field?_eq_none_iff {t : Table} {n : String} : t.field? n = none ↔ n ∉ t.fields.map Field.name := by
  rw [t.field?_eq_get?, Declared.get?, List.find?_eq_none]
  simp

theorem Table.field?_eq_some_iff {name : String} {ds : List Declaration} {n : String} {f : Field} :
    ((bare name).declareAll ds).field? n = some f ↔ f ∈ ((bare name).declareAll ds).fields ∧ f.name = n := by
  rw [Table.field?_eq_get?]
  constructor
  · intro h
    exact ⟨List.mem_of_find?_eq_some h, Declared.name_of_get? h⟩
  · rintro ⟨hf, rfl⟩
    exact Declared.get?_name (Table.nodup_fields name ds) hf

/-! ## Registered declarations -/

/-- The registry after a declaration about a model was registered. -/
def Registry.declare (r : Registry) (m : Model) : Declaration → Registry
  | .name n => r.registerTable m ⟨some n, none⟩
  | .index i => r.registerTable m ⟨none, some i⟩
  | .identity n => r.registerIdentity m n
  | .field f => r.registerField m f

/-- The registry after declarations about a model were registered one by one. -/
def Registry.declareAll (r : Registry) (m : Model) (ds : List Declaration) : Registry :=
  ds.foldl (fun r d => r.declare m d) r

theorem Registry.declare_eq (r : Registry) (m : Model) (d : Declaration) : r.declare m d = r.register m [d] := by
  cases d <;> rfl

/-- What is registered adds to the entry, or to the bare table where there is no entry. -/
theorem Registry.table?_declareAll (m : Model) : ∀ (ds : List Declaration) (r : Registry),
    (r.declareAll m ds).table? m =
      if ds.isEmpty then r.table? m else some (((r.table? m).getD (.bare m.defaultTable)).declareAll ds)
  | [], _ => rfl
  | d :: ds, r => by
    have hfirst : (r.declare m d).table? m = some (((r.table? m).getD (.bare m.defaultTable)).declare d) := by
      rw [Registry.declare_eq, Registry.register, Registry.table?_put, if_pos rfl]
      rfl
    have hrest : (r.declareAll m (d :: ds)).table? m = ((r.declare m d).declareAll m ds).table? m := rfl
    rw [hrest, Registry.table?_declareAll m ds, hfirst]
    cases ds <;> rfl

/-- **Fields follow the declarations**: they are the declared fields other than the identity, each once, in the order
of the first declarations of their names and as declared last, and then the identity that was named last; a look-up
gives the field of the list with the name; and what is registered for a model without an entry makes the same table
as what the model declares. -/
theorem fields_follow_declarations (ds : List Declaration) :
    (∀ name, ((Table.bare name).declareAll ds).fields.map some =
        (visibleNames ds).map (latest ds) ++ [some (.id (identityName ds))] ∧
      ((Table.bare name).declareAll ds).fields.map Field.name = visibleNames ds ++ [identityName ds] ∧
      (visibleNames ds ++ [identityName ds]).Nodup ∧
      ∀ n f, ((Table.bare name).declareAll ds).field? n = some f ↔
        f ∈ ((Table.bare name).declareAll ds).fields ∧ f.name = n) ∧
    ∀ m, (Registry.empty.declareAll m ds).table? m =
      if ds.isEmpty then none else some ((Table.bare m.defaultTable).declareAll ds) := by
  refine ⟨fun name => ⟨Table.map_some_fields name ds, Table.map_name_fields name ds, ?_, ?_⟩, fun m => ?_⟩
  · rw [← Table.map_name_fields name]
    exact Table.nodup_fields name ds
  · exact fun _ _ => Table.field?_eq_some_iff
  · rw [Registry.table?_declareAll]
    rfl

-- A field that was the identity in between is listed where it was declared first.
example : ((Table.bare "user").declareAll [.scalar "email" .string, .identity "email", .scalar "name" .string,
    .identity "key"]).fields.map Field.name = ["email", "name", "key"] := by decide

end GraphQuery
