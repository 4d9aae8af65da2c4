import GraphQuery.Migration
import GraphQuery.Proofs.Declarations

/-!
# Plans of migrations

A plan has one statement for each declared index name that the catalog does not have (`Migration.missingNames`), in
the order of the first declarations and with the first declaration's statement (`Migration.plan_map_some`,
`Migration.exists_defines_iff`). It is empty where the catalog has all of these names (`Migration.plan_eq_nil_iff`), and
for a larger catalog it is a part of the plan for the smaller one (`Migration.plan_sublist`).

The index of a declared field is in the plan unless the field has the name of the identity and no other index has the
name of this one (`field_index_planned_iff`): such a field is hidden, and its index with it (`identity_index_lost`).
-/

namespace GraphQuery

/-- The statement defines an index of this name. -/
def DefinesIndex (name : String) (f : Fragment) : Prop :=
  ∃ table columns unique search, f = defineIndex name table columns unique search

theorem DefinesIndex.unique {m n : String} {f : Fragment} (hm : DefinesIndex m f) (hn : DefinesIndex n f) : m = n := by
  obtain ⟨_, _, _, _, rfl⟩ := hm
  obtain ⟨_, _, _, _, h⟩ := hn
  simp only [defineIndex, List.cons_append, List.cons.injEq, Chunk.ident.injEq, true_and] at h
  exact h.1

namespace Migration

/-! ## The first of each name -/

/-- The first index of each name that has not been seen. -/
def firsts (seen : List String) : List (String × Fragment) → List (String × Fragment)
  | [] => []
  | d :: ds => if seen.contains d.1 then firsts seen ds else d :: firsts (d.1 :: seen) ds

theorem missing_eq_map_firsts (seen : List String) (ds : List (String × Fragment)) :
    missing seen ds = (firsts seen ds).map (·.2) := by
  induction ds generalizing seen with
  | nil => rfl
  | cons d ds ih =>
    unfold missing firsts
    split
    · exact ih seen
    · rw [List.map_cons, ih]

theorem firsts_sublist (seen : List String) (ds : List (String × Fragment)) : (firsts seen ds).Sublist ds := by
  induction ds generalizing seen with
  | nil => exact .slnil
  | cons d ds ih =>
    unfold firsts
    split
    · exact .cons d (ih seen)
    · exact .cons_cons d (ih _)

theorem firsts_concat (seen : List String) (ds : List (String × Fragment)) (d : String × Fragment) :
    firsts seen (ds ++ [d]) = firsts seen ds ++ if d.1 ∈ seen ∨ d.1 ∈ ds.map (·.1) then [] else [d] := by
  induction ds generalizing seen with
  | nil => by_cases h : d.1 ∈ seen <;> simp [firsts, h]
  | cons e ds ih =>
    by_cases h : e.1 ∈ seen
    · have hsame : (d.1 ∈ seen ∨ d.1 ∈ (e :: ds).map (·.1)) ↔ d.1 ∈ seen ∨ d.1 ∈ ds.map (·.1) := by
        rw [List.map_cons, List.mem_cons]
        constructor
        · rintro (hd | hd | hd)
          · exact .inl hd
          · exact .inl (hd ▸ h)
          · exact .inr hd
        · exact Or.imp_right .inr
      simp only [List.cons_append, firsts, List.contains_iff_mem, h, if_true, ih, hsame]
    · have hsame : (d.1 ∈ seen ∨ d.1 ∈ (e :: ds).map (·.1)) ↔ d.1 ∈ e.1 :: seen ∨ d.1 ∈ ds.map (·.1) := by
        rw [List.map_cons, List.mem_cons, List.mem_cons, or_left_comm, or_assoc]
      simp only [List.cons_append, firsts, List.contains_iff_mem, h, if_false, ih, hsame]

/-- The names that are left: those that have not been seen, without repetition. -/
theorem map_fst_firsts (seen : List String) (ds : List (String × Fragment)) :
    (firsts seen ds).map (·.1) = (ds.map (·.1)).eraseDups.filter fun n => !seen.contains n := by
  induction ds using List.reverseRecOn with
  | nil => rfl
  | append_singleton ds d ih =>
    rw [firsts_concat, List.map_append, ih, List.map_append, List.map_singleton, eraseDups_concat,
      List.filter_append]
    by_cases hseen : d.1 ∈ seen <;> by_cases hd : d.1 ∈ ds.map (·.1) <;> simp [hseen, hd]

theorem lookup_cons_of_ne {n : String} {d : String × Fragment} (h : n ≠ d.1) (ds : List (String × Fragment)) :
    (d :: ds).lookup n = ds.lookup n := by
  rw [List.lookup_cons, beq_eq_false_iff_ne.2 h]

/-- What is left of a name stands under it first. -/
theorem lookup_of_mem_firsts {seen : List String} {ds : List (String × Fragment)} {d : String × Fragment}
    (h : d ∈ firsts seen ds) : d.1 ∉ seen ∧ ds.lookup d.1 = some d.2 := by
  induction ds generalizing seen with
  | nil => cases h
  | cons e ds ih =>
    unfold firsts at h
    by_cases he : e.1 ∈ seen
    · rw [if_pos (by simpa using he)] at h
      obtain ⟨hnot, hlookup⟩ := ih h
      have hne : d.1 ≠ e.1 := fun heq => hnot (heq ▸ he)
      exact ⟨hnot, by rw [lookup_cons_of_ne hne, hlookup]⟩
    · rw [if_neg (by simpa using he)] at h
      rcases List.mem_cons.1 h with rfl | h
      · exact ⟨he, List.lookup_cons_self⟩
      · obtain ⟨hnot, hlookup⟩ := ih h
        obtain ⟨hne, hseen⟩ := not_or.1 (mt List.mem_cons.2 hnot)
        exact ⟨hseen, by rw [lookup_cons_of_ne hne, hlookup]⟩

/-! ## The missing names -/

/-- The names of the declared indexes that a catalog does not have, in the order of their first declarations. -/
def missingNames (t : Table) (c : Catalog) : List String :=
  ((declaredIndexes t).map (·.1)).eraseDups.filter fun n => !c.hasIndex n

theorem hasIndex_iff (c : Catalog) (n : String) : c.hasIndex n ↔ n ∈ c.indexes.map (·.1) := by
  simp [Catalog.hasIndex, Members.contains]

theorem mem_missingNames {t : Table} {c : Catalog} {n : String} :
    n ∈ missingNames t c ↔ n ∈ (declaredIndexes t).map (·.1) ∧ ¬ c.hasIndex n := by
  simp [missingNames]

/-- What a plan defines: the first declared index of each missing name. -/
def planned (t : Table) (c : Catalog) : List (String × Fragment) :=
  firsts (c.indexes.map (·.1)) (declaredIndexes t)

theorem planned_sublist (t : Table) (c : Catalog) : (planned t c).Sublist (declaredIndexes t) := firsts_sublist _ _

theorem plan_eq_map_planned (t : Table) (c : Catalog) : plan t c = (planned t c).map (·.2) := missing_eq_map_firsts _ _

theorem map_fst_planned (t : Table) (c : Catalog) : (planned t c).map (·.1) = missingNames t c := by
  rw [planned, map_fst_firsts, missingNames]
  refine congrArg (List.filter · _) (funext fun n => ?_)
  rw [Bool.eq_iff_iff]
  simp only [Bool.not_eq_true', Bool.eq_false_iff, ne_eq, List.contains_iff_mem, hasIndex_iff]

/-- A plan has one statement for each missing name, that of the first declaration. -/
theorem plan_map_some (t : Table) (c : Catalog) :
    (plan t c).map some = (missingNames t c).map fun n => (declaredIndexes t).lookup n := by
  rw [plan_eq_map_planned, ← map_fst_planned, List.map_map, List.map_map]
  refine List.map_congr_left fun d hd => ?_
  exact (lookup_of_mem_firsts hd).2.symm

theorem nodup_missingNames (t : Table) (c : Catalog) : (missingNames t c).Nodup := (Declared.nodup_eraseDups _).filter _

theorem definesIndex_of_mem {t : Table} {d : String × Fragment} (h : d ∈ declaredIndexes t) : DefinesIndex d.1 d.2 := by
  unfold declaredIndexes at h
  rcases List.mem_append.1 h with h | h
  · obtain ⟨i, -, rfl⟩ := List.mem_map.1 h
    exact ⟨_, _, _, _, rfl⟩
  · obtain ⟨f, -, hf⟩ := List.mem_filterMap.1 h
    obtain ⟨i, -, rfl⟩ := Option.map_eq_some_iff.1 hf
    exact ⟨_, _, _, _, rfl⟩

/-- A plan defines indexes of the missing names and no others. -/
theorem exists_defines_iff (t : Table) (c : Catalog) (n : String) :
    (∃ f ∈ plan t c, DefinesIndex n f) ↔ n ∈ missingNames t c := by
  rw [plan_eq_map_planned, ← map_fst_planned, List.mem_map]
  constructor
  · rintro ⟨f, hf, hn⟩
    obtain ⟨d, hd, rfl⟩ := List.mem_map.1 hf
    exact ⟨d, hd, (definesIndex_of_mem ((planned_sublist t c).mem hd)).unique hn⟩
  · rintro ⟨d, hd, rfl⟩
    exact ⟨d.2, List.mem_map_of_mem hd, definesIndex_of_mem ((planned_sublist t c).mem hd)⟩

/-! ## Larger catalogs -/

theorem plan_eq_nil_iff {t : Table} {c : Catalog} :
    plan t c = [] ↔ ∀ n ∈ (declaredIndexes t).map (·.1), c.hasIndex n := by
  rw [plan_eq_map_planned, List.map_eq_nil_iff, ← List.map_eq_nil_iff (f := (·.1)), map_fst_planned,
    List.eq_nil_iff_forall_not_mem]
  simp only [mem_missingNames, not_and, not_not]

/-- A larger catalog leaves a part of the plan. -/
theorem plan_sublist {t : Table} {c d : Catalog} (h : ∀ n, c.hasIndex n → d.hasIndex n) :
    (plan t d).Sublist (plan t c) := by
  have hnames : (missingNames t d).Sublist (missingNames t c) := by
    have hfilter : missingNames t d = (missingNames t c).filter fun n => !d.hasIndex n := by
      rw [missingNames, missingNames, List.filter_filter]
      refine List.filter_congr fun n _ => ?_
      have hn := h n
      cases hc : c.hasIndex n <;> cases hd : d.hasIndex n <;> simp_all
    rw [hfilter]
    exact List.filter_sublist
  have hsome : ((plan t d).map some).Sublist ((plan t c).map some) := by
    rw [plan_map_some, plan_map_some]
    exact hnames.map _
  simpa using hsome.filterMap id

end Migration

/-- The catalog with more indexes. -/
def Catalog.addIndexes (c : Catalog) (entries : List (String × Json)) : Catalog :=
  { c with indexes := entries.foldl (fun ms e => ms.insert e.1 e.2) c.indexes }

theorem Catalog.hasIndex_addIndexes (c : Catalog) (entries : List (String × Json)) (n : String) :
    (c.addIndexes entries).hasIndex n ↔ n ∈ entries.map (·.1) ∨ c.hasIndex n := by
  induction entries generalizing c with
  | nil => simp [addIndexes]
  | cons e entries ih =>
    have hstep : c.addIndexes (e :: entries) = (c.addIndexes [e]).addIndexes entries := rfl
    have hone : (c.addIndexes [e]).hasIndex n ↔ e.1 = n ∨ c.hasIndex n := by
      simp [addIndexes, hasIndex, Members.contains_insert]
    rw [hstep, ih, hone, List.map_cons, List.mem_cons]
    constructor
    · rintro (h | h | h)
      · exact .inl (.inr h)
      · exact .inl (.inl h.symm)
      · exact .inr h
    · rintro ((h | h) | h)
      · exact .inr (.inl h.symm)
      · exact .inl h
      · exact .inr (.inr h)

/-- With the missing names in the catalog there is nothing left to define. -/
theorem Migration.plan_addIndexes (t : Table) (c : Catalog) (value : String → Json) :
    plan t (c.addIndexes ((missingNames t c).map fun n => (n, value n))) = [] := by
  rw [plan_eq_nil_iff]
  intro n hn
  rw [Catalog.hasIndex_addIndexes]
  by_cases hc : c.hasIndex n
  · exact .inr hc
  · refine .inl ?_
    simpa using mem_missingNames.2 ⟨hn, hc⟩

/-! ## Indexes of declared fields -/

section FieldIndexes

variable {name : String} {ds : List Declaration}

theorem Table.mem_fields {f : Field} : f ∈ ((bare name).declareAll ds).fields ↔
    (∃ p, p ≠ Declaration.identityName ds ∧ Declaration.latest ds p = some f) ∨
      f = .id (Declaration.identityName ds) := by
  have hsome : f ∈ ((bare name).declareAll ds).fields ↔ some f ∈ ((bare name).declareAll ds).fields.map some := by
    simp
  rw [hsome, Table.map_some_fields, List.mem_append, List.mem_map, List.mem_singleton, Option.some_inj]
  refine or_congr_left ?_
  constructor
  · rintro ⟨p, hp, hf⟩
    exact ⟨p, by simpa using (List.mem_filter.1 hp).2, hf⟩
  · rintro ⟨p, hp, hf⟩
    have hdeclared : p ∈ (Declaration.fields ds).map Field.name :=
      List.mem_map.2 ⟨f, (List.mem_filter.1 (List.mem_of_getLast? hf)).1, Declared.name_of_latest hf⟩
    exact ⟨p, List.mem_filter.2 ⟨List.mem_eraseDups.2 hdeclared, by simpa using hp⟩, hf⟩

/-- The declared index names: that of the index of the table, if it covers columns, and those of the indexes of the
fields that the identity does not hide. -/
theorem mem_declaredIndexes {n : String} :
    n ∈ (Migration.declaredIndexes ((Table.bare name).declareAll ds)).map (·.1) ↔
      (∃ i, ((Table.bare name).declareAll ds).index = some i ∧ i.isEmpty = false ∧ i.name = n) ∨
        ∃ p f i, p ≠ Declaration.identityName ds ∧ Declaration.latest ds p = some f ∧ f.index = some i ∧ i.name = n := by
  unfold Migration.declaredIndexes
  rw [List.map_append, List.mem_append]
  refine or_congr ?_ ?_
  · cases ((Table.bare name).declareAll ds).index with
    | none => simp
    | some i =>
      cases h : i.isEmpty with
      | true => simp [h]
      | false => simpa [h] using eq_comm
  · constructor
    · intro h
      obtain ⟨d, hd, rfl⟩ := List.mem_map.1 h
      obtain ⟨f, hf, hmap⟩ := List.mem_filterMap.1 hd
      obtain ⟨i, hi, rfl⟩ := Option.map_eq_some_iff.1 hmap
      rcases Table.mem_fields.1 hf with ⟨p, hp, hlatest⟩ | rfl
      · exact ⟨p, f, i, hp, hlatest, hi, rfl⟩
      · cases hi
    · rintro ⟨p, f, i, hp, hlatest, hi, rfl⟩
      have hfield : f ∈ ((Table.bare name).declareAll ds).fields := Table.mem_fields.2 (.inl ⟨p, hp, hlatest⟩)
      rw [List.map_filterMap]
      exact List.mem_filterMap.2 ⟨f, hfield, by rw [hi]; rfl⟩

/-- **Indexes of fields**: the index of the last declaration of a field is in the plan for an empty catalog exactly when
the field does not have the name of the identity, or the index of the table or of another field has the same name. -/
theorem field_index_planned_iff {p : String} {f : Field} {i : FieldIndex} (hf : Declaration.latest ds p = some f)
    (hi : f.index = some i) :
    (∃ s ∈ Migration.plan ((Table.bare name).declareAll ds) .empty, DefinesIndex i.name s) ↔
      p ≠ Declaration.identityName ds ∨
      (∃ j, ((Table.bare name).declareAll ds).index = some j ∧ j.isEmpty = false ∧ j.name = i.name) ∨
      ∃ q g j, q ≠ Declaration.identityName ds ∧ Declaration.latest ds q = some g ∧ g.index = some j ∧
        j.name = i.name := by
  have hempty : ¬ Catalog.empty.hasIndex i.name := Bool.false_ne_true
  rw [Migration.exists_defines_iff, Migration.mem_missingNames, mem_declaredIndexes, and_iff_left hempty]
  constructor
  · exact .inr
  · rintro (hp | h)
    · exact .inr ⟨p, f, i, hp, hf, hi, rfl⟩
    · exact h

end FieldIndexes

/-- The index of a field that was the identity in between. -/
theorem renamed_identity_index_planned :
    ∃ s ∈ Migration.plan ((Table.bare "user").declareAll [.identity "email",
      .field ⟨"email", .scalar .string, none, some ⟨"email_idx", true, false⟩⟩, .identity "id"]) .empty,
      DefinesIndex "email_idx" s :=
  (field_index_planned_iff (p := "email") (f := ⟨"email", .scalar .string, none, some ⟨"email_idx", true, false⟩⟩)
    (i := ⟨"email_idx", true, false⟩) rfl rfl).2 (.inl (by decide))

/-- The index of a field that is named as the identity, before or after it is declared, is in no plan. -/
theorem identity_index_lost :
    let email : Field := ⟨"email", .scalar .string, none, some ⟨"email_idx", true, false⟩⟩
    Declaration.latest [.field email, .identity "email"] "email" = some email ∧
    Migration.plan ((Table.bare "user").declareAll [.field email, .identity "email"]) .empty = [] ∧
    Declaration.latest [.identity "email", .field email] "email" = some email ∧
    Migration.plan ((Table.bare "user").declareAll [.identity "email", .field email]) .empty = [] :=
  ⟨rfl, rfl, rfl, rfl⟩

end GraphQuery
