import GraphQuery.Proofs.Declarations
import GraphQuery.Proofs.Selection
import Mathlib.Data.List.TakeWhile

/-!
# The star and the names of the fields

Where every field can be written as a path, which is where its name is not the star and has neither colon nor dot, a
star among paths stands for the names of all fields (`star_spells_field_names`). A field resolves under its name to what
it is listed as (`Scope.resolve_name`), so the names that a path is spelled out to resolve to the fragments that the
path stands for (`Scope.mapM_resolve_spelled`); and to join what was joined already is to join it all.

Paths fail as the first of them does whose head is not the name of a field (`Scope.resolveMany_error_iff`).
-/

namespace GraphQuery

/-! ## Programs over lists -/

section Programs

variable {ε σ α β γ : Type} {m : Type → Type} [Monad m] [LawfulMonad m]

theorem mapM_flatMap (f : α → List β) (g : β → m γ) (as : List α) :
    (as.flatMap f).mapM g = List.flatten <$> as.mapM fun a => (f a).mapM g := by
  induction as with
  | nil => simp
  | cons a as ih => simp [List.mapM_append, ih]

theorem mapM_eq_liftM {f : α → ExceptT ε (StateM σ) β} {g : α → StateM σ β} {as : List α}
    (h : ∀ a ∈ as, f a = liftM (g a)) : as.mapM f = liftM (as.mapM g) := by
  induction as with
  | nil => simp
  | cons a as ih =>
    have ih := ih fun b hb => h b (List.mem_cons_of_mem a hb)
    simp [ih, h a List.mem_cons_self]

end Programs

/-! ## Names that are paths -/

theorem Text.cut_of_not_mem {sep : Char} {text : String} (h : sep ∉ text.toList) : cut sep text = (text, none) := by
  have hne : ∀ c ∈ text.toList, decide (c ≠ sep) = true := fun c hc => decide_eq_true (ne_of_mem_of_not_mem hc h)
  rw [cut, cutChars, List.takeWhile_eq_self_iff.2 hne, List.dropWhile_eq_nil_iff.2 hne]
  simp

/-- A name without colon and dot is a path without key that is its own head. -/
theorem FieldPath.ofText_name {name : String} (hcolon : ':' ∉ name.toList) (hdot : '.' ∉ name.toList) :
    ofText name = ⟨name, none⟩ ∧ (ofText name).head = name := by
  have hpath : ofText name = ⟨name, none⟩ := by rw [ofText, Text.cut_of_not_mem hcolon]
  refine ⟨hpath, ?_⟩
  rw [hpath, head, Text.cut_of_not_mem hdot]

/-- A name that stands for itself as a path: it is not the star and has neither colon nor dot. -/
def IsSegment (name : String) : Prop := name ≠ "*" ∧ ':' ∉ name.toList ∧ '.' ∉ name.toList

instance (name : String) : Decidable (IsSegment name) := inferInstanceAs (Decidable (_ ∧ _ ∧ _))

namespace Scope

variable {s : Scope}

/-- The names of the fields in the order in which they are listed. -/
def fieldNames (s : Scope) : List String := s.table.fields.map Field.name

/-- The paths that a path is spelled out to: the names of all fields for the star, and any other path as it is. -/
def spelled (s : Scope) (path : String) : List String := if path = "*" then s.fieldNames else [path]

/-- A field that is found under its name resolves to what it is listed as. -/
theorem resolve_name {f : Field} (hname : IsSegment f.name) (hf : s.table.field? f.name = some f) :
    s.resolve f.name = liftM (s.listed f) := by
  obtain ⟨hstar, hcolon, hdot⟩ := hname
  obtain ⟨hpath, hhead⟩ := FieldPath.ofText_name hcolon hdot
  rw [resolve, if_neg hstar]
  dsimp only
  rw [hhead, hf, hpath]
  unfold listed
  cases hrel : f.relation? with
  | none => simp [hrel]
  | some rel => simp [hrel]

theorem mapM_resolve_fieldNames (h : ∀ f ∈ s.table.fields, s.resolve f.name = liftM (s.listed f)) :
    s.fieldNames.mapM s.resolve = liftM (s.table.fields.mapM s.listed) := by
  rw [fieldNames, List.mapM_map]
  exact mapM_eq_liftM h

/-- The paths that a path is spelled out to resolve to the fragments that it stands for. -/
theorem mapM_resolve_spelled (h : ∀ f ∈ s.table.fields, s.resolve f.name = liftM (s.listed f)) (path : String) :
    (s.spelled path).mapM s.resolve = s.fragments path := by
  unfold spelled fragments
  split
  · exact mapM_resolve_fieldNames h
  · rw [List.mapM_cons, List.mapM_nil]
    simp

/-- Paths resolve as what they are spelled out to does. -/
theorem resolveMany_spelled (h : ∀ f ∈ s.table.fields, s.resolve f.name = liftM (s.listed f)) (paths : List String) :
    s.resolveMany (paths.flatMap s.spelled) = s.resolveMany paths := by
  have hfragments : (fun path => (s.spelled path).mapM s.resolve) = s.fragments := funext (mapM_resolve_spelled h)
  rw [s.resolveMany_eq_flatten paths, resolveMany, mapM_flatMap, hfragments]
  simp

/-! ## Paths that fail -/

/-- A path without a field: it is not the star, and its head is not the name of a field. -/
def Lacks (s : Scope) (path : String) : Prop := path ≠ "*" ∧ (FieldPath.ofText path).head ∉ s.fieldNames

instance (path : String) : Decidable (s.Lacks path) := inferInstanceAs (Decidable (_ ∧ _))

/-- A path fails if it is without a field. -/
theorem resolve_error_iff {path : String} {r : Registry} {e : QueryError} :
    ((s.resolve path).run r).1 = .error e ↔
      s.Lacks path ∧ e = .fieldNotFound s.table.name (FieldPath.ofText path).head := by
  have hlacks : s.Lacks path ↔ path ≠ "*" ∧ s.table.field? (FieldPath.ofText path).head = none :=
    and_congr_right fun _ => Table.field?_eq_none_iff.symm
  constructor
  · intro h
    obtain ⟨hnone, he⟩ := resolve_error h
    refine ⟨hlacks.2 ⟨?_, hnone⟩, he⟩
    rintro rfl
    rw [resolve, if_pos rfl] at h
    cases h
  · rintro ⟨hpath, rfl⟩
    obtain ⟨hstar, hnone⟩ := hlacks.1 hpath
    rw [resolve, if_neg hstar]
    dsimp only
    rw [hnone]
    rfl

/-- Paths fail as the first of them does that is without a field. -/
theorem resolveMany_error_iff {paths : List String} {r : Registry} {e : QueryError} :
    ((s.resolveMany paths).run r).1 = .error e ↔
      ∃ path, paths.find? (fun p => s.Lacks p) = some path ∧
        e = .fieldNotFound s.table.name (FieldPath.ofText path).head := by
  have hmany : ((s.resolveMany paths).run r).1 = ((paths.mapM s.resolve).run r).1.map Fragment.commas :=
    fst_run_bind_pure (paths.mapM s.resolve) Fragment.commas r
  rw [hmany, map_eq_error_iff]
  clear hmany
  induction paths generalizing r with
  | nil =>
    rw [List.mapM_nil]
    constructor
    · intro h
      cases h
    · rintro ⟨path, h, -⟩
      cases h
  | cons path paths ih =>
    rw [fst_run_mapM_cons, bind_eq_error_iff]
    simp only [map_eq_error_iff, ih, resolve_error_iff]
    by_cases hpath : s.Lacks path
    · have hfail : ∀ f, ((s.resolve path).run r).1 ≠ .ok f := by
        intro f hf
        rw [resolve_error_iff.2 ⟨hpath, rfl⟩] at hf
        cases hf
      simp [hpath, hfail]
    · obtain ⟨f, hf⟩ : ∃ f, ((s.resolve path).run r).1 = .ok f := by
        cases hrun : ((s.resolve path).run r).1 with
        | error e' => exact absurd (resolve_error_iff.1 hrun).1 hpath
        | ok f => exact ⟨f, rfl⟩
      simp [hpath, hf]

/-- Fields whose names are paths resolve under their names to what they are listed as. -/
theorem resolve_field {name : String} {ds : List Declaration} (hs : s.table = (Table.bare name).declareAll ds)
    (hnames : ∀ n ∈ s.fieldNames, IsSegment n) : ∀ f ∈ s.table.fields, s.resolve f.name = liftM (s.listed f) := by
  intro f hf
  refine resolve_name (hnames f.name (List.mem_map_of_mem hf)) ?_
  rw [hs] at hf ⊢
  exact Table.field?_eq_some_iff.2 ⟨hf, rfl⟩

end Scope

/-- **The star and the names**: on a table that declarations make, if the names of all fields are paths, then paths
resolve as what they are spelled out to does, so the star as the names of all fields with the identity at the end, and
each field resolves under its name to what it is listed as. And whatever the names are, paths fail exactly if there is
one without a field among them, and then with the head of the first such path. -/
theorem star_spells_field_names {s : Scope} {name : String} {ds : List Declaration}
    (hs : s.table = (Table.bare name).declareAll ds) :
    ((∀ n ∈ s.fieldNames, IsSegment n) →
      (∀ paths, s.resolveMany paths = s.resolveMany (paths.flatMap s.spelled)) ∧
      s.resolve "*" = s.resolveMany s.fieldNames ∧
      (∀ f ∈ s.table.fields, s.resolve f.name = liftM (s.listed f)) ∧
      s.fieldNames.getLast? = some s.table.identity) ∧
    ∀ paths r e, ((s.resolveMany paths).run r).1 = .error e ↔
      ∃ path, paths.find? (fun p => s.Lacks p) = some path ∧
        e = .fieldNotFound s.table.name (FieldPath.ofText path).head := by
  refine ⟨fun hnames => ?_, fun paths r e => Scope.resolveMany_error_iff⟩
  have hfields := Scope.resolve_field hs hnames
  refine ⟨fun paths => (Scope.resolveMany_spelled hfields paths).symm, ?_, hfields, ?_⟩
  · have hstar : s.resolve "*" = s.resolveMany ["*"] := by
      rw [Scope.resolveMany, List.mapM_cons, List.mapM_nil]
      simp [Fragment.commas, Fragment.join]
    rw [hstar, ← Scope.resolveMany_spelled hfields ["*"]]
    simp [Scope.spelled]
  · simp [Scope.fieldNames, Table.fields, Table.identity]

/-- A person, who knows other persons. -/
def personSchema : Schema := fun m =>
  if m.path = "Person" then
    [.name "person", .scalar "name" .string,
      .relation "knows" ((Relation.along .outgoing ⟨"Knows"⟩).towards .outgoing ⟨"Person"⟩)]
  else [.name "knows"]

/-- The star between two other paths, and paths without a field behind it. -/
theorem star_between_paths :
    let s : Scope := ⟨personSchema, personSchema.table ⟨"Person"⟩⟩
    s.table = (Table.bare "Person").declareAll (personSchema ⟨"Person"⟩) ∧
    (∀ n ∈ s.fieldNames, IsSegment n) ∧
    s.resolveMany ["name", "*", "knows:tobie"] = s.resolveMany ["name", "name", "knows", "id", "knows:tobie"] ∧
    ((s.resolveMany ["*", "nickname.first:x", "age"]).run .empty).1 = .error (.fieldNotFound "person" "nickname") := by
  intro s
  have hs : s.table = (Table.bare "Person").declareAll (personSchema ⟨"Person"⟩) := rfl
  have hnames : ∀ n ∈ s.fieldNames, IsSegment n := by decide
  obtain ⟨hspelled, hfail⟩ := star_spells_field_names hs
  exact ⟨hs, hnames, (hspelled hnames).1 _, (hfail _ _ _).2 ⟨"nickname.first:x", by decide, by decide⟩⟩

end GraphQuery
