import GraphQuery.Proofs.Declarations
import GraphQuery.Schema.Shape

/-!
# Shapes follow their declarations

A shape is made by declarations of members, and so are the shapes nested in it (`Shape.ofDeclarations`). It lists each
member once, where its name was declared first and as it was declared last, and the members that a path leads to are
those that are reached name by name through nested objects (`shapes_follow_declarations`).

The invariant is that no shape has two members of one name, and no shape nested in it either (`Shape.Distinct`): a
declaration keeps it, also where it puts an object in the place of a scalar or a scalar in the place of an object
(`Shape.Distinct.member`), and under it a look-up finds the only member of a name (`Shape.get?_eq_some_iff`). A path is
followed one name after the other, so its first names lead to the shape in which the others are followed
(`Shape.resolve?_append`).
-/

namespace GraphQuery

/-! ## Declarations of members -/

/-- A declaration of a member: of a scalar, or of an object by the declarations of its own members. -/
inductive MemberDeclaration
  | scalar (name : String) (type : Scalar) (required : Bool)
  | object (name : String) (members : List MemberDeclaration) (required : Bool)

namespace MemberDeclaration

/-- The name that is declared. -/
def name : MemberDeclaration → String
  | scalar n _ _ => n
  | object n _ _ => n

/-- The member has to be there. -/
def required : MemberDeclaration → Bool
  | scalar _ _ r => r
  | object _ _ r => r

mutual

/-- The type that is declared. -/
def type : MemberDeclaration → ShapeType
  | scalar _ t _ => .scalar t
  | object _ ds _ => .object (declareAll ds [])

/-- The shape after its members were declared one after the other. -/
def declareAll : List MemberDeclaration → Shape → Shape
  | [], s => s
  | d :: ds, s => declareAll ds (s.member d.name d.type d.required)

end

/-- The member that is declared. -/
def member (d : MemberDeclaration) : ShapeMember ShapeType := ⟨d.name, d.type, d.required⟩

/-- The last declaration of a member with a name. -/
def latest (ds : List MemberDeclaration) (n : String) : Option MemberDeclaration := Declared.latest name ds n

end MemberDeclaration

open MemberDeclaration (declareAll latest)

/-- The members of an object. -/
def ShapeType.members? : ShapeType → Option Shape
  | .scalar _ => none
  | .object inner => some inner

theorem ShapeType.members?_eq_some_iff {t : ShapeType} {inner : Shape} : t.members? = some inner ↔ t = .object inner := by
  cases t <;> simp [members?]

namespace Shape

/-- The shape that is made by declarations of its members. -/
def ofDeclarations (ds : List MemberDeclaration) : Shape := declareAll ds []

theorem ofDeclarations_eq (ds : List MemberDeclaration) :
    ofDeclarations ds = Declared.putAll ShapeMember.name (ds.map MemberDeclaration.member) := by
  have hfold : ∀ s : Shape, declareAll ds s =
      (ds.map MemberDeclaration.member).foldl (fun s m => Declared.put ShapeMember.name m s) s := by
    induction ds with
    | nil => exact fun s => by rw [declareAll]; rfl
    | cons d ds ih =>
      intro s
      rw [declareAll, ih]
      rfl
  exact hfold []

/-! ## The members in order -/

theorem map_name_ofDeclarations (ds : List MemberDeclaration) :
    (ofDeclarations ds).map ShapeMember.name = (ds.map MemberDeclaration.name).eraseDups := by
  rw [ofDeclarations_eq, Declared.map_name_putAll, List.map_map]
  rfl

theorem get?_ofDeclarations (ds : List MemberDeclaration) (n : String) :
    (ofDeclarations ds).get? n = (latest ds n).map MemberDeclaration.member := by
  rw [get?, ofDeclarations_eq, Declared.get?_putAll, Declared.latest, List.filter_map, List.getLast?_map]
  rfl

theorem map_some_ofDeclarations (ds : List MemberDeclaration) : (ofDeclarations ds).map some =
    (ds.map MemberDeclaration.name).eraseDups.map fun n => (latest ds n).map MemberDeclaration.member := by
  have hnodup : ((ofDeclarations ds).map ShapeMember.name).Nodup := by
    rw [ofDeclarations_eq]
    exact Declared.nodup_putAll _
  rw [← map_name_ofDeclarations, List.map_map]
  refine List.map_congr_left fun m hm => ?_
  rw [Function.comp_apply, ← get?_ofDeclarations, get?, Declared.get?_name hnodup hm]

/-- A nested shape is made by the declarations of the last object that was declared with its name. -/
theorem exists_declarations {ds : List MemberDeclaration} {m : ShapeMember ShapeType} (hm : m ∈ ofDeclarations ds)
    {inner : Shape} (hinner : m.type = .object inner) :
    ∃ ds', latest ds m.name = some (.object m.name ds' m.required) ∧ inner = ofDeclarations ds' := by
  have hsome : some m ∈ (ofDeclarations ds).map some := List.mem_map_of_mem hm
  rw [map_some_ofDeclarations] at hsome
  obtain ⟨n, -, hn⟩ := List.mem_map.1 hsome
  obtain ⟨d, hd, rfl⟩ := Option.map_eq_some_iff.1 hn
  obtain rfl := Declared.name_of_latest hd
  cases d with
  | scalar _ _ _ =>
    rw [MemberDeclaration.member, MemberDeclaration.type] at hinner
    cases hinner
  | object _ ds' _ =>
    rw [MemberDeclaration.member, MemberDeclaration.type] at hinner
    cases hinner
    exact ⟨ds', hd, rfl⟩

/-! ## Names at every level -/

/-- No two members of the shape have one name, nor two members of a shape that is nested in it. -/
inductive Distinct : Shape → Prop
  | mk {s : Shape} (names : (s.map ShapeMember.name).Nodup)
      (nested : ∀ m ∈ s, ∀ inner, m.type = .object inner → Distinct inner) : Distinct s

theorem Distinct.member {s : Shape} (h : s.Distinct) {name : String} {type : ShapeType}
    (htype : ∀ inner, type = .object inner → Distinct inner) (required : Bool) :
    (s.member name type required).Distinct := by
  obtain ⟨hnames, hnested⟩ := h
  refine ⟨Declared.put_nodup hnames, fun m hm inner hinner => ?_⟩
  rcases Declared.mem_put hm with rfl | hm
  · exact htype inner hinner
  · exact hnested m hm inner hinner

mutual

theorem distinct_type : ∀ (d : MemberDeclaration) (inner : Shape), d.type = .object inner → inner.Distinct
  | .scalar _ _ _, _, h => by
    rw [MemberDeclaration.type] at h
    cases h
  | .object _ ds _, _, h => by
    rw [MemberDeclaration.type] at h
    cases h
    exact distinct_declareAll ds [] ⟨List.nodup_nil, List.forall_mem_nil _⟩

theorem distinct_declareAll : ∀ (ds : List MemberDeclaration) (s : Shape), s.Distinct → (declareAll ds s).Distinct
  | [], s, h => by
    rw [declareAll]
    exact h
  | d :: ds, s, h => by
    rw [declareAll]
    exact distinct_declareAll ds _ (h.member (distinct_type d) d.required)

end

theorem distinct_ofDeclarations (ds : List MemberDeclaration) : (ofDeclarations ds).Distinct :=
  distinct_declareAll ds [] ⟨List.nodup_nil, List.forall_mem_nil _⟩

theorem get?_eq_some_iff {s : Shape} (h : s.Distinct) {n : String} {m : ShapeMember ShapeType} :
    s.get? n = some m ↔ m ∈ s ∧ m.name = n := by
  obtain ⟨hnames, -⟩ := h
  constructor
  · intro hm
    exact ⟨List.mem_of_find?_eq_some hm, Declared.name_of_get? hm⟩
  · rintro ⟨hm, rfl⟩
    exact Declared.get?_name hnames hm

/-! ## Paths -/

/-- A list of names that leads to a member: each name but the last is that of an object, in the shape that the names
before it lead to, and the last is that of the member. -/
inductive Reaches : Shape → List String → ShapeMember ShapeType → Prop
  | last {s : Shape} {m : ShapeMember ShapeType} (hm : m ∈ s) : Reaches s [m.name] m
  | step {s inner : Shape} {o m : ShapeMember ShapeType} {names : List String} (ho : o ∈ s)
      (hinner : o.type = .object inner) (h : Reaches inner names m) : Reaches s (o.name :: names) m

theorem follow?_cons_cons (n n' : String) (names : List String) (s : Shape) :
    follow? (n :: n' :: names) s = (s.get? n).bind fun o => o.type.members?.bind (follow? (n' :: names)) := by
  rw [follow?]
  · rcases s.get? n with _ | ⟨_, _ | _, _⟩ <;> rfl
  · exact List.cons_ne_nil n' names

theorem follow?_eq_some_iff {names : List String} {m : ShapeMember ShapeType} {s : Shape} (h : s.Distinct) :
    follow? names s = some m ↔ Reaches s names m := by
  induction names generalizing s with
  | nil =>
    constructor <;> intro hm <;> cases hm
  | cons n names ih =>
    cases names with
    | nil =>
      rw [follow?, get?_eq_some_iff h]
      constructor
      · rintro ⟨hm, rfl⟩
        exact .last hm
      · intro hm
        cases hm with
        | last hm => exact ⟨hm, rfl⟩
        | step _ _ hnil => cases hnil
    | cons n' names =>
      simp only [follow?_cons_cons, Option.bind_eq_some_iff, get?_eq_some_iff h, ShapeType.members?_eq_some_iff]
      obtain ⟨-, hnested⟩ := h
      constructor
      · rintro ⟨o, ⟨ho, rfl⟩, inner, hinner, hm⟩
        exact .step ho hinner ((ih (hnested o ho inner hinner)).1 hm)
      · intro hm
        cases hm with
        | step ho hinner hm => exact ⟨_, ⟨ho, rfl⟩, _, hinner, (ih (hnested _ ho _ hinner)).2 hm⟩

/-- Names are followed on in the shape to which the names before them lead. -/
theorem follow?_append {names rest : List String} (hne : names ≠ []) (hrest : rest ≠ []) (s : Shape) :
    follow? (names ++ rest) s = (follow? names s).bind fun o => o.type.members?.bind (follow? rest) := by
  induction names generalizing s with
  | nil => exact absurd rfl hne
  | cons n names ih =>
    cases names with
    | nil =>
      obtain ⟨n', rest, rfl⟩ := List.exists_cons_of_ne_nil hrest
      rw [List.singleton_append, follow?_cons_cons, follow?]
    | cons n' names =>
      have htail : follow? (n' :: (names ++ rest)) = fun inner => (follow? (n' :: names) inner).bind fun o =>
          o.type.members?.bind (follow? rest) := funext (ih (List.cons_ne_nil n' names))
      rw [List.cons_append, List.cons_append, follow?_cons_cons, follow?_cons_cons, htail]
      simp only [Option.bind_assoc]

theorem resolve?_append (s : Shape) (path rest : String) :
    s.resolve? (path ++ "." ++ rest) = (s.resolve? path).bind fun o => o.type.members?.bind (·.resolve? rest) := by
  rw [resolve?, Text.split_append rfl, follow?_append (Text.split_ne_nil '.' path) (Text.split_ne_nil '.' rest)]
  rfl

end Shape

/-- **Shapes follow their declarations**: a shape lists the declared names, each once and in the order of their first
declarations, with the member that was declared last under each; the shape nested in such a member is made by its own
declarations, and has no name twice either, nor has any shape nested in it. Names without dots, joined by dots, lead to a member
exactly when each but the last is the name of an object in the shape reached so far and the last is the name of the
member in the shape reached by them. And whatever the path is, a longer path leads on from it only where it leads to an
object, and then as the rest leads on in the members of the object. -/
theorem shapes_follow_declarations (ds : List MemberDeclaration) :
    (Shape.ofDeclarations ds).map ShapeMember.name = (ds.map MemberDeclaration.name).eraseDups ∧
    (Shape.ofDeclarations ds).map some =
      (ds.map MemberDeclaration.name).eraseDups.map (fun n => (latest ds n).map MemberDeclaration.member) ∧
    (∀ m ∈ Shape.ofDeclarations ds, ∀ inner, m.type = .object inner →
      ∃ ds', latest ds m.name = some (.object m.name ds' m.required) ∧ inner = Shape.ofDeclarations ds') ∧
    (Shape.ofDeclarations ds).Distinct ∧
    (∀ (names : List String) (m : ShapeMember ShapeType), names ≠ [] → (∀ n ∈ names, '.' ∉ n.toList) →
      ((Shape.ofDeclarations ds).resolve? (".".intercalate names) = some m ↔
        Shape.Reaches (Shape.ofDeclarations ds) names m)) ∧
    ∀ (path rest : String) (m : ShapeMember ShapeType),
      (Shape.ofDeclarations ds).resolve? (path ++ "." ++ rest) = some m ↔
        ∃ o inner, (Shape.ofDeclarations ds).resolve? path = some o ∧ o.type = .object inner ∧
          Shape.resolve? inner rest = some m := by
  refine ⟨Shape.map_name_ofDeclarations ds, Shape.map_some_ofDeclarations ds,
    fun m hm inner hinner => Shape.exists_declarations hm hinner, Shape.distinct_ofDeclarations ds, ?_, ?_⟩
  · intro names m hne hnames
    rw [Shape.resolve?, Text.split_intercalate rfl hne hnames]
    exact Shape.follow?_eq_some_iff (Shape.distinct_ofDeclarations ds)
  · intro path rest m
    simp only [Shape.resolve?_append, Option.bind_eq_some_iff, ShapeType.members?_eq_some_iff]
    constructor
    · rintro ⟨o, ho, inner, hinner, hm⟩
      exact ⟨o, inner, ho, hinner, hm⟩
    · rintro ⟨o, inner, ho, hinner, hm⟩
      exact ⟨o, ho, inner, hinner, hm⟩

/-- An object that was a scalar in between has the members that it was declared with last; one of them has no name. -/
theorem last_members_reached :
    ["meta", ""] ≠ [] ∧ (∀ n ∈ ["meta", ""], '.' ∉ n.toList) ∧
    (Shape.ofDeclarations [.object "meta" [.scalar "views" .int true] true, .scalar "meta" .string false,
      .object "meta" [.scalar "" .bool false] true]).resolve? (".".intercalate ["meta", ""]) =
        some ⟨"", .scalar .bool, false⟩ := by
  have hnames : ∀ n ∈ ["meta", ""], '.' ∉ n.toList := by decide
  refine ⟨List.cons_ne_nil _ _, hnames, ?_⟩
  refine ((shapes_follow_declarations _).2.2.2.2.1 ["meta", ""] _ (List.cons_ne_nil _ _) hnames).2 ?_
  exact .step (List.mem_singleton.2 rfl) rfl (.last (List.mem_singleton.2 rfl))

/-- No step leads into a scalar, however the path goes on. -/
example : Shape.resolve? (Shape.field [] "done" .bool) "done." = none := rfl

end GraphQuery
