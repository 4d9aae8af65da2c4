import GraphQuery.Proofs.Paths
import GraphQuery.Proofs.RecordKey

/-!
# Names of tables next to other text

A table that is a target by itself is named as any other name is: between backticks where it has to be. In the link of a
record, in a relation and in a traversal the name of a table stands as it is (`TableSite.text_eq`). So the two ways of
writing agree for bare names and for no others (`table_name_alike_iff`), and a table with another name can be a target
by itself, but its records cannot be addressed, related or traversed (`odd_table_unquoted`).
-/

namespace GraphQuery

/-! ## Names that need no quotes -/

/-- A name is written as it is exactly when it is bare: quotes make it longer. -/
theorem Text.identifier_eq_self_iff {name : String} : identifier name = name ↔ isBare name.toList := by
  rw [← String.toList_inj, identifier, String.toList_ofList, identifierChars]
  by_cases hbare : isBare name.toList
  · simp [hbare]
  · refine iff_of_false (fun h => ?_) hbare
    have hlength := congrArg List.length h
    rw [if_neg hbare] at hlength
    simp only [List.length_cons, List.length_append, length_flatMap_escapeBacktick] at hlength
    omega

theorem Statements.text_target_none (table : String) : (target table none).text = Text.identifier table := by
  rw [Fragment.text_eq]
  exact Fragment.written_singleton _

/-! ## Places where a table is named -/

/-- A place where a text names a table next to something else: the link of a record, the three tables of a relation, the
edges of a traversal, and its target. -/
inductive TableSite
  | record (table key : String)
  | relationSource (source : Link) (edgeTable : String) (edgeKey : Option String) (goal : Link)
  | relationEdge (source : Link) (edgeTable : String) (edgeKey : Option String) (goal : Link)
  | relationGoal (source : Link) (edgeTable : String) (edgeKey : Option String) (goal : Link)
  | traversalEdges (s : Scope) (r : Registry) (rel : Relation) (key : Option String)
  | traversalTarget (s : Scope) (r : Registry) (rel : Relation) (key : Option String) (direction : Direction)
      (goal : Model)

namespace TableSite

/-- The name of the table. -/
def table : TableSite → String
  | record table _ => table
  | relationSource source _ _ _ => source.table
  | relationEdge _ edgeTable _ _ => edgeTable
  | relationGoal _ _ _ goal => goal.table
  | traversalEdges s r rel _ => (r.ensure s.schema rel.via).1.name
  | traversalTarget s r rel _ _ goal => ((r.ensure s.schema rel.via).2.ensure s.schema goal).1.name

/-- The text in which the table is named. -/
def text : TableSite → String
  | record table key => (Statements.target table (some key)).text
  | relationSource source edgeTable edgeKey goal | relationEdge source edgeTable edgeKey goal
  | relationGoal source edgeTable edgeKey goal => (Statements.relate source edgeTable edgeKey goal).text
  | traversalEdges s r rel key => (s.traversal rel key r).1
  | traversalTarget s r rel key direction goal => (s.traversal (rel.towards direction goal) key r).1

/-- The key behind the table of an edge that is a record. -/
def edgeKeyText (edgeTable : String) : Option String → String
  | some key => ":" ++ (Link.of edgeTable key).key
  | none => ""

/-- What the text has in front of the table. -/
def before : TableSite → String
  | record _ _ => ""
  | relationSource source _ _ _ => relateLead source.table
  | relationEdge source _ _ _ => relateLead source.table ++ source.text ++ "->"
  | relationGoal source edgeTable edgeKey _ =>
    relateLead source.table ++ source.text ++ "->" ++ Statements.edge edgeTable edgeKey ++ "->"
  | traversalEdges _ _ rel _ => rel.direction.text
  | traversalTarget s r rel key direction _ =>
    rel.direction.text ++ (r.ensure s.schema rel.via).1.name ++ (key.map (":" ++ ·)).getD "" ++ direction.text

/-- What the text has behind the table. -/
def after : TableSite → String
  | record table key => ":" ++ (Link.of table key).key
  | relationSource source edgeTable edgeKey goal =>
    ":" ++ source.key ++ "->" ++ Statements.edge edgeTable edgeKey ++ "->" ++ goal.text
  | relationEdge _ edgeTable edgeKey goal => edgeKeyText edgeTable edgeKey ++ "->" ++ goal.text
  | relationGoal _ _ _ goal => ":" ++ goal.key
  | traversalEdges s r rel key => (key.map (":" ++ ·)).getD "" ++ s.tailText rel (r.ensure s.schema rel.via).2
  | traversalTarget _ _ _ _ _ _ => ""

theorem edge_eq (edgeTable : String) (edgeKey : Option String) :
    Statements.edge edgeTable edgeKey = edgeTable ++ edgeKeyText edgeTable edgeKey := by
  cases edgeKey with
  | none => exact String.append_empty.symm
  | some key => exact String.append_assoc ..

/-- The name of the table stands in the text as it is. -/
theorem text_eq (site : TableSite) : site.text = site.before ++ site.table ++ site.after := by
  cases site with
  | record table key =>
    rw [text, Statements.target, Fragment.link, Fragment.text_eq, Fragment.written_singleton]
    simp [Chunk.written, Value.inline, Value.literal, Link.text, before, TableSite.table, after, Link.of,
      String.append_assoc]
  | relationSource source edgeTable edgeKey goal =>
    simp only [text, relate_text, before, TableSite.table, after, Link.text, String.append_assoc]
  | relationEdge source edgeTable edgeKey goal =>
    simp only [text, relate_text, before, TableSite.table, after, edge_eq, String.append_assoc]
  | relationGoal source edgeTable edgeKey goal =>
    simp only [text, relate_text, before, TableSite.table, after, Link.text, String.append_assoc]
  | traversalEdges s r rel key =>
    simp only [text, Scope.traversal_eq, before, TableSite.table, after, String.append_assoc]
  | traversalTarget s r rel key direction goal =>
    simp only [text, Scope.traversal_eq, Scope.tailText, Relation.towards, before, TableSite.table, after,
      String.append_assoc, String.append_empty]

end TableSite

/-- **Names of tables**: where a table is named next to something else, it is named as it is named as a target by itself
exactly when its name is bare. -/
theorem table_name_alike_iff (site : TableSite) :
    site.text = site.before ++ (Statements.target site.table none).text ++ site.after ↔
      Text.isBare site.table.toList := by
  rw [site.text_eq, Statements.text_target_none, String.append_left_inj, String.append_right_inj,
    ← Text.identifier_eq_self_iff, eq_comm]

/-- A table with a blank in its name stands in quotes as a target by itself, and without them in the link of a record,
in a relation and in a traversal. -/
theorem odd_table_unquoted :
    (Statements.target "odd table" none).text = "`odd table`" ∧
    (Statements.target "odd table" (some "k")).text = "odd table:k" ∧
    (Statements.relate ⟨"odd table", "a"⟩ "odd table" none ⟨"odd table", "b"⟩).text =
      "RELATE odd table:a->odd table->odd table:b" ∧
    (Scope.traversal ⟨fun _ => [.name "odd table"], .bare "user"⟩
      ⟨.outgoing, ⟨"Edge"⟩, .target .outgoing ⟨"Odd"⟩⟩ none .empty).1 = "->odd table->odd table" := by
  decide +kernel

end GraphQuery
