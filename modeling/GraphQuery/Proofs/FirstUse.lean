import GraphQuery.Proofs.Interleaving
import GraphQuery.Proofs.Paths

/-!
# First uses do not change answers

Looking something up in a registry may make entries in it: an entry is made when a model is used first, and the
traversal of a relation uses the models of its edges and of its target (`Lookup`). As long as nothing is registered,
every entry is what its model declares (`Registry.Described`). Every look-up keeps that and has one answer in all such
registries (`Steady`), however the models refer to each other; so what was looked up before makes no difference
(`lookups_independent`).
-/

namespace GraphQuery

/-! ## Described registries -/

namespace Registry

variable {schema : Schema} {r : Registry}

/-- Every entry is what its model declares. -/
def Described (schema : Schema) (r : Registry) : Prop := ∀ m t, r.table? m = some t → t = schema.table m

theorem described_empty (schema : Schema) : Described schema .empty := fun _ _ h => by cases h

theorem ensure_eq_insertNew (schema : Schema) (m : Model) (r : Registry) :
    r.ensure schema m = r.insertNew m (schema.table m) := by
  unfold ensure insertNew
  cases r.table? m <;> rfl

/-- A use of a model gives what the model declares, whether it is the first or not. -/
theorem Described.ensure (h : r.Described schema) (m : Model) :
    (r.ensure schema m).1 = schema.table m ∧ (r.ensure schema m).2.Described schema := by
  have hentry : (r.table? m).getD (schema.table m) = schema.table m := by
    cases hm : r.table? m with
    | none => rfl
    | some t => exact h m t hm
  rw [ensure_eq_insertNew, fst_insertNew, hentry]
  refine ⟨rfl, fun n t hn => ?_⟩
  rw [table?_insertNew, hentry] at hn
  split at hn
  · next heq =>
    subst heq
    exact (Option.some.inj hn).symm
  · exact h n t hn

end Registry

/-! ## Steady programs -/

/-- A program that keeps a registry described, and has one and the same result in all described registries. -/
def Steady {α : Type} (schema : Schema) (x : StateM Registry α) : Prop :=
  ∃ a, ∀ r : Registry, r.Described schema → (x r).1 = a ∧ (x r).2.Described schema

namespace Steady

variable {schema : Schema} {ε α β : Type}

theorem pure (a : α) : Steady schema (Pure.pure a) := ⟨a, fun _ h => ⟨rfl, h⟩⟩

theorem ensure (m : Model) : Steady schema (modifyGet (Registry.ensure schema m)) :=
  ⟨schema.table m, fun _ h => h.ensure m⟩

/-- A program goes on with a result that it has in some registry. -/
theorem bind {x : StateM Registry α} {f : α → StateM Registry β} (hx : Steady schema x)
    (hf : ∀ r, Steady schema (f (x r).1)) : Steady schema (x >>= f) := by
  obtain ⟨a, hx⟩ := hx
  obtain ⟨b, hb⟩ := hf .empty
  rw [(hx .empty (Registry.described_empty schema)).1] at hb
  refine ⟨b, fun r hr => ?_⟩
  obtain ⟨ha, hdescribed⟩ := hx r hr
  have hrun : (x >>= f) r = f (x r).1 (x r).2 := rfl
  rw [hrun, ha]
  exact hb _ hdescribed

theorem map {x : StateM Registry α} (hx : Steady schema x) (g : α → β) :
    Steady schema (x >>= fun a => Pure.pure (g a)) := hx.bind fun _ => pure _

theorem mapM {f : α → StateM Registry β} (hf : ∀ a, Steady schema (f a)) : ∀ as : List α, Steady schema (as.mapM f)
  | [] => pure []
  | a :: as => by
    rw [List.mapM_cons]
    exact (hf a).bind fun _ => (mapM hf as).map _

/-! A failure ends a program but keeps the registry. -/

theorem outcome (a : Except ε α) : Steady schema (ExceptT.mk (Pure.pure a) : ExceptT ε (StateM Registry) α).run :=
  pure a

theorem lift {x : StateM Registry α} (hx : Steady schema x) :
    Steady schema (liftM x : ExceptT ε (StateM Registry) α).run := by
  show Steady schema (x >>= fun a => Pure.pure (Except.ok a))
  exact hx.map Except.ok

theorem bindExcept {x : ExceptT ε (StateM Registry) α} {f : α → ExceptT ε (StateM Registry) β}
    (hx : Steady schema x.run) (hf : ∀ a, Steady schema (f a).run) : Steady schema (x >>= f).run := by
  rw [ExceptT.run_bind]
  refine hx.bind fun r => ?_
  cases (x.run r).1 with
  | error e => exact pure (Except.error e)
  | ok a => exact hf a

theorem mapMExcept {f : α → ExceptT ε (StateM Registry) β} (hf : ∀ a, Steady schema (f a).run) :
    ∀ as : List α, Steady schema (as.mapM f).run
  | [] => outcome (.ok [])
  | a :: as => by
    rw [List.mapM_cons]
    exact bindExcept (hf a) fun b => bindExcept (mapMExcept hf as) fun bs => outcome (.ok (b :: bs))

end Steady

/-! ## Paths and traversals -/

namespace Scope

variable (s : Scope)

theorem steady_enter (schema : Schema) (m : Model) : Steady schema (modifyGet (enter schema m)) := by
  refine ⟨⟨schema, schema.table m⟩, fun r hr => ⟨?_, (hr.ensure m).2⟩⟩
  exact congrArg (Scope.mk schema) (hr.ensure m).1

theorem steady_tableOf (m : Model) : Steady s.schema (s.tableOf m) := (Steady.ensure m).map _

theorem steady_traversal (rel : Relation) (key : Option String) : Steady s.schema (s.traversal rel key) := by
  refine (s.steady_tableOf rel.via).bind fun _ => ?_
  cases rel.tail with
  | edges => exact .pure _
  | selector text => exact .pure _
  | target direction model => exact (s.steady_tableOf model).map _

theorem steady_listed (f : Field) : Steady s.schema (s.listed f) := by
  unfold listed
  cases f.relation? with
  | none => exact .pure _
  | some rel => exact (s.steady_traversal rel none).map _

theorem steady_resolveAll : Steady s.schema s.resolveAll :=
  (Steady.mapM s.steady_listed _).map _

theorem steady_resolve (path : String) : Steady s.schema (s.resolve path).run := by
  rcases s.resolve_cases path with ⟨-, h⟩ | ⟨-, -, h⟩ | ⟨-, -, h⟩ | ⟨-, -, f, rel, -, -, h⟩ <;> rw [h]
  · exact s.steady_resolveAll.lift
  · exact .outcome _
  · exact .outcome (.ok _)
  · exact .bindExcept (s.steady_traversal rel _).lift fun text => .outcome (.ok _)

theorem steady_resolveMany (paths : List String) : Steady s.schema (s.resolveMany paths).run :=
  .bindExcept (.mapMExcept s.steady_resolve paths) fun fields => .outcome (.ok (Fragment.commas fields))

end Scope

/-! ## Look-ups -/

/-- Whose paths are resolved: those of a model, whose entry is made if it is missing, or those of a table that is known
already. -/
inductive Owner
  | model (m : Model)
  | table (t : Table)

/-- The scope in which the paths of an owner are resolved. -/
def Owner.scope (schema : Schema) : Owner → StateM Registry Scope
  | model m => modifyGet (Scope.enter schema m)
  | table t => return ⟨schema, t⟩

/-- A call that looks something up: the table of a model, what one path, several paths or the star resolve to, or the
text of a traversal. -/
inductive Lookup
  | ensure (m : Model)
  | resolve (o : Owner) (path : String)
  | resolveMany (o : Owner) (paths : List String)
  | resolveAll (o : Owner)
  | traversal (o : Owner) (rel : Relation) (key : Option String)

/-- What a look-up gives. -/
inductive Answer
  | table (t : Table)
  | fragment (f : Except QueryError Fragment)
  | text (s : String)

namespace Lookup

/-- The answer of a look-up, and the registry after it. -/
def run (schema : Schema) : Lookup → StateM Registry Answer
  | ensure m => return .table (← modifyGet (Registry.ensure schema m))
  | resolve o path => do
    let s ← o.scope schema
    return .fragment (← (s.resolve path).run)
  | resolveMany o paths => do
    let s ← o.scope schema
    return .fragment (← (s.resolveMany paths).run)
  | resolveAll o => do
    let s ← o.scope schema
    return .fragment (.ok (← s.resolveAll))
  | traversal o rel key => do
    let s ← o.scope schema
    return .text (← s.traversal rel key)

/-- The answers of look-ups in order, and the registry after them. -/
def runAll (schema : Schema) (ls : List Lookup) : StateM Registry (List Answer) := ls.mapM (run schema)

/-- The answer of a look-up in a registry in which nothing was looked up before. -/
def fresh (schema : Schema) (l : Lookup) : Answer := (l.run schema .empty).1

variable {schema : Schema}

/-- What is done in the scope of an owner is steady if it is in all scopes among the models of the schema. -/
theorem steady_within {f : Scope → StateM Registry Answer} (hf : ∀ t, Steady schema (f ⟨schema, t⟩)) :
    ∀ o : Owner, Steady schema (o.scope schema >>= f)
  | .model m => (Scope.steady_enter schema m).bind fun _ => hf _
  | .table t => (Steady.pure _).bind fun _ => hf t

theorem steady_run : ∀ l : Lookup, Steady schema (l.run schema)
  | ensure m => (Steady.ensure m).map _
  | resolve o path => steady_within (fun t => (Scope.steady_resolve ⟨schema, t⟩ path).map _) o
  | resolveMany o paths =>
    steady_within (fun t => (Scope.steady_resolveMany ⟨schema, t⟩ paths).map _) o
  | resolveAll o => steady_within (fun t => (Scope.steady_resolveAll ⟨schema, t⟩).map _) o
  | traversal o rel key =>
    steady_within (fun t => (Scope.steady_traversal ⟨schema, t⟩ rel key).map _) o

/-- One look-up: the answer is the fresh one, and every entry is what its model declares afterwards as before. -/
theorem run_described (l : Lookup) {r : Registry} (hr : r.Described schema) :
    (l.run schema r).1 = l.fresh schema ∧ (l.run schema r).2.Described schema := by
  obtain ⟨a, ha⟩ := steady_run l
  have hfresh := (ha .empty (Registry.described_empty schema)).1
  exact ⟨(ha r hr).1.trans hfresh.symm, (ha r hr).2⟩

/-- A run of look-ups. -/
theorem runAll_described (ls : List Lookup) {r : Registry} (hr : r.Described schema) :
    (runAll schema ls r).1 = ls.map (fresh schema) ∧ (runAll schema ls r).2.Described schema := by
  induction ls generalizing r with
  | nil => exact ⟨rfl, hr⟩
  | cons l ls ih =>
    obtain ⟨hanswer, hnext⟩ := run_described l hr
    obtain ⟨hanswers, hlast⟩ := ih hnext
    have hrun : runAll schema (l :: ls) r =
        ((l.run schema r).1 :: (runAll schema ls (l.run schema r).2).1, (runAll schema ls (l.run schema r).2).2) := by
      rw [runAll, List.mapM_cons]
      rfl
    rw [hrun, hanswer, hanswers]
    exact ⟨rfl, hlast⟩

end Lookup

/-- **First uses do not matter**: after any look-ups, failed ones among them, every look-up gives what it gives in a
fresh registry; the answers of a run of look-ups are their fresh answers, one by one; and every entry that was made on
the way is what its model declares. -/
theorem lookups_independent (schema : Schema) (before : List Lookup) :
    (∀ l : Lookup, (l.run schema (Lookup.runAll schema before .empty).2).1 = (l.run schema .empty).1) ∧
    (Lookup.runAll schema before .empty).1 = before.map (fun l => (l.run schema .empty).1) ∧
    ∀ m t, (Lookup.runAll schema before .empty).2.table? m = some t → t = schema.table m := by
  obtain ⟨hanswers, hdescribed⟩ := Lookup.runAll_described before (Registry.described_empty schema)
  exact ⟨fun l => (l.run_described hdescribed).1, hanswers, hdescribed⟩

end GraphQuery
