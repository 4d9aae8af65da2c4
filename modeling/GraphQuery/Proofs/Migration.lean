import GraphQuery.Proofs.Engine
import GraphQuery.Proofs.Plan
import GraphQuery.Proofs.Requests

/-!
# Migrations

A migration asks for the catalog of a table and sends the plan for it, if there is anything to define
(`Session.run_migrate`, `Session.run_migrate_nil`). Over a connection to a database that keeps its indexes and lists them
under their declared names (`KeepsIndexes`), a second migration finds all of them in the catalog: it asks for the
catalog only, and defines nothing (`Session.migrate_twice`). Scripted connections are such databases
(`Script.keepsIndexes`).
-/

namespace GraphQuery

open Migration

/-- The query for the catalog of a table. -/
def catalogQuery (t : Table) : String := (Fragment.compile (Statements.infoForTable t.name)).script

/-- The query that sends definitions of indexes. -/
def definitionsQuery (definitions : List Fragment) : String :=
  "\n".intercalate ((definitions.map Fragment.text).map (· ++ ";"))

/-- A database that keeps the indexes of a table. Where `lists state names`, it has at least the indexes of these names:
they are in the catalog that it tells, what it has told it goes on telling, and when it is sent definitions of declared
indexes it has these under their declared names as well. -/
structure KeepsIndexes {σ : Type} (conn : Connection σ) (t : Table) (lists : σ → List String → Prop) : Prop where
  tells : ∀ state names, lists state names → ∃ results rows found next,
    conn.query (catalogQuery t) state = (.ok results, next) ∧ Rows.lastOf results = .ok rows ∧
    rows.first Catalog.decoder = .ok found ∧ (∀ n ∈ names, (found.getD .empty).hasIndex n) ∧
    lists next ((found.getD .empty).indexes.map (·.1))
  keeps : ∀ state names (sent : List (String × Fragment)), lists state names → sent ≠ [] →
    sent.Sublist (declaredIndexes t) → ∃ results next,
      conn.query (definitionsQuery (sent.map (·.2))) state = (.ok results, next) ∧
      lists next (names ++ sent.map (·.1))

namespace Session

variable {σ : Type} {conn : Connection σ} {s : Session} {m : Model} {state told : σ}

/-! ## One migration -/

theorem run_raw {q : Statement} {results : List Json} (h : conn.query q.script state = (.ok results, told)) :
    (raw q).run conn state = (Rows.lastOf results, told) ∧ (raw q).requests conn state = [.query q.script] := by
  have hrun : (execute q.script).run conn state = (.ok results, told) := h
  constructor
  · rw [raw, Exchange.run_bind hrun]
    rfl
  · rw [raw, Exchange.requests_bind hrun]
    rfl

theorem run_info {results : List Json} {rows : Rows} {found : Option Catalog}
    (h : conn.query (catalogQuery (s.table m)) state = (.ok results, told)) (hrows : Rows.lastOf results = .ok rows)
    (hfound : rows.first Catalog.decoder = .ok found) :
    (s.info m).run conn state = (.ok (found.getD .empty), told) ∧
      (s.info m).requests conn state = [.query (catalogQuery (s.table m))] := by
  obtain ⟨hrun, hsent⟩ := run_raw h
  rw [hrows] at hrun
  have hfirst : (Exchange.done (rows.first Catalog.decoder)).run conn told = (.ok found, told) := by rw [hfound]; rfl
  constructor
  · rw [info, Exchange.run_bind hrun, Exchange.run_bind hfirst]
    rfl
  · rw [info, Exchange.requests_bind hrun, Exchange.requests_bind hfirst, hsent]
    rfl

/-- Where the catalog cannot be read, the migration fails in the same way, and nothing is sent after the query for it. -/
theorem run_migrate_error {e : QueryError} (h : (s.info m).run conn state = (.error e, told)) :
    (s.migrate m).run conn state = (.error e, told) ∧
      (s.migrate m).requests conn state = (s.info m).requests conn state :=
  ⟨Exchange.run_bind_error h, Exchange.requests_bind_error h⟩

variable {c : Catalog} (hrun : (s.info m).run conn state = (.ok c, told))
  (hsent : (s.info m).requests conn state = [.query (catalogQuery (s.table m))])

include hrun hsent

/-- Where nothing is missing, nothing is sent after the query for the catalog. -/
theorem run_migrate_nil (hplan : plan (s.table m) c = []) :
    (s.migrate m).run conn state = (.ok [], told) ∧
      (s.migrate m).requests conn state = [.query (catalogQuery (s.table m))] := by
  rw [migrate, Exchange.run_bind hrun, Exchange.requests_bind hrun, hsent, hplan]
  exact ⟨rfl, rfl⟩

/-- Where something is missing, its definitions are sent together. -/
theorem run_migrate (hplan : plan (s.table m) c ≠ []) {results : List Json} {next : σ}
    (h : conn.query (definitionsQuery (plan (s.table m) c)) told = (.ok results, next)) :
    (s.migrate m).run conn state = (.ok ((plan (s.table m) c).map Fragment.text), next) ∧
      (s.migrate m).requests conn state =
        [.query (catalogQuery (s.table m)), .query (definitionsQuery (plan (s.table m) c))] := by
  have hexecute : (execute (definitionsQuery (plan (s.table m) c))).run conn told = (.ok results, next) := h
  have hne : ¬ ((plan (s.table m) c).map Fragment.text).isEmpty := by simpa using hplan
  rw [migrate, Exchange.run_bind hrun, Exchange.requests_bind hrun, hsent, if_neg hne]
  constructor
  · exact Exchange.run_bind hexecute
  · exact congrArg ([Request.query (catalogQuery (s.table m))] ++ ·) (Exchange.requests_bind hexecute)

omit hrun hsent

/-! ## Two migrations -/

section Keeping

variable {lists : σ → List String → Prop} (hkeeps : KeepsIndexes conn (s.table m) lists) {names : List String}
  (hlists : lists state names)

include hkeeps hlists

/-- After a migration all declared indexes are listed. -/
theorem migrate_lists : ∃ c next after,
    ((s.info m).run conn state).1 = .ok c ∧
    (s.migrate m).run conn state = (.ok ((plan (s.table m) c).map Fragment.text), next) ∧
    (s.migrate m).requests conn state = .query (catalogQuery (s.table m)) ::
      (if (plan (s.table m) c).isEmpty then [] else [.query (definitionsQuery (plan (s.table m) c))]) ∧
    lists next after ∧ ∀ n ∈ (declaredIndexes (s.table m)).map (·.1), n ∈ after := by
  obtain ⟨results, rows, found, told, hquery, hrows, hfound, -, htold⟩ := hkeeps.tells state names hlists
  obtain ⟨hrun, hsent⟩ := run_info hquery hrows hfound
  generalize found.getD .empty = c at hrun htold
  by_cases hplan : plan (s.table m) c = []
  · obtain ⟨hmigrate, hrequests⟩ := run_migrate_nil hrun hsent hplan
    refine ⟨c, told, _, by rw [hrun], by rw [hmigrate, hplan]; rfl, by rw [hrequests, hplan]; rfl, htold, ?_⟩
    intro n hn
    exact (hasIndex_iff c n).1 (plan_eq_nil_iff.1 hplan n hn)
  · have hplanned : planned (s.table m) c ≠ [] := by
      intro hnil
      exact hplan (by rw [plan_eq_map_planned, hnil]; rfl)
    obtain ⟨answer, next, hdefine, hnext⟩ := hkeeps.keeps told _ _ htold hplanned (planned_sublist _ _)
    rw [← plan_eq_map_planned] at hdefine
    obtain ⟨hmigrate, hrequests⟩ := run_migrate hrun hsent hplan hdefine
    refine ⟨c, next, _, by rw [hrun], hmigrate, by rw [hrequests, if_neg (by simpa using hplan)], hnext, ?_⟩
    -- A declared name was in the catalog already, or it was missing and so its index was defined.
    intro n hn
    rw [map_fst_planned, List.mem_append]
    by_cases hc : c.hasIndex n
    · exact .inl ((hasIndex_iff c n).1 hc)
    · exact .inr (mem_missingNames.2 ⟨hn, hc⟩)

/-- Where all declared indexes are listed, a migration asks for the catalog only. -/
theorem migrate_listed (hall : ∀ n ∈ (declaredIndexes (s.table m)).map (·.1), n ∈ names) : ∃ next,
    (s.migrate m).run conn state = (.ok [], next) ∧
      (s.migrate m).requests conn state = [.query (catalogQuery (s.table m))] := by
  obtain ⟨results, rows, found, told, hquery, hrows, hfound, hnames, -⟩ := hkeeps.tells state names hlists
  obtain ⟨hrun, hsent⟩ := run_info hquery hrows hfound
  have hplan : plan (s.table m) (found.getD .empty) = [] := by
    rw [plan_eq_nil_iff]
    intro n hn
    exact hnames n (hall n hn)
  exact ⟨told, run_migrate_nil hrun hsent hplan⟩

/-- The first migration defines what is missing, and the second one nothing. -/
theorem migrate_twice : ∃ c first second,
    ((s.info m).run conn state).1 = .ok c ∧
    (s.migrate m).run conn state = (.ok ((plan (s.table m) c).map Fragment.text), first) ∧
    (s.migrate m).requests conn state = .query (catalogQuery (s.table m)) ::
      (if (plan (s.table m) c).isEmpty then [] else [.query (definitionsQuery (plan (s.table m) c))]) ∧
    (s.migrate m).run conn first = (.ok [], second) ∧
    (s.migrate m).requests conn first = [.query (catalogQuery (s.table m))] := by
  obtain ⟨c, first, after, hinfo, hrun, hsent, hafter, hall⟩ := migrate_lists hkeeps hlists
  obtain ⟨second, hsecond⟩ := migrate_listed hkeeps hafter hall
  exact ⟨c, first, second, hinfo, hrun, hsent, hsecond⟩

end Keeping

end Session

/-! ## Scripted databases -/

/-- A script keeps the indexes of a table where the engine reads the query for the catalog, and the definitions of the
indexes, as what they are. -/
theorem Script.keepsIndexes {t : Table} (strategy : Strategy) (hquery : OneStatement (catalogQuery t))
    (hcatalog : ∀ indexes, execute indexes (catalogQuery t) = (catalog indexes, indexes))
    (hdefine : ∀ d ∈ declaredIndexes t, OneStatement d.2.text ∧ Defines d.2.text d.1) :
    KeepsIndexes (connection strategy) t Lists where
  tells := by
    rintro script names ⟨hresponses, hnames⟩
    have hreply := reply_eq hresponses (catalogQuery t)
    rw [hquery.statements_eq] at hreply
    simp only [executeAll, hcatalog] at hreply
    refine ⟨_, ⟨catalog script.indexes⟩, some ⟨[], [], script.indexes, [], []⟩, _, hreply, rfl, rfl, hnames,
      hresponses, ?_⟩
    intro n hn
    exact (hasIndex_iff ⟨[], [], script.indexes, [], []⟩ n).2 hn
  keeps := by
    intro script names sent hlists _ hsent
    have hone : ∀ s ∈ (sent.map (·.2)).map Fragment.text, OneStatement s := by
      intro s hs
      rw [List.map_map] at hs
      obtain ⟨d, hd, rfl⟩ := List.mem_map.1 hs
      exact (hdefine d (hsent.mem hd)).1
    refine hlists.reply (statements_lines hone) ?_
    intro n hn
    obtain ⟨d, hd, rfl⟩ := List.mem_map.1 hn
    exact ⟨d.2.text, List.mem_map_of_mem (List.mem_map_of_mem hd), (hdefine d (hsent.mem hd)).2⟩

/-- Sessions in which each table has an index over two columns and an index of a field. -/
def indexedSession : Session :=
  ⟨fun _ => [.name "user", .index ⟨["first", "last"], none, true, false⟩,
    .field ⟨"email", .scalar .string, none, some ⟨"email_idx", false, false⟩⟩], .empty, .webSocket⟩

theorem indexedSession_keeps :
    KeepsIndexes (Script.connection .webSocket) (indexedSession.table ⟨"User"⟩) Script.Lists := by
  have htext : catalogQuery (indexedSession.table ⟨"User"⟩) = "INFO FOR TABLE user" := by decide +kernel
  refine Script.keepsIndexes .webSocket ?_ ?_ ?_
  · rw [htext]
    decide +kernel
  · rw [htext]
    intro indexes
    rfl
  · have hdeclared : (declaredIndexes (indexedSession.table ⟨"User"⟩)).map (fun d => (d.1, d.2.text)) =
        [("first_last_idx", "DEFINE INDEX first_last_idx ON TABLE user COLUMNS first, last UNIQUE"),
          ("email_idx", "DEFINE INDEX email_idx ON TABLE user COLUMNS email")] := by decide +kernel
    have htable : Script.Defines "DEFINE INDEX first_last_idx ON TABLE user COLUMNS first, last UNIQUE"
        "first_last_idx" := Script.defines_of_words rfl (by decide +kernel)
    have hemail : Script.Defines "DEFINE INDEX email_idx ON TABLE user COLUMNS email" "email_idx" :=
      Script.defines_of_words rfl (by decide +kernel)
    intro d hd
    have hmem := List.mem_map_of_mem (f := fun d => (d.1, d.2.text)) hd
    rw [hdeclared] at hmem
    simp only [List.mem_cons, List.not_mem_nil, or_false, Prod.mk.injEq] at hmem
    rcases hmem with ⟨hname, hdefinition⟩ | ⟨hname, hdefinition⟩
    · rw [hname, hdefinition]
      exact ⟨by decide +kernel, htable⟩
    · rw [hname, hdefinition]
      exact ⟨by decide +kernel, hemail⟩

/-- **Migrations**: a plan has one statement for each declared index name that the catalog does not have, in the order
of the first declarations and with the first declaration's statement, and it defines no other index; with these names
in the catalog the next plan is empty; a larger catalog leaves a part of the plan; and over a database that keeps the
indexes, a migration sends its plan, and the migration after it asks for the catalog only and defines nothing. -/
theorem migration_defines_missing :
    (∀ (t : Table) (c : Catalog),
      (plan t c).map some = (missingNames t c).map (fun n => (declaredIndexes t).lookup n) ∧
      (missingNames t c).Nodup ∧
      (∀ n, n ∈ missingNames t c ↔ n ∈ (declaredIndexes t).map (·.1) ∧ ¬ c.hasIndex n) ∧
      (∀ n, (∃ f ∈ plan t c, DefinesIndex n f) ↔ n ∈ missingNames t c)) ∧
    (∀ (t : Table) (c : Catalog) (value : String → Json),
      plan t (c.addIndexes ((missingNames t c).map fun n => (n, value n))) = []) ∧
    (∀ (t : Table) (c d : Catalog), (∀ n, c.hasIndex n → d.hasIndex n) → (plan t d).Sublist (plan t c)) ∧
    ∀ {σ : Type} (conn : Connection σ) (s : Session) (m : Model) (lists : σ → List String → Prop),
      KeepsIndexes conn (s.table m) lists → ∀ state names, lists state names → ∃ c first second,
        ((s.info m).run conn state).1 = .ok c ∧
        (s.migrate m).run conn state = (.ok ((plan (s.table m) c).map Fragment.text), first) ∧
        (s.migrate m).requests conn state = .query (catalogQuery (s.table m)) ::
          (if (plan (s.table m) c).isEmpty then [] else [.query (definitionsQuery (plan (s.table m) c))]) ∧
        (s.migrate m).run conn first = (.ok [], second) ∧
        (s.migrate m).requests conn first = [.query (catalogQuery (s.table m))] := by
  refine ⟨fun t c => ⟨plan_map_some t c, nodup_missingNames t c, fun _ => mem_missingNames, exists_defines_iff t c⟩,
    plan_addIndexes, fun t c d h => plan_sublist h, ?_⟩
  intro σ conn s m lists hkeeps state names hlists
  exact Session.migrate_twice hkeeps hlists

/-- With one of the two indexes in the catalog a part of the plan is left; and from an empty script on, the first
migration defines both indexes and the second one asks for the catalog only. -/
theorem indexes_migrated_once :
    (∀ n, Catalog.empty.hasIndex n → (Catalog.empty.addIndexes [("email_idx", .null)]).hasIndex n) ∧
    (plan (indexedSession.table ⟨"User"⟩) (Catalog.empty.addIndexes [("email_idx", .null)])).Sublist
      (plan (indexedSession.table ⟨"User"⟩) .empty) ∧
    KeepsIndexes (Script.connection .webSocket) (indexedSession.table ⟨"User"⟩) Script.Lists ∧
    Script.empty.Lists [] ∧
    ∃ first second,
      (indexedSession.migrate ⟨"User"⟩).run (Script.connection .webSocket) .empty =
        (.ok ["DEFINE INDEX first_last_idx ON TABLE user COLUMNS first, last UNIQUE",
          "DEFINE INDEX email_idx ON TABLE user COLUMNS email"], first) ∧
      (indexedSession.migrate ⟨"User"⟩).run (Script.connection .webSocket) first = (.ok [], second) ∧
      (indexedSession.migrate ⟨"User"⟩).requests (Script.connection .webSocket) first =
        [.query "INFO FOR TABLE user"] := by
  have hlarger : ∀ n, Catalog.empty.hasIndex n → (Catalog.empty.addIndexes [("email_idx", .null)]).hasIndex n := by
    intro n hn
    exact absurd hn Bool.false_ne_true
  have hlists : Script.empty.Lists [] := ⟨rfl, by simp⟩
  refine ⟨hlarger, migration_defines_missing.2.2.1 _ _ _ hlarger, indexedSession_keeps, hlists, ?_⟩
  obtain ⟨c, first, second, hinfo, hrun, -, hsecond, hsent⟩ :=
    migration_defines_missing.2.2.2 _ indexedSession ⟨"User"⟩ _ indexedSession_keeps .empty [] hlists
  have hempty : ((indexedSession.info ⟨"User"⟩).run (Script.connection .webSocket) .empty).1 = .ok Catalog.empty := by
    rfl
  rw [hempty] at hinfo
  cases hinfo
  refine ⟨first, second, ?_, hsecond, ?_⟩
  · have htexts : (plan (indexedSession.table ⟨"User"⟩) .empty).map Fragment.text =
        ["DEFINE INDEX first_last_idx ON TABLE user COLUMNS first, last UNIQUE",
          "DEFINE INDEX email_idx ON TABLE user COLUMNS email"] := by decide +kernel
    rw [hrun, htexts]
  · rw [hsent]
    decide +kernel

end GraphQuery
