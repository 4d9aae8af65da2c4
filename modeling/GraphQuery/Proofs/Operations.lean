import GraphQuery.Connection.Scripted
import GraphQuery.Proofs.Chain
import GraphQuery.Proofs.Migration
import GraphQuery.Proofs.Payload
import GraphQuery.Proofs.Select
import GraphQuery.Session.Options

/-!
# What operations send

The outcome of some operations is decided before anything is sent (`Operation.Decided`): they are refused, or there is
nothing to write. Any other operation that is not a migration or a live query sends one query and makes its outcome of
the reply (`Operation.decided_or_asks`); a migration sends a second one where the catalog that it was told lacks an
index (`Session.migrate_reported`). What the library refuses is not in the log of a scripted connection
(`Operation.run_local_error`); together this is `operations_fail_fast`.
-/

namespace GraphQuery

/-! ## Errors -/

namespace QueryError

/-- An error by which the library itself refuses an operation. -/
def IsLocal : QueryError → Prop
  | fieldNotFound _ _ | unsupported _ _ | emptyInput _ | emptyChain | invalidSelection _ => True
  | _ => False

/-- An error that is found in the reply to a query. -/
def IsOfReply : QueryError → Prop
  | emptyResponse | mapping _ => True
  | _ => False

theorem IsOfReply.not_isLocal {e : QueryError} (h : e.IsOfReply) : ¬ e.IsLocal := by
  cases e with
  | emptyResponse => exact id
  | mapping _ => exact id
  | _ => exact h.elim

end QueryError

/-! ## Exchanges of one query -/

namespace Exchange

variable {α β σ : Type} {e : Exchange α}

/-- The exchange sends one query, and makes its outcome of the results. -/
def Asks (e : Exchange α) : Prop :=
  ∃ (text : String) (read : List Json → Except QueryError α), e = (ask text >>= fun results => done (read results)) ∧
    ∀ results err, read results = .error err → err.IsOfReply

theorem Asks.bind (h : e.Asks) {g : α → Except QueryError β} (hg : ∀ a err, g a = .error err → err.IsOfReply) :
    (e >>= fun a => done (g a)).Asks := by
  obtain ⟨text, read, rfl, hread⟩ := h
  refine ⟨text, fun results => (read results).bind g, ?_, ?_⟩
  · refine congrArg (query text) (funext fun reply => ?_)
    cases reply with
    | error err => rfl
    | ok results =>
      have hdone : (done (read results) >>= fun a => done (g a)) = done ((read results).bind g) := by
        cases read results <;> rfl
      exact hdone
  · intro results err (herr : (read results).bind g = .error err)
    rcases bind_eq_error_iff.1 herr with hresult | ⟨a, -, hmade⟩
    · exact hread results err hresult
    · exact hg a err hmade

/-- One query is sent, and an error in reply is the outcome. -/
theorem Asks.run (h : e.Asks) (c : Connection σ) (s : σ) :
    ∃ text, e.requests c s = [.query text] ∧
      ∀ err t, c.query text s = (.error err, t) → e.run c s = (.error err, t) := by
  obtain ⟨text, read, rfl, -⟩ := h
  refine ⟨text, requests_ask text read c s, ?_⟩
  intro err t hreply
  rw [run_ask, hreply]
  rfl

theorem Asks.run_error (h : e.Asks) {c : Connection σ} {s : σ} {err : QueryError} (herr : (e.run c s).1 = .error err) :
    err.IsOfReply ∨ ∃ text t, (c.query text t).1 = .error err := by
  obtain ⟨text, read, rfl, hread⟩ := h
  rw [run_ask] at herr
  rcases bind_eq_error_iff.1 herr with hreply | ⟨results, -, hresult⟩
  · exact .inr ⟨text, s, hreply⟩
  · exact .inl (hread results err hresult)

end Exchange

theorem Rows.lastOf_error {results : List Json} {err : QueryError} (h : Rows.lastOf results = .error err) :
    err.IsOfReply := by
  rw [lastOf] at h
  split at h
  · cases h
  · cases h
    exact trivial

theorem Rows.decode_error {α : Type} {d : Decoder α} {r : Rows} {err : QueryError} (h : r.decode d = .error err) :
    err.IsOfReply := by
  obtain ⟨cause, -, rfl⟩ := mapError_eq_error_iff.1 h
  exact trivial

theorem Rows.first_error {α : Type} {d : Decoder α} {r : Rows} {err : QueryError} (h : r.first d = .error err) :
    err.IsOfReply := decode_error (map_eq_error_iff.1 h)

theorem Session.raw_asks (q : Statement) : (raw q).Asks := ⟨q.script, Rows.lastOf, rfl, fun _ _ => Rows.lastOf_error⟩

/-! ## Catalogs -/

/-- The catalog that the results of a query tell: the first row of the last result. Where there are no rows, nothing is
defined. -/
def Catalog.ofResults (results : List Json) : Except QueryError Catalog :=
  (Rows.lastOf results).bind fun rows => (rows.first decoder).map (·.getD .empty)

theorem Catalog.ofResults_eq_ok_iff {results : List Json} {c : Catalog} : ofResults results = .ok c ↔
    ∃ before last catalogs, results = before ++ [last] ∧ Rows.decode decoder ⟨last⟩ = .ok catalogs ∧
      c = catalogs.head?.getD .empty := by
  have hlast (before : List Json) (last : Json) : ofResults (before ++ [last]) =
      (Rows.decode decoder ⟨last⟩).map (·.head?.getD .empty) := by
    rw [ofResults, Rows.lastOf, List.getLast?_concat]
    cases h : Rows.decode decoder ⟨last⟩ with
    | error err => simp [Rows.first, h, Except.bind, Except.map]
    | ok catalogs => simp [Rows.first, h, Except.bind, Except.map]
  constructor
  · intro h
    rcases results.eq_nil_or_concat' with rfl | ⟨before, last, rfl⟩
    · cases h
    · rw [hlast] at h
      cases hdecode : Rows.decode decoder ⟨last⟩ with
      | error err =>
        rw [hdecode] at h
        cases h
      | ok catalogs =>
        rw [hdecode] at h
        cases h
        exact ⟨before, last, catalogs, rfl, hdecode, rfl⟩
  · rintro ⟨before, last, catalogs, rfl, hdecode, rfl⟩
    rw [hlast, hdecode]
    rfl

theorem Catalog.ofResults_error {results : List Json} {err : QueryError} (h : ofResults results = .error err) :
    err.IsOfReply := by
  rcases bind_eq_error_iff.1 h with hrows | ⟨rows, -, hfound⟩
  · exact Rows.lastOf_error hrows
  · exact Rows.first_error (map_eq_error_iff.1 hfound)

theorem Session.info_eq (s : Session) (m : Model) : s.info m =
    Exchange.ask (catalogQuery (s.table m)) >>= fun results => .done (Catalog.ofResults results) := by
  refine congrArg (Exchange.query _) (funext fun reply => ?_)
  cases reply with
  | error err => rfl
  | ok results =>
    have hresults : (Exchange.done (Rows.lastOf results) >>= fun rows => Exchange.done (rows.first Catalog.decoder) >>=
        fun first => pure (first.getD .empty)) = .done (Catalog.ofResults results) := by
      rw [Catalog.ofResults]
      cases Rows.lastOf results with
      | error err => rfl
      | ok rows =>
        show (Exchange.done (rows.first Catalog.decoder) >>= fun first => pure (first.getD .empty)) =
          Exchange.done ((rows.first Catalog.decoder).map (·.getD .empty))
        cases rows.first Catalog.decoder <;> rfl
    exact hresults

theorem Session.info_asks (s : Session) (m : Model) : (s.info m).Asks :=
  ⟨_, _, s.info_eq m, fun _ _ => Catalog.ofResults_error⟩

/-! ## Operations -/

/-- The operations of a session, each with what it gives. -/
inductive Operation : Type → Type 1
  | execute (text : String) : Operation (List Json)
  | raw (q : Statement) : Operation Rows
  | select (m : Model) (q : Select) : Operation Rows
  | selectAll {α : Type} (d : Decoder α) (m : Model) (q : Select) : Operation (List α)
  | selectFirst {α : Type} (d : Decoder α) (m : Model) (q : Select) : Operation (Option α)
  | write (w : Write) (m : Model) (key : Option String) (v : Value) : Operation Rows
  | patch (m : Model) (key : Option String) (patches : List Patch) : Operation Rows
  | delete (m : Model) (key : Option String) : Operation Rows
  | relate (source via goal : Model) (sourceKey : String) (edgeKey : Option String) (goalKey : String) : Operation Rows
  | info (m : Model) : Operation Catalog
  | migrate (m : Model) : Operation (List String)
  | live (m : Model) (diff : Bool) : Operation Uuid
  | query (m : Model) (build : Scope → ExceptT QueryError (StateM Registry) Fragment) : Operation Rows
  | pipe (steps : List ChainStep) : Operation Rows

namespace Operation

variable {α σ : Type} {s : Session} {op : Operation α} {outcome : Except QueryError α}

/-- The exchange of an operation. -/
def exchange (s : Session) : {α : Type} → Operation α → Exchange α
  | _, execute text => Session.execute text
  | _, raw q => Session.raw q
  | _, select m q => s.select m q
  | _, selectAll d m q => s.selectAll d m q
  | _, selectFirst d m q => s.selectFirst d m q
  | _, write w m key v => w.exchange s m key v
  | _, patch m key patches => s.patch m key patches
  | _, delete m key => s.delete m key
  | _, relate source via goal sourceKey edgeKey goalKey => s.relate source via goal sourceKey edgeKey goalKey
  | _, info m => s.info m
  | _, migrate m => s.migrate m
  | _, live m diff => s.live m diff
  | _, query m build => Exchange.done (s.query m build) >>= Session.raw
  | _, pipe steps => ChainStep.submit steps

/-- The operation is neither a migration nor a live query. -/
def IsPlain : {α : Type} → Operation α → Prop
  | _, migrate _ | _, live _ _ => False
  | _, _ => True

/-- The statements of the operation are built by its caller. -/
def IsBuilt : {α : Type} → Operation α → Prop
  | _, query _ _ | _, pipe _ => True
  | _, _ => False

/-- The outcome of an operation is decided without asking the database: data is missing or empty, the strategy does not
carry the operation, a statement cannot be built, or a chain has no statements. -/
inductive Decided (s : Session) : {α : Type} → Operation α → Except QueryError α → Prop
  | createAbsent {m : Model} {key : Option String} :
    Decided s (write .create m key .absent) (.error (.emptyInput .create))
  | insertAbsent {m : Model} {key : Option String} :
    Decided s (write .insert m key .absent) (.error (.emptyInput .insert))
  | insertNothing {m : Model} {key : Option String} {items : List Value} (h : ∀ item ∈ items, item = .absent) :
    Decided s (write .insert m key (.array items)) (.ok .empty)
  | updateAbsent {m : Model} {key : Option String} : Decided s (write .update m key .absent) (.ok .empty)
  | mergeAbsent {m : Model} {key : Option String} : Decided s (write .merge m key .absent) (.ok .empty)
  | patch {m : Model} {key : Option String} {patches : List Patch} (h : s.strategy = .http) :
    Decided s (patch m key patches) (.error (.unsupported .patch .http))
  | live {m : Model} {diff : Bool} (h : s.strategy = .http) :
    Decided s (live m diff) (.error (.unsupported .live .http))
  | select {m : Model} {q : Select} {e : QueryError} (h : s.compileSelect m q = .error e) :
    Decided s (select m q) (.error e)
  | selectAll {α : Type} {d : Decoder α} {m : Model} {q : Select} {e : QueryError}
    (h : s.compileSelect m q = .error e) : Decided s (selectAll d m q) (.error e)
  | selectFirst {α : Type} {d : Decoder α} {m : Model} {q : Select} {e : QueryError}
    (h : s.compileSelect m q = .error e) : Decided s (selectFirst d m q) (.error e)
  | query {m : Model} {build : Scope → ExceptT QueryError (StateM Registry) Fragment} {e : QueryError}
    (h : s.query m build = .error e) : Decided s (query m build) (.error e)
  | pipe {steps : List ChainStep} {e : QueryError} (h : ChainStep.Fails steps e) : Decided s (pipe steps) (.error e)
  | pipeEmpty : Decided s (pipe []) (.error .emptyChain)

theorem select_eq_fail {m : Model} {q : Select} {e : QueryError} (h : s.compileSelect m q = .error e) :
    s.select m q = Exchange.fail e := by
  rw [Session.select, h]
  rfl

/-- A decided operation is done at once. -/
theorem Decided.exchange_eq (h : op.Decided s outcome) : op.exchange s = .done outcome := by
  cases h with
  | createAbsent => rfl
  | insertAbsent => rfl
  | insertNothing h =>
    have hcontent := Value.content_eq_array_nil_iff.2 ⟨_, rfl, h⟩
    rw [exchange, Write.exchange, Session.insert, hcontent]
  | updateAbsent => rfl
  | mergeAbsent => rfl
  | patch h =>
    rw [exchange, Session.patch, h]
    rfl
  | live h =>
    rw [exchange, Session.live, h]
    rfl
  | select h => exact select_eq_fail h
  | selectAll h =>
    rw [exchange, Session.selectAll, select_eq_fail h]
    rfl
  | selectFirst h =>
    rw [exchange, Session.selectFirst, select_eq_fail h]
    rfl
  | query h =>
    rw [exchange, h]
    rfl
  | pipe h => exact h.submit_eq
  | pipeEmpty => exact ChainStep.submit_nil

theorem compileSelect_isLocal {m : Model} {q : Select} {e : QueryError} (h : s.compileSelect m q = .error e) :
    e.IsLocal := by
  rcases Session.compileSelect_error h with ⟨-, rfl⟩ | ⟨path, -, rfl⟩
  · exact trivial
  · exact trivial

/-- The library refuses an operation by its own errors only, apart from those of a builder. -/
theorem Decided.isLocal {e : QueryError} (h : op.Decided s (.error e)) (hop : ¬ op.IsBuilt) : e.IsLocal := by
  cases h with
  | createAbsent => exact trivial
  | insertAbsent => exact trivial
  | patch _ => exact trivial
  | live _ => exact trivial
  | select h => exact compileSelect_isLocal h
  | selectAll h => exact compileSelect_isLocal h
  | selectFirst h => exact compileSelect_isLocal h
  | query _ => exact absurd trivial hop
  | pipe _ => exact absurd trivial hop
  | pipeEmpty => exact absurd trivial hop

/-! ## One query -/

theorem execute_asks (text : String) : (Session.execute text).Asks := by
  refine ⟨text, .ok, congrArg (Exchange.query text) (funext fun reply => ?_), ?_⟩
  · cases reply <;> rfl
  · intro results err herr
    cases herr

theorem compileSelect_asks (m : Model) (q : Select) :
    (∃ e, s.compileSelect m q = .error e) ∨ (s.select m q).Asks := by
  cases h : s.compileSelect m q with
  | error e => exact .inl ⟨e, rfl⟩
  | ok statement =>
    refine .inr ?_
    rw [Session.select, h]
    exact Session.raw_asks statement

theorem submit_asks {steps : List ChainStep} {qs : List Statement} (h : ChainStep.Builds steps qs) (hne : steps ≠ []) :
    (ChainStep.submit steps).Asks :=
  ⟨Chain.textOf qs, Rows.lastOf, h.submit_eq hne, fun _ _ => Rows.lastOf_error⟩

theorem write_asks (w : Write) (m : Model) (key : Option String) (v : Value) :
    (∃ outcome, Decided s (write w m key v) outcome) ∨ (w.exchange s m key v).Asks := by
  by_cases h : w.Sends v
  · obtain ⟨j, -, hraw⟩ := Write.exchange_eq_raw h s m key
    rw [hraw]
    exact .inr (Session.raw_asks _)
  · refine .inl ?_
    rcases Write.not_sends_iff.1 h with rfl | ⟨rfl, items, rfl, hitems⟩
    · cases w with
      | create => exact ⟨_, .createAbsent⟩
      | insert => exact ⟨_, .insertAbsent⟩
      | update => exact ⟨_, .updateAbsent⟩
      | merge => exact ⟨_, .mergeAbsent⟩
    · exact ⟨_, .insertNothing hitems⟩

/-- An operation that is neither a migration nor a live query is decided, or it sends one query. -/
theorem decided_or_asks (hop : op.IsPlain) : (∃ outcome, op.Decided s outcome) ∨ (op.exchange s).Asks := by
  cases op with
  | execute text => exact .inr (execute_asks text)
  | raw q => exact .inr (Session.raw_asks q)
  | select m q =>
    rcases compileSelect_asks (s := s) m q with ⟨e, he⟩ | hasks
    · exact .inl ⟨_, .select he⟩
    · exact .inr hasks
  | selectAll d m q =>
    rcases compileSelect_asks (s := s) m q with ⟨e, he⟩ | hasks
    · exact .inl ⟨_, .selectAll he⟩
    · exact .inr (hasks.bind fun _ _ => Rows.decode_error)
  | selectFirst d m q =>
    rcases compileSelect_asks (s := s) m q with ⟨e, he⟩ | hasks
    · exact .inl ⟨_, .selectFirst he⟩
    · exact .inr (hasks.bind fun _ _ => Rows.first_error)
  | write w m key v => exact write_asks w m key v
  | patch m key patches =>
    cases hs : s.strategy with
    | http => exact .inl ⟨_, .patch hs⟩
    | webSocket =>
      refine .inr ?_
      rw [exchange, Session.patch, hs]
      exact Session.raw_asks _
  | delete m key => exact .inr (Session.raw_asks _)
  | relate source via goal sourceKey edgeKey goalKey => exact .inr (Session.raw_asks _)
  | info m => exact .inr (s.info_asks m)
  | migrate m => exact hop.elim
  | live m diff => exact hop.elim
  | query m build =>
    cases h : s.query m build with
    | error e => exact .inl ⟨_, .query h⟩
    | ok q =>
      refine .inr ?_
      rw [exchange, h]
      exact Session.raw_asks q
  | pipe steps =>
    by_cases hnil : steps = []
    · subst hnil
      exact .inl ⟨_, .pipeEmpty⟩
    · rcases ChainStep.builds_or_fails steps with ⟨qs, hqs⟩ | ⟨e, he⟩
      · exact .inr (submit_asks hqs hnil)
      · exact .inl ⟨_, .pipe he⟩

/-- A live query over web sockets is what the connection makes of it. -/
theorem live_eq_watch {m : Model} {diff : Bool} (h : s.strategy = .webSocket) :
    s.live m diff = Exchange.watch (s.table m).name diff := by
  rw [Session.live, h]
  rfl

end Operation

/-! ## Migrations -/

namespace Session

variable {σ : Type} {conn : Connection σ} {s : Session} {m : Model} {state told : σ} {c : Catalog}

/-- The connection tells this catalog of a table: its reply to the query for the catalog has a last result, all rows of
which are catalogs; where there are no rows, nothing is defined. -/
def Reports (conn : Connection σ) (t : Table) (state : σ) (c : Catalog) (told : σ) : Prop :=
  ∃ before last catalogs, conn.query (catalogQuery t) state = (.ok (before ++ [last]), told) ∧
    Rows.decode Catalog.decoder ⟨last⟩ = .ok catalogs ∧ c = catalogs.head?.getD .empty

theorem reports_iff : Reports conn (s.table m) state c told ↔ (s.info m).run conn state = (.ok c, told) := by
  rw [info_eq, Exchange.run_ask]
  constructor
  · rintro ⟨before, last, catalogs, hquery, hread⟩
    have hcatalog := Catalog.ofResults_eq_ok_iff.2 ⟨before, last, catalogs, rfl, hread⟩
    rw [hquery]
    exact congrArg (·, told) hcatalog
  · intro h
    obtain ⟨hcatalog, rfl⟩ := Prod.mk.inj h
    cases hreply : (conn.query (catalogQuery (s.table m)) state).1 with
    | error err =>
      rw [hreply] at hcatalog
      cases hcatalog
    | ok results =>
      rw [hreply] at hcatalog
      obtain ⟨before, last, catalogs, rfl, hread⟩ := Catalog.ofResults_eq_ok_iff.1 hcatalog
      exact ⟨before, last, catalogs, Prod.ext hreply rfl, hread⟩

theorem requests_info : (s.info m).requests conn state = [.query (catalogQuery (s.table m))] := by
  rw [info_eq, Exchange.requests_ask]

/-- Where no catalog is told, or nothing is missing in it, nothing is sent after the query for it. -/
theorem migrate_unreported (h : ∀ c told, Reports conn (s.table m) state c told → Migration.plan (s.table m) c = []) :
    (s.migrate m).requests conn state = [.query (catalogQuery (s.table m))] := by
  rcases hrun : (s.info m).run conn state with ⟨outcome, told⟩
  cases outcome with
  | error err => rw [(run_migrate_error hrun).2, requests_info]
  | ok c => exact (run_migrate_nil hrun requests_info (h c told (reports_iff.2 hrun))).2

/-- Where something is missing in the catalog that is told, its definitions are sent, and an error in reply is the
outcome. -/
theorem migrate_reported (h : Reports conn (s.table m) state c told) (hplan : Migration.plan (s.table m) c ≠ []) :
    (s.migrate m).requests conn state = [.query (catalogQuery (s.table m)),
      .query (definitionsQuery (Migration.plan (s.table m) c))] ∧
    ∀ err next, conn.query (definitionsQuery (Migration.plan (s.table m) c)) told = (.error err, next) →
      (s.migrate m).run conn state = (.error err, next) := by
  have hrun := reports_iff.1 h
  have hne : ¬ ((Migration.plan (s.table m) c).map Fragment.text).isEmpty := by simpa using hplan
  constructor
  · rw [migrate, Exchange.requests_bind hrun, requests_info, if_neg hne]
    exact congrArg ([Request.query (catalogQuery (s.table m))] ++ ·)
      (Exchange.requests_ask _ (fun _ => .ok _) conn told)
  · intro err next hreply
    rw [migrate, Exchange.run_bind hrun, if_neg hne]
    exact Exchange.run_bind_error hreply

/-- An error in reply to the query for the catalog is the outcome. -/
theorem run_migrate_unanswered {err : QueryError}
    (h : conn.query (catalogQuery (s.table m)) state = (.error err, told)) :
    (s.migrate m).run conn state = (.error err, told) := by
  have hrun : (s.info m).run conn state = (.error err, told) := by
    rw [info_eq, Exchange.run_ask, h]
    rfl
  exact (run_migrate_error hrun).1

theorem migrate_error {err : QueryError} (h : ((s.migrate m).run conn state).1 = .error err) :
    err.IsOfReply ∨ ∃ text t, (conn.query text t).1 = .error err := by
  rcases hrun : (s.info m).run conn state with ⟨outcome, told⟩
  cases outcome with
  | error err' =>
    rw [(run_migrate_error hrun).1] at h
    cases h
    exact (s.info_asks m).run_error (congrArg Prod.fst hrun)
  | ok c =>
    by_cases hplan : Migration.plan (s.table m) c = []
    · rw [(run_migrate_nil hrun requests_info hplan).1] at h
      cases h
    · rcases hreply : conn.query (definitionsQuery (Migration.plan (s.table m) c)) told with ⟨reply, next⟩
      cases reply with
      | error err' =>
        rw [(migrate_reported (reports_iff.2 hrun) hplan).2 err' next hreply] at h
        cases h
        exact .inr ⟨_, _, congrArg Prod.fst hreply⟩
      | ok results =>
        rw [(run_migrate hrun requests_info hplan hreply).1] at h
        cases h

end Session

/-! ## Logs of scripted connections -/

/-- The text of a query. -/
def Request.queryText? : Request → Option String
  | query text => some text
  | live _ _ => none

/-- A live query, as it is logged. -/
def Request.asLive? : Request → Option LiveRequest
  | query _ => none
  | live table diff => some ⟨table, diff⟩

/-- A scripted connection, with live queries or without them. -/
def Connection.IsScripted (conn : Connection Script) : Prop :=
  ∃ strategy, conn = Script.connection strategy ∨ conn = Script.connectionWithoutLive strategy

namespace Script

variable {α : Type} {conn : Connection Script} {script : Script}

theorem queries_reply (text : String) (script : Script) : (reply text script).2.queries = script.queries ++ [text] := by
  unfold reply
  cases script.responses with
  | nil => rfl
  | cons response rest => cases response <;> rfl

theorem lives_reply (text : String) (script : Script) : (reply text script).2.lives = script.lives := by
  unfold reply
  cases script.responses with
  | nil => rfl
  | cons response rest => cases response <;> rfl

/-- The only error in reply to a query is that its execution failed. -/
theorem reply_error {text : String} {err : QueryError} (h : (reply text script).1 = .error err) : ¬ err.IsLocal := by
  unfold reply at h
  cases hresponses : script.responses with
  | nil =>
    simp only [hresponses] at h
    cases h
  | cons response rest =>
    cases response with
    | error reason =>
      simp only [hresponses] at h
      cases h
      exact id
    | ok results =>
      simp only [hresponses] at h
      cases h

theorem query_eq_reply (h : conn.IsScripted) : conn.query = reply := by
  rcases h with ⟨strategy, rfl | rfl⟩ <;> rfl

theorem queries_live (h : conn.IsScripted) (table : String) (diff : Bool) (script : Script) :
    (conn.live table diff script).2.queries = script.queries := by
  rcases h with ⟨strategy, rfl | rfl⟩ <;> rfl

/-- The log has the queries that were sent, in order. -/
theorem queries_run (h : conn.IsScripted) (e : Exchange α) (script : Script) :
    (e.run conn script).2.queries = script.queries ++ (e.requests conn script).filterMap Request.queryText? := by
  induction e generalizing script with
  | done outcome => exact (List.append_nil _).symm
  | query text next ih =>
    have hquery : (conn.query text script).2.queries = script.queries ++ [text] := by
      rw [query_eq_reply h, queries_reply]
    calc
      _ = (conn.query text script).2.queries ++
          ((next (conn.query text script).1).requests conn (conn.query text script).2).filterMap Request.queryText? :=
        ih _ _
      _ = _ := by rw [hquery, List.append_assoc]; rfl
  | live table diff next ih =>
    calc
      _ = (conn.live table diff script).2.queries ++
          ((next (conn.live table diff script).1).requests conn
            (conn.live table diff script).2).filterMap Request.queryText? := ih _ _
      _ = _ := by rw [queries_live h]; rfl

/-- The log has the live queries that were asked for, in order. -/
theorem lives_run (strategy : Strategy) (e : Exchange α) (script : Script) :
    (e.run (connection strategy) script).2.lives =
      script.lives ++ (e.requests (connection strategy) script).filterMap Request.asLive? := by
  induction e generalizing script with
  | done outcome => exact (List.append_nil _).symm
  | query text next ih =>
    calc
      _ = (reply text script).2.lives ++
          ((next (reply text script).1).requests (connection strategy) (reply text script).2).filterMap
            Request.asLive? := ih _ _
      _ = _ := by rw [lives_reply]; rfl
  | live table diff next ih =>
    calc
      _ = (script.lives ++ [⟨table, diff⟩]) ++
          ((next (replyLive table diff script).1).requests (connection strategy)
            (replyLive table diff script).2).filterMap Request.asLive? := ih _ _
      _ = _ := by rw [List.append_assoc]; rfl

end Script

/-- What the library itself refuses leaves a scripted connection as it was. -/
theorem Operation.run_local_error {α : Type} {s : Session} {op : Operation α} {conn : Connection Script}
    (hconn : conn.IsScripted) {script next : Script} {err : QueryError}
    (h : (op.exchange s).run conn script = (.error err, next)) (hlocal : err.IsLocal) : next = script := by
  have hdecided (outcome : Except QueryError α) (hdec : op.Decided s outcome) : next = script := by
    rw [hdec.exchange_eq] at h
    exact (congrArg Prod.snd h).symm
  -- Whatever is asked, what comes back fails in other ways.
  have hfailed : ¬ (err.IsOfReply ∨ ∃ text t, (conn.query text t).1 = .error err) := by
    rintro (hreply | ⟨text, t, hreply⟩)
    · exact hreply.not_isLocal hlocal
    · rw [Script.query_eq_reply hconn] at hreply
      exact Script.reply_error hreply hlocal
  by_cases hop : op.IsPlain
  · rcases decided_or_asks (s := s) hop with ⟨outcome, hdec⟩ | hasks
    · exact hdecided outcome hdec
    · exact absurd (hasks.run_error (congrArg Prod.fst h)) hfailed
  · cases op with
    | migrate m => exact absurd (Session.migrate_error (congrArg Prod.fst h)) hfailed
    | live m diff =>
      cases hs : s.strategy with
      | http => exact hdecided _ (.live hs)
      | webSocket =>
        rw [exchange, live_eq_watch hs] at h
        rcases hconn with ⟨strategy, rfl | rfl⟩
        · cases h
        · exact (congrArg Prod.snd h).symm
    | _ => exact absurd trivial hop

/-! ## Connecting -/

/-- Whatever a connector does, nothing is done for options without an address, and otherwise only what it does. -/
theorem Options.connect_eq {μ : Type → Type} [MonadExceptOf QueryError μ] {σ : Type} (o : Options)
    (connector : Options → Strategy → μ (Connection σ)) :
    ((Text.trim o.url).isEmpty → o.connect connector = throw (.config .missingUrl)) ∧
      (¬ (Text.trim o.url).isEmpty → o.connect connector = connector o o.strategy) := by
  constructor
  · intro hblank
    rw [connect, validate, if_pos hblank]
  · intro hblank
    rw [connect, validate, if_neg hblank]

/-- **Operations fail fast**: an operation whose outcome is decided, by an error of the library or of a builder or because
there is nothing to write, sends nothing and leaves the connection as it was; a migration asks for the catalog, and sends
the definitions of what the reported catalog lacks; a live query over web sockets is one request; and any other operation
is one query. An error in reply is the outcome. Over a scripted connection, of which the log has what was sent, what the
library refuses leaves the log as it was. Without an address no connector is called. -/
theorem operations_fail_fast (s : Session) :
    (∀ {α : Type} (op : Operation α) (outcome : Except QueryError α), op.Decided s outcome →
      (∀ err, outcome = .error err → ¬ op.IsBuilt → err.IsLocal) ∧
      ∀ {σ : Type} (conn : Connection σ) (state : σ),
        (op.exchange s).run conn state = (outcome, state) ∧ (op.exchange s).requests conn state = []) ∧
    (∀ {α : Type} (op : Operation α), op.IsPlain → (∀ outcome, ¬ op.Decided s outcome) →
      ∀ {σ : Type} (conn : Connection σ) (state : σ), ∃ text, (op.exchange s).requests conn state = [.query text] ∧
        ∀ err next, conn.query text state = (.error err, next) → (op.exchange s).run conn state = (.error err, next)) ∧
    (∀ (m : Model) {σ : Type} (conn : Connection σ) (state : σ),
      ((∀ c told, Session.Reports conn (s.table m) state c told → Migration.plan (s.table m) c = []) →
        (s.migrate m).requests conn state = [.query (catalogQuery (s.table m))]) ∧
      (∀ c told, Session.Reports conn (s.table m) state c told → Migration.plan (s.table m) c ≠ [] →
        (s.migrate m).requests conn state = [.query (catalogQuery (s.table m)),
          .query (definitionsQuery (Migration.plan (s.table m) c))] ∧
        ∀ err next, conn.query (definitionsQuery (Migration.plan (s.table m) c)) told = (.error err, next) →
          (s.migrate m).run conn state = (.error err, next)) ∧
      ∀ err told, conn.query (catalogQuery (s.table m)) state = (.error err, told) →
        (s.migrate m).run conn state = (.error err, told)) ∧
    (∀ (m : Model) (diff : Bool), s.strategy = .webSocket → ∀ {σ : Type} (conn : Connection σ) (state : σ),
      (s.live m diff).requests conn state = [.live (s.table m).name diff] ∧
      (s.live m diff).run conn state = conn.live (s.table m).name diff state) ∧
    (∀ {α : Type} (op : Operation α) (conn : Connection Script), conn.IsScripted → ∀ script,
      ((op.exchange s).run conn script).2.queries =
        script.queries ++ ((op.exchange s).requests conn script).filterMap Request.queryText? ∧
      ∀ err next, (op.exchange s).run conn script = (.error err, next) → err.IsLocal → next = script) ∧
    (∀ {α : Type} (op : Operation α) (strategy : Strategy) (script : Script),
      ((op.exchange s).run (Script.connection strategy) script).2.lives = script.lives ++
        ((op.exchange s).requests (Script.connection strategy) script).filterMap Request.asLive?) ∧
    ∀ {μ : Type → Type} [MonadExceptOf QueryError μ] {σ : Type} (o : Options)
      (connector : Options → Strategy → μ (Connection σ)),
      ((Text.trim o.url).isEmpty → o.connect connector = throw (.config .missingUrl)) ∧
      (¬ (Text.trim o.url).isEmpty → o.connect connector = connector o o.strategy) := by
  refine ⟨?_, ?_, ?_, ?_, ?_, ?_, Options.connect_eq⟩
  · intro α op outcome hdec
    constructor
    · rintro err rfl
      exact hdec.isLocal
    · intro σ conn state
      rw [hdec.exchange_eq]
      exact ⟨rfl, rfl⟩
  · intro α op hop hdec σ conn state
    rcases op.decided_or_asks (s := s) hop with ⟨outcome, hdecided⟩ | hasks
    · exact absurd hdecided (hdec outcome)
    · exact hasks.run conn state
  · intro m σ conn state
    exact ⟨Session.migrate_unreported, fun c told => Session.migrate_reported,
      fun err told => Session.run_migrate_unanswered⟩
  · intro m diff hs σ conn state
    rw [Operation.live_eq_watch hs]
    exact ⟨rfl, rfl⟩
  · intro α op conn hconn script
    exact ⟨Script.queries_run hconn _ script, fun err next => Operation.run_local_error hconn⟩
  · intro α op strategy script
    exact Script.lives_run strategy _ script

/-- The connector of scripted connections. -/
def Script.connector (_ : Options) (strategy : Strategy) : Except QueryError (Connection Script) :=
  .ok (connection strategy)

/-- A patch over plain requests is refused, a deletion is one query, a first migration is two, and a live query over web
sockets is one request; a blank address is refused. -/
theorem refusals_not_sent :
    Operation.Decided bareSession (.patch ⟨"User"⟩ none []) (.error (.unsupported .patch .http)) ∧
    (bareSession.patch ⟨"User"⟩ none []).run (Script.connection .http) .empty =
      (.error (.unsupported .patch .http), .empty) ∧
    (∀ outcome, ¬ Operation.Decided bareSession (.delete ⟨"User"⟩ none) outcome) ∧
    (∃ text, (bareSession.delete ⟨"User"⟩ none).requests (Script.connection .http) .empty = [.query text]) ∧
    Session.Reports (Script.connection .webSocket) (indexedSession.table ⟨"User"⟩) .empty .empty
      { Script.empty with queries := ["INFO FOR TABLE user"] } ∧
    Migration.plan (indexedSession.table ⟨"User"⟩) .empty ≠ [] ∧
    (indexedSession.migrate ⟨"User"⟩).requests (Script.connection .webSocket) .empty =
      [.query "INFO FOR TABLE user",
        .query (definitionsQuery (Migration.plan (indexedSession.table ⟨"User"⟩) .empty))] ∧
    indexedSession.strategy = .webSocket ∧
    (indexedSession.live ⟨"User"⟩ true).requests (Script.connection .webSocket) .empty = [.live "user" true] ∧
    (Text.trim (Options.of " ").url).isEmpty ∧
    (Options.of " ").connect Script.connector = .error (.config .missingUrl) := by
  have hpatch : Operation.Decided bareSession (.patch ⟨"User"⟩ none []) (.error (.unsupported .patch .http)) :=
    .patch rfl
  have hdelete : ∀ outcome, ¬ Operation.Decided bareSession (.delete ⟨"User"⟩ none) outcome := by
    intro outcome h
    obtain ⟨text, read, hasks, -⟩ := Session.raw_asks (Statements.delete (Statements.target "User" none)).compile
    cases hasks.symm.trans h.exchange_eq
  have htext : catalogQuery (indexedSession.table ⟨"User"⟩) = "INFO FOR TABLE user" := by decide +kernel
  have hreports : Session.Reports (Script.connection .webSocket) (indexedSession.table ⟨"User"⟩) .empty .empty
      { Script.empty with queries := ["INFO FOR TABLE user"] } := by
    refine ⟨[], Script.catalog [], [.empty], ?_, rfl, rfl⟩
    rw [htext]
    rfl
  have hplan : Migration.plan (indexedSession.table ⟨"User"⟩) .empty ≠ [] := by
    intro h
    have hlength : (Migration.plan (indexedSession.table ⟨"User"⟩) .empty).length = 2 := by decide +kernel
    rw [h] at hlength
    cases hlength
  have hblank : (Text.trim (Options.of " ").url).isEmpty := by decide +kernel
  obtain ⟨hdecided, -, -, -, -, -, hconnect⟩ := operations_fail_fast bareSession
  obtain ⟨-, hplain, -⟩ := operations_fail_fast bareSession
  obtain ⟨-, -, hmigrate, hlive, -⟩ := operations_fail_fast indexedSession
  obtain ⟨text, hsent, -⟩ := hplain (.delete ⟨"User"⟩ none) trivial hdelete (Script.connection .http) .empty
  obtain ⟨hdefined, -⟩ := (hmigrate ⟨"User"⟩ (Script.connection .webSocket) .empty).2.1 _ _ hreports hplan
  rw [htext] at hdefined
  exact ⟨hpatch, ((hdecided _ _ hpatch).2 (Script.connection .http) .empty).1, hdelete, ⟨text, hsent⟩, hreports, hplan,
    hdefined, rfl, (hlive ⟨"User"⟩ true rfl (Script.connection .webSocket) .empty).1, hblank,
    (hconnect (Options.of " ") Script.connector).1 hblank⟩

end GraphQuery
