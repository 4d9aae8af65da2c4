import GraphQuery.Connection.Scripted
import GraphQuery.Proofs.Requests
import Mathlib.Data.List.Forall2

/-!
# Chains of statements

A chain grows by statements that are built in the scope of a model and by finished ones (`ChainStep`), in any order and
number. Where all of them can be built, the text of the chain is that of its statements one behind the other, each with
its own lines and a semicolon (`Chain.extendAll_ok`), and where one cannot, the chain fails as the first such step does
(`Chain.extendAll_error`). A chain with a statement is sent as one query with this text, and gives the rows of the last
result (`Chain.exec_eq`); together this is `chain_concatenates`.
-/

namespace GraphQuery

/-! ## Growing -/

/-- A step by which a chain grows: a statement that is built in the scope of a model, as a session knows it at that
time, or a finished statement. -/
inductive ChainStep
  | next (s : Session) (m : Model) (build : Scope → ExceptT QueryError (StateM Registry) Fragment)
  | push (q : Statement)

namespace ChainStep

/-- The statement of a step, compiled on its own. -/
def statement : ChainStep → Except QueryError Statement
  | next s m build => s.query m build
  | push q => .ok q

/-- The chain after a step. -/
def extend (c : Chain) : ChainStep → Except QueryError Chain
  | next s m build => s.extend c m build
  | push q => .ok (c.push q)

theorem extend_eq (c : Chain) (step : ChainStep) : step.extend c = step.statement.map c.push := by
  cases step with
  | next s m build =>
    simp only [extend, statement, Session.extend, Session.query, Chain.next]
    cases s.within m build <;> rfl
  | push q => rfl

/-- The steps have these statements, each step its own. -/
def Builds (steps : List ChainStep) (qs : List Statement) : Prop :=
  List.Forall₂ (fun step q => statement step = .ok q) steps qs

/-- The first step that has no statement fails with this error. -/
def Fails (steps : List ChainStep) (e : QueryError) : Prop :=
  ∃ before step after, steps = before ++ step :: after ∧ (∀ b ∈ before, ∃ q, statement b = .ok q) ∧
    statement step = .error e

theorem builds_or_fails : ∀ steps : List ChainStep, (∃ qs, Builds steps qs) ∨ ∃ e, Fails steps e
  | [] => .inl ⟨[], .nil⟩
  | step :: steps => by
    cases hstep : step.statement with
    | error e => exact .inr ⟨e, [], step, steps, rfl, List.forall_mem_nil _, hstep⟩
    | ok q =>
      rcases builds_or_fails steps with ⟨qs, hqs⟩ | ⟨e, before, failing, after, rfl, hbefore, hfailing⟩
      · exact .inl ⟨q :: qs, .cons hstep hqs⟩
      · exact .inr ⟨e, step :: before, failing, after, rfl, List.forall_mem_cons.2 ⟨⟨q, hstep⟩, hbefore⟩, hfailing⟩

end ChainStep

namespace Chain

/-- The chain after steps in order, up to the first that fails. -/
def extendAll (c : Chain) (steps : List ChainStep) : Except QueryError Chain := steps.foldlM ChainStep.extend c

/-- The texts of statements one behind the other: of each its lines with line ends, its text and a semicolon. -/
def textOf (qs : List Statement) : String :=
  String.join (qs.map fun q => String.join (q.bindings.map (· ++ "\n")) ++ q.text ++ ";")

variable {c : Chain} {steps : List ChainStep} {step : ChainStep} {q : Statement} {qs : List Statement} {e : QueryError}

theorem extendAll_cons (h : step.statement = .ok q) : c.extendAll (step :: steps) = (c.push q).extendAll steps := by
  rw [extendAll, List.foldlM_cons, ChainStep.extend_eq, h]
  rfl

/-- Where each step has a statement, the chain gets these statements in order. -/
theorem extendAll_ok (h : ChainStep.Builds steps qs) :
    c.extendAll steps = .ok ⟨c.text ++ textOf qs, c.length + qs.length⟩ := by
  induction h generalizing c with
  | nil => simp [extendAll, textOf, pure, Except.pure]
  | @cons step q steps qs hq _ ih =>
    have htext : (c.push q).text ++ textOf qs = c.text ++ textOf (q :: qs) := by
      simp [push, textOf, Statement.script, String.join_cons, String.append_assoc]
    have hlength : (c.push q).length + qs.length = c.length + (q :: qs).length := by
      simp only [push, List.length_cons]
      omega
    rw [extendAll_cons hq, ih, htext, hlength]

/-- The first step without a statement decides how the chain fails. -/
theorem extendAll_error (h : ChainStep.Fails steps e) : c.extendAll steps = .error e := by
  obtain ⟨before, step, after, rfl, hbefore, hstep⟩ := h
  induction before generalizing c with
  | nil =>
    rw [List.nil_append, extendAll, List.foldlM_cons, ChainStep.extend_eq, hstep]
    rfl
  | cons b before ih =>
    obtain ⟨q, hq⟩ := hbefore b List.mem_cons_self
    rw [List.cons_append, extendAll_cons hq]
    exact ih fun d hd => hbefore d (List.mem_cons_of_mem b hd)

/-! ## Sending -/

theorem exec_empty (h : c.length = 0) : c.exec = Exchange.fail .emptyChain := by
  rw [exec, isEmpty, h]
  rfl

theorem exec_eq (h : c.length ≠ 0) : c.exec = Exchange.ask c.text >>= fun results => .done (Rows.lastOf results) := by
  have hne : ¬ c.isEmpty = true := by simpa [isEmpty] using h
  rw [exec, if_neg hne]

end Chain

namespace ChainStep

variable {steps : List ChainStep} {qs : List Statement} {e : QueryError}

/-- A chain that is built by steps and then sent. -/
def submit (steps : List ChainStep) : Exchange Rows := do
  let c ← .done (Chain.empty.extendAll steps)
  c.exec

theorem Builds.extendAll_empty (h : Builds steps qs) :
    Chain.empty.extendAll steps = .ok ⟨Chain.textOf qs, steps.length⟩ := by
  have htext : Chain.empty.text ++ Chain.textOf qs = Chain.textOf qs := String.empty_append
  have hlength : Chain.empty.length + qs.length = steps.length := by
    rw [h.length_eq]
    exact Nat.zero_add _
  rw [Chain.extendAll_ok h, htext, hlength]

theorem Builds.submit_eq (h : Builds steps qs) (hne : steps ≠ []) :
    submit steps = Exchange.ask (Chain.textOf qs) >>= fun results => .done (Rows.lastOf results) := by
  rw [submit, h.extendAll_empty]
  exact Chain.exec_eq (mt List.length_eq_zero_iff.1 hne)

theorem Fails.submit_eq (h : Fails steps e) : submit steps = Exchange.fail e := by
  rw [submit, Chain.extendAll_error h]
  rfl

theorem submit_nil : submit [] = Exchange.fail .emptyChain := by
  have hempty : Chain.empty.exec = Exchange.fail .emptyChain := Chain.exec_empty rfl
  exact hempty

end ChainStep

/-- **Chains**: where each step of a chain has a statement, the chain is the concatenation of the texts of these
statements in order, each with its own lines, and counts them; it is sent as one query, the row set is the last result,
and an error of the connection is the error of the chain. Otherwise the first step without a statement decides the
error, and nothing is sent; nor is it for a chain without statements. -/
theorem chain_concatenates (steps : List ChainStep) :
    (∀ qs, ChainStep.Builds steps qs →
      Chain.empty.extendAll steps = .ok ⟨Chain.textOf qs, steps.length⟩ ∧
      (steps ≠ [] → ∀ {σ : Type} (conn : Connection σ) (state next : σ),
        (ChainStep.submit steps).requests conn state = [.query (Chain.textOf qs)] ∧
        (∀ before last, conn.query (Chain.textOf qs) state = (.ok (before ++ [last]), next) →
          (ChainStep.submit steps).run conn state = (.ok ⟨last⟩, next)) ∧
        (conn.query (Chain.textOf qs) state = (.ok [], next) →
          (ChainStep.submit steps).run conn state = (.error .emptyResponse, next)) ∧
        ∀ e, conn.query (Chain.textOf qs) state = (.error e, next) →
          (ChainStep.submit steps).run conn state = (.error e, next))) ∧
    (∀ e, ChainStep.Fails steps e → Chain.empty.extendAll steps = .error e ∧
      ∀ {σ : Type} (conn : Connection σ) (state : σ),
        (ChainStep.submit steps).run conn state = (.error e, state) ∧
        (ChainStep.submit steps).requests conn state = []) ∧
    ((∃ qs, ChainStep.Builds steps qs) ∨ ∃ e, ChainStep.Fails steps e) ∧
    (steps = [] → ∀ {σ : Type} (conn : Connection σ) (state : σ),
      (ChainStep.submit steps).run conn state = (.error .emptyChain, state) ∧
      (ChainStep.submit steps).requests conn state = []) := by
  refine ⟨fun qs hqs => ⟨hqs.extendAll_empty, ?_⟩, ?_, ChainStep.builds_or_fails steps, ?_⟩
  · intro hne σ conn state next
    have hrun := Exchange.run_ask (Chain.textOf qs) Rows.lastOf conn state
    rw [← hqs.submit_eq hne] at hrun
    refine ⟨?_, ?_, ?_, ?_⟩
    · rw [hqs.submit_eq hne, Exchange.requests_ask]
    · intro before last hreply
      have hlast : Rows.lastOf (before ++ [last]) = .ok ⟨last⟩ := by rw [Rows.lastOf, List.getLast?_concat]
      rw [hrun, hreply]
      exact congrArg (·, next) hlast
    · intro hreply
      rw [hrun, hreply]
      rfl
    · intro e hreply
      rw [hrun, hreply]
      rfl
  · intro e he
    refine ⟨Chain.extendAll_error he, fun conn state => ?_⟩
    rw [he.submit_eq]
    exact ⟨rfl, rfl⟩
  · rintro rfl σ conn state
    rw [ChainStep.submit_nil]
    exact ⟨rfl, rfl⟩

/-- The fragment that returns a bound one. -/
def returnOne : Fragment := [.raw "RETURN", .binding (.of "x" (.value (.int 1)))]

/-- Sessions that know nothing about their models. -/
def bareSession : Session := ⟨fun _ => [], .empty, .http⟩

/-- Two statements that bind the same name have a line each in the text that is sent; in front of a look-up that fails
they are not sent. -/
theorem equal_statements_kept :
    ChainStep.Builds [.next bareSession ⟨"User"⟩ fun _ => pure returnOne, .push returnOne.compile]
      [returnOne.compile, returnOne.compile] ∧
    (ChainStep.submit [.next bareSession ⟨"User"⟩ fun _ => pure returnOne, .push returnOne.compile]).requests
      (Script.connection .http) .empty = [.query "LET $x = 1;\nRETURN $x;LET $x = 1;\nRETURN $x;"] ∧
    ChainStep.Fails [.push returnOne.compile, .next bareSession ⟨"User"⟩ (·.resolve "age")]
      (.fieldNotFound "User" "age") ∧
    (ChainStep.submit [.push returnOne.compile, .next bareSession ⟨"User"⟩ (·.resolve "age")]).run
      (Script.connection .http) .empty = (.error (.fieldNotFound "User" "age"), .empty) := by
  have hbuilds : ChainStep.Builds [.next bareSession ⟨"User"⟩ fun _ => pure returnOne, .push returnOne.compile]
      [returnOne.compile, returnOne.compile] := .cons rfl (.cons rfl .nil)
  have htext : Chain.textOf [returnOne.compile, returnOne.compile] =
      "LET $x = 1;\nRETURN $x;LET $x = 1;\nRETURN $x;" := by decide +kernel
  have hfails : ChainStep.Fails [.push returnOne.compile, .next bareSession ⟨"User"⟩ (·.resolve "age")]
      (.fieldNotFound "User" "age") :=
    ⟨[.push returnOne.compile], _, [], rfl, List.forall_mem_singleton.2 ⟨_, rfl⟩, by decide +kernel⟩
  obtain ⟨hsent, -⟩ :=
    ((chain_concatenates _).1 _ hbuilds).2 (List.cons_ne_nil _ _) (Script.connection .http) .empty .empty
  obtain ⟨hrun, -⟩ := ((chain_concatenates _).2.1 _ hfails).2 (Script.connection .http) Script.empty
  rw [htext] at hsent
  exact ⟨hbuilds, hsent, hfails, hrun⟩

end GraphQuery
