import GraphQuery.Session

/-!
# What an exchange sends

The requests of an exchange over a connection (`Exchange.requests`), in the order in which they are sent. An exchange
that goes on with the outcome of another sends first what the other sends (`Exchange.requests_bind`), and nothing more
if the other fails.
-/

namespace GraphQuery

/-! ## Outcomes -/

section Outcomes

variable {ε ε' α β : Type} {x : Except ε α} {e : ε}

theorem map_eq_error_iff {f : α → β} : x.map f = .error e ↔ x = .error e := by
  cases x with
  | error e' => simp [Except.map]
  | ok a => simp [Except.map]

theorem mapError_eq_error_iff {f : ε → ε'} {e' : ε'} : x.mapError f = .error e' ↔ ∃ e, x = .error e ∧ f e = e' := by
  constructor
  · intro h
    cases x with
    | error e => exact ⟨e, rfl, Except.error.inj h⟩
    | ok a => cases h
  · rintro ⟨e, rfl, rfl⟩
    rfl

theorem bind_eq_error_iff {f : α → Except ε β} :
    x.bind f = .error e ↔ x = .error e ∨ ∃ a, x = .ok a ∧ f a = .error e := by
  cases x with
  | error e' => simp [Except.bind]
  | ok a => simp [Except.bind]

theorem map_eq_ok_iff {f : α → β} {b : β} : x.map f = .ok b ↔ ∃ a, x = .ok a ∧ f a = b := by
  cases x with
  | error e' => simp [Except.map]
  | ok a => simp [Except.map]

theorem bind_eq_ok_iff {f : α → Except ε β} {b : β} : x.bind f = .ok b ↔ ∃ a, x = .ok a ∧ f a = .ok b := by
  cases x with
  | error e' => simp [Except.bind]
  | ok a => simp [Except.bind]

end Outcomes

/-! ## Requests -/

/-- A request to a database: a query, or a live query of a table. -/
inductive Request
  | query (text : String)
  | live (table : String) (diff : Bool)
deriving DecidableEq

namespace Exchange

variable {σ α β : Type} {c : Connection σ} {e : Exchange α} {f : α → Exchange β} {s t : σ}

/-- The requests that an exchange sends over a connection, from a state of the connection on. -/
def requests (c : Connection σ) : Exchange α → σ → List Request
  | done _, _ => []
  | query text next, s => .query text :: requests c (next (c.query text s).1) (c.query text s).2
  | live table diff next, s => .live table diff :: requests c (next (c.live table diff s).1) (c.live table diff s).2

theorem run_bind {a : α} (h : e.run c s = (.ok a, t)) : (e >>= f).run c s = (f a).run c t := by
  induction e generalizing s with
  | done outcome =>
    cases h
    rfl
  | query text next ih => exact ih _ h
  | live table diff next ih => exact ih _ h

theorem run_bind_error {err : QueryError} (h : e.run c s = (.error err, t)) :
    (e >>= f).run c s = (.error err, t) := by
  induction e generalizing s with
  | done outcome =>
    cases h
    rfl
  | query text next ih => exact ih _ h
  | live table diff next ih => exact ih _ h

theorem requests_bind {a : α} (h : e.run c s = (.ok a, t)) :
    (e >>= f).requests c s = e.requests c s ++ (f a).requests c t := by
  induction e generalizing s with
  | done outcome =>
    cases h
    rfl
  | query text next ih => exact congrArg (Request.query text :: ·) (ih _ h)
  | live table diff next ih => exact congrArg (Request.live table diff :: ·) (ih _ h)

theorem requests_bind_error {err : QueryError} (h : e.run c s = (.error err, t)) :
    (e >>= f).requests c s = e.requests c s := by
  induction e generalizing s with
  | done outcome =>
    cases h
    rfl
  | query text next ih => exact congrArg (Request.query text :: ·) (ih _ h)
  | live table diff next ih => exact congrArg (Request.live table diff :: ·) (ih _ h)

/-! ## One query -/

/-- What is made of the reply to a query, unless the reply is an error. -/
theorem run_ask (text : String) (g : List Json → Except QueryError α) (c : Connection σ) (s : σ) :
    (ask text >>= fun results => done (g results)).run c s = ((c.query text s).1.bind g, (c.query text s).2) := by
  cases h : (c.query text s).1 with
  | error e => exact run_bind_error (congrArg (·, (c.query text s).2) h)
  | ok results => exact run_bind (congrArg (·, (c.query text s).2) h)

/-- Whatever the reply, nothing more is sent. -/
theorem requests_ask (text : String) (g : List Json → Except QueryError α) (c : Connection σ) (s : σ) :
    (ask text >>= fun results => done (g results)).requests c s = [.query text] := by
  cases h : (c.query text s).1 with
  | error e => exact requests_bind_error (congrArg (·, (c.query text s).2) h)
  | ok results => exact requests_bind (congrArg (·, (c.query text s).2) h)

end Exchange

/-- A statement is sent as one query. -/
theorem Session.requests_raw {σ : Type} (q : Statement) (c : Connection σ) (s : σ) :
    (raw q).requests c s = [.query q.script] := Exchange.requests_ask _ _ _ _

end GraphQuery
