import GraphQuery.Proofs.Declarations
import Mathlib.Logic.Function.Basic

/-!
# Interleaved calls on a registry

Calls on a registry take their steps in any order (`Shared.step?`, `Shared.run`). A registration is one step. A first
use is two: it looks for the entry, and where there is none it describes the model and then gives it this entry, unless
an entry was made in the meantime; what it returns is the entry that is there then. Without other calls in between this
is `Registry.ensure` (`Shared.run_ensure`).

Whatever the order, the entry of a model is made once (`Shared.Origin`), and from then on it is what the registrations
of the model make of it in the order of their steps (`Shared.entry_run`); together with what first uses return this is
`no_registration_lost`.
-/

namespace GraphQuery

/-! ## Registries -/

namespace Registry

variable (r : Registry) (m n : Model) (t : Table) (ds : List Declaration)

theorem table?_register : (r.register m ds).table? n =
    if n = m then some (((r.table? m).getD (.bare m.defaultTable)).declareAll ds) else r.table? n :=
  table?_put _ _ _ _

theorem fst_insertNew : (r.insertNew m t).1 = (r.table? m).getD t := by
  unfold insertNew
  cases r.table? m <;> rfl

theorem table?_insertNew :
    (r.insertNew m t).2.table? n = if n = m then some ((r.table? m).getD t) else r.table? n := by
  unfold insertNew
  cases hm : r.table? m with
  | none => exact table?_put _ _ _ _
  | some found =>
    by_cases hn : n = m
    · subst hn
      rw [if_pos rfl]
      exact hm
    · rw [if_neg hn]

end Registry

/-! ## Calls -/

/-- A call on a registry: a first use of a model, or a registration. -/
inductive Call
  | ensure (m : Model)
  | registerTable (m : Model) (o : TableOptions)
  | registerField (m : Model) (f : Field)
  | registerIdentity (m : Model) (name : String)

namespace Call

/-- The model that is used or registered. -/
def model : Call → Model
  | ensure m | registerTable m _ | registerField m _ | registerIdentity m _ => m

/-- The call is a first use. -/
def IsEnsure : Call → Prop
  | ensure _ => True
  | _ => False

/-- What is registered. -/
def declarations : Call → List Declaration
  | ensure _ => []
  | registerTable _ o => o.declarations
  | registerField _ f => [.field f]
  | registerIdentity _ name => [.identity name]

/-- What is registered for a model. -/
def declarationsOn (m : Model) (c : Call) : List Declaration := if c.model = m then c.declarations else []

/-- The entry that the call makes where there is none, before anything is registered: what the model declares, for a
first use, and the bare table for a registration. -/
def base (schema : Schema) : Call → Table
  | ensure m => schema.table m
  | registerTable m _ | registerField m _ | registerIdentity m _ => .bare m.defaultTable

variable {c : Call} {m : Model}

theorem declarationsOn_of_ne (h : c.model ≠ m) : c.declarationsOn m = [] := if_neg h

theorem declarationsOn_model (c : Call) : c.declarationsOn c.model = c.declarations := if_pos rfl

theorem declarations_of_isEnsure (h : c.IsEnsure) : c.declarations = [] := by
  cases c with
  | ensure m => rfl
  | _ => exact h.elim

theorem base_of_not_isEnsure (schema : Schema) (h : ¬ c.IsEnsure) : c.base schema = .bare c.model.defaultTable := by
  cases c with
  | ensure m => exact absurd trivial h
  | _ => rfl

end Call

theorem Table.declareAll_append (t : Table) (ds es : List Declaration) :
    t.declareAll (ds ++ es) = (t.declareAll ds).declareAll es := List.foldl_append

/-- How far a call has come: it was not started, it found no entry and has described the model, or it has returned, a
first use with a table. -/
inductive Progress
  | ready
  | built (t : Table)
  | returned (t : Option Table)

/-- A registry that is shared by calls, and how far each of them has come. -/
structure Shared (ι : Type) where
  registry : Registry
  progress : ι → Progress

namespace Shared

variable {ι : Type} [DecidableEq ι] (schema : Schema) (calls : ι → Call)

/-- No call was started. -/
def start (r : Registry) : Shared ι := ⟨r, fun _ => .ready⟩

/-- One call has come further, and has left this registry. -/
def advance (s : Shared ι) (i : ι) (r : Registry) (p : Progress) : Shared ι := ⟨r, Function.update s.progress i p⟩

/-- The next step of a call, unless the call has returned. -/
def step? (s : Shared ι) (i : ι) : Option (Shared ι) :=
  match s.progress i with
  | .ready =>
    match calls i with
    | .ensure m =>
      match s.registry.table? m with
      | some found => some (s.advance i s.registry (.returned (some found)))
      | none => some (s.advance i s.registry (.built (schema.table m)))
    | .registerTable m o => some (s.advance i (s.registry.registerTable m o) (.returned none))
    | .registerField m f => some (s.advance i (s.registry.registerField m f) (.returned none))
    | .registerIdentity m name => some (s.advance i (s.registry.registerIdentity m name) (.returned none))
  | .built t =>
    match calls i with
    | .ensure m =>
      let (found, r) := s.registry.insertNew m t
      some (s.advance i r (.returned (some found)))
    | _ => none
  | .returned _ => none

/-- The state after steps of these calls in order, if each of them has a step to take. -/
def run (s : Shared ι) (trace : List ι) : Option (Shared ι) := trace.foldlM (step? schema calls) s

variable {schema calls} {s s' : Shared ι} {i j : ι} {m : Model} {trace : List ι} {r : Registry}

/-! ## One step -/

@[simp] theorem registry_advance (s : Shared ι) (i : ι) (r : Registry) (p : Progress) :
    (s.advance i r p).registry = r := rfl

@[simp] theorem progress_advance (s : Shared ι) (i : ι) (r : Registry) (p : Progress) :
    (s.advance i r p).progress i = p := Function.update_self _ _ _

theorem progress_advance_of_ne (s : Shared ι) (h : j ≠ i) (r : Registry) (p : Progress) :
    (s.advance i r p).progress j = s.progress j := Function.update_of_ne h _ _

/-- What a step can be: a first use finds the entry, or describes the model, or gives it the description unless there is
an entry; or something is registered. -/
theorem step?_cases (h : step? schema calls s i = some s') :
    (∃ m t, calls i = .ensure m ∧ s.progress i = .ready ∧ s.registry.table? m = some t ∧
      s' = s.advance i s.registry (.returned (some t))) ∨
    (∃ m, calls i = .ensure m ∧ s.progress i = .ready ∧ s.registry.table? m = none ∧
      s' = s.advance i s.registry (.built (schema.table m))) ∨
    (∃ m t, calls i = .ensure m ∧ s.progress i = .built t ∧
      s' = s.advance i (s.registry.insertNew m t).2 (.returned (some (s.registry.insertNew m t).1))) ∨
    (¬ (calls i).IsEnsure ∧ s.progress i = .ready ∧
      s' = s.advance i (s.registry.register (calls i).model (calls i).declarations) (.returned none)) := by
  unfold step? at h
  cases hprogress : s.progress i with
  | ready =>
    cases hcall : calls i with
    | ensure m =>
      cases htable : s.registry.table? m with
      | some t =>
        simp only [hprogress, hcall, htable, Option.some.injEq] at h
        exact .inl ⟨m, t, rfl, rfl, htable, h.symm⟩
      | none =>
        simp only [hprogress, hcall, htable, Option.some.injEq] at h
        exact .inr (.inl ⟨m, rfl, rfl, htable, h.symm⟩)
    | registerTable m o =>
      simp only [hprogress, hcall, Option.some.injEq] at h
      exact .inr (.inr (.inr ⟨id, rfl, h.symm⟩))
    | registerField m f =>
      simp only [hprogress, hcall, Option.some.injEq] at h
      exact .inr (.inr (.inr ⟨id, rfl, h.symm⟩))
    | registerIdentity m name =>
      simp only [hprogress, hcall, Option.some.injEq] at h
      exact .inr (.inr (.inr ⟨id, rfl, h.symm⟩))
  | built t =>
    cases hcall : calls i with
    | ensure m =>
      simp only [hprogress, hcall, Option.some.injEq] at h
      exact .inr (.inr (.inl ⟨m, t, rfl, rfl, h.symm⟩))
    | registerTable m o => simp [hprogress, hcall] at h
    | registerField m f => simp [hprogress, hcall] at h
    | registerIdentity m name => simp [hprogress, hcall] at h
  | returned t => simp [hprogress] at h

/-- A call leaves the entries of other models as they are. -/
theorem table?_step_of_ne (h : step? schema calls s i = some s') (hm : m ≠ (calls i).model) :
    s'.registry.table? m = s.registry.table? m := by
  rcases step?_cases h with ⟨n, t, -, -, -, rfl⟩ | ⟨n, -, -, -, rfl⟩ | ⟨n, t, hcall, -, rfl⟩ | ⟨-, -, rfl⟩
  · rfl
  · rfl
  · have hn : m ≠ n := by rwa [hcall] at hm
    rw [registry_advance, Registry.table?_insertNew, if_neg hn]
  · rw [registry_advance, Registry.table?_register, if_neg hm]

/-- A first use leaves an entry as it is. -/
theorem table?_step_ensure {t : Table} (h : step? schema calls s i = some s') (hensure : (calls i).IsEnsure)
    (ht : s.registry.table? (calls i).model = some t) : s'.registry.table? (calls i).model = some t := by
  rcases step?_cases h with ⟨n, t', -, -, -, rfl⟩ | ⟨n, -, -, -, rfl⟩ | ⟨n, t', hcall, -, rfl⟩ | ⟨hregister, -, -⟩
  · exact ht
  · exact ht
  · have hn : (calls i).model = n := by rw [hcall]; rfl
    rw [hn] at ht ⊢
    rw [registry_advance, Registry.table?_insertNew, if_pos rfl, ht, Option.getD_some]
  · exact absurd hensure hregister

/-- A registration adds to the entry, or to the bare table. -/
theorem table?_step_register (h : step? schema calls s i = some s') (hregister : ¬ (calls i).IsEnsure) :
    s'.registry.table? (calls i).model = some
      (((s.registry.table? (calls i).model).getD (.bare (calls i).model.defaultTable)).declareAll
        (calls i).declarations) := by
  rcases step?_cases h with ⟨n, t, hcall, -⟩ | ⟨n, hcall, -⟩ | ⟨n, t, hcall, -⟩ | ⟨-, -, rfl⟩
  · exact absurd (hcall ▸ trivial) hregister
  · exact absurd (hcall ▸ trivial) hregister
  · exact absurd (hcall ▸ trivial) hregister
  · rw [registry_advance, Registry.table?_register, if_pos rfl]

/-! ## Runs -/

theorem run_concat_iff : run schema calls s (trace ++ [i]) = some s' ↔
    ∃ t, run schema calls s trace = some t ∧ step? schema calls t i = some s' := by
  simp [run, Option.bind_eq_some_iff]

/-- A first use without other calls in between. -/
theorem run_ensure (hcall : calls i = .ensure m) (s : Shared ι) (hready : s.progress i = .ready) :
    ∃ trace s', run schema calls s trace = some s' ∧ s'.registry = (s.registry.ensure schema m).2 ∧
      s'.progress i = .returned (some (s.registry.ensure schema m).1) := by
  cases htable : s.registry.table? m with
  | some t =>
    have hfound : step? schema calls s i = some (s.advance i s.registry (.returned (some t))) := by
      simp [step?, hready, hcall, htable]
    have hensure : s.registry.ensure schema m = (t, s.registry) := by rw [Registry.ensure, htable]
    rw [hensure]
    exact ⟨[i], s.advance i s.registry (.returned (some t)), by simp [run, hfound], rfl, progress_advance _ _ _ _⟩
  | none =>
    have hbuild : step? schema calls s i = some (s.advance i s.registry (.built (schema.table m))) := by
      simp [step?, hready, hcall, htable]
    have hinsert : step? schema calls (s.advance i s.registry (.built (schema.table m))) i =
        some ((s.advance i s.registry (.built (schema.table m))).advance i
          (s.registry.insertNew m (schema.table m)).2
          (.returned (some (s.registry.insertNew m (schema.table m)).1))) := by
      simp [step?, hcall]
    have hensure : s.registry.ensure schema m = s.registry.insertNew m (schema.table m) := by
      rw [Registry.ensure, htable]
    rw [hensure]
    exact ⟨[i] ++ [i], _, run_concat_iff.2 ⟨_, by simp [run, hbuild], hinsert⟩, rfl, progress_advance _ _ _ _⟩

/-- How far the calls have come after the steps of a trace: a call that was not started has no step in it, a call that
has described its model has one, and a call that has returned has one or, as a first use, perhaps two. -/
structure Counted (schema : Schema) (calls : ι → Call) (trace : List ι) (s : Shared ι) : Prop where
  ready : ∀ i, s.progress i = .ready → trace.count i = 0
  built : ∀ i t, s.progress i = .built t → trace.count i = 1 ∧ ∃ m, calls i = .ensure m ∧ t = schema.table m
  returned : ∀ i t, s.progress i = .returned t → 1 ≤ trace.count i ∧ trace.count i ≤ 2 ∧
    (¬ (calls i).IsEnsure → trace.count i = 1 ∧ t = none)

theorem Counted.advance (hs : Counted schema calls trace s) (r : Registry) {p : Progress} (hready : p ≠ .ready)
    (hbuilt : ∀ t, p = .built t → trace.count i = 0 ∧ ∃ m, calls i = .ensure m ∧ t = schema.table m)
    (hreturned : ∀ t, p = .returned t → trace.count i ≤ 1 ∧
      (¬ (calls i).IsEnsure → trace.count i = 0 ∧ t = none)) :
    Counted schema calls (trace ++ [i]) (s.advance i r p) := by
  have hself : (trace ++ [i]).count i = trace.count i + 1 := by simp
  have hother (j : ι) (hj : j ≠ i) : (trace ++ [i]).count j = trace.count j := by simp [Ne.symm hj]
  constructor
  · intro j hp
    by_cases hj : j = i
    · subst hj
      rw [progress_advance] at hp
      exact absurd hp hready
    · rw [progress_advance_of_ne s hj] at hp
      rw [hother j hj, hs.ready j hp]
  · intro j t hp
    by_cases hj : j = i
    · subst hj
      rw [progress_advance] at hp
      obtain ⟨hcount, hcall⟩ := hbuilt t hp
      exact ⟨by rw [hself, hcount], hcall⟩
    · rw [progress_advance_of_ne s hj] at hp
      rw [hother j hj]
      exact hs.built j t hp
  · intro j t hp
    by_cases hj : j = i
    · subst hj
      rw [progress_advance] at hp
      obtain ⟨hcount, hregister⟩ := hreturned t hp
      refine ⟨by omega, by omega, fun h => ?_⟩
      obtain ⟨hzero, hnone⟩ := hregister h
      exact ⟨by omega, hnone⟩
    · rw [progress_advance_of_ne s hj] at hp
      rw [hother j hj]
      exact hs.returned j t hp

theorem Counted.step (hs : Counted schema calls trace s) (h : step? schema calls s i = some s') :
    Counted schema calls (trace ++ [i]) s' := by
  rcases step?_cases h with ⟨m, t, hcall, hp, -, rfl⟩ | ⟨m, hcall, hp, -, rfl⟩ | ⟨m, t, hcall, hp, rfl⟩ |
    ⟨hregister, hp, rfl⟩
  · have hzero := hs.ready i hp
    refine hs.advance _ (by simp) (by simp) fun _ _ => ⟨by omega, fun h => ?_⟩
    exact absurd (hcall ▸ trivial) h
  · refine hs.advance _ (by simp) ?_ (by simp)
    rintro t ⟨⟩
    exact ⟨hs.ready i hp, m, hcall, rfl⟩
  · have hone := (hs.built i t hp).1
    refine hs.advance _ (by simp) (by simp) fun _ _ => ⟨by omega, fun h => ?_⟩
    exact absurd (hcall ▸ trivial) h
  · have hzero := hs.ready i hp
    refine hs.advance _ (by simp) (by simp) ?_
    rintro t ⟨⟩
    exact ⟨by omega, fun _ => ⟨hzero, rfl⟩⟩

theorem counted_run (h : run schema calls (start r) trace = some s) : Counted schema calls trace s := by
  induction trace using List.reverseRecOn generalizing s with
  | nil =>
    obtain rfl : start r = s := by simpa [run] using h
    exact ⟨fun _ _ => rfl, fun i t ht => (Progress.noConfusion ht), fun i t ht => (Progress.noConfusion ht)⟩
  | append_singleton trace i ih =>
    obtain ⟨t, ht, hstep⟩ := run_concat_iff.1 h
    exact (ih ht).step hstep

/-- A registration takes one step. -/
theorem Counted.returned_iff (hs : Counted schema calls trace s) (hregister : ¬ (calls i).IsEnsure) :
    (s.progress i = .returned none ↔ i ∈ trace) ∧ trace.count i ≤ 1 := by
  cases hp : s.progress i with
  | ready =>
    have hzero := hs.ready i hp
    refine ⟨⟨(by intro h; cases h), fun h => ?_⟩, by omega⟩
    exact absurd h (List.count_eq_zero.1 hzero)
  | built t =>
    obtain ⟨-, m, hcall, -⟩ := hs.built i t hp
    exact absurd (hcall ▸ trivial) hregister
  | returned t =>
    obtain ⟨-, -, hone⟩ := hs.returned i t hp
    obtain ⟨hcount, rfl⟩ := hone hregister
    refine ⟨⟨fun _ => List.count_pos_iff.1 (by omega), fun _ => rfl⟩, by omega⟩

/-- A call takes two steps at most, and where it has not returned it can take the next one. -/
theorem Counted.returned_or_step (hs : Counted schema calls trace s) (i : ι) :
    (∃ t, s.progress i = .returned t ∧ trace.count i ≤ 2) ∨
      (∃ s', step? schema calls s i = some s') ∧ trace.count i ≤ 1 := by
  unfold step?
  cases hp : s.progress i with
  | ready =>
    refine .inr ⟨?_, by rw [hs.ready i hp]; omega⟩
    cases hcall : calls i with
    | ensure m => cases htable : s.registry.table? m <;> exact ⟨_, by simp only [htable]; rfl⟩
    | _ => exact ⟨_, rfl⟩
  | built t =>
    obtain ⟨hone, m, hcall, -⟩ := hs.built i t hp
    refine .inr ⟨?_, by omega⟩
    rw [hcall]
    exact ⟨_, rfl⟩
  | returned t => exact .inl ⟨t, rfl, (hs.returned i t hp).2.1⟩

/-! ## What first uses return -/

/-- A first use has returned the entry as it was after its last step. -/
theorem returned_run (h : run schema calls (start r) trace = some s) (hensure : (calls i).IsEnsure)
    {result : Option Table} (hp : s.progress i = .returned result) :
    ∃ before after s₁ s₂ t, trace = before ++ i :: after ∧ run schema calls (start r) before = some s₁ ∧
      step? schema calls s₁ i = some s₂ ∧ s₂.registry.table? (calls i).model = some t ∧
      s₂.progress i = .returned (some t) ∧ result = some t := by
  induction trace using List.reverseRecOn generalizing s with
  | nil =>
    obtain rfl : start r = s := by simpa [run] using h
    cases hp
  | append_singleton trace j ih =>
    obtain ⟨u, hu, hstep⟩ := run_concat_iff.1 h
    -- The last step is that of the call itself, or the call had returned before it.
    by_cases hj : i = j
    · subst hj
      rcases step?_cases hstep with ⟨m, t, hcall, -, htable, rfl⟩ | ⟨m, hcall, -, -, rfl⟩ | ⟨m, t, hcall, -, rfl⟩ |
        ⟨hregister, -⟩
      · rw [progress_advance] at hp
        cases hp
        refine ⟨trace, [], u, _, t, rfl, hu, hstep, ?_, progress_advance _ _ _ _, rfl⟩
        rw [hcall]
        exact htable
      · rw [progress_advance] at hp
        cases hp
      · rw [progress_advance] at hp
        cases hp
        refine ⟨trace, [], u, _, _, rfl, hu, hstep, ?_, progress_advance _ _ _ _, rfl⟩
        rw [hcall, Registry.fst_insertNew, registry_advance]
        exact (Registry.table?_insertNew _ _ _ _).trans (if_pos rfl)
      · exact absurd hensure hregister
    · have hsame : u.progress i = s.progress i := by
        rcases step?_cases hstep with ⟨_, _, _, _, _, rfl⟩ | ⟨_, _, _, _, rfl⟩ | ⟨_, _, _, _, rfl⟩ | ⟨_, _, rfl⟩ <;>
          exact (progress_advance_of_ne u hj _ _).symm
      obtain ⟨before, after, s₁, s₂, t, rfl, hdecided⟩ := ih hu (hsame.trans hp)
      exact ⟨before, after ++ [j], s₁, s₂, t, by simp, hdecided⟩

/-! ## Entries -/

/-- The table from which the entry of a model came: it was there from the start, or one step made the entry, and it is
what the model declares, if that was the step of a first use, and the bare table otherwise. -/
def Origin (schema : Schema) (calls : ι → Call) (r : Registry) (trace : List ι) (m : Model) (t : Table) : Prop :=
  r.table? m = some t ∨
    ∃ before i after s s', trace = before ++ i :: after ∧ run schema calls (start r) before = some s ∧
      step? schema calls s i = some s' ∧ s.registry.table? m = none ∧ (s'.registry.table? m).isSome ∧
      (calls i).model = m ∧ t = (calls i).base schema

theorem Origin.concat {t : Table} (h : Origin schema calls r trace m t) (i : ι) :
    Origin schema calls r (trace ++ [i]) m t := by
  rcases h with h | ⟨before, j, after, s, s', rfl, hmade⟩
  · exact .inl h
  · exact .inr ⟨before, j, after ++ [i], s, s', by simp, hmade⟩

/-- The step that makes an entry makes it of what the model declares, for a first use, and of the bare table and what is
registered, for a registration. -/
theorem table?_step_made {t : Table} (hs : Counted schema calls trace s) (h : step? schema calls s i = some s')
    (hnone : s.registry.table? (calls i).model = none) (hmade : s'.registry.table? (calls i).model = some t) :
    t = ((calls i).base schema).declareAll (calls i).declarations := by
  by_cases hensure : (calls i).IsEnsure
  · rcases step?_cases h with ⟨m, u, hcall, -, htable, -⟩ | ⟨m, -, -, -, rfl⟩ | ⟨m, u, hcall, hp, rfl⟩ | ⟨hregister, -⟩
    · rw [hcall] at hnone
      cases hnone.symm.trans htable
    · cases hnone.symm.trans hmade
    · -- However long ago it was made, the description is that of the model.
      obtain ⟨-, n, hcall', rfl⟩ := hs.built i u hp
      obtain rfl : m = n := Call.ensure.inj (hcall.symm.trans hcall')
      rw [hcall] at hnone hmade ⊢
      have hnone : s.registry.table? m = none := hnone
      have hmade : (s.registry.insertNew m (schema.table m)).2.table? m = some t := hmade
      rw [Registry.table?_insertNew, if_pos rfl, hnone] at hmade
      exact (Option.some.inj hmade).symm
    · exact absurd hensure hregister
  · rw [table?_step_register h hensure, hnone, Option.getD_none] at hmade
    rw [Call.base_of_not_isEnsure schema hensure]
    exact (Option.some.inj hmade).symm

/-- What the registrations in a trace declare about a model, in order. -/
def declared (calls : ι → Call) (m : Model) (trace : List ι) : List Declaration :=
  trace.flatMap fun i => (calls i).declarationsOn m

omit [DecidableEq ι] in
theorem declared_concat : declared calls m (trace ++ [i]) = declared calls m trace ++ (calls i).declarationsOn m := by
  simp [declared]

omit [DecidableEq ι] in
theorem declared_eq_nil (h : ∀ i ∈ trace, (calls i).model = m → (calls i).IsEnsure) : declared calls m trace = [] := by
  rw [declared, List.flatMap_eq_nil_iff]
  intro i hi
  by_cases hm : (calls i).model = m
  · subst hm
    rw [Call.declarationsOn_model, Call.declarations_of_isEnsure (h i hi rfl)]
  · exact Call.declarationsOn_of_ne hm

/-- **Entries**: a model without an entry was not registered; otherwise its entry is what the registrations of the model
make of the table from which the entry came, in the order of their steps. -/
theorem entry_run (h : run schema calls (start r) trace = some s) (m : Model) :
    (s.registry.table? m = none ∧ ∀ i ∈ trace, (calls i).model = m → (calls i).IsEnsure) ∨
    ∃ t, Origin schema calls r trace m t ∧ s.registry.table? m = some (t.declareAll (declared calls m trace)) := by
  induction trace using List.reverseRecOn generalizing s with
  | nil =>
    obtain rfl : start r = s := by simpa [run] using h
    cases hm : r.table? m with
    | none => exact .inl ⟨hm, List.forall_mem_nil _⟩
    | some t => exact .inr ⟨t, .inl hm, hm⟩
  | append_singleton trace i ih =>
    obtain ⟨u, hu, hstep⟩ := run_concat_iff.1 h
    by_cases hm : (calls i).model = m
    · subst hm
      rw [declared_concat, Call.declarationsOn_model]
      rcases ih hu with ⟨hnone, hall⟩ | ⟨t, horigin, ht⟩
      · -- If the step makes the entry, nothing was registered for the model before it.
        cases hs : s.registry.table? (calls i).model with
        | none =>
          have hensure : (calls i).IsEnsure := by
            by_contra hregister
            rw [table?_step_register hstep hregister] at hs
            cases hs
          exact .inl ⟨rfl, List.forall_mem_append.2 ⟨hall, List.forall_mem_singleton.2 fun _ => hensure⟩⟩
        | some t =>
          have hmade := table?_step_made (counted_run hu) hstep hnone hs
          rw [declared_eq_nil hall, List.nil_append, hmade]
          exact .inr ⟨_, .inr ⟨trace, i, [], u, s, rfl, hu, hstep, hnone, by rw [hs]; rfl, rfl, rfl⟩, rfl⟩
      · refine .inr ⟨t, horigin.concat i, ?_⟩
        rw [Table.declareAll_append]
        by_cases hensure : (calls i).IsEnsure
        · rw [Call.declarations_of_isEnsure hensure]
          exact table?_step_ensure hstep hensure ht
        · rw [table?_step_register hstep hensure, ht, Option.getD_some]
    · rw [declared_concat, Call.declarationsOn_of_ne hm, List.append_nil, table?_step_of_ne hstep (Ne.symm hm)]
      rcases ih hu with ⟨hnone, hall⟩ | ⟨t, horigin, ht⟩
      · refine .inl ⟨hnone, List.forall_mem_append.2 ⟨hall, List.forall_mem_singleton.2 fun h => absurd h hm⟩⟩
      · exact .inr ⟨t, horigin.concat i, ht⟩

end Shared

/-- **No registration is lost**: after any interleaving of calls, a model without an entry was not registered, and the
entry of any other model is what all its registrations make, in the order of their steps, of the table from which the
entry came: what the model declares, if the step of a first use made the entry, and the bare table otherwise. No step
changes the entry of another model, and no first use changes an entry; a first use returns the entry as it is after its
last step; a registration takes one step and any call two at most, and a call that has not returned can go on. -/
theorem no_registration_lost {ι : Type} [DecidableEq ι] (schema : Schema) (calls : ι → Call) (r : Registry)
    (trace : List ι) (s : Shared ι) (hrun : Shared.run schema calls (.start r) trace = some s) :
    (∀ m, (s.registry.table? m = none ∧ ∀ i ∈ trace, (calls i).model = m → (calls i).IsEnsure) ∨
      ∃ t, Shared.Origin schema calls r trace m t ∧
        s.registry.table? m = some (t.declareAll (Shared.declared calls m trace))) ∧
    (∀ i s', Shared.step? schema calls s i = some s' →
      (∀ m, m ≠ (calls i).model → s'.registry.table? m = s.registry.table? m) ∧
      ∀ t, (calls i).IsEnsure → s.registry.table? (calls i).model = some t →
        s'.registry.table? (calls i).model = some t) ∧
    (∀ i, (calls i).IsEnsure → ∀ result, s.progress i = .returned result → ∃ before after s₁ s₂ t,
      trace = before ++ i :: after ∧ Shared.run schema calls (.start r) before = some s₁ ∧
      Shared.step? schema calls s₁ i = some s₂ ∧ s₂.registry.table? (calls i).model = some t ∧
      s₂.progress i = .returned (some t) ∧ result = some t) ∧
    (∀ i, ¬ (calls i).IsEnsure → (s.progress i = .returned none ↔ i ∈ trace) ∧ trace.count i ≤ 1) ∧
    ∀ i, (∃ result, s.progress i = .returned result ∧ trace.count i ≤ 2) ∨
      (∃ s', Shared.step? schema calls s i = some s') ∧ trace.count i ≤ 1 := by
  have hcounted := Shared.counted_run hrun
  refine ⟨Shared.entry_run hrun, ?_, ?_, ?_, ?_⟩
  · intro i s' hstep
    exact ⟨fun m hm => Shared.table?_step_of_ne hstep hm, fun t => Shared.table?_step_ensure hstep⟩
  · intro i hensure result hp
    exact Shared.returned_run hrun hensure hp
  · intro i hregister
    exact hcounted.returned_iff hregister
  · exact hcounted.returned_or_step

/-- A first use of a model and a registration for it. -/
def useAndRegister (register : Bool) : Call :=
  if register then .registerField ⟨"User"⟩ (.plain "age" (.scalar .int)) else .ensure ⟨"User"⟩

/-- A field that is registered while a first use describes the model stays registered, and the first use returns the
entry with it. -/
theorem registered_in_between_kept : ∃ s,
    Shared.run (fun _ => [.name "user"]) useAndRegister (.start .empty) [false, true, false] = some s ∧
    s.progress false = .returned (s.registry.table? ⟨"User"⟩) ∧
    s.registry.table? ⟨"User"⟩ =
      some ((Table.bare (Model.defaultTable ⟨"User"⟩)).declareAll [.field (.plain "age" (.scalar .int))]) ∧
    ∃ t, Shared.Origin (fun _ => [.name "user"]) useAndRegister .empty [false, true, false] ⟨"User"⟩ t ∧
      s.registry.table? ⟨"User"⟩ = some (t.declareAll [.field (.plain "age" (.scalar .int))]) := by
  obtain ⟨s, hs⟩ : ∃ s,
      Shared.run (fun _ => [.name "user"]) useAndRegister (.start .empty) [false, true, false] = some s := ⟨_, rfl⟩
  refine ⟨s, hs, ?_⟩
  obtain ⟨hentry, -⟩ := no_registration_lost _ _ _ _ s hs
  have hdeclared : Shared.declared useAndRegister ⟨"User"⟩ [false, true, false] =
      [.field (.plain "age" (.scalar .int))] := rfl
  rcases hentry ⟨"User"⟩ with ⟨hnone, -⟩ | ⟨t, horigin, ht⟩
  · cases hs
    cases hnone
  · rw [hdeclared] at ht
    refine ⟨?_, ?_, t, horigin, ht⟩
    · cases hs
      rfl
    · cases hs
      rfl

end GraphQuery
