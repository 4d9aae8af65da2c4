import GraphQuery.Proofs.Paths
import GraphQuery.Proofs.Select
import Mathlib.Data.List.Forall2

/-!
# What selections resolve to

A selection that resolves stands for a list of fields (`Selection.fields`): all fields of the table for each star, and
one for any other path. They are as many as the selection counts, and none of them is empty (`Selection.fields_spec`).
The fragment of the selection is made of them with commas between them (`Selection.resolve_lists`): joining lists that
were joined already is joining all that is in them, as long as none of them is empty (`Fragment.join_map_join`).
-/

namespace GraphQuery

/-! ## Joined fragments -/

namespace Fragment

variable {t : Token}

theorem join_cons {f : Fragment} {fs : List Fragment} (h : fs ≠ []) :
    join t (f :: fs) = f ++ .token t :: join t fs := by
  cases fs with
  | nil => exact absurd rfl h
  | cons g fs => rfl

theorem join_ne_nil : ∀ {fs : List Fragment}, fs ≠ [] → (∀ f ∈ fs, f ≠ []) → join t fs ≠ []
  | [], h, _ => absurd rfl h
  | [f], _, h => h f List.mem_cons_self
  | f :: _ :: _, _, _ => List.append_ne_nil_of_right_ne_nil f (List.cons_ne_nil _ _)

theorem join_append {gs : List Fragment} (hg : gs ≠ []) :
    ∀ {fs : List Fragment}, fs ≠ [] → join t (fs ++ gs) = join t fs ++ .token t :: join t gs
  | [], h => absurd rfl h
  | [f], _ => join_cons hg
  | f :: f' :: fs, _ => by
    have ih := join_append hg (List.cons_ne_nil f' fs)
    rw [List.cons_append, join_cons (by simp), ih, join_cons (List.cons_ne_nil f' fs)]
    simp

theorem join_map_join : ∀ {fss : List (List Fragment)}, (∀ fs ∈ fss, fs ≠ []) →
    join t (fss.map (join t)) = join t fss.flatten
  | [], _ => rfl
  | [fs], _ => by simp [join]
  | fs :: gs :: fss, h => by
    have hrest : (gs :: fss).flatten ≠ [] := by simp [h gs]
    have ih := join_map_join fun hs hmem => h hs (List.mem_cons_of_mem fs hmem)
    rw [List.flatten_cons, join_append hrest (h fs List.mem_cons_self), ← ih, List.map_cons]
    exact join_cons (by simp)

end Fragment

/-! ## Steps in order -/

section Steps

variable {ε σ α β γ : Type}

theorem mapM_map_result {m : Type → Type} [Monad m] [LawfulMonad m] (f : α → m β) (g : β → γ) (as : List α) :
    (as.mapM fun a => g <$> f a) = List.map g <$> as.mapM f := by
  induction as with
  | nil => simp
  | cons a as ih => simp [ih]

/-- Two functions of the result of a program make the same program where they agree on all that it can give. -/
theorem map_congr_of_run {x : ExceptT ε (StateM σ) α} {f g : α → β}
    (h : ∀ r a, (x.run r).1 = .ok a → f a = g a) : f <$> x = g <$> x := by
  refine ExceptT.ext (funext fun r => ?_)
  rw [ExceptT.run_map, ExceptT.run_map]
  simp only [Functor.map, StateT.map]
  rcases hx : x.run r with ⟨_ | a, r'⟩
  · rfl
  · have hfg : f a = g a := h r a (by rw [hx])
    simp only [Except.map, hfg, bind]

/-- The results of steps that cannot fail are results of the single steps, one by one. -/
theorem forall₂_mapM (f : α → StateM σ β) : ∀ (as : List α) (r : σ),
    List.Forall₂ (fun a b => ∃ r, (f a r).1 = b) as (as.mapM f r).1
  | [], r => by
    rw [List.mapM_nil]
    exact .nil
  | a :: as, r => by
    rw [List.mapM_cons]
    exact .cons ⟨r, rfl⟩ (forall₂_mapM f as (f a r).2)

/-- Where none of several steps in order fails, the results are results of the single steps, one by one. -/
theorem forall₂_of_mapM_ok {f : α → ExceptT ε (StateM σ) β} : ∀ {as : List α} {bs : List β} {r : σ},
    ((as.mapM f).run r).1 = .ok bs → List.Forall₂ (fun a b => ∃ r, ((f a).run r).1 = .ok b) as bs
  | [], bs, r, h => by
    rw [List.mapM_nil] at h
    cases h
    exact .nil
  | a :: as, bs, r, h => by
    rw [fst_run_mapM_cons] at h
    obtain ⟨b, hfirst, hrest⟩ := bind_eq_ok_iff.1 h
    obtain ⟨cs, hcs, rfl⟩ := map_eq_ok_iff.1 hrest
    exact .cons ⟨r, hfirst⟩ (forall₂_of_mapM_ok hcs)

/-- What is true of all things that may stand opposite to others is true of those that do. -/
theorem forall_mem_of_forall₂ {R : α → β → Prop} {p : β → Prop} (hp : ∀ a b, R a b → p b) {as : List α} {bs : List β}
    (h : List.Forall₂ R as bs) : ∀ b ∈ bs, p b := by
  induction h with
  | nil => exact List.forall_mem_nil p
  | cons hab _ ih => exact List.forall_mem_cons.2 ⟨hp _ _ hab, ih⟩

end Steps

/-! ## Fields of paths -/

/-- A fragment that is made of fields with commas between them, none of them empty. -/
def Fragment.Lists (f : Fragment) (fields : List Fragment) : Prop := f = commas fields ∧ ∀ field ∈ fields, field ≠ []

theorem Table.fields_ne_nil (t : Table) : t.fields ≠ [] := by simp [Table.fields]

namespace Scope

variable {s : Scope} {r : Registry}

/-- The number of fields that a path stands for. -/
def fieldCount (s : Scope) (path : String) : Nat := if path = "*" then s.table.fields.length else 1

theorem fieldCount_pos (s : Scope) (path : String) : 0 < s.fieldCount path := by
  unfold fieldCount
  split
  · exact List.length_pos_iff.2 s.table.fields_ne_nil
  · exact Nat.one_pos

theorem listed_ne_nil (f : Field) : (s.listed f r).1 ≠ [] := by
  unfold listed
  cases f.relation? with
  | none => exact List.cons_ne_nil _ _
  | some rel => exact List.cons_ne_nil _ _

/-- The fragments that a path stands for: what the fields are listed as for the star, and one for any other path. -/
def fragments (s : Scope) (path : String) : ExceptT QueryError (StateM Registry) (List Fragment) :=
  if path = "*" then liftM (s.table.fields.mapM s.listed) else (fun f => [f]) <$> s.resolve path

/-- The fragment of a path is made of the fragments that it stands for. -/
theorem resolve_eq_commas (s : Scope) (path : String) : s.resolve path = Fragment.commas <$> s.fragments path := by
  unfold fragments
  split
  · next h =>
    rw [resolve, if_pos h, resolveAll]
    simp
  · simp [Fragment.commas, Fragment.join]

/-- A path that resolves stands for as many fields as it counts, none of them empty. -/
theorem fragments_spec {path : String} {fs : List Fragment} (h : ((s.fragments path).run r).1 = .ok fs) :
    fs.length = s.fieldCount path ∧ ∀ f ∈ fs, f ≠ [] := by
  unfold fragments at h
  unfold fieldCount
  split at h
  · next hstar =>
    have hfs : (s.table.fields.mapM s.listed r).1 = fs := Except.ok.inj h
    have hlisted := forall₂_mapM s.listed s.table.fields r
    rw [hfs] at hlisted
    refine ⟨by rw [if_pos hstar, hlisted.length_eq], forall_mem_of_forall₂ ?_ hlisted⟩
    rintro f _ ⟨r', rfl⟩
    exact listed_ne_nil f
  · next hpath =>
    rw [map_eq_pure_bind, fst_run_bind_pure] at h
    obtain ⟨f, hf, rfl⟩ := map_eq_ok_iff.1 h
    refine ⟨by rw [if_neg hpath, List.length_singleton], List.forall_mem_singleton.2 ?_⟩
    rcases s.resolve_cases path with ⟨rfl, -⟩ | ⟨-, -, heq⟩ | ⟨-, -, heq⟩ | ⟨-, -, field, rel, -, -, heq⟩
    · exact absurd rfl hpath
    all_goals
      rw [heq] at hf
      cases hf
    · exact List.cons_ne_nil _ _
    · exact List.cons_ne_nil _ _

theorem fragments_ne_nil {path : String} {fs : List Fragment} (h : ((s.fragments path).run r).1 = .ok fs) : fs ≠ [] := by
  obtain ⟨hlength, -⟩ := fragments_spec h
  exact List.length_pos_iff.1 (hlength ▸ s.fieldCount_pos path)

/-- Paths resolve to the fragments that they stand for, with commas between them. -/
theorem resolveMany_eq_flatten (s : Scope) (paths : List String) :
    s.resolveMany paths = (fun fss => Fragment.commas fss.flatten) <$> paths.mapM s.fragments := by
  have heach : paths.mapM s.resolve = List.map Fragment.commas <$> paths.mapM s.fragments := by
    rw [← mapM_map_result]
    exact congrArg paths.mapM (funext s.resolve_eq_commas)
  have hmany : s.resolveMany paths =
      (fun fss => Fragment.commas (fss.map Fragment.commas)) <$> paths.mapM s.fragments := by
    rw [resolveMany, heach]
    simp
  rw [hmany]
  refine map_congr_of_run fun r fss hfss => Fragment.join_map_join ?_
  exact forall_mem_of_forall₂ (fun _ _ ⟨_, hfs⟩ => fragments_ne_nil hfs) (forall₂_of_mapM_ok hfss)

/-- The fields that paths stand for, taken together, are as many as the paths count, and none of them is empty. -/
theorem flatten_spec {paths : List String} {fss : List (List Fragment)}
    (h : List.Forall₂ (fun path fs => fs.length = s.fieldCount path ∧ ∀ f ∈ fs, f ≠ []) paths fss) :
    (∀ n, paths.foldl (fun n path => n + s.fieldCount path) n = n + fss.flatten.length) ∧
      ∀ f ∈ fss.flatten, f ≠ [] := by
  induction h with
  | nil => exact ⟨fun n => rfl, List.forall_mem_nil _⟩
  | @cons path fs paths fss hfirst _ ih =>
    obtain ⟨hlength, hne⟩ := hfirst
    obtain ⟨hcount, hrest⟩ := ih
    rw [List.flatten_cons]
    refine ⟨fun n => ?_, List.forall_mem_append.2 ⟨hne, hrest⟩⟩
    rw [List.foldl_cons, hcount, ← hlength, List.length_append, Nat.add_assoc]

/-- Every path counts at least one field. -/
theorem length_le_count (s : Scope) (paths : List String) (n : Nat) :
    n + paths.length ≤ paths.foldl (fun n path => n + s.fieldCount path) n := by
  induction paths generalizing n with
  | nil => exact Nat.le_refl n
  | cons path paths ih =>
    have hpos := s.fieldCount_pos path
    have hrest := ih (n + s.fieldCount path)
    rw [List.foldl_cons, List.length_cons]
    omega

end Scope

/-! ## Fields of selections -/

namespace Selection

variable {selection : Selection} {s : Scope} {r : Registry}

/-- The fields that a selection stands for. -/
def fields (s : Scope) : Selection → ExceptT QueryError (StateM Registry) (List Fragment)
  | all => liftM (s.table.fields.mapM s.listed)
  | paths ps => List.flatten <$> ps.mapM s.fragments

/-- The fragment of a selection is made of the fields that it stands for. -/
theorem resolve_eq_commas (selection : Selection) (s : Scope) :
    selection.resolve s = Fragment.commas <$> selection.fields s := by
  cases selection with
  | all => simp [resolve, fields, Scope.resolveAll]
  | paths ps => simp [resolve, fields, Scope.resolveMany_eq_flatten]

/-- A selection that resolves stands for as many fields as it counts, none of them empty. -/
theorem fields_spec {fs : List Fragment} (h : ((selection.fields s).run r).1 = .ok fs) :
    fs.length = selection.count s ∧ ∀ f ∈ fs, f ≠ [] := by
  cases selection with
  | all =>
    have hstar : ((s.fragments "*").run r).1 = .ok fs := h
    exact Scope.fragments_spec hstar
  | paths ps =>
    have h : ((List.flatten <$> ps.mapM s.fragments).run r).1 = .ok fs := h
    rw [map_eq_pure_bind, fst_run_bind_pure] at h
    obtain ⟨fss, hfss, rfl⟩ := map_eq_ok_iff.1 h
    obtain ⟨hcount, hne⟩ := Scope.flatten_spec
      ((forall₂_of_mapM_ok hfss).imp fun _ _ ⟨_, hpath⟩ => Scope.fragments_spec hpath)
    exact ⟨((hcount 0).trans (Nat.zero_add _)).symm, hne⟩

/-- **Selections**: a selection that resolves is made of as many fields as it counts, none of them empty. -/
theorem resolve_lists {f : Fragment} (h : ((selection.resolve s).run r).1 = .ok f) :
    ∃ fields, f.Lists fields ∧ fields.length = selection.count s := by
  rw [resolve_eq_commas, map_eq_pure_bind, fst_run_bind_pure] at h
  obtain ⟨fields, hfields, rfl⟩ := map_eq_ok_iff.1 h
  obtain ⟨hlength, hne⟩ := fields_spec hfields
  exact ⟨fields, ⟨rfl, hne⟩, hlength⟩

/-- Only the selection without paths counts no fields. -/
theorem count_eq_zero_iff : selection.count s = 0 ↔ selection = .paths [] := by
  cases selection with
  | all => simpa [count] using s.table.fields_ne_nil
  | paths ps =>
    have hcount := s.length_le_count ps 0
    constructor
    · intro h
      have h : ps.foldl (fun n path => n + s.fieldCount path) 0 = 0 := h
      have hlength : ps.length = 0 := by omega
      rw [List.length_eq_zero_iff.1 hlength]
    · intro h
      cases h
      rfl

end Selection

end GraphQuery
