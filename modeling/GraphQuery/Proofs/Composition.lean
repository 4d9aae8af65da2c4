import GraphQuery.Proofs.Concatenation

/-!
# Statements of fragments that are put together

What two fragments one behind the other compile to is made of what each of them compiles to: the two texts, with a blank
in between where the chunks that meet ask for one, and the lines of the first, behind them those of the second that are
new (`Fragment.compile_append`). Joining fragments is putting one behind the other with the separator in between
(`Fragment.join_eq_foldl`). A template inside of a template is its parts, set next to the parts around it
(`Template.compile_unwrap`). All of it together is `compile_compositional`.
-/

namespace GraphQuery

/-! ## One behind the other -/

namespace Fragment

theorem append_eq (f g : Fragment) : f.append g = f ++ g := by
  cases f with
  | nil => rfl
  | cons c f => cases g <;> simp [append]

theorem seam_of_ne_nil {f g : Fragment} (hf : f ≠ []) (hg : g ≠ []) :
    f.seam g = if (f.getLast hf).needsSpace (g.head hg) then " " else "" := by
  obtain ⟨d, g, rfl⟩ := List.exists_cons_of_ne_nil hg
  rw [seam, List.getLast?_eq_some_getLast hf]
  rfl

theorem compile_append (f g : Fragment) : (f.append g).compile =
    ⟨f.compile.bindings ++ g.compile.bindings.filter (· ∉ f.compile.bindings),
      f.compile.text ++ f.seam g ++ g.compile.text⟩ := by
  rw [append_eq, compile_eq, compile_eq, compile_eq, bindings_append, written_append, List.map_append, addLines_append,
    addLines_eq_append_filter]

/-- Joining goes on from the left: the separator and the next fragment are put behind what was joined so far. -/
theorem join_eq_foldl (t : Token) (f : Fragment) (fs : List Fragment) :
    join t (f :: fs) = fs.foldl (fun joined g => (joined.append [.token t]).append g) f := by
  induction fs generalizing f with
  | nil => rfl
  | cons g fs ih =>
    -- What is in front of the first separator can be split off a join.
    have hfront : join t ((f ++ .token t :: g) :: fs) = f ++ .token t :: join t (g :: fs) := by
      cases fs with
      | nil => rfl
      | cons h fs => simp [join]
    rw [List.foldl_cons, ← ih, append_eq, append_eq, List.append_assoc, List.singleton_append, hfront]
    rfl

end Fragment

/-! ## Templates in templates -/

namespace Template

theorem written_append (parts more : Template) : written (parts ++ more) = written parts ++ written more := by
  induction parts with
  | nil => simp [written]
  | cons part parts ih => rw [List.cons_append, written, written, ih, String.append_assoc]

theorem bindings_append (parts more : Template) : bindings (parts ++ more) = bindings parts ++ bindings more := by
  induction parts with
  | nil => rfl
  | cons part parts ih => rw [List.cons_append, bindings, bindings, ih, List.append_assoc]

theorem written_toFragment (t : Template) : Fragment.written t.toFragment = written t := by
  cases t with
  | nil => rfl
  | cons part parts => exact (Fragment.written_singleton _).trans (by rw [Chunk.written])

theorem bindings_toFragment (t : Template) : Fragment.bindings t.toFragment = bindings t := by
  cases t with
  | nil => rfl
  | cons part parts => simp [toFragment, Fragment.bindings, Chunk.bindings]

theorem compile_toFragment (t : Template) :
    t.toFragment.compile = ⟨addLines [] ((bindings t).map Binding.line), written t⟩ := by
  rw [Fragment.compile_eq, written_toFragment, bindings_toFragment]

/-- In the place of a template that is a part stand its own parts. -/
theorem compile_unwrap (front inner back : Template) :
    (toFragment (front ++ .fragment inner.toFragment :: back)).compile =
      (toFragment (front ++ inner ++ back)).compile := by
  have hwritten : written (.fragment inner.toFragment :: back) = written (inner ++ back) := by
    rw [written, Part.written, written_toFragment, written_append]
  have hbindings : bindings (.fragment inner.toFragment :: back) = bindings (inner ++ back) := by
    rw [bindings, Part.bindings, bindings_toFragment, bindings_append]
  rw [compile_toFragment, compile_toFragment, List.append_assoc, written_append, written_append, hwritten,
    bindings_append, bindings_append, hbindings]

end Template

/-! ## Compositional rendering -/

/-- **Rendering is compositional**: two fragments one behind the other compile to the lines of the first and those of
the second that are not among them, and to the two texts with one blank in between exactly where the last chunk of the
first and the first chunk of the second are to be separated; an empty fragment on either side makes no difference; what
is joined compiles like fragments and separators that are put one behind the other from the left; and a template that
is a part of a template compiles like its own parts in its place. -/
theorem compile_compositional :
    (∀ (f g : Fragment) (hf : f ≠ []) (hg : g ≠ []), (f.append g).compile =
      ⟨f.compile.bindings ++ g.compile.bindings.filter (· ∉ f.compile.bindings),
        f.compile.text ++ (if (f.getLast hf).needsSpace (g.head hg) then " " else "") ++ g.compile.text⟩) ∧
    (∀ f : Fragment, (f.append []).compile = f.compile ∧ (Fragment.append [] f).compile = f.compile) ∧
    (∀ t : Token, (Fragment.join t []).compile = ⟨[], ""⟩ ∧
      ∀ (f : Fragment) (fs : List Fragment), (Fragment.join t (f :: fs)).compile =
        (fs.foldl (fun joined g => (joined.append [.token t]).append g) f).compile) ∧
    ∀ front inner back : Template,
      (Template.toFragment (front ++ .fragment inner.toFragment :: back)).compile =
        (Template.toFragment (front ++ inner ++ back)).compile := by
  refine ⟨fun f g hf hg => ?_, fun f => ⟨?_, rfl⟩, fun t => ⟨rfl, fun f fs => ?_⟩, Template.compile_unwrap⟩
  · rw [Fragment.compile_append, Fragment.seam_of_ne_nil hf hg]
  · rw [Fragment.append_eq, List.append_nil]
  · rw [Fragment.join_eq_foldl]

/-- A name that is bound on both sides is declared once, in front of the name that is bound behind it only. -/
theorem shared_line_not_repeated : (Fragment.append
    [.raw "age >", .binding (.of "min" (.value (.int 21)))]
    [.keyword .limit, .binding (.of "most" (.value (.int 5))), .keyword .start,
      .binding (.of "min" (.value (.int 21)))]).compile =
    ⟨["LET $min = 21;", "LET $most = 5;"], "age > $min LIMIT $most START $min"⟩ :=
  (compile_compositional.1 _ _ (List.cons_ne_nil _ _) (List.cons_ne_nil _ _)).trans (by decide)

end GraphQuery
