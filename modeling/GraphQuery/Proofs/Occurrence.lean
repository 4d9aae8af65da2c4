import GraphQuery.Proofs.Lines

/-!
# Texts and bindings of fragments apart

Rendering gives the text of a fragment and collects lines on the way. Here the two are apart: the text alone
(`Fragment.written`), in which a binding is only its name, and the bindings alone (`Fragment.bindings`), in the order in
which they are declared, so that those inside of a value come before the binding of that value. The line of a binding
(`Binding.line`) is made from the text of its value.

Rendering is the one beside the other: the text does not depend on the lines that are there already, and the lines are
those of the bindings, added one after the other (`Fragment.render_eq`). Where a binding occurs is also said without
any order (`Chunk.Holds`, `Part.Holds`), and the list holds the same bindings (`Fragment.mem_bindings`), each behind
those inside of its value (`Fragment.innerFirst`).
-/

namespace GraphQuery

/-! ## The text alone -/

mutual

/-- The text of a chunk. -/
def Chunk.written : Chunk → String
  | .token t => t.text
  | .ident name => Text.identifier name
  | .raw text => text
  | .number n => Number.natText n
  | .value v => v.inline
  | .binding b => variableText b.name
  | .template parts => Template.written parts

/-- The text of a part of a template. -/
def Part.written : Part → String
  | .text s => s
  | .value v => v.inline
  | .binding b => variableText b.name
  | .fragment chunks => Fragment.written chunks

/-- The texts of the parts with nothing in between. -/
def Template.written : List Part → String
  | [] => ""
  | part :: parts => part.written ++ Template.written parts

/-- The texts of the chunks with the gaps between them. -/
def Fragment.written : List Chunk → String
  | [] => ""
  | chunk :: chunks => chunk.written ++ chunk.gap chunks ++ Fragment.written chunks

end

/-- The text of a part as the value of a binding. -/
def Part.declared : Part → String
  | .value v => v.bound
  | part => part.written

/-- The line that declares a binding. -/
def Binding.line (b : Binding) : String := letLine b.name b.value.declared

/-! ## The bindings alone -/

mutual

/-- The bindings in a chunk. -/
def Chunk.bindings : Chunk → List Binding
  | .binding b => b.bindings
  | .template parts => Template.bindings parts
  | _ => []

/-- The bindings inside of a binding's value, and behind them the binding itself. -/
def Binding.bindings : Binding → List Binding
  | .of name value => value.bindings ++ [.of name value]

/-- The bindings in a part of a template. -/
def Part.bindings : Part → List Binding
  | .binding b => b.bindings
  | .fragment chunks => Fragment.bindings chunks
  | _ => []

/-- The bindings in the parts of a template. -/
def Template.bindings : List Part → List Binding
  | [] => []
  | part :: parts => part.bindings ++ Template.bindings parts

/-- The bindings in a fragment, in the order in which they are declared. -/
def Fragment.bindings : List Chunk → List Binding
  | [] => []
  | chunk :: chunks => chunk.bindings ++ Fragment.bindings chunks

end

/-! ## Rendering is the two together -/

mutual

theorem Chunk.render_eq : ∀ (c : Chunk) (lines : List String),
    c.render lines = (c.written, addLines lines (c.bindings.map Binding.line))
  | .token _, _ | .ident _, _ | .raw _, _ | .number _, _ | .value _, _ => by
    simp [Chunk.render, Chunk.written, Chunk.bindings]
  | .binding b, lines => by
    simp only [Chunk.render, Chunk.written, Chunk.bindings]
    rw [Binding.declare_eq b lines]
  | .template parts, lines => by
    simp only [Chunk.render, Chunk.written, Chunk.bindings]
    exact Template.render_eq parts lines

theorem Binding.declare_eq : ∀ (b : Binding) (lines : List String),
    b.declare lines = addLines lines (b.bindings.map Binding.line)
  | .of _ (.text _), _ | .of _ (.value _), _ => rfl
  | .of name (.binding b), lines => by
    simp only [Binding.declare, Binding.bindings, Part.bindings]
    rw [Binding.declare_eq b lines, List.map_append, List.map_singleton, addLines_concat]
    rfl
  | .of name (.fragment chunks), lines => by
    simp only [Binding.declare, Binding.bindings, Part.bindings]
    rw [Fragment.render_eq chunks lines, List.map_append, List.map_singleton, addLines_concat]
    rfl

theorem Part.render_eq : ∀ (p : Part) (lines : List String),
    p.render lines = (p.written, addLines lines (p.bindings.map Binding.line))
  | .text _, _ | .value _, _ => by simp [Part.render, Part.written, Part.bindings]
  | .binding b, lines => by
    simp only [Part.render, Part.written, Part.bindings]
    rw [Binding.declare_eq b lines]
  | .fragment chunks, lines => by
    simp only [Part.render, Part.written, Part.bindings]
    exact Fragment.render_eq chunks lines

theorem Template.render_eq : ∀ (parts : List Part) (lines : List String),
    Template.render parts lines = (Template.written parts, addLines lines ((Template.bindings parts).map Binding.line))
  | [], _ => rfl
  | part :: parts, lines => by
    simp only [Template.render, Template.written, Template.bindings]
    rw [Part.render_eq part lines, Template.render_eq parts, List.map_append, addLines_append]

/-- **Rendering**: the text, whatever lines are there, and these lines with those of the bindings added in order. -/
theorem Fragment.render_eq : ∀ (chunks : List Chunk) (lines : List String),
    Fragment.render chunks lines =
      (Fragment.written chunks, addLines lines ((Fragment.bindings chunks).map Binding.line))
  | [], _ => rfl
  | chunk :: chunks, lines => by
    simp only [Fragment.render, Fragment.written, Fragment.bindings]
    rw [Chunk.render_eq chunk lines, Fragment.render_eq chunks, List.map_append, addLines_append]

end

theorem Fragment.text_eq (f : Fragment) : f.text = Fragment.written f := by
  rw [Fragment.text, Fragment.render_eq]

theorem Fragment.compile_eq (f : Fragment) :
    f.compile = ⟨addLines [] ((Fragment.bindings f).map Binding.line), Fragment.written f⟩ := by
  rw [Fragment.compile, Fragment.render_eq]

/-- A binding adds its own line last, whatever lines are there. -/
theorem Binding.declare_eq_addLine : ∀ (b : Binding) (lines : List String),
    b.declare lines = addLine (addLines lines (b.value.bindings.map Binding.line)) b.line
  | .of name value, lines => by
    rw [Binding.declare_eq, Binding.bindings, List.map_append, List.map_singleton, addLines_concat]
    rfl

/-! ## Where bindings occur -/

mutual

/-- A binding occurs in a chunk. -/
inductive Chunk.Holds (b : Binding) : Chunk → Prop
  | binding {c : Binding} : Binding.Holds b c → Chunk.Holds b (.binding c)
  | template {part : Part} {parts : List Part} : part ∈ parts → Part.Holds b part → Chunk.Holds b (.template parts)

/-- A binding is another one, or occurs inside of its value. -/
inductive Binding.Holds (b : Binding) : Binding → Prop
  | self : Binding.Holds b b
  | value {name : String} {value : Part} : Part.Holds b value → Binding.Holds b (.of name value)

/-- A binding occurs in a part of a template. -/
inductive Part.Holds (b : Binding) : Part → Prop
  | binding {c : Binding} : Binding.Holds b c → Part.Holds b (.binding c)
  | fragment {chunk : Chunk} {chunks : List Chunk} :
      chunk ∈ chunks → Chunk.Holds b chunk → Part.Holds b (.fragment chunks)

end

/-- A binding occurs in a fragment. -/
def Fragment.Holds (f : Fragment) (b : Binding) : Prop := ∃ chunk ∈ f, chunk.Holds b

mutual

theorem Chunk.mem_bindings {b : Binding} : ∀ {c : Chunk}, b ∈ c.bindings ↔ c.Holds b
  | .token _ | .ident _ | .raw _ | .number _ | .value _ => by
    simp only [Chunk.bindings, List.not_mem_nil, false_iff]
    exact nofun
  | .binding c => by
    simp only [Chunk.bindings]
    rw [Binding.mem_bindings]
    exact ⟨.binding, fun | .binding h => h⟩
  | .template parts => by
    simp only [Chunk.bindings]
    rw [Template.mem_bindings]
    exact ⟨fun ⟨_, hp, h⟩ => .template hp h, fun | .template hp h => ⟨_, hp, h⟩⟩

theorem Binding.mem_bindings {b : Binding} : ∀ {c : Binding}, b ∈ c.bindings ↔ Binding.Holds b c
  | .of name value => by
    simp only [Binding.bindings, List.mem_append, List.mem_singleton]
    rw [Part.mem_bindings]
    constructor
    · rintro (h | rfl)
      · exact .value h
      · exact .self
    · rintro (_ | h)
      · exact .inr rfl
      · exact .inl h

theorem Part.mem_bindings {b : Binding} : ∀ {p : Part}, b ∈ p.bindings ↔ p.Holds b
  | .text _ | .value _ => by
    simp only [Part.bindings, List.not_mem_nil, false_iff]
    exact nofun
  | .binding c => by
    simp only [Part.bindings]
    rw [Binding.mem_bindings]
    exact ⟨.binding, fun | .binding h => h⟩
  | .fragment chunks => by
    simp only [Part.bindings]
    rw [Fragment.mem_bindings]
    exact ⟨fun ⟨_, hc, h⟩ => .fragment hc h, fun | .fragment hc h => ⟨_, hc, h⟩⟩

theorem Template.mem_bindings {b : Binding} :
    ∀ {parts : List Part}, b ∈ Template.bindings parts ↔ ∃ part ∈ parts, part.Holds b
  | [] => by simp [Template.bindings]
  | part :: parts => by
    simp only [Template.bindings, List.mem_append, List.mem_cons, exists_eq_or_imp]
    rw [Part.mem_bindings, Template.mem_bindings]

/-- The list of the bindings in a fragment holds those that occur in it. -/
theorem Fragment.mem_bindings {b : Binding} :
    ∀ {chunks : List Chunk}, b ∈ Fragment.bindings chunks ↔ Fragment.Holds chunks b
  | [] => by simp [Fragment.bindings, Fragment.Holds]
  | chunk :: chunks => by
    simp only [Fragment.bindings, List.mem_append]
    rw [Chunk.mem_bindings, Fragment.mem_bindings]
    simp only [Fragment.Holds, List.mem_cons, exists_eq_or_imp]

end

/-! ## Inner bindings come first -/

/-- Each binding of the list stands behind those inside of its value. -/
def InnerFirst (bs : List Binding) : Prop :=
  ∀ before b after, bs = before ++ b :: after → ∀ c, b.value.Holds c → c ∈ before

theorem InnerFirst.nil : InnerFirst [] := fun _ _ _ h => by simp at h

/-- A place in a concatenation is a place in one of the two lists. -/
theorem split_append {xs ys before after : List Binding} {b : Binding} (h : xs ++ ys = before ++ b :: after) :
    (∃ rest, xs = before ++ b :: rest) ∨ ∃ front, before = xs ++ front ∧ ys = front ++ b :: after := by
  rcases List.append_eq_append_iff.1 h with ⟨front, hbefore, hys⟩ | ⟨mid, hxs, hys⟩
  · exact .inr ⟨front, hbefore, hys⟩
  · cases mid with
    | nil => exact .inr ⟨[], by simpa using hxs.symm, hys.symm⟩
    | cons c mid =>
      obtain ⟨rfl, -⟩ := List.cons.inj hys
      exact .inl ⟨mid, hxs⟩

theorem InnerFirst.append {xs ys : List Binding} (hx : InnerFirst xs) (hy : InnerFirst ys) : InnerFirst (xs ++ ys) := by
  intro before b after h c hc
  rcases split_append h with ⟨rest, hxs⟩ | ⟨front, rfl, hys⟩
  · exact hx before b rest hxs c hc
  · exact List.mem_append_right _ (hy front b after hys c hc)

/-- A binding behind those inside of its value. -/
theorem InnerFirst.concat {name : String} {value : Part} (h : InnerFirst value.bindings) :
    InnerFirst (value.bindings ++ [.of name value]) := by
  intro before b after hb c hc
  rcases split_append hb with ⟨rest, hvalue⟩ | ⟨front, rfl, hlast⟩
  · exact h before b rest hvalue c hc
  · obtain ⟨rfl, hb, -⟩ : front = [] ∧ b = .of name value ∧ after = [] := by
      cases front <;> simp_all
    subst hb
    exact List.mem_append_left _ (Part.mem_bindings.2 hc)

mutual

theorem Chunk.innerFirst : ∀ c : Chunk, InnerFirst c.bindings
  | .token _ | .ident _ | .raw _ | .number _ | .value _ => by
    simp only [Chunk.bindings]
    exact .nil
  | .binding b => by
    simp only [Chunk.bindings]
    exact Binding.innerFirst b
  | .template parts => by
    simp only [Chunk.bindings]
    exact Template.innerFirst parts

theorem Binding.innerFirst : ∀ b : Binding, InnerFirst b.bindings
  | .of _ value => by
    simp only [Binding.bindings]
    exact (Part.innerFirst value).concat

theorem Part.innerFirst : ∀ p : Part, InnerFirst p.bindings
  | .text _ | .value _ => by
    simp only [Part.bindings]
    exact .nil
  | .binding b => by
    simp only [Part.bindings]
    exact Binding.innerFirst b
  | .fragment chunks => by
    simp only [Part.bindings]
    exact Fragment.innerFirst chunks

theorem Template.innerFirst : ∀ parts : List Part, InnerFirst (Template.bindings parts)
  | [] => .nil
  | part :: parts => by
    simp only [Template.bindings]
    exact (Part.innerFirst part).append (Template.innerFirst parts)

/-- In a fragment, each binding stands behind those inside of its value. -/
theorem Fragment.innerFirst : ∀ chunks : List Chunk, InnerFirst (Fragment.bindings chunks)
  | [] => .nil
  | chunk :: chunks => by
    simp only [Fragment.bindings]
    exact (Chunk.innerFirst chunk).append (Fragment.innerFirst chunks)

end

end GraphQuery
