import GraphQuery.Proofs.Concatenation
import GraphQuery.Proofs.Names
import GraphQuery.Proofs.Select

/-!
# Keys of records in statements

Each operation on a record (`KeyedOperation`) sends the link of the record between two texts that do not depend on the
key (`KeyedOperation.text_around`). The link holds the key as it is: it is read as one unit (`SelfContained`) exactly
when the key is, and behind such a link a reader goes on as if the link were not there, so that nothing outside of the
link depends on the key (`key_stays_in_link_iff`). A key that is no unit changes the statement around it
(`key_ends_statement`).
-/

namespace GraphQuery

open Scan

/-! ## Units -/

/-- A text that is read as one unit: it closes its quotes, and outside of them there is no semicolon, no blank and no
arrow. -/
structure SelfContained (cs : List Char) : Prop where
  closed : Closed .all cs
  solid : ∀ c ∈ bare .all .outside cs, c ≠ ';' ∧ Text.isBlank c = false
  arrowless : ¬ ['-', '>'] <:+: bare .all .outside cs

/-- An arrow does not begin in a text without dashes. -/
theorem arrow_append_iff {ys : List Char} : ∀ {xs : List Char}, '-' ∉ xs →
    (['-', '>'] <:+: xs ++ ys ↔ ['-', '>'] <:+: ys)
  | [], _ => Iff.rfl
  | x :: xs, h => by
    have hx : '-' ≠ x := fun e => h (e ▸ List.mem_cons_self)
    rw [List.cons_append, List.infix_cons_iff, arrow_append_iff fun hxs => h (List.mem_cons_of_mem _ hxs)]
    simp [List.cons_prefix_cons, hx]

/-- Behind plain characters that are no blanks and no dashes, a text is a unit as it is alone. -/
theorem selfContained_append_iff {xs ys : List Char} (hx : ∀ c ∈ xs, Plain c ∧ Text.isBlank c = false ∧ c ≠ '-') :
    SelfContained (xs ++ ys) ↔ SelfContained ys := by
  have hquotes : ∀ c ∈ xs, Quotes.all.opens c = false := fun c hc => (hx c hc).1.opens
  have hclosed : Closed .all xs := run_of_no_quotes hquotes
  have hbare : bare .all .outside (xs ++ ys) = xs ++ bare .all .outside ys := by
    rw [bare_append_of_closed hclosed, bare_of_no_quotes hquotes]
  have hdash : '-' ∉ xs := fun h => (hx '-' h).2.2 rfl
  constructor
  · rintro ⟨h₁, h₂, h₃⟩
    rw [hbare] at h₂ h₃
    exact ⟨(closed_append_iff hclosed).1 h₁, fun c hc => h₂ c (List.mem_append_right _ hc),
      fun h => h₃ ((arrow_append_iff hdash).2 h)⟩
  · rintro ⟨h₁, h₂, h₃⟩
    refine ⟨(closed_append_iff hclosed).2 h₁, fun c hc => ?_, ?_⟩
    · rw [hbare] at hc
      rcases List.mem_append.1 hc with hc | hc
      · exact ⟨(hx c hc).1.2, (hx c hc).2.1⟩
      · exact h₂ c hc
    · rw [hbare, arrow_append_iff hdash]
      exact h₃

/-- The text of a link with a bare table is a unit exactly when its key is one. -/
theorem selfContained_link_iff {l : Link} (ht : Text.isBare l.table.toList) :
    SelfContained l.text.toList ↔ SelfContained l.key.toList := by
  have htext : l.text.toList = (l.table.toList ++ [':']) ++ l.key.toList := by simp [Link.text]
  rw [htext]
  refine selfContained_append_iff fun c hc => ?_
  rcases List.mem_append.1 hc with hc | hc
  · have hname := isNameChar_of_isBare ht c hc
    exact ⟨plain_of_isNameChar hname, isBlank_of_isNameChar hname, fun e => absurd (e ▸ hname) (by decide)⟩
  · rw [List.mem_singleton.1 hc]
    decide

/-! ## Operations on records -/

/-- The text that an exchange sends first, if it sends a query first. -/
def Exchange.firstText {α : Type} : Exchange α → Option String
  | .query text _ => some text
  | _ => none

/-- An operation that takes the key of a record, with all that it takes besides. -/
inductive KeyedOperation
  | delete (m : Model)
  | update (m : Model) (v : Value)
  | merge (m : Model) (v : Value)
  | patch (m : Model) (patches : List Patch)
  | select (m : Model) (q : Select)
  | relateSource (source via goal : Model) (edgeKey : Option String) (goalKey : String)
  | relateEdge (source via goal : Model) (sourceKey goalKey : String)
  | relateGoal (source via goal : Model) (sourceKey : String) (edgeKey : Option String)

namespace KeyedOperation

/-- The model of the record. -/
def model : KeyedOperation → Model
  | delete m | update m _ | merge m _ | patch m _ | select m _ => m
  | relateSource source _ _ _ _ => source
  | relateEdge _ via _ _ _ => via
  | relateGoal _ _ goal _ _ => goal

/-- The operation on the record with a key. -/
def exchange (s : Session) : KeyedOperation → String → Exchange Rows
  | delete m, key => s.delete m (some key)
  | update m v, key => s.update m (some key) v
  | merge m v, key => s.merge m (some key) v
  | patch m patches, key => s.patch m (some key) patches
  | select m q, key => s.select m { q with key := some key }
  | relateSource source via goal edgeKey goalKey, key => s.relate source via goal key edgeKey goalKey
  | relateEdge source via goal sourceKey goalKey, key => s.relate source via goal sourceKey (some key) goalKey
  | relateGoal source via goal sourceKey edgeKey, key => s.relate source via goal sourceKey edgeKey key

/-- The link of the record with a key. -/
def link (s : Session) (op : KeyedOperation) (key : String) : Link := .of (s.table op.model).name key

/-- What the operation is given to write in front of the link closes its quotes: the selected fields and the lines of
a select, and the links before the one of the record. -/
def ClosedAhead (s : Session) : KeyedOperation → Prop
  | select m q => ∀ fields, (s.within m fun scope => q.selection.resolve scope) = .ok fields →
      Closed .all (Fragment.written fields).toList ∧
        ∀ line ∈ (Fragment.compile (fields ++ q.condition.getD [])).bindings, Closed .all line.toList
  | relateEdge source _ _ sourceKey _ => Closed .all (Link.of (s.table source).name sourceKey).text.toList
  | relateGoal source via _ sourceKey edgeKey =>
      Closed .all (Link.of (s.table source).name sourceKey).text.toList ∧
        Closed .all (Statements.edge (s.table via).name edgeKey).toList
  | _ => True

/-- The operation sends nothing: its value is absent, there are no patches, or the select does not compile. -/
def Silent (s : Session) : KeyedOperation → Prop
  | update _ v | merge _ v => v = .absent
  | patch _ _ => s.strategy.supportsPatch = false
  | select m q => ∃ e, s.compileSelect m q = .error e
  | _ => False

end KeyedOperation

/-! ## Texts around the link -/

theorem closed_append_string {a b : String} (ha : Closed .all a.toList) (hb : Closed .all b.toList) :
    Closed .all (a ++ b).toList := by
  rw [String.toList_append]
  exact ha.append hb

theorem closed_seam (f g : Fragment) : Closed .all (Fragment.seam f g).toList := by
  rcases Fragment.seam_cases f g with h | h <;> rw [h] <;> decide

theorem closed_ahead {f g : Fragment} (hlines : ∀ line ∈ (f ++ g).compile.bindings, Closed .all line.toList)
    (hf : Closed .all (Fragment.written f).toList) : Closed .all (Fragment.ahead f g).toList := by
  have hjoin : ∀ lines : List String, (∀ line ∈ lines, Closed .all line.toList) →
      Closed .all (String.join (lines.map (· ++ "\n"))).toList := by
    intro lines h
    induction lines with
    | nil => decide
    | cons line lines ih =>
      rw [List.map_cons, String.join_cons]
      exact closed_append_string (closed_append_string (h line List.mem_cons_self) (by decide))
        (ih fun l hl => h l (List.mem_cons_of_mem _ hl))
  exact closed_append_string (closed_append_string (hjoin _ hlines) hf) (closed_seam f _)

/-- The part of a select in front of its target. -/
def Select.front (q : Select) (fields : Fragment) : Fragment :=
  (.keyword .select :: (if q.value then [.keyword .value] else [])) ++ fields ++ [.keyword .from_]

/-- The part of a select behind its target. -/
def Select.back (q : Select) : Fragment :=
  (q.condition.map Statements.whereClause).getD [] ++ (if q.fetch.isEmpty then [] else Statements.fetchClause q.fetch)

theorem Select.around_key (q : Select) (table key : String) (fields : Fragment) :
    { q with key := some key }.around table fields = q.front fields ++ .value (.link (.of table key)) :: q.back := by
  simp [Select.around, Select.front, Select.back, Statements.selectClause, Statements.fromClause, Statements.target,
    Fragment.link]

theorem Select.closed_front (q : Select) {fields : Fragment} (h : Closed .all (Fragment.written fields).toList) :
    Closed .all (Fragment.written (q.front fields)).toList := by
  have hhead : Closed .all
      (Fragment.written (.keyword .select :: (if q.value then [.keyword .value] else []))).toList := by
    cases q.value <;> decide
  rw [Select.front, Fragment.written_append, Fragment.written_append]
  exact closed_append_string (closed_append_string (closed_append_string (closed_append_string hhead (closed_seam _ _)) h)
    (closed_seam _ _)) (by decide)

/-- Behind the link of a select no bindings are declared but those of the condition. -/
theorem Select.bindings_front_back (q : Select) (fields : Fragment) :
    Fragment.bindings (q.front fields ++ q.back) = Fragment.bindings (fields ++ q.condition.getD []) := by
  have hcommas : ∀ paths : List String, Fragment.bindings (Fragment.commas (paths.map Fragment.raw)) = [] := by
    intro paths
    induction paths with
    | nil => rfl
    | cons path paths ih =>
      cases paths with
      | nil => rfl
      | cons next rest => exact ih
  have hfetch : Fragment.bindings (if q.fetch.isEmpty then [] else Statements.fetchClause q.fetch) = [] := by
    split
    · rfl
    · exact hcommas q.fetch
  have hcondition : Fragment.bindings ((q.condition.map Statements.whereClause).getD []) =
      Fragment.bindings (q.condition.getD []) := by
    cases q.condition <;> rfl
  have hhead : Fragment.bindings (.keyword .select :: (if q.value then [.keyword .value] else [])) = [] := by
    cases q.value <;> rfl
  have hfrom : Fragment.bindings [.keyword .from_] = [] := rfl
  rw [Select.front, Select.back]
  simp only [Fragment.bindings_append, hfetch, hcondition, hhead, hfrom, List.nil_append, List.append_nil]

/-- A relation starts with a keyword, and a gap that depends on the table only. -/
def relateLead (table : String) : String := "RELATE" ++ if Text.startsBlank (table ++ ":") then "" else " "

theorem closed_relateLead (table : String) : Closed .all (relateLead table).toList := by
  unfold relateLead
  split <;> decide

theorem relate_text (source goal : Link) (edgeTable : String) (edgeKey : Option String) :
    (Statements.relate source edgeTable edgeKey goal).text =
      relateLead source.table ++ (source.text ++ "->" ++ Statements.edge edgeTable edgeKey ++ "->" ++ goal.text) := by
  generalize htext : source.text ++ "->" ++ Statements.edge edgeTable edgeKey ++ "->" ++ goal.text = text
  have hhead : text.toList.head? = (source.table ++ ":").toList.head? := by
    rw [← htext]
    cases h : source.table.toList <;> simp [Link.text, h]
  have hempty : text.isEmpty = false := by
    rw [← Bool.not_eq_true, String.isEmpty_iff]
    rintro rfl
    cases h : source.table.toList <;> simp [h] at hhead
  have hstart : (Chunk.raw text).startsBlank = Text.startsBlank (source.table ++ ":") := by
    rw [Chunk.startsBlank, hempty, Text.startsBlank, hhead, Bool.false_or, Text.startsBlank]
  have hgap : (Chunk.keyword .relate).gap [.raw text] = if Text.startsBlank (source.table ++ ":") then "" else " " := by
    rw [Chunk.gap, Chunk.needsSpace, hstart]
    cases Text.startsBlank (source.table ++ ":") <;> rfl
  have hwritten : Fragment.written [.keyword .relate, .raw text] =
      "RELATE" ++ (Chunk.keyword .relate).gap [.raw text] ++ (text ++ "" ++ "") := rfl
  rw [Statements.relate, htext, Fragment.text_eq, relateLead, hwritten, hgap]
  simp

theorem relate_script (source goal : Link) (edgeTable : String) (edgeKey : Option String) :
    (Fragment.compile (Statements.relate source edgeTable edgeKey goal)).script =
      relateLead source.table ++ (source.text ++ "->" ++ Statements.edge edgeTable edgeKey ++ "->" ++ goal.text) := by
  rw [← relate_text, Fragment.text_eq, Fragment.compile_eq, Statement.script]
  exact String.empty_append

/-! ## The text of an operation -/

theorem firstText_select (s : Session) (m : Model) (q : Select) :
    (s.select m q).firstText = (s.compileSelect m q).toOption.map Statement.script := by
  unfold Session.select
  cases s.compileSelect m q <;> rfl

/-- The exchanges send nothing, whatever the key, or they send the link of the key between two texts. -/
def SentAround (links : String → Link) (exchanges : String → Exchange Rows) (silent closed : Prop) : Prop :=
  (silent ∧ ∀ key, (exchanges key).firstText = none) ∨ (¬ silent ∧ ∃ before after : String,
    (∀ key, (exchanges key).firstText = some (before ++ (links key).text ++ after)) ∧
    (closed → Closed .all before.toList))

section Sent

variable {links : String → Link} {exchanges : String → Exchange Rows} {silent closed : Prop}

/-- A statement around a link. -/
theorem sentAround_fragment (f g : Fragment)
    (h : ∀ key, (exchanges key).firstText = some (Fragment.compile (f ++ .value (.link (links key)) :: g)).script)
    (hsilent : ¬ silent) (hclosed : closed → Closed .all (Fragment.ahead f g).toList) :
    SentAround links exchanges silent closed :=
  .inr ⟨hsilent, Fragment.ahead f g, Fragment.behind g,
    fun key => (h key).trans (congrArg some (Fragment.script_around f g _)), hclosed⟩

theorem sentAround_update (s : Session) (m : Model) (mode : Statements.UpdateMode) (data : Json) (hsilent : ¬ silent) :
    SentAround (fun key => .of (s.table m).name key)
      (fun key => Session.raw (Statements.update (Statements.target (s.table m).name (some key)) mode data).compile)
      silent closed := by
  refine sentAround_fragment [.keyword .update] [.keyword mode.keyword, .raw data.text] (fun _ => rfl) hsilent fun _ => ?_
  exact closed_ahead (by simp [Fragment.compile_eq, Fragment.bindings, Chunk.bindings, Chunk.keyword]) (by decide)

theorem sentAround_write (s : Session) (m : Model) (mode : Statements.UpdateMode) (v : Value) :
    SentAround (fun key => .of (s.table m).name key) (fun key => s.write m (some key) mode v) (v = .absent) closed := by
  unfold Session.write
  cases hv : v.content with
  | none => exact .inl ⟨Value.content_eq_none_iff.1 hv, fun _ => rfl⟩
  | some data => exact sentAround_update s m mode data fun h => by simp [h, Value.content] at hv

theorem sentAround_select (s : Session) (m : Model) (q : Select) :
    SentAround (fun key => .of (s.table m).name key) (fun key => s.select m { q with key := some key })
      (KeyedOperation.Silent s (.select m q)) (KeyedOperation.ClosedAhead s (.select m q)) := by
  have hcompile (key : String) := Session.within_select s m { q with key := some key }
  by_cases hrefused : (q.value && (q.selection.hasWildcard || q.selection.count (s.scopeOf m).1 != 1)) = true
  · refine .inl ⟨⟨.invalidSelection (q.selection.count (s.scopeOf m).1), ?_⟩, fun key => ?_⟩
    · rw [Session.compileSelect, Session.within_select, if_pos hrefused]
      rfl
    · rw [firstText_select, Session.compileSelect, hcompile, if_pos hrefused]
      rfl
  · cases hfields : s.within m fun scope => q.selection.resolve scope with
    | error e =>
      refine .inl ⟨⟨e, ?_⟩, fun key => ?_⟩
      · rw [Session.compileSelect, Session.within_select, if_neg hrefused, hfields]
        rfl
      · rw [firstText_select, Session.compileSelect, hcompile, if_neg hrefused, hfields]
        rfl
    | ok fields =>
      refine sentAround_fragment (q.front fields) q.back (fun key => ?_) ?_ fun hclosed => ?_
      · rw [firstText_select, Session.compileSelect, hcompile, if_neg hrefused, hfields, ← Select.around_key]
        rfl
      · rintro ⟨e, he⟩
        rw [Session.compileSelect, Session.within_select, if_neg hrefused, hfields] at he
        simp [Except.map] at he
      · obtain ⟨hwritten, hlines⟩ := hclosed fields hfields
        refine closed_ahead (fun line hline => hlines line ?_) (q.closed_front hwritten)
        rw [Fragment.compile_eq] at hline ⊢
        rwa [q.bindings_front_back] at hline

end Sent

theorem firstText_relate (s : Session) (source via goal : Model) (sourceKey : String) (edgeKey : Option String)
    (goalKey : String) : (s.relate source via goal sourceKey edgeKey goalKey).firstText =
      some (relateLead (s.table source).name ++ ((Link.of (s.table source).name sourceKey).text ++ "->" ++
        Statements.edge (s.table via).name edgeKey ++ "->" ++ (Link.of (s.table goal).name goalKey).text)) :=
  congrArg some (relate_script _ _ _ _)

/-- What an operation sends is, whatever the key, its link between two texts that do not depend on the key. -/
theorem KeyedOperation.text_around (s : Session) :
    ∀ op : KeyedOperation, SentAround (op.link s) (op.exchange s) (op.Silent s) (op.ClosedAhead s)
  | .delete m =>
    sentAround_fragment [.keyword .delete] [] (fun _ => rfl) id fun _ =>
      closed_ahead (by simp [Fragment.compile_eq, Fragment.bindings, Chunk.bindings, Chunk.keyword]) (by decide)
  | .update m v => sentAround_write s m .content v
  | .merge m v => sentAround_write s m .merge v
  | .patch m patches => by
    unfold KeyedOperation.exchange Session.patch
    split
    · next h => exact sentAround_update s m .patch _ fun hnot => Bool.noConfusion (h.symm.trans hnot)
    · next h => exact .inl ⟨Bool.eq_false_iff.2 h, fun _ => rfl⟩
  | .select m q => sentAround_select s m q
  | .relateSource source via goal edgeKey goalKey => by
    refine .inr ⟨id, relateLead (s.table source).name, "->" ++ Statements.edge (s.table via).name edgeKey ++ "->" ++
      (Link.of (s.table goal).name goalKey).text, fun key => ?_, fun _ => closed_relateLead _⟩
    rw [KeyedOperation.exchange, firstText_relate]
    simp only [String.append_assoc]
    rfl
  | .relateEdge source via goal sourceKey goalKey => by
    refine .inr ⟨id, relateLead (s.table source).name ++ (Link.of (s.table source).name sourceKey).text ++ "->", "->" ++
      (Link.of (s.table goal).name goalKey).text, fun key => ?_, fun hclosed => ?_⟩
    · rw [KeyedOperation.exchange, firstText_relate]
      simp only [String.append_assoc]
      rfl
    · exact closed_append_string (closed_append_string (closed_relateLead _) hclosed) (by decide)
  | .relateGoal source via goal sourceKey edgeKey => by
    refine .inr ⟨id, relateLead (s.table source).name ++ (Link.of (s.table source).name sourceKey).text ++ "->" ++
      Statements.edge (s.table via).name edgeKey ++ "->", "", fun key => ?_, fun hclosed => ?_⟩
    · rw [KeyedOperation.exchange, firstText_relate]
      simp only [String.append_assoc, String.append_empty]
      rfl
    · exact closed_append_string (closed_append_string (closed_append_string (closed_append_string
        (closed_relateLead _) hclosed.1) (by decide)) hclosed.2) (by decide)

/-- **Keys stay in their links**: for a bare table, the link of a key is read as one unit exactly when the key without
the table in front is; the operation sends the link between two texts that do not depend on the key; and where a reader
is outside of quotes in front of the link, it is so behind the link of every key that is a unit, and meets the same
characters outside of the link for all of them. -/
theorem key_stays_in_link_iff (s : Session) (op : KeyedOperation)
    (ht : Text.isBare (s.table op.model).name.toList) :
    (∀ key, SelfContained (op.link s key).text.toList ↔ SelfContained (op.link s key).key.toList) ∧
    ((op.Silent s ∧ ∀ key, (op.exchange s key).firstText = none) ∨ (¬ op.Silent s ∧ ∃ before after : String,
      (∀ key, (op.exchange s key).firstText = some (before ++ (op.link s key).text ++ after)) ∧
      (op.ClosedAhead s → Closed .all before.toList) ∧
      (Closed .all before.toList → ∀ key, SelfContained (op.link s key).key.toList →
        Closed .all (before ++ (op.link s key).text).toList ∧
        bare .all .outside (before ++ (op.link s key).text ++ after).toList =
          bare .all .outside before.toList ++ bare .all .outside (op.link s key).text.toList ++
            bare .all .outside after.toList))) := by
  have hlink (key : String) : SelfContained (op.link s key).text.toList ↔ SelfContained (op.link s key).key.toList :=
    selfContained_link_iff ht
  refine ⟨hlink, ?_⟩
  rcases op.text_around s with hnone | ⟨hsends, before, after, htext, hclosed⟩
  · exact .inl hnone
  · refine .inr ⟨hsends, before, after, htext, hclosed, fun hbefore key hkey => ?_⟩
    have hboth : Closed .all (before ++ (op.link s key).text).toList :=
      closed_append_string hbefore ((hlink key).2 hkey).closed
    refine ⟨hboth, ?_⟩
    rw [String.toList_append, bare_append_of_closed hboth, String.toList_append, bare_append_of_closed hbefore]

/-- A key in quotes with a semicolon and blanks in it is a unit. -/
theorem quoted_key_stays_in_link :
    (KeyedOperation.exchange ⟨fun _ => [.name "user"], .empty, .webSocket⟩ (.delete ⟨"User"⟩)
      "'a; DELETE user'").firstText = some "DELETE user:'a; DELETE user'" ∧
    SelfContained "user:'a; DELETE user'".toList := by
  have hbare : bare .all .outside "'a; DELETE user'".toList = ['\''] := by decide +kernel
  have hkey : SelfContained "'a; DELETE user'".toList :=
    ⟨by decide +kernel, by rw [hbare]; exact List.forall_mem_singleton.2 (by decide), by rw [hbare]; decide⟩
  have hlink : KeyedOperation.link ⟨fun _ => [.name "user"], .empty, .webSocket⟩ (.delete ⟨"User"⟩)
      "'a; DELETE user'" = ⟨"user", "'a; DELETE user'"⟩ := by decide +kernel
  have hunit := (key_stays_in_link_iff ⟨fun _ => [.name "user"], .empty, .webSocket⟩ (.delete ⟨"User"⟩)
    (by decide +kernel)).1 "'a; DELETE user'"
  rw [hlink] at hunit
  exact ⟨by decide +kernel, by simpa [Link.text] using hunit.2 hkey⟩

/-- A key with a semicolon and blanks that are not in quotes makes two statements out of one. -/
theorem key_ends_statement :
    (KeyedOperation.exchange ⟨fun _ => [.name "user"], .empty, .webSocket⟩ (.delete ⟨"User"⟩)
      "a; DELETE user").firstText = some "DELETE user:a; DELETE user" ∧
    ¬ SelfContained "user:a; DELETE user".toList :=
  ⟨by decide +kernel, fun h => absurd (h.solid ';' (by decide)).1 (by decide)⟩

end GraphQuery
