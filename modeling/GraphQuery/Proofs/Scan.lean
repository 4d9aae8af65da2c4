import GraphQuery.Text.Identifier
import GraphQuery.Text.Quoted

/-!
# Reading with quotes in mind

A reader goes through a text character by character and knows where it is: outside of quotes, inside of them, or behind
a backslash inside of them, where the next character stands for itself (`step`, `run`). The double quote always opens
and closes; whether the single quote and the backtick do too is up to the reader (`Quotes`). What a reader meets outside
of quotes are the bare characters of a text (`bare`), an opening quote among them and what follows it not.

Reading goes on behind a text where the text has left off (`run_append`, `bare_append`). A text that is made character
by character so that none of them closes the quote stays inside of the quotes around it (`run_quoted`, `bare_quoted`),
and JSON strings are such texts (`kept_escapeDouble`).
-/

namespace GraphQuery.Scan

/-- The quotes that a reader knows besides the double quote. -/
structure Quotes where
  single : Bool
  backtick : Bool
deriving DecidableEq

namespace Quotes

/-- All three kinds of quotes. -/
def all : Quotes := ⟨true, true⟩

/-- The character opens quotes. -/
def opens (q : Quotes) (c : Char) : Bool :=
  c == '"' || (q.single && c == '\'') || (q.backtick && c == Text.backtick)

end Quotes

/-- Where a reader is; the quote is the one that was opened. -/
inductive State
  | outside
  | inside (quote : Char)
  | escaped (quote : Char)
deriving DecidableEq

variable (q : Quotes)

/-- Where a reader is behind one more character. -/
def step : State → Char → State
  | .outside, c => if q.opens c then .inside c else .outside
  | .inside quote, c => if c = '\\' then .escaped quote else if c = quote then .outside else .inside quote
  | .escaped quote, _ => .inside quote

/-- Where a reader is behind more characters. -/
def run (s : State) (cs : List Char) : State := cs.foldl (step q) s

/-- The characters that a reader meets outside of quotes. -/
def bare : State → List Char → List Char
  | _, [] => []
  | .outside, c :: cs => c :: bare (step q .outside c) cs
  | s, c :: cs => bare (step q s c) cs

/-- A reader that starts outside of quotes is outside of them behind the text. -/
def Closed (cs : List Char) : Prop := run q .outside cs = .outside

instance (cs : List Char) : Decidable (Closed q cs) := inferInstanceAs (Decidable (_ = _))

variable {q} {s : State} {xs ys : List Char}

/-! ## Reading on -/

@[simp] theorem run_nil : run q s [] = s := rfl

@[simp] theorem bare_nil : bare q s [] = [] := by cases s <;> rfl

theorem run_cons (c : Char) (cs : List Char) : run q s (c :: cs) = run q (step q s c) cs := rfl

theorem run_append : run q s (xs ++ ys) = run q (run q s xs) ys := List.foldl_append

theorem bare_cons (s : State) (c : Char) (cs : List Char) :
    bare q s (c :: cs) = bare q s [c] ++ bare q (step q s c) cs := by
  cases s <;> simp [bare]

theorem bare_append (s : State) (xs ys : List Char) : bare q s (xs ++ ys) = bare q s xs ++ bare q (run q s xs) ys := by
  induction xs generalizing s with
  | nil => simp
  | cons c xs ih => rw [List.cons_append, bare_cons, ih, bare_cons s c xs, run_cons, List.append_assoc]

theorem Closed.append (hx : Closed q xs) (hy : Closed q ys) : Closed q (xs ++ ys) := by
  rw [Closed, run_append, hx, hy]

/-- Behind a closed text reading goes on as before it. -/
theorem closed_append_iff (hx : Closed q xs) : Closed q (xs ++ ys) ↔ Closed q ys := by
  rw [Closed, run_append, hx, Closed]

theorem bare_append_of_closed (hx : Closed q xs) :
    bare q .outside (xs ++ ys) = bare q .outside xs ++ bare q .outside ys := by
  rw [bare_append, hx]

/-! ## Texts without quotes -/

/-- A character that is no quote to any reader, and does not end a statement. -/
def Plain (c : Char) : Prop := Quotes.all.opens c = false ∧ c ≠ ';'

instance (c : Char) : Decidable (Plain c) := inferInstanceAs (Decidable (_ ∧ _))

theorem Plain.opens {c : Char} (h : Plain c) : q.opens c = false := by
  have hall := h.1
  simp only [Quotes.opens, Quotes.all, Bool.true_and, Bool.or_eq_false_iff] at hall
  simp [Quotes.opens, hall]

theorem plain_of_all {cs : List Char} (h : cs.all (Plain ·)) : ∀ c ∈ cs, Plain c := fun c hc =>
  of_decide_eq_true (List.all_eq_true.1 h c hc)

theorem opens_semicolon : q.opens ';' = false := by
  simp [Quotes.opens, Text.backtick]

/-- Letters, digits and underscores are plain. -/
theorem plain_of_isNameChar {c : Char} (h : Text.isNameChar c) : Plain c := by
  have hne : ∀ d : Char, Text.isNameChar d = false → c ≠ d := fun d hd e => by simp [← e, h] at hd
  simp [Plain, Quotes.opens, Quotes.all, hne '"' (by decide), hne '\'' (by decide), hne Text.backtick (by decide),
    hne ';' (by decide)]

theorem run_of_no_quotes : ∀ {cs : List Char}, (∀ c ∈ cs, q.opens c = false) → run q .outside cs = .outside
  | [], _ => rfl
  | c :: cs, h => by
    rw [run_cons, step, h c List.mem_cons_self]
    exact run_of_no_quotes fun d hd => h d (List.mem_cons_of_mem _ hd)

theorem bare_of_no_quotes : ∀ {cs : List Char}, (∀ c ∈ cs, q.opens c = false) → bare q .outside cs = cs
  | [], _ => rfl
  | c :: cs, h => by
    rw [bare, step, h c List.mem_cons_self]
    exact congrArg _ (bare_of_no_quotes fun d hd => h d (List.mem_cons_of_mem _ hd))

/-- A reader is only ever inside of quotes that it knows. -/
def State.Known (q : Quotes) : State → Prop
  | .outside => True
  | .inside quote | .escaped quote => q.opens quote

theorem step_known (h : s.Known q) (c : Char) : (step q s c).Known q := by
  cases s with
  | outside =>
    rw [step]
    split
    · next hc => exact hc
    · exact trivial
  | inside quote =>
    rw [step]
    split
    · exact h
    · split
      · exact trivial
      · exact h
  | escaped quote => exact h

theorem run_known : ∀ {s : State} (cs : List Char), s.Known q → (run q s cs).Known q
  | _, [], h => h
  | _, c :: cs, h => run_known cs (step_known h c)

/-- Only a reader outside of quotes is outside of them behind a character that is no quote. -/
theorem step_eq_outside_iff (h : s.Known q) {c : Char} (hc : q.opens c = false) :
    step q s c = .outside ↔ s = .outside := by
  cases s with
  | outside => simp [step, hc]
  | inside quote =>
    have hne : c ≠ quote := fun e => by simp [State.Known, ← e, hc] at h
    by_cases he : c = '\\' <;> simp [step, he, hne]
  | escaped quote => simp [step]

/-! ## Texts between quotes -/

/-- Inside of quotes, the text stays inside of them. -/
structure Kept (q : Quotes) (quote : Char) (cs : List Char) : Prop where
  run : run q (.inside quote) cs = .inside quote
  bare : bare q (.inside quote) cs = []

variable {quote : Char}

theorem Kept.nil : Kept q quote [] := ⟨rfl, rfl⟩

theorem Kept.append (hx : Kept q quote xs) (hy : Kept q quote ys) : Kept q quote (xs ++ ys) :=
  ⟨by rw [run_append, hx.run, hy.run], by rw [bare_append, hx.bare, hx.run, hy.bare]; rfl⟩

/-- A text that is written character by character is kept when each character is. -/
theorem Kept.flatMap {escape : Char → List Char} (h : ∀ c, Kept q quote (escape c)) :
    ∀ cs : List Char, Kept q quote (cs.flatMap escape)
  | [] => .nil
  | c :: cs => by
    rw [List.flatMap_cons]
    exact (h c).append (Kept.flatMap h cs)

theorem run_quoted (hq : q.opens quote) (hne : quote ≠ '\\') {body : List Char} (h : Kept q quote body) :
    Closed q (quote :: (body ++ [quote])) := by
  rw [Closed, run_cons, step, if_pos hq, run_append, h.run]
  simp [run, step, hne]

/-- Of a text between quotes a reader meets the opening quote only. -/
theorem bare_quoted (hq : q.opens quote) {body : List Char} (h : Kept q quote body) :
    bare q .outside (quote :: (body ++ [quote])) = [quote] := by
  rw [bare, step, if_pos hq, bare_append, h.run, h.bare]
  simp [bare]

/-! ## JSON strings -/

theorem kept_singleton {c : Char} (hc : c ≠ '\\') (hne : c ≠ quote) : Kept q quote [c] :=
  ⟨by simp [run, step, hc, hne], by simp [bare]⟩

theorem kept_escape (c : Char) : Kept q quote ['\\', c] :=
  ⟨by simp [run, step], by simp [bare, step]⟩

theorem hexDigit_ne : ∀ n < 16, Text.hexDigit n ≠ '\\' ∧ Text.hexDigit n ≠ '"' := by decide

/-- No character of a JSON string closes the string. -/
theorem kept_escapeDouble (c : Char) : Kept q '"' (Text.escapeDouble c) := by
  unfold Text.escapeDouble
  iterate 7 (split; · exact kept_escape _)
  split
  · next hlt =>
    have hhigh := hexDigit_ne (c.toNat / 16) (by omega)
    have hlow := hexDigit_ne (c.toNat % 16) (by omega)
    exact (kept_escape 'u').append <| (kept_singleton (by decide) (by decide)).append <|
      (kept_singleton (by decide) (by decide)).append <|
      (kept_singleton hhigh.1 hhigh.2).append (kept_singleton hlow.1 hlow.2)
  · exact kept_singleton (by assumption) (by assumption)

theorem opens_double : q.opens '"' := by simp [Quotes.opens]

theorem closed_doubleQuoted (cs : List Char) : Closed q (Text.doubleQuotedChars cs) :=
  run_quoted opens_double (by decide) (Kept.flatMap kept_escapeDouble cs)

theorem bare_doubleQuoted (cs : List Char) : bare q .outside (Text.doubleQuotedChars cs) = ['"'] :=
  bare_quoted opens_double (Kept.flatMap kept_escapeDouble cs)

end GraphQuery.Scan
