import GraphQuery.Json.Reader
import GraphQuery.Proofs.Names
import GraphQuery.Proofs.Rounding

/-!
# Texts of numbers

The text of a number is made of number characters (`Number.text_isNumberChar`) and determines the number
(`Number.text_injective`). In each of its three forms, what a layout writes reads back as the decimal whose digits it
set (`Decimal.Layout.decimal?_write`). So the text of a double reads back as its shortest decimal, which rounds to no
other double.
-/

namespace GraphQuery

open Text (Ends span_append)

namespace Floating

/-! ## Values of digits -/

theorem digitsValue_append (ds es : List Char) :
    digitsValue (ds ++ es) = 10 ^ es.length * digitsValue ds + digitsValue es :=
  Nat.ofDigitChars_append 0 |>.trans Nat.ofDigitChars_eq_ofDigitChars_zero

theorem digitsValue_zeros (n : Nat) : digitsValue (List.replicate n '0') = 0 :=
  Nat.ofDigitChars_replicate_zero.trans (Nat.mul_zero _)

theorem digitsValue_toDigits (n : Nat) : digitsValue (Nat.toDigits 10 n) = n :=
  Nat.ofDigitChars_toDigits (by decide) (by decide)

theorem isDigit_toDigits (n : Nat) : ∀ c ∈ Nat.toDigits 10 n, c.isDigit :=
  fun _ hc => Nat.isDigit_of_mem_toDigits (by decide) (by decide) hc

theorem isDigit_zeros (n : Nat) : ∀ c ∈ List.replicate n '0', c.isDigit := by
  intro c hc
  rw [(List.mem_replicate.1 hc).2]
  rfl

/-! ## Reading decimals -/

section Reading

variable {whole fraction rest : List Char} (hne : whole ≠ []) (hwhole : ∀ c ∈ whole, c.isDigit)
include hne hwhole

theorem decimal?_point (hfraction : ∀ c ∈ fraction, c.isDigit) (hrest : Ends Char.isDigit rest) :
    decimal? (whole ++ '.' :: (fraction ++ rest)) =
      (exponent? rest).map fun e => ⟨digitsValue (whole ++ fraction), e - fraction.length⟩ := by
  have hpoint : Ends Char.isDigit ('.' :: (fraction ++ rest)) := by
    intro c hc
    cases hc
    rfl
  obtain ⟨htake, hdrop⟩ := span_append hwhole hpoint
  obtain ⟨htake', hdrop'⟩ := span_append hfraction hrest
  rw [decimal?, htake, hdrop]
  simp only [htake', hdrop']
  rw [if_neg (List.append_ne_nil_of_left_ne_nil hne _)]

theorem decimal?_point_nil (hfraction : ∀ c ∈ fraction, c.isDigit) :
    decimal? (whole ++ '.' :: fraction) = some ⟨digitsValue (whole ++ fraction), -fraction.length⟩ := by
  have hread := decimal?_point hne hwhole hfraction (show Ends Char.isDigit [] from nofun)
  rw [List.append_nil] at hread
  rw [hread, exponent?, Option.map_some, Int.zero_sub]

theorem decimal?_whole (hrest : Ends Char.isDigit rest) (hpoint : rest.head? ≠ some '.') :
    decimal? (whole ++ rest) = (exponent? rest).map fun e => ⟨digitsValue whole, e⟩ := by
  obtain ⟨htake, hdrop⟩ := span_append hwhole hrest
  rw [decimal?, htake, hdrop]
  split
  · next heq =>
    split at heq
    · exact absurd rfl hpoint
    · cases heq
      rw [List.append_nil, if_neg hne]
      simp

end Reading

theorem exponent?_write (e : Int) :
    exponent? ('e' :: (if e < 0 then '-' else '+') :: Nat.toDigits 10 e.natAbs) = some e := by
  have hdigits : (Nat.toDigits 10 e.natAbs).all Char.isDigit := List.all_eq_true.2 (isDigit_toDigits _)
  have hshape : 'e'.toLower = 'e' ∧ Nat.toDigits 10 e.natAbs ≠ [] ∧ (Nat.toDigits 10 e.natAbs).all Char.isDigit :=
    ⟨rfl, Nat.toDigits_ne_nil, hdigits⟩
  by_cases he : e < 0
  · have hread : exponent? ('e' :: '-' :: Nat.toDigits 10 e.natAbs) =
        some (-(digitsValue (Nat.toDigits 10 e.natAbs) : Int)) :=
      if_pos hshape
    rw [if_pos he, hread, digitsValue_toDigits]
    exact congrArg some (by omega)
  · have hread : exponent? ('e' :: '+' :: Nat.toDigits 10 e.natAbs) =
        some (digitsValue (Nat.toDigits 10 e.natAbs) : Int) :=
      if_pos hshape
    rw [if_neg he, hread, digitsValue_toDigits]
    exact congrArg some (by omega)

end Floating

namespace Decimal

/-! ## Setting the digits -/

section Write

variable {ds : List Char} (hne : ds ≠ []) (hds : ∀ c ∈ ds, c.isDigit) (e : Int)
include hne hds

/-- Scientific: the exponent is written, and the digits after the first are behind the point. -/
theorem decimal?_scientific (rest : List Char) (hrest : Ends Char.isDigit rest) (hpoint : rest.head? ≠ some '.')
    (hexponent : Floating.exponent? rest = some e) :
    Floating.decimal? (ds.take 1 ++ (if ds.length ≤ 1 then [] else '.' :: ds.drop 1) ++ rest) =
      some ⟨Floating.digitsValue ds, e + 1 - ds.length⟩ := by
  have hlength : 0 < ds.length := List.length_pos_iff.2 hne
  split
  · next hone =>
    rw [List.take_of_length_le hone, List.append_nil, Floating.decimal?_whole hne hds hrest hpoint, hexponent,
      Option.map_some, show e + 1 - ds.length = e by omega]
  · have hfirst : ds.take 1 ≠ [] := by simpa using hne
    rw [List.append_assoc, List.cons_append,
      Floating.decimal?_point hfirst (fun c hc => hds c (List.mem_of_mem_take hc))
        (fun c hc => hds c (List.mem_of_mem_drop hc)) hrest, hexponent, Option.map_some, List.take_append_drop,
      List.length_drop, show e + 1 - ds.length = e - (ds.length - 1 : Nat) by omega]

omit hne in
/-- A fraction: zeros and the digits are behind the point. -/
theorem decimal?_fraction (he : e < 0) :
    Floating.decimal? (['0', '.'] ++ List.replicate (e.natAbs - 1) '0' ++ ds) =
      some ⟨Floating.digitsValue ds, e + 1 - ds.length⟩ := by
  have hfraction : ∀ c ∈ List.replicate (e.natAbs - 1) '0' ++ ds, c.isDigit :=
    List.forall_mem_append.2 ⟨Floating.isDigit_zeros _, hds⟩
  have hvalue : Floating.digitsValue (['0'] ++ (List.replicate (e.natAbs - 1) '0' ++ ds)) =
      Floating.digitsValue ds := by
    rw [← List.append_assoc, Floating.digitsValue_append,
      show ['0'] ++ List.replicate (e.natAbs - 1) '0' = List.replicate (e.natAbs - 1 + 1) '0' from
        List.replicate_succ.symm, Floating.digitsValue_zeros, Nat.mul_zero, Nat.zero_add]
  have hread := Floating.decimal?_point_nil (List.cons_ne_nil '0' []) (List.forall_mem_singleton.2 rfl)
    hfraction
  rw [hvalue, List.length_append, List.length_replicate] at hread
  refine hread.trans (congrArg some ?_)
  rw [Decimal.mk.injEq]
  exact ⟨rfl, by omega⟩

/-- Positional: the point is behind `whole` digits, which may be more than there are. -/
theorem decimal?_positional {whole : Nat} (hwhole : 0 < whole) :
    Floating.decimal? (ds.take whole ++ List.replicate (whole - ds.length) '0' ++ ['.'] ++
      if ds.length ≤ whole then ['0'] else ds.drop whole) =
    some (if ds.length ≤ whole then ⟨Floating.digitsValue (ds ++ List.replicate (whole - ds.length + 1) '0'), -1⟩
      else ⟨Floating.digitsValue ds, whole - ds.length⟩) := by
  rw [List.append_assoc _ ['.'], List.singleton_append]
  split
  · next hle =>
    rw [List.take_of_length_le hle, List.replicate_succ', ← List.append_assoc]
    exact Floating.decimal?_point_nil (List.append_ne_nil_of_left_ne_nil hne _)
      (List.forall_mem_append.2 ⟨hds, Floating.isDigit_zeros _⟩) (List.forall_mem_singleton.2 rfl)
  · next hlt =>
    have hfirst : ds.take whole ≠ [] := fun h => (List.take_eq_nil_iff.1 h).elim hwhole.ne' hne
    rw [show whole - ds.length = 0 by omega, List.replicate_zero, List.append_nil,
      Floating.decimal?_point_nil hfirst (fun c hc => hds c (List.mem_of_mem_take hc))
        (fun c hc => hds c (List.mem_of_mem_drop hc)), List.take_append_drop, List.length_drop,
      show -((ds.length - whole : Nat) : Int) = whole - ds.length by omega]

/-- What a layout writes reads back as the decimal whose digits it set. -/
theorem Layout.decimal?_write (layout : Layout) : ∃ d, Floating.decimal? (layout.write ds e) = some d ∧
    d.toRat = Floating.digitsValue ds * (10 : ℚ) ^ (e + 1 - ds.length) := by
  rw [Layout.write]
  split
  · refine ⟨⟨Floating.digitsValue ds, e + 1 - ds.length⟩, ?_, rfl⟩
    rw [List.append_assoc]
    refine decimal?_scientific hne hds e _ ?_ (by simp) (Floating.exponent?_write e)
    intro c hc
    cases hc
    rfl
  · split
    · next he => exact ⟨_, decimal?_fraction hds e he, rfl⟩
    · next he =>
      refine ⟨_, decimal?_positional hne hds e.toNat.succ_pos, ?_⟩
      split
      · next hle =>
        rw [toRat, Floating.digitsValue_append, Floating.digitsValue_zeros, List.length_replicate,
          show e + 1 - ds.length = (e.toNat + 1 - ds.length + 1 : Nat) + -1 by omega, zpow_add₀ (by norm_num),
          zpow_natCast]
        push_cast
        ring
      · rw [toRat, show e + 1 - ds.length = ((e.toNat + 1 : Nat) : Int) - ds.length by omega]

end Write

theorem dropZeros_append_zeros (ds : List Char) : ∃ n, ds = dropZeros ds ++ List.replicate n '0' := by
  have hzeros : ds.reverse.takeWhile (· == '0') =
      List.replicate (ds.reverse.takeWhile (· == '0')).length '0' :=
    List.eq_replicate_of_mem fun c hc => eq_of_beq (List.all_eq_true.1 List.all_takeWhile c hc)
  refine ⟨(ds.reverse.takeWhile (· == '0')).length, ?_⟩
  rw [dropZeros, ← List.reverse_replicate, ← hzeros, ← List.reverse_append, List.takeWhile_append_dropWhile,
    List.reverse_reverse]

end Decimal

/-! ## Texts of doubles -/

namespace Double

open Decimal

variable (layout : Layout)

/-- The text of a double without its sign. -/
def unsignedText (d : Double) : List Char :=
  if d.significand = 0 then ['0', '.', '0']
  else
    let t := shortest d.significand d.exponent
    let ds := Nat.toDigits 10 t.digits
    layout.write (dropZeros ds) (t.exponent + (ds.length - 1))

theorem text_toList (d : Double) :
    (d.text layout).toList = if d.negative then '-' :: d.unsignedText layout else d.unsignedText layout := by
  rw [text, String.toList_ofList]
  rfl

/-- A decimal that is set without the zeros at its end reads back as the same number. -/
theorem decimal?_write_dropZeros {t : Decimal} (ht : t.digits ≠ 0) : ∃ d,
    Floating.decimal? (layout.write (dropZeros (Nat.toDigits 10 t.digits))
      (t.exponent + ((Nat.toDigits 10 t.digits).length - 1))) = some d ∧ d.toRat = t.toRat := by
  obtain ⟨n, hn⟩ := dropZeros_append_zeros (Nat.toDigits 10 t.digits)
  have hdigits := Floating.isDigit_toDigits t.digits
  have hvalue := Floating.digitsValue_toDigits t.digits
  generalize Nat.toDigits 10 t.digits = ds at *
  generalize dropZeros ds = es at *
  subst hn
  rw [Floating.digitsValue_append, Floating.digitsValue_zeros, List.length_replicate, Nat.add_zero] at hvalue
  have hne : es ≠ [] := by
    rintro rfl
    exact ht (by rw [← hvalue]; rfl)
  obtain ⟨d, hread, hd⟩ := layout.decimal?_write hne (fun c hc => hdigits c (List.mem_append_left _ hc))
    (t.exponent + ((es ++ List.replicate n '0').length - 1))
  refine ⟨d, hread, ?_⟩
  rw [hd, toRat, ← hvalue, List.length_append, List.length_replicate,
    show t.exponent + (((es.length + n : Nat) : Int) - 1) + 1 - es.length = n + t.exponent by omega,
    zpow_add₀ (by norm_num), zpow_natCast]
  push_cast
  ring

/-- The text of a double reads back as a decimal that rounds to it. -/
theorem decimal?_unsignedText (d : Double) : ∃ t, Floating.decimal? (d.unsignedText layout) = some t ∧
    RoundsTo d.significand d.exponent t.toRat := by
  rw [unsignedText]
  split
  · next hzero =>
    rw [hzero]
    exact ⟨⟨0, -1⟩, rfl, by simpa [toRat] using RoundsTo.zero d.exponent⟩
  · next hne =>
    have hshort := roundsTo_shortest d.canonical (Nat.pos_of_ne_zero hne)
    have hdigits : (shortest d.significand d.exponent).digits ≠ 0 := fun hzero =>
      (hshort.pos (Nat.pos_of_ne_zero hne)).ne' (by rw [toRat, hzero, Nat.cast_zero, zero_mul])
    obtain ⟨t, hread, ht⟩ := decimal?_write_dropZeros layout hdigits
    exact ⟨t, hread, ht ▸ hshort⟩

end Double

/-! ## Signs -/

/-- A text with or without a minus sign tells which, if there is no further sign behind it. -/
theorem signed_inj {a b : Bool} {s t : List Char} (hs : s.head? ≠ some '-') (ht : t.head? ≠ some '-')
    (h : (if a then '-' :: s else s) = if b then '-' :: t else t) : a = b ∧ s = t := by
  cases a <;> cases b
  · exact ⟨rfl, h⟩
  · exact absurd (congrArg List.head? h) hs
  · exact absurd (congrArg List.head? h).symm ht
  · exact ⟨rfl, List.tail_eq_of_cons_eq h⟩

theorem Double.text_injective (layout : Decimal.Layout) {d d' : Double} (h : d.text layout = d'.text layout) :
    d = d' := by
  have hsign : ∀ d : Double, (d.unsignedText layout).head? ≠ some '-' := by
    intro d hd
    obtain ⟨t, hread, -⟩ := d.decimal?_unsignedText layout
    obtain ⟨rest, hrest⟩ := List.head?_eq_some_iff.1 hd
    rw [hrest] at hread
    cases hread
  have hchars := congrArg String.toList h
  rw [text_toList, text_toList] at hchars
  obtain ⟨hnegative, hbody⟩ := signed_inj (hsign d) (hsign d') hchars
  obtain ⟨t, hread, ht⟩ := d.decimal?_unsignedText layout
  obtain ⟨t', hread', ht'⟩ := d'.decimal?_unsignedText layout
  obtain rfl : t = t' := Option.some.inj (by rw [← hread, hbody, hread'])
  obtain ⟨hsignificand, hexponent⟩ := ht.unique d.canonical d'.canonical ht'
  cases d
  cases d'
  congr

namespace Number

theorem intText_toList (i : Int) : (intText i).toList =
    if decide (i < 0) then '-' :: Nat.toDigits 10 i.natAbs else Nat.toDigits 10 i.natAbs := by
  rw [intText, natText]
  by_cases hi : i < 0 <;> simp [hi]

theorem intText_injective {i j : Int} (h : intText i = intText j) : i = j := by
  have hsign : ∀ n, (Nat.toDigits 10 n).head? ≠ some '-' := fun n hn =>
    absurd (Floating.isDigit_toDigits n _ (List.mem_of_mem_head? hn)) (by decide)
  have hchars := congrArg String.toList h
  rw [intText_toList, intText_toList] at hchars
  obtain ⟨hnegative, hdigits⟩ := signed_inj (hsign i.natAbs) (hsign j.natAbs) hchars
  have habs : i.natAbs = j.natAbs := by
    rw [← Floating.digitsValue_toDigits i.natAbs, hdigits, Floating.digitsValue_toDigits]
  have hneg : i < 0 ↔ j < 0 := by simpa using hnegative
  omega

end Number

/-! ## Number characters -/

theorem Json.isNumberChar_of_isDigit {c : Char} (hc : c.isDigit) : isNumberChar c := by
  simp [isNumberChar, hc]

theorem Decimal.Layout.isNumberChar_write (layout : Layout) {ds : List Char} (hds : ∀ c ∈ ds, c.isDigit) (e : Int) :
    ∀ c ∈ layout.write ds e, Json.isNumberChar c := by
  have hdigit : ∀ c ∈ ds, Json.isNumberChar c := fun c hc => Json.isNumberChar_of_isDigit (hds c hc)
  have htake : ∀ n, ∀ c ∈ ds.take n, Json.isNumberChar c := fun n c hc => hdigit c (List.mem_of_mem_take hc)
  have hdrop : ∀ n, ∀ c ∈ ds.drop n, Json.isNumberChar c := fun n c hc => hdigit c (List.mem_of_mem_drop hc)
  have hzeros : ∀ n, ∀ c ∈ List.replicate n '0', Json.isNumberChar c := fun n c hc =>
    Json.isNumberChar_of_isDigit (Floating.isDigit_zeros n c hc)
  have hexponent : ∀ c ∈ Nat.toDigits 10 e.natAbs, Json.isNumberChar c := fun c hc =>
    Json.isNumberChar_of_isDigit (Floating.isDigit_toDigits _ c hc)
  rw [Layout.write]
  split
  · simp only [List.forall_mem_append]
    refine ⟨⟨⟨htake 1, ?_⟩, ?_⟩, hexponent⟩
    · split
      · exact nofun
      · exact List.forall_mem_cons.2 ⟨rfl, hdrop 1⟩
    · split <;> exact List.all_eq_true.1 rfl
  · split
    · simp only [List.forall_mem_append]
      exact ⟨⟨List.all_eq_true.1 rfl, hzeros _⟩, hdigit⟩
    · simp only [List.forall_mem_append]
      refine ⟨⟨⟨htake _, hzeros _⟩, List.forall_mem_singleton.2 rfl⟩, ?_⟩
      split
      · exact List.forall_mem_singleton.2 rfl
      · exact hdrop _

theorem Decimal.Layout.mark_mem_write (layout : Layout) (ds : List Char) (e : Int) :
    '.' ∈ layout.write ds e ∨ 'e' ∈ layout.write ds e := by
  rw [Layout.write]
  split
  · exact .inr (by simp)
  · split <;> exact .inl (by simp)

namespace Double

variable (layout : Decimal.Layout) (d : Double)

theorem isNumberChar_unsignedText : ∀ c ∈ d.unsignedText layout, Json.isNumberChar c := by
  rw [unsignedText]
  split
  · exact List.all_eq_true.1 rfl
  · obtain ⟨n, hn⟩ := Decimal.dropZeros_append_zeros
      (Nat.toDigits 10 (Decimal.shortest d.significand d.exponent).digits)
    have hdigits := Floating.isDigit_toDigits (Decimal.shortest d.significand d.exponent).digits
    exact layout.isNumberChar_write (fun c hc => hdigits c (hn ▸ List.mem_append_left _ hc)) _

theorem mark_mem_unsignedText : '.' ∈ d.unsignedText layout ∨ 'e' ∈ d.unsignedText layout := by
  rw [unsignedText]
  split
  · exact .inl (by decide)
  · exact layout.mark_mem_write _ _

end Double

namespace Number

/-- The text of a number is a minus sign or nothing, and number characters. -/
theorem text_eq_signed (n : Number) : ∃ (negative : Bool) (body : List Char), body ≠ [] ∧
    (∀ c ∈ body, Json.isNumberChar c) ∧ n.text.toList = if negative then '-' :: body else body := by
  cases n with
  | int i =>
    exact ⟨_, _, Nat.toDigits_ne_nil,
      fun c hc => Json.isNumberChar_of_isDigit (Floating.isDigit_toDigits _ c hc), intText_toList i⟩
  | float d =>
    refine ⟨_, _, ?_, d.isNumberChar_unsignedText layout, d.text_toList layout⟩
    intro hnil
    have hmark := d.mark_mem_unsignedText layout
    rw [hnil] at hmark
    exact hmark.elim nofun nofun

theorem text_isNumberChar (n : Number) : n.text.toList ≠ [] ∧ ∀ c ∈ n.text.toList, Json.isNumberChar c := by
  obtain ⟨negative, body, hne, hbody, htext⟩ := n.text_eq_signed
  rw [htext]
  split
  · exact ⟨List.cons_ne_nil _ _, List.forall_mem_cons.2 ⟨rfl, hbody⟩⟩
  · exact ⟨hne, hbody⟩

/-- A double has a point or an exponent in its text, and an integer has none. -/
theorem intText_ne_text (i : Int) (d : Double) : intText i ≠ d.text layout := by
  intro h
  have hchars := congrArg String.toList h
  have hint : ∀ c ∈ (intText i).toList, c.isDigit ∨ c = '-' := by
    rw [intText_toList]
    intro c hc
    split at hc
    · exact (List.mem_cons.1 hc).symm.imp_left (Floating.isDigit_toDigits _ c)
    · exact .inl (Floating.isDigit_toDigits _ c hc)
  have hmark : '.' ∈ (intText i).toList ∨ 'e' ∈ (intText i).toList := by
    rw [hchars, d.text_toList]
    split
    · exact (d.mark_mem_unsignedText layout).imp (List.mem_cons_of_mem _) (List.mem_cons_of_mem _)
    · exact d.mark_mem_unsignedText layout
  exact hmark.elim (fun hc => absurd (hint _ hc) (by decide)) fun hc => absurd (hint _ hc) (by decide)

theorem text_injective {m n : Number} (h : m.text = n.text) : m = n := by
  cases m with
  | int i =>
    cases n with
    | int j => rw [intText_injective h]
    | float d => exact absurd h (intText_ne_text i d)
  | float d =>
    cases n with
    | int i => exact absurd h.symm (intText_ne_text i d)
    | float d' => rw [d.text_injective layout h]

end Number

end GraphQuery
