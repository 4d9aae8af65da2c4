import GraphQuery.Proofs.Members
import GraphQuery.Session.Patch

/-!
# Patches in documents

A patch is read back from its document without its value if that is null (`Patch.decoder_toWire`), in whatever order the
members stand (`Patch.decoder_object_congr`): a value that is null is written, but read as one that is not there. So a
list of patches is read back from its document exactly when none of them has a value that is null
(`patches_read_back_iff`), and a patch that adds a null comes back as one that adds nothing (`null_value_lost`).
-/

namespace GraphQuery

/-! ## Members of a record -/

/-- A document that is not null. -/
def Json.unlessNull : Json → Option Json
  | null => none
  | j => some j

namespace Decoder

/-- A document that may be null is read as itself, and null as nothing. -/
theorem optional_json (j : Json) : optional json j = .ok j.unlessNull := by
  cases j <;> rfl

theorem found_map {names : List String} {name : String} (h : name ∈ names) (f : String → Option Json) :
    found name (names.map fun n => (n, f n)) = f name := by
  induction names with
  | nil => cases h
  | cons n names ih =>
    by_cases hname : name = n
    · simp [found, hname]
    · have hmem : name ∈ names := (List.mem_cons.1 h).resolve_left hname
      have hne : (name == n) = false := beq_false_of_ne hname
      rw [← ih hmem]
      simp [found, List.lookup_cons, hne]

end Decoder

namespace Patch

/-- The patch without its value if that is null. -/
def withoutNull (p : Patch) : Patch := { p with value := p.value.bind Json.unlessNull }

theorem ofText?_text (op : PatchOp) : PatchOp.ofText? op.text = some op := by
  cases op <;> rfl

/-- A patch is read from an object by what stands under its names. -/
theorem decoder_object_congr {ms ms' : Members Json} (h : ∀ name, Members.get? ms name = Members.get? ms' name) :
    decoder (.object ms) = decoder (.object ms') := by
  have hrecord : Decoder.record ["op", "path", "from", "value"] (.object ms) =
      Decoder.record ["op", "path", "from", "value"] (.object ms') := by
    rw [Decoder.record, Decoder.record, funext h]
  rw [decoder, decoder, hrecord]

theorem nodup_members (p : Patch) : (p.members.map Prod.fst).Nodup := by
  obtain ⟨op, path, source, value⟩ := p
  cases source <;> cases value <;> simp [members]

/-- What stands under the names of a patch in its members. -/
theorem get?_members (p : Patch) : Members.get? p.members "op" = some (.string p.op.text) ∧
    Members.get? p.members "path" = some (.string p.path) ∧
    Members.get? p.members "from" = p.source.map Json.string ∧ Members.get? p.members "value" = p.value := by
  obtain ⟨op, path, source, value⟩ := p
  cases source <;> cases value <;> exact ⟨rfl, rfl, rfl, rfl⟩

/-- A patch is read back from its document, without its value if that is null. -/
theorem decoder_toWire (p : Patch) : decoder p.toWire = .ok p.withoutNull := by
  obtain ⟨hop, hpath, hsource, hvalue⟩ := p.get?_members
  obtain ⟨ms, hrecord, hfound⟩ : ∃ ms, Decoder.record ["op", "path", "from", "value"] p.toWire = .ok ms ∧
      ∀ name ∈ ["op", "path", "from", "value"], Decoder.found name ms = Members.get? p.members name :=
    ⟨_, rfl, fun name hname => Decoder.found_map hname _⟩
  have hop : Decoder.required "op" (Decoder.variant PatchOp.ofText?) ms = .ok p.op := by
    rw [Decoder.required, hfound "op" (by decide), hop]
    simp [Decoder.variant, Decoder.variant.of, ofText?_text]
  have hpath : Decoder.required "path" Decoder.string ms = .ok p.path := by
    rw [Decoder.required, hfound "path" (by decide), hpath]
    rfl
  have hsource : Decoder.orElse "from" none (Decoder.optional Decoder.string) ms = .ok p.source := by
    rw [Decoder.orElse, hfound "from" (by decide), hsource]
    cases p.source <;> rfl
  have hvalue : Decoder.orElse "value" none (Decoder.optional Decoder.json) ms =
      .ok (p.value.bind Json.unlessNull) := by
    rw [Decoder.orElse, hfound "value" (by decide), hvalue]
    cases p.value with
    | none => rfl
    | some j => exact Decoder.optional_json j
  rw [decoder, hrecord]
  simp only [bind, Except.bind, hop, hpath, hsource, hvalue]
  rfl

theorem decoder_toJson (p : Patch) : decoder p.toJson = .ok p.withoutNull := by
  rw [← decoder_toWire]
  exact decoder_object_congr (Members.get?_ofList p.nodup_members)

theorem withoutNull_eq_self_iff {p : Patch} : p.withoutNull = p ↔ p.value ≠ some .null := by
  obtain ⟨op, path, source, value⟩ := p
  cases value with
  | none => simp [withoutNull]
  | some j => cases j <;> simp [withoutNull, Json.unlessNull]

end Patch

/-! ## Lists of patches -/

theorem Decoder.list_map {α β : Type} {d : Decoder β} {write : α → Json} {f : α → β} (h : ∀ a, d (write a) = .ok (f a))
    (as : List α) : Decoder.list d (.array (as.map write)) = .ok (as.map f) := by
  have hmap : (as.map write).mapM d = as.mapM fun a => pure (f a) := by
    rw [List.mapM_map]
    exact congrArg as.mapM (funext h)
  rw [Decoder.list, hmap, List.mapM_pure]
  rfl

/-- **Patches in documents**: the document of a list of patches, with the members of each in the order of their names or
in that of their declaration, is read as the patches without the values that are null. So the patches are read back
exactly when none of them has a value that is null. -/
theorem patches_read_back_iff (ps : List Patch) :
    Decoder.list Patch.decoder (.array (ps.map Patch.toJson)) = .ok (ps.map Patch.withoutNull) ∧
    Decoder.list Patch.decoder (.array (ps.map Patch.toWire)) = .ok (ps.map Patch.withoutNull) ∧
    (Decoder.list Patch.decoder (.array (ps.map Patch.toJson)) = .ok ps ↔ ∀ p ∈ ps, p.value ≠ some .null) ∧
    (Decoder.list Patch.decoder (.array (ps.map Patch.toWire)) = .ok ps ↔ ∀ p ∈ ps, p.value ≠ some .null) := by
  have hjson := Decoder.list_map Patch.decoder_toJson ps
  have hwire := Decoder.list_map Patch.decoder_toWire ps
  have hback : ps.map Patch.withoutNull = ps ↔ ∀ p ∈ ps, p.value ≠ some .null := by
    have heach : ps.map Patch.withoutNull = ps.map id ↔ ∀ p ∈ ps, p.withoutNull = p := List.map_eq_map_iff
    rw [List.map_id] at heach
    exact heach.trans (forall₂_congr fun p _ => Patch.withoutNull_eq_self_iff)
  refine ⟨hjson, hwire, ?_, ?_⟩
  · rw [hjson, Except.ok.injEq, hback]
  · rw [hwire, Except.ok.injEq, hback]

/-- The document of a patch that adds a null has the null, and it is read as a patch that has nothing to add. -/
theorem null_value_lost :
    Members.get? (Patch.add "/x" .null).members "value" = some .null ∧
    Decoder.list Patch.decoder (.array ([Patch.add "/x" .null].map Patch.toJson)) = .ok [⟨.add, "/x", none, none⟩] ∧
    [(⟨.add, "/x", none, none⟩ : Patch)] ≠ [Patch.add "/x" .null] :=
  ⟨rfl, rfl, by simp [Patch.add]⟩

end GraphQuery
