import HeaderBindings.Cache
import HeaderBindings.Proofs.Json.Record

set_option autoImplicit false

namespace HeaderBindings.Stored

open Json (Codec Fields)

theorem mappedType_lawful : mappedType.Lawful :=
  Codec.choice_lawful _ MappedType.ofKeyword?_keyword

theorem parameter_lawful : parameter.Lawful :=
  Fields.record_lawful _
    ⟨Codec.text_lawful, by decide, Codec.text_lawful, by decide, Codec.boolean_lawful, by decide,
      mappedType_lawful, by decide, trivial⟩
    fun _ => rfl

theorem function_lawful : function.Lawful :=
  Fields.record_lawful _
    ⟨Codec.text_lawful, by decide, Codec.text_lawful, by decide, Codec.boolean_lawful, by decide,
      mappedType_lawful, by decide, Codec.list_lawful parameter_lawful, by decide, trivial⟩
    fun _ => rfl

theorem diagnostic_lawful : diagnostic.Lawful :=
  Fields.record_lawful _
    ⟨Codec.text_lawful, by decide, Codec.text_lawful, by decide, Codec.text_lawful, by decide,
      trivial⟩
    fun _ => rfl

theorem model_lawful : model.Lawful :=
  Fields.record_lawful _
    ⟨Codec.list_lawful function_lawful, by decide, Codec.list_lawful diagnostic_lawful, by decide,
      Codec.size_lawful, by decide, trivial⟩
    fun _ => rfl

theorem artifacts_lawful : artifacts.Lawful :=
  Fields.record_lawful _
    ⟨Codec.list_lawful Codec.text_lawful, by decide, Codec.list_lawful Codec.text_lawful,
      by decide, Codec.text_lawful, by decide, trivial⟩
    fun _ => rfl

theorem bindings_lawful : bindings.Lawful :=
  Fields.record_lawful _
    ⟨model_lawful, by decide, artifacts_lawful, by decide, trivial⟩
    fun _ => rfl

theorem optionsFields_lawful : optionsFields.Lawful :=
  ⟨Codec.text_lawful, by decide, Codec.text_lawful, by decide,
    Codec.list_lawful Codec.text_lawful, by decide, Codec.list_lawful Codec.text_lawful,
    by decide, Codec.text_lawful, by decide, Codec.size_lawful, by decide,
    Codec.boolean_lawful, by decide, trivial⟩

theorem options_lawful : options.Lawful :=
  Fields.record_lawful _ optionsFields_lawful fun _ => rfl

theorem cacheEntry_lawful : cacheEntry.Lawful :=
  Fields.record_lawful _
    ⟨Codec.text_lawful, by decide, model_lawful, by decide, trivial⟩
    fun _ => rfl

theorem ofText_toText {α : Type} {c : Codec α} (lawful : c.Lawful) (a : α) :
    ofText c (toText c a) = .ok a := by
  have read := Json.ofText_toText (lawful.plain a)
  simp only [ofText, toText, read, Codec.decodeText, lawful.decode]
  rfl

/-- Different values have different texts. -/
theorem toText_inj {α : Type} {c : Codec α} (lawful : c.Lawful) {a b : α}
    (same : toText c a = toText c b) : a = b := by
  have first := ofText_toText lawful a
  rw [same, ofText_toText lawful b, Except.ok.injEq] at first
  exact first.symm

/-- The texts of a codec stand for the values: each reads back, and no two values share one. -/
structure Faithful {α : Type} (c : Codec α) : Prop where
  reads : ∀ a, ofText c (toText c a) = .ok a
  apart : ∀ a b, a ≠ b → toText c a ≠ toText c b

theorem faithful_of_lawful {α : Type} {c : Codec α} (lawful : c.Lawful) : Faithful c :=
  ⟨ofText_toText lawful, fun _ _ other same => other (toText_inj lawful same)⟩

/-- Every type that is stored is read back unchanged, whatever its texts, lists and sizes hold. -/
theorem stored_faithful :
    Faithful mappedType ∧ Faithful parameter ∧ Faithful function ∧ Faithful diagnostic ∧
      Faithful model ∧ Faithful artifacts ∧ Faithful bindings ∧ Faithful options ∧
      Faithful cacheEntry :=
  ⟨faithful_of_lawful mappedType_lawful, faithful_of_lawful parameter_lawful,
    faithful_of_lawful function_lawful, faithful_of_lawful diagnostic_lawful,
    faithful_of_lawful model_lawful, faithful_of_lawful artifacts_lawful,
    faithful_of_lawful bindings_lawful, faithful_of_lawful options_lawful,
    faithful_of_lawful cacheEntry_lawful⟩

end HeaderBindings.Stored
