import HeaderBindings.Json.Codec
import HeaderBindings.Proofs.Json.Text

set_option autoImplicit false

namespace HeaderBindings.Json

/-- What the codec writes is plain, and reads back. -/
structure Codec.Lawful {α : Type} (c : Codec α) : Prop where
  plain : ∀ a, Plain (c.encode a)
  decode : ∀ a, c.decode .text (c.encode a) = .ok a

namespace Codec

theorem text_lawful : text.Lawful := ⟨.text, fun _ => rfl⟩

theorem boolean_lawful : boolean.Lawful := ⟨.boolean, fun _ => rfl⟩

theorem size_lawful : size.Lawful := by
  refine ⟨fun n => .size n.toNat_lt, fun n => ?_⟩
  have bound : (0 : Int) ≤ n.toNat ∧ (n.toNat : Int) < UInt64.size :=
    ⟨Int.natCast_nonneg _, Int.ofNat_lt.mpr n.toNat_lt⟩
  simp only [size, bound, and_self, ↓reduceIte, Int.toNat_natCast, UInt64.ofNat_toNat]

theorem list_lawful {α : Type} {c : Codec α} (lawful : c.Lawful) : (list c).Lawful := by
  refine ⟨fun vs => .array ?_, fun vs => ?_⟩
  · intro v member
    obtain ⟨a, _, rfl⟩ := List.mem_map.mp member
    exact lawful.plain a
  · show (vs.map c.encode).mapM (c.decode .text) = .ok vs
    induction vs with
    | nil => rfl
    | cons v vs ih =>
        rw [List.map_cons, List.mapM_cons, lawful.decode, ih]
        rfl

theorem choice_lawful {α : Type} (choices : List String) {name : α → String}
    {ofName? : String → Option α} (named : ∀ a, ofName? (name a) = some a) :
    (choice choices name ofName?).Lawful := by
  refine ⟨fun a => .text (name a), fun a => ?_⟩
  simp only [choice, named]

end Codec

end HeaderBindings.Json
