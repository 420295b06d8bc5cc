import HeaderBindings.Proofs.Json.Grammar

set_option autoImplicit false

namespace HeaderBindings.Json

/-- A value of the kinds that codecs write. -/
inductive Plain : Json → Prop
  | boolean (b : Bool) : Plain (.boolean b)
  | size {n : Nat} (small : n < UInt64.size) : Plain (.number (.integer n))
  | text (s : String) : Plain (.text (some s))
  | array {items : List Json} (each : ∀ v ∈ items, Plain v) : Plain (.array items)
  | object {members : List (Key × Json)} (keys : ∀ m ∈ members, ∃ s, m.1 = .text s)
    (each : ∀ m ∈ members, Plain m.2) : Plain (.object members)

theorem gap_nil : Gap [] := fun _ member => absurd member List.not_mem_nil

theorem Spells.spaced {v : Json} {cs : List Char} (spells : Spells v cs) : Spaced v cs := by
  have spaced := Spaced.intro gap_nil spells gap_nil
  rwa [List.nil_append, List.append_nil] at spaced

theorem write_array (v : Json) (vs : List Json) :
    (array (v :: vs)).write = '[' :: (v.write ++ writeItems vs) := by
  simp [write]

theorem write_object (key : String) (v : Json) (ms : List (Key × Json)) :
    (object ((.text key, v) :: ms)).write =
      '{' :: (Literal.write key ++ ':' :: v.write ++ writeMembers ms) := by
  simp [write, Key.write]

theorem itemsSpell_write {v : Json} {vs : List Json} (first : Spells v v.write)
    (each : ∀ w ∈ vs, Spells w w.write) :
    ∃ cs, ItemsSpell (v :: vs) cs ∧ v.write ++ writeItems vs = cs ++ [']'] := by
  induction vs generalizing v with
  | nil => exact ⟨v.write, .one first.spaced, rfl⟩
  | cons w ws ih =>
      obtain ⟨cs, later, text⟩ :=
        ih (each w List.mem_cons_self) fun u member => each u (List.mem_cons_of_mem w member)
      refine ⟨v.write ++ ',' :: cs, .more first.spaced later, ?_⟩
      rw [writeItems, List.cons_append, text, List.append_assoc, List.cons_append]

theorem memberSpells_write (key : String) {v : Json} (value : Spells v v.write) :
    MemberSpells (.text key, v) (Literal.write key ++ ':' :: v.write) := by
  have spelled :=
    MemberSpells.intro gap_nil (Literal.spells_encode key) gap_nil value.spaced
  rwa [List.nil_append, List.nil_append, ← Literal.write_append] at spelled

theorem membersSpell_write (key : String) {v : Json} {ms : List (Key × Json)}
    (first : Spells v v.write) (keys : ∀ m ∈ ms, ∃ s, m.1 = .text s)
    (each : ∀ m ∈ ms, Spells m.2 m.2.write) :
    ∃ cs, MembersSpell ((.text key, v) :: ms) cs ∧
      Literal.write key ++ ':' :: v.write ++ writeMembers ms = cs ++ ['}'] := by
  induction ms generalizing key v with
  | nil => exact ⟨_, .one (memberSpells_write key first), rfl⟩
  | cons m ms ih =>
      obtain ⟨k, w⟩ := m
      obtain ⟨other, rfl⟩ : ∃ other, k = .text other := keys (k, w) List.mem_cons_self
      obtain ⟨cs, later, text⟩ := ih other (each (.text other, w) List.mem_cons_self)
        (fun m member => keys m (List.mem_cons_of_mem _ member))
        (fun m member => each m (List.mem_cons_of_mem _ member))
      refine ⟨_, .more (memberSpells_write key first) later, ?_⟩
      rw [writeMembers, Key.write]
      simp only [List.append_assoc, List.cons_append] at text ⊢
      rw [text]

/-- Compact text is a spelling of its value. -/
theorem Plain.spells {v : Json} (plain : Plain v) : Spells v v.write := by
  induction plain with
  | boolean b =>
      cases b with
      | true => exact .yes
      | false => exact .no
  | @size n small =>
      rw [write, Number.write_natCast]
      exact .number (.natural small)
  | text s => exact .text (Literal.spells_encode s)
  | @array items each ih =>
      cases items with
      | nil => exact .emptyArray gap_nil
      | cons v vs =>
          obtain ⟨cs, inside, text⟩ := itemsSpell_write (ih v List.mem_cons_self)
            fun w member => ih w (List.mem_cons_of_mem v member)
          rw [write_array, text]
          exact .array inside
  | @object members keys each ih =>
      cases members with
      | nil => exact .emptyObject gap_nil
      | cons m ms =>
          obtain ⟨k, v⟩ := m
          obtain ⟨key, rfl⟩ : ∃ key, k = .text key := keys (k, v) List.mem_cons_self
          obtain ⟨cs, inside, text⟩ := membersSpell_write key (ih (.text key, v) List.mem_cons_self)
            (fun m member => keys m (List.mem_cons_of_mem _ member))
            (fun m member => ih m (List.mem_cons_of_mem _ member))
          rw [write_object, text]
          exact .object inside

theorem ofText_toText {v : Json} (plain : Plain v) :
    Document.ofText v.toText = ⟨v, true⟩ := by
  apply ofText_eq
  rw [toText, String.toList_ofList]
  exact plain.spells.spaced

end HeaderBindings.Json
