import HeaderBindings.Json.Record
import HeaderBindings.Proofs.Json.Codec
import Mathlib.Data.List.Perm.Basic

set_option autoImplicit false

namespace HeaderBindings.Json

def keyed (ms : List (String × Json)) : List (Key × Json) := ms.map fun m => (.text m.1, m.2)

theorem keyed_cons (m : String × Json) (ms : List (String × Json)) :
    keyed (m :: ms) = (.text m.1, m.2) :: keyed ms := rfl

theorem keyed_append (front behind : List (String × Json)) :
    keyed (front ++ behind) = keyed front ++ keyed behind := List.map_append

theorem isWhole_of_keyed {ms : List (String × Json)} (whole : membersWhole (keyed ms) = true) :
    ∀ m ∈ ms, m.2.isWhole = true := by
  induction ms with
  | nil => exact fun m member => absurd member List.not_mem_nil
  | cons n ms ih =>
      have both : n.2.isWhole = true ∧ membersWhole (keyed ms) = true := by
        simpa [keyed_cons, membersWhole] using whole
      intro m member
      rcases List.mem_cons.mp member with rfl | later
      · exact both.1
      · exact ih both.2 m later

theorem plain_keyed {ms : List (String × Json)} (each : ∀ m ∈ ms, Plain m.2) :
    Plain (.object (keyed ms)) := by
  refine .object ?_ ?_
  · intro m member
    obtain ⟨n, _, rfl⟩ := List.mem_map.mp member
    exact ⟨n.1, rfl⟩
  · intro m member
    obtain ⟨n, inside, rfl⟩ := List.mem_map.mp member
    exact each n inside

namespace Fields

/-- Every field reads back, and no two have one name. -/
def Lawful {τ : Type} : Fields τ → Prop
  | nil => True
  | cons name _ codec rest => codec.Lawful ∧ name ∉ rest.names ∧ rest.Lawful

/-- The members that the slots with a value are written as, in the order of the fields. -/
def given {τ : Type} : (fields : Fields τ) → fields.Slots → List (String × Json)
  | nil, _ => []
  | cons name _ codec rest, slots =>
    (slots.1.map fun a => (name, codec.encode a)).toList ++ rest.given slots.2

theorem mem_given {τ : Type} {fields : Fields τ} {slots : fields.Slots} {m : String × Json}
    (member : m ∈ fields.given slots) : m.1 ∈ fields.names := by
  induction fields with
  | nil => cases member
  | cons name fallback codec rest ih =>
      rw [names, List.mem_cons]
      rcases List.mem_append.mp member with here | later
      · obtain ⟨a, _, same⟩ := Option.map_eq_some_iff.mp (Option.mem_toList.mp here)
        exact .inl (by rw [← same])
      · exact .inr (ih later)

theorem putAll_append {τ : Type} (fields : Fields τ) (slots : fields.Slots)
    (first second : List (Key × Json)) :
    fields.putAll .text slots (first ++ second) =
      (fields.putAll .text slots first).bind fun slots => fields.putAll .text slots second := by
  induction first generalizing slots with
  | nil => rfl
  | cons m first ih =>
      obtain ⟨k, v⟩ := m
      cases k with
      | text key =>
          simp only [List.cons_append, putAll]
          cases fields.put .text key v slots with
          | error fault => rfl
          | ok found =>
              cases found with
              | some next => exact ih next
              | none =>
                  cases whole : v.isWhole with
                  | true => simpa [bind, Except.bind, whole] using ih slots
                  | false => simp [bind, Except.bind]
      | unpaired => rfl
      | misplaced kind => rfl

section Given

variable {α β : Type} {name : String} {fallback : Option α} {codec : Codec α} {rest : Fields β}

theorem putAll_keyed_cons (slot : Option α) (slots : rest.Slots) {ms : List (String × Json)}
    (others : ∀ m ∈ ms, m.1 ≠ name) :
    (cons name fallback codec rest).putAll .text (slot, slots) (keyed ms) =
      (rest.putAll .text slots (keyed ms)).map (slot, ·) := by
  induction ms generalizing slots with
  | nil => rfl
  | cons m ms ih =>
      have other : m.1 ≠ name := others m List.mem_cons_self
      have later (slots : rest.Slots) := ih slots fun m member =>
        others m (List.mem_cons_of_mem _ member)
      simp only [keyed_cons, putAll, put, other, ↓reduceIte]
      cases rest.put .text m.1 m.2 slots with
      | error fault => rfl
      | ok found =>
          cases found with
          | none =>
              cases whole : m.2.isWhole with
              | true => exact later slots
              | false => rfl
          | some next => exact later next

/-- A member with the name of the first field fills its slot; the members around it fill the later
ones as they would without it. -/
theorem putAll_around (a : α) (reads : codec.decode .text (codec.encode a) = .ok a)
    {slots : rest.Slots} {front behind : List (String × Json)}
    (apart : ∀ m ∈ front ++ behind, m.1 ≠ name)
    (passed : rest.putAll .text rest.noSlots (keyed (front ++ behind)) = .ok slots) :
    (cons name fallback codec rest).putAll .text (cons name fallback codec rest).noSlots
      (keyed (front ++ (name, codec.encode a) :: behind)) = .ok (some a, slots) := by
  have apartFront : ∀ m ∈ front, m.1 ≠ name := fun m member =>
    apart m (List.mem_append_left behind member)
  have apartBehind : ∀ m ∈ behind, m.1 ≠ name := fun m member =>
    apart m (List.mem_append_right front member)
  rw [keyed_append, putAll_append] at passed
  rw [keyed_append, putAll_append, noSlots, putAll_keyed_cons none _ apartFront]
  cases first : rest.putAll .text rest.noSlots (keyed front) with
  | error fault =>
      rw [first] at passed
      cases passed
  | ok between =>
      rw [first] at passed
      have here : (cons name fallback codec rest).put .text name (codec.encode a)
          (none, between) = .ok (some (some a, between)) := by
        simp only [put, ↓reduceIte, reads]
        rfl
      have later : rest.putAll .text between (keyed behind) = .ok slots := passed
      calc (cons name fallback codec rest).putAll .text (none, between)
            (keyed ((name, codec.encode a) :: behind))
        _ = (cons name fallback codec rest).putAll .text (some a, between) (keyed behind) := by
          simp only [keyed_cons, putAll, here]
          rfl
        _ = .ok (some a, slots) := by
          rw [putAll_keyed_cons (some a) between apartBehind, later]
          rfl

theorem filter_names_cons {ms : List (String × Json)} (others : ∀ m ∈ ms, m.1 ≠ name) :
    (ms.filter fun m => m.1 ∈ (cons name fallback codec rest).names) =
      ms.filter fun m => m.1 ∈ rest.names := by
  apply List.filter_congr
  intro m member
  simp only [names, List.mem_cons, others m member, false_or]

theorem apart_of_not_given {slots : rest.Slots} {ms : List (String × Json)}
    (fresh : name ∉ rest.names)
    (known : (ms.filter fun m => m.1 ∈ (cons name fallback codec rest).names).Perm
      (rest.given slots)) :
    ∀ m ∈ ms, m.1 ≠ name := by
  intro m member same
  have later : m ∈ rest.given slots :=
    known.mem_iff.mp (List.mem_filter.mpr ⟨member, by simp [names, same]⟩)
  exact fresh (same ▸ mem_given later)

/-- If the first field is given, it has one member, and the members around that one have other
names. -/
theorem exists_around {a : α} {slots : rest.Slots} {ms : List (String × Json)}
    (fresh : name ∉ rest.names)
    (known : (ms.filter fun m => m.1 ∈ (cons name fallback codec rest).names).Perm
      ((name, codec.encode a) :: rest.given slots)) :
    ∃ front behind, ms = front ++ (name, codec.encode a) :: behind ∧
      (∀ m ∈ front ++ behind, m.1 ≠ name) ∧
        ((front ++ behind).filter fun m => m.1 ∈ rest.names).Perm (rest.given slots) := by
  have member : (name, codec.encode a) ∈ ms :=
    List.mem_of_mem_filter (known.mem_iff.mpr List.mem_cons_self)
  obtain ⟨front, behind, rfl⟩ := List.append_of_mem member
  have others : ((front ++ behind).filter fun m =>
      m.1 ∈ (cons name fallback codec rest).names).Perm (rest.given slots) := by
    have moved := (@List.perm_middle _ (name, codec.encode a) front behind).filter fun m =>
      m.1 ∈ (cons name fallback codec rest).names
    rw [List.filter_cons_of_pos (by simp [names])] at moved
    exact (moved.symm.trans known).cons_inv
  have apart := apart_of_not_given fresh others
  rw [filter_names_cons apart] at others
  exact ⟨front, behind, rfl, apart, others⟩

end Given

/-- The members with the name of a field fill the slots, whatever stands between them. The
induction is on the fields: one member goes to the first field, or none, and all others are left to
the later fields. -/
theorem putAll_given {τ : Type} {fields : Fields τ} (lawful : fields.Lawful)
    (slots : fields.Slots) {ms : List (String × Json)} (whole : ∀ m ∈ ms, m.2.isWhole = true)
    (known : (ms.filter fun m => m.1 ∈ fields.names).Perm (fields.given slots)) :
    fields.putAll .text fields.noSlots (keyed ms) = .ok slots := by
  induction fields generalizing ms with
  | nil =>
      clear known
      induction ms with
      | nil => rfl
      | cons m ms ih =>
          have here : m.2.isWhole = true := whole m List.mem_cons_self
          have later := ih fun n member => whole n (List.mem_cons_of_mem m member)
          simpa [keyed, putAll, put, bind, Except.bind, here] using later
  | cons name fallback codec rest ih =>
      obtain ⟨reads, fresh, others⟩ := lawful
      obtain ⟨slot, slots⟩ := slots
      cases slot with
      | none =>
          have apart := apart_of_not_given fresh known
          rw [filter_names_cons apart] at known
          rw [noSlots, putAll_keyed_cons none rest.noSlots apart, ih others slots whole known]
          rfl
      | some a =>
          obtain ⟨front, behind, rfl, apart, remaining⟩ := exists_around fresh known
          apply putAll_around a (reads.decode a) apart
          exact ih others slots (fun m member => whole m (by grind)) remaining

/-- An object with some of the fields, in any order and among members of other names, is read as
the record that has those fields. -/
theorem decode_given {τ : Type} {fields : Fields τ} (lawful : fields.Lawful) (title : String)
    (slots : fields.Slots) {ms : List (String × Json)} (whole : (object (keyed ms)).isWhole = true)
    (known : (ms.filter fun m => m.1 ∈ fields.names).Perm (fields.given slots)) :
    fields.decode .text title (.object (keyed ms)) = fields.close slots := by
  show (fields.putAll .text fields.noSlots (keyed ms)).bind fields.close = fields.close slots
  rw [putAll_given lawful slots (isWhole_of_keyed whole) known]
  rfl

def filled {τ : Type} : (fields : Fields τ) → τ → fields.Slots
  | nil, _ => ()
  | cons _ _ _ rest, values => (some values.1, rest.filled values.2)

theorem close_filled {τ : Type} (fields : Fields τ) (values : τ) :
    fields.close (fields.filled values) = .ok values := by
  induction fields with
  | nil => rfl
  | cons name fallback codec rest ih =>
      simp only [close, filled, Option.some_or, ih]
      rfl

theorem members_eq {τ : Type} (fields : Fields τ) (values : τ) :
    fields.members values = keyed (fields.given (fields.filled values)) := by
  induction fields with
  | nil => rfl
  | cons name fallback codec rest ih => exact congrArg (_ :: ·) (ih values.2)

theorem plain_of_given {τ : Type} {fields : Fields τ} (lawful : fields.Lawful)
    {slots : fields.Slots} {m : String × Json} (member : m ∈ fields.given slots) : Plain m.2 := by
  induction fields with
  | nil => cases member
  | cons name fallback codec rest ih =>
      obtain ⟨here, _, others⟩ := lawful
      rcases List.mem_append.mp member with first | later
      · obtain ⟨a, _, rfl⟩ := Option.map_eq_some_iff.mp (Option.mem_toList.mp first)
        exact here.plain a
      · exact ih others later

theorem record_lawful {α τ : Type} (title : String) {fields : Fields τ} {toFields : α → τ}
    {ofFields : τ → α} (lawful : fields.Lawful) (inverse : ∀ a, ofFields (toFields a) = a) :
    (Codec.record title fields toFields ofFields).Lawful := by
  have plain (slots : fields.Slots) : Plain (.object (keyed (fields.given slots))) :=
    plain_keyed fun m member => plain_of_given lawful member
  refine ⟨fun a => ?_, fun a => ?_⟩
  · show Plain (.object (fields.members (toFields a)))
    rw [members_eq]
    exact plain _
  · have all : ((fields.given (fields.filled (toFields a))).filter fun m => m.1 ∈ fields.names) =
        fields.given (fields.filled (toFields a)) :=
      List.filter_eq_self.mpr fun m member => decide_eq_true (mem_given member)
    have read := decode_given lawful title (fields.filled (toFields a)) (plain _).spells.isWhole
      (List.Perm.of_eq all)
    rw [← members_eq, close_filled] at read
    simp only [Codec.record, read, Except.map, inverse]

end Fields

end HeaderBindings.Json
