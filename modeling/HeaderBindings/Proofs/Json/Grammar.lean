import HeaderBindings.Proofs.Json.Literal
import HeaderBindings.Proofs.Json.Number

/-!
The grammar of JSON: which texts stand for which values, with white space wherever it may be, every
spelling of strings and numbers, and values nested to any depth. Each such text is read as its
value.
-/

set_option autoImplicit false

namespace HeaderBindings.Json

def Gap (cs : List Char) : Prop := ∀ c ∈ cs, isGap c = true

instance (cs : List Char) : Decidable (Gap cs) :=
  decidable_of_iff (cs.all isGap = true) List.all_eq_true

mutual

/-- The texts that stand for a value. -/
inductive Spells : Json → List Char → Prop
  | null : Spells .null ['n', 'u', 'l', 'l']
  | yes : Spells (.boolean true) ['t', 'r', 'u', 'e']
  | no : Spells (.boolean false) ['f', 'a', 'l', 's', 'e']
  | number {n : Number} {cs : List Char} (spelled : Number.Spells n cs) : Spells (.number n) cs
  | text {s : Option String} {cs : List Char} (spelled : Literal.Spells s cs) :
    Spells (.text s) ('"' :: (cs ++ ['"']))
  | emptyArray {gap : List Char} (blank : Gap gap) : Spells (.array []) ('[' :: (gap ++ [']']))
  | array {items : List Json} {cs : List Char} (inside : ItemsSpell items cs) :
    Spells (.array items) ('[' :: (cs ++ [']']))
  | emptyObject {gap : List Char} (blank : Gap gap) :
    Spells (.object []) ('{' :: (gap ++ ['}']))
  | object {members : List (Key × Json)} {cs : List Char} (inside : MembersSpell members cs) :
    Spells (.object members) ('{' :: (cs ++ ['}']))

inductive Spaced : Json → List Char → Prop
  | intro {v : Json} {before cs after : List Char} (opening : Gap before) (value : Spells v cs)
    (closing : Gap after) : Spaced v (before ++ (cs ++ after))

inductive ItemsSpell : List Json → List Char → Prop
  | one {v : Json} {cs : List Char} (item : Spaced v cs) : ItemsSpell [v] cs
  | more {v : Json} {vs : List Json} {cs rest : List Char} (item : Spaced v cs)
    (later : ItemsSpell vs rest) : ItemsSpell (v :: vs) (cs ++ ',' :: rest)

inductive MemberSpells : Key × Json → List Char → Prop
  | intro {s : Option String} {v : Json} {before key after cs : List Char} (opening : Gap before)
    (literal : Literal.Spells s key) (closing : Gap after) (value : Spaced v cs) :
    MemberSpells (.ofLiteral s, v) (before ++ '"' :: (key ++ '"' :: (after ++ ':' :: cs)))

inductive MembersSpell : List (Key × Json) → List Char → Prop
  | one {m : Key × Json} {cs : List Char} (member : MemberSpells m cs) : MembersSpell [m] cs
  | more {m : Key × Json} {ms : List (Key × Json)} {cs rest : List Char}
    (member : MemberSpells m cs) (later : MembersSpell ms rest) :
    MembersSpell (m :: ms) (cs ++ ',' :: rest)

end

section Whole

mutual

theorem Spells.isWhole {v : Json} {cs : List Char} : Spells v cs → v.isWhole = true
  | .null => rfl
  | .yes => rfl
  | .no => rfl
  | .number _ => rfl
  | .text _ => rfl
  | .emptyArray _ => rfl
  | .array inside => inside.areWhole
  | .emptyObject _ => rfl
  | .object inside => inside.membersWhole

theorem Spaced.isWhole {v : Json} {cs : List Char} : Spaced v cs → v.isWhole = true
  | .intro _ value _ => value.isWhole

theorem ItemsSpell.areWhole {vs : List Json} {cs : List Char} :
    ItemsSpell vs cs → Json.areWhole vs = true
  | .one item => by simp [Json.areWhole, item.isWhole]
  | .more item later => by simp [Json.areWhole, item.isWhole, later.areWhole]

theorem MemberSpells.isWhole {m : Key × Json} {cs : List Char} :
    MemberSpells m cs → (∃ s, m.1 = .ofLiteral s) ∧ m.2.isWhole = true
  | .intro _ _ _ value => ⟨⟨_, rfl⟩, value.isWhole⟩

theorem MembersSpell.membersWhole {ms : List (Key × Json)} {cs : List Char} :
    MembersSpell ms cs → Json.membersWhole ms = true
  | .one (.intro (s := s) _ _ _ value) => by
    cases s <;> simp [Json.membersWhole, Key.ofLiteral, value.isWhole]
  | .more (.intro (s := s) _ _ _ value) later => by
    cases s <;> simp [Json.membersWhole, Key.ofLiteral, value.isWhole, later.membersWhole]

end

end Whole

section Gap

theorem dropGap_cons {c : Char} (cs : List Char) (visible : isGap c = false) :
    dropGap (c :: cs) = c :: cs := by
  simp [dropGap, visible]

theorem dropGap_append {gap : List Char} (blank : Gap gap) (rest : List Char) :
    dropGap (gap ++ rest) = dropGap rest := by
  induction gap with
  | nil => rfl
  | cons c gap ih =>
      have here : isGap c = true := blank c List.mem_cons_self
      have later : Gap gap := fun d member => blank d (List.mem_cons_of_mem c member)
      rw [List.cons_append, dropGap, List.dropWhile_cons_of_pos here]
      exact ih later

theorem dropGap_dropGap (cs : List Char) : dropGap (dropGap cs) = dropGap cs := by
  induction cs with
  | nil => rfl
  | cons c cs ih =>
      cases visible : isGap c with
      | false => rw [dropGap_cons cs visible, dropGap_cons cs visible]
      | true =>
          have skipped : dropGap (c :: cs) = dropGap cs := by
            rw [dropGap, List.dropWhile_cons_of_pos visible]
            rfl
          rw [skipped, ih]

theorem readValue_dropGap (fuel : Nat) (cs : List Char) :
    readValue fuel (dropGap cs) = readValue fuel cs := by
  cases fuel with
  | zero => rfl
  | succ fuel => rw [readValue, readValue, dropGap_dropGap]

theorem readItems_dropGap (fuel : Nat) (cs : List Char) :
    readItems fuel (dropGap cs) = readItems fuel cs := by
  cases fuel with
  | zero => rfl
  | succ fuel => rw [readItems, readItems, readValue_dropGap]

/-- The text starts with a character that is no white space and closes nothing. -/
def Opens (cs : List Char) : Prop :=
  ∃ c tail, cs = c :: tail ∧ isGap c = false ∧ c ≠ ']' ∧ c ≠ '}'

theorem Opens.dropGap_eq {cs : List Char} (opens : Opens cs) : dropGap cs = cs := by
  obtain ⟨c, tail, rfl, visible, _⟩ := opens
  exact dropGap_cons tail visible

theorem Opens.append {cs : List Char} (opens : Opens cs) (rest : List Char) :
    Opens (cs ++ rest) := by
  obtain ⟨c, tail, rfl, closed⟩ := opens
  exact ⟨c, tail ++ rest, rfl, closed⟩

end Gap

section Numbers

theorem Number.Spells.head {n : Number} {cs : List Char} (spelled : Number.Spells n cs) :
    ∃ c tail, cs = c :: tail ∧ (c.isDigit = true ∨ c = '-') := by
  cases spelled with
  | natural small =>
      obtain ⟨c, tail, same, digit⟩ := (Number.digits_toDigits _).head
      exact ⟨c, tail, same, .inl digit⟩
  | parts negative spelled start behind scaled other =>
      cases negative with
      | true => exact ⟨'-', _, rfl, .inr rfl⟩
      | false =>
          obtain ⟨c, tail, same, digit⟩ := spelled.head
          exact ⟨c, _, by rw [same]; rfl, .inl digit⟩

/-- The start of a number is that of no other value, no white space, and closes nothing. -/
theorem Number.head_ne {c d : Char} (start : c.isDigit = true ∨ c = '-')
    (other : d.isDigit = false ∧ d ≠ '-') : c ≠ d := by
  rintro rfl
  rcases start with digit | minus
  · rw [other.1] at digit
    cases digit
  · exact other.2 minus

theorem Number.Spells.opens {n : Number} {cs : List Char} (spelled : Number.Spells n cs) :
    Opens cs := by
  obtain ⟨c, tail, rfl, start⟩ := spelled.head
  have visible : isGap c = false := by
    simp only [isGap, Bool.or_eq_false_iff, beq_eq_false_iff_ne]
    exact ⟨⟨⟨head_ne start (by decide), head_ne start (by decide)⟩,
      head_ne start (by decide)⟩, head_ne start (by decide)⟩
  exact ⟨c, tail, rfl, visible, head_ne start (by decide), head_ne start (by decide)⟩

theorem readValue_number (fuel : Nat) {n : Number} {cs : List Char}
    (spelled : Number.Spells n cs) {rest : List Char} (delimited : Delimited rest) :
    readValue (fuel + 1) (cs ++ rest) = (.number n, some rest) := by
  have read := Number.read?_eq spelled delimited
  have shown := (spelled.opens.append rest).dropGap_eq
  obtain ⟨c, tail, rfl, start⟩ := spelled.head
  rw [List.cons_append] at read shown ⊢
  have other (d : Char) (none : d.isDigit = false ∧ d ≠ '-') : c ≠ d := Number.head_ne start none
  rw [readValue, shown]
  simp only [other '"' (by decide), other '[' (by decide), other '{' (by decide),
    other 'n' (by decide), other 't' (by decide), other 'f' (by decide), ↓reduceIte, readNumber,
    read]

end Numbers

section Read

theorem Spells.opens {v : Json} {cs : List Char} (spells : Spells v cs) : Opens cs := by
  cases spells with
  | null => exact ⟨'n', _, rfl, by decide⟩
  | yes => exact ⟨'t', _, rfl, by decide⟩
  | no => exact ⟨'f', _, rfl, by decide⟩
  | number spelled => exact spelled.opens
  | text spelled => exact ⟨'"', _, rfl, by decide⟩
  | emptyArray blank => exact ⟨'[', _, rfl, by decide⟩
  | array inside => exact ⟨'[', _, rfl, by decide⟩
  | emptyObject blank => exact ⟨'{', _, rfl, by decide⟩
  | object inside => exact ⟨'{', _, rfl, by decide⟩

theorem Spaced.opens {v : Json} {cs : List Char} (spaced : Spaced v cs) (rest : List Char) :
    Opens (dropGap (cs ++ rest)) := by
  cases spaced with
  | intro opening value closing =>
      have shown := value.opens.append
      rw [List.append_assoc, dropGap_append opening, List.append_assoc, (shown _).dropGap_eq]
      exact shown _

theorem ItemsSpell.opens {vs : List Json} {cs : List Char} (spell : ItemsSpell vs cs)
    (rest : List Char) : Opens (dropGap (cs ++ rest)) := by
  cases spell with
  | one item => exact item.opens rest
  | more item later =>
      rw [List.append_assoc]
      exact item.opens _

theorem MembersSpell.opens {ms : List (Key × Json)} {cs : List Char} (spell : MembersSpell ms cs)
    (rest : List Char) :
    ∃ tail, dropGap (cs ++ rest) = '"' :: tail := by
  have member {m : Key × Json} {cs : List Char} (spells : MemberSpells m cs) (rest : List Char) :
      ∃ tail, dropGap (cs ++ rest) = '"' :: tail := by
    cases spells with
    | intro opening literal closing value =>
        rw [List.append_assoc, dropGap_append opening, List.cons_append,
          dropGap_cons _ (by decide)]
        exact ⟨_, rfl⟩
  cases spell with
  | one spells => exact member spells rest
  | more spells later =>
      rw [List.append_assoc]
      exact member spells _

theorem readValue_array (fuel : Nat) {cs : List Char} (opens : Opens (dropGap cs)) :
    readValue (fuel + 1) ('[' :: cs) = (.array (readItems fuel cs).1, (readItems fuel cs).2) := by
  have visible : isGap '[' = false := by decide
  obtain ⟨c, tail, text, _, opened, _⟩ := opens
  rw [readValue, dropGap_cons _ visible, ← readItems_dropGap fuel cs]
  simp only [Char.reduceEq, ↓reduceIte, text]
  split
  · rename_i rest same
    exact absurd (List.cons.inj same).1 opened
  · rfl

theorem readValue_object (fuel : Nat) {cs tail : List Char} (opens : dropGap cs = '"' :: tail) :
    readValue (fuel + 1) ('{' :: cs) =
      (.object (readMembers fuel cs).1, (readMembers fuel cs).2) := by
  have visible : isGap '{' = false := by decide
  have same : readMembers fuel (dropGap cs) = readMembers fuel cs := by
    cases fuel with
    | zero => rfl
    | succ fuel => rw [readMembers, readMembers, dropGap_dropGap, opens]
  rw [readValue, dropGap_cons _ visible, ← same]
  simp only [Char.reduceEq, ↓reduceIte, opens]
  rfl

theorem delimited_append {gap rest : List Char} (blank : Gap gap) (delimited : Delimited rest) :
    Delimited (gap ++ rest) := by
  cases gap with
  | nil => exact delimited
  | cons c gap =>
      intro d here
      rw [← Option.some.inj here]
      exact .inl (blank c List.mem_cons_self)

theorem readItems_step {fuel : Nat} {v : Json} {cs gap rest : List Char} (blank : Gap gap)
    {d : Char} (visible : isGap d = false)
    (read : readValue fuel (cs ++ d :: rest) = (v, some (gap ++ d :: rest))) :
    readItems (fuel + 1) (cs ++ d :: rest) =
      if d = ']' then ([v], some rest)
      else if d = ',' then (v :: (readItems fuel rest).1, (readItems fuel rest).2)
      else ([v, .cut], none) := by
  rw [readItems, read]
  simp only [dropGap_append blank, dropGap_cons _ visible]
  by_cases close : d = ']'
  · subst close
    rfl
  by_cases comma : d = ','
  · subst comma
    rfl
  · rw [if_neg close, if_neg comma]
    split
    · rename_i same
      exact absurd (List.cons.inj same).1 close
    · rename_i same
      exact absurd (List.cons.inj same).1 comma
    · rfl

theorem readMembers_step {fuel : Nat} {s : Option String} {v : Json}
    {before key after cs gap rest : List Char} (opening : Gap before)
    (literal : Literal.Spells s key) (closing : Gap after) (blank : Gap gap) {d : Char}
    (visible : isGap d = false)
    (read : readValue fuel (cs ++ d :: rest) = (v, some (gap ++ d :: rest))) :
    readMembers (fuel + 1)
        (before ++ '"' :: (key ++ '"' :: (after ++ ':' :: cs)) ++ d :: rest) =
      if d = '}' then ([(.ofLiteral s, v)], some rest)
      else if d = ',' then
        ((.ofLiteral s, v) :: (readMembers fuel rest).1, (readMembers fuel rest).2)
      else ([(.ofLiteral s, v), (.misplaced none, .cut)], none) := by
  have quote : isGap '"' = false := by decide
  have colon : isGap ':' = false := by decide
  have text : before ++ '"' :: (key ++ '"' :: (after ++ ':' :: cs)) ++ d :: rest =
      before ++ '"' :: (key ++ '"' :: (after ++ ':' :: (cs ++ d :: rest))) := by
    simp only [List.append_assoc, List.cons_append]
  rw [text, readMembers, dropGap_append opening, dropGap_cons _ quote]
  simp only [Literal.read?_eq literal, dropGap_append closing, dropGap_cons _ colon, read,
    dropGap_append blank, dropGap_cons _ visible]
  by_cases close : d = '}'
  · subst close
    rfl
  by_cases comma : d = ','
  · subst comma
    rfl
  · rw [if_neg close, if_neg comma]
    split
    · rename_i same
      exact absurd (List.cons.inj same).1 close
    · rename_i same
      exact absurd (List.cons.inj same).1 comma
    · rfl

theorem delimited_comma (rest : List Char) : Delimited (',' :: rest) := by simp [Delimited]

theorem delimited_bracket (rest : List Char) : Delimited (']' :: rest) := by simp [Delimited]

theorem delimited_brace (rest : List Char) : Delimited ('}' :: rest) := by simp [Delimited]

mutual

/-- What stands for a value is read as that value, if there is fuel for its characters and what
follows does not belong to it. -/
theorem Spells.read {v : Json} {cs : List Char} (spells : Spells v cs) (fuel : Nat)
    (rest : List Char) (room : cs.length < fuel) (delimited : Delimited rest) :
    readValue fuel (cs ++ rest) = (v, some rest) := by
  obtain ⟨fuel, rfl⟩ : ∃ less, fuel = less + 1 := ⟨fuel - 1, by omega⟩
  match spells with
  | .null => simp [readValue, dropGap, isGap, readName, Text.afterLiteral]
  | .yes => simp [readValue, dropGap, isGap, readName, Text.afterLiteral]
  | .no => simp [readValue, dropGap, isGap, readName, Text.afterLiteral]
  | .number spelled => exact readValue_number fuel spelled delimited
  | .text spelled =>
      have visible : isGap '"' = false := by decide
      rw [List.cons_append, List.append_assoc, List.singleton_append, readValue,
        dropGap_cons _ visible]
      simp only [↓reduceIte, Literal.read?_eq spelled]
  | .emptyArray blank =>
      have visible : isGap '[' = false := by decide
      have close : isGap ']' = false := by decide
      rw [List.cons_append, List.append_assoc, List.singleton_append, readValue,
        dropGap_cons _ visible]
      simp only [Char.reduceEq, ↓reduceIte, dropGap_append blank, dropGap_cons _ close]
  | .array inside =>
      rw [List.length_cons, List.length_append, List.length_singleton] at room
      have read := inside.read fuel rest (by omega)
      rw [List.cons_append, List.append_assoc, List.singleton_append,
        readValue_array fuel (inside.opens _), read]
  | .emptyObject blank =>
      have visible : isGap '{' = false := by decide
      have close : isGap '}' = false := by decide
      rw [List.cons_append, List.append_assoc, List.singleton_append, readValue,
        dropGap_cons _ visible]
      simp only [Char.reduceEq, ↓reduceIte, dropGap_append blank, dropGap_cons _ close]
  | .object inside =>
      rw [List.length_cons, List.length_append, List.length_singleton] at room
      have read := inside.read fuel rest (by omega)
      obtain ⟨tail, opens⟩ := inside.opens ('}' :: rest)
      rw [List.cons_append, List.append_assoc, List.singleton_append,
        readValue_object fuel opens, read]

theorem Spaced.read {v : Json} {cs : List Char} (spaced : Spaced v cs) (fuel : Nat)
    (rest : List Char) (room : cs.length < fuel) (delimited : Delimited rest) :
    ∃ gap, Gap gap ∧ readValue fuel (cs ++ rest) = (v, some (gap ++ rest)) := by
  match spaced with
  | .intro opening value closing =>
      rw [List.length_append, List.length_append] at room
      have read := value.read fuel _ (by omega) (delimited_append closing delimited)
      refine ⟨_, closing, ?_⟩
      rw [List.append_assoc, ← readValue_dropGap, dropGap_append opening, List.append_assoc,
        readValue_dropGap, read]

theorem ItemsSpell.read {vs : List Json} {cs : List Char} (spell : ItemsSpell vs cs) (fuel : Nat)
    (rest : List Char) (room : cs.length + 1 < fuel) :
    readItems fuel (cs ++ ']' :: rest) = (vs, some rest) := by
  obtain ⟨fuel, rfl⟩ : ∃ less, fuel = less + 1 := ⟨fuel - 1, by omega⟩
  match spell with
  | .one item =>
      obtain ⟨gap, blank, read⟩ := item.read fuel _ (by omega) (delimited_bracket rest)
      rw [readItems_step blank (by decide) read, if_pos rfl]
  | .more item later =>
      rw [List.length_append, List.length_cons] at room
      obtain ⟨gap, blank, read⟩ := item.read fuel _ (by omega) (delimited_comma _)
      have next := later.read fuel rest (by omega)
      rw [List.append_assoc, List.cons_append, readItems_step blank (by decide) read,
        if_neg (by decide), if_pos rfl, next]

theorem MembersSpell.read {ms : List (Key × Json)} {cs : List Char} (spell : MembersSpell ms cs)
    (fuel : Nat) (rest : List Char) (room : cs.length + 1 < fuel) :
    readMembers fuel (cs ++ '}' :: rest) = (ms, some rest) := by
  obtain ⟨fuel, rfl⟩ : ∃ less, fuel = less + 1 := ⟨fuel - 1, by omega⟩
  match spell with
  | .one (.intro opening literal closing value) =>
      simp only [List.length_append, List.length_cons] at room
      obtain ⟨gap, blank, read⟩ := value.read fuel _ (by omega) (delimited_brace rest)
      rw [readMembers_step opening literal closing blank (by decide) read, if_pos rfl]
  | .more (.intro opening literal closing value) later =>
      simp only [List.length_append, List.length_cons] at room
      obtain ⟨gap, blank, read⟩ := value.read fuel _ (by omega) (delimited_comma _)
      have next := later.read fuel rest (by omega)
      rw [List.append_assoc, List.cons_append,
        readMembers_step opening literal closing blank (by decide) read, if_neg (by decide),
        if_pos rfl, next]

end

/-- A text that stands for a value, with white space around it, is read as that value, to its
end. -/
theorem ofText_eq {v : Json} {text : String} (spaced : Spaced v text.toList) :
    Document.ofText text = ⟨v, true⟩ := by
  obtain ⟨gap, blank, read⟩ :=
    spaced.read (text.toList.length + 1) [] (Nat.lt_succ_self _) (by simp [Delimited])
  rw [List.append_nil, List.append_nil] at read
  have behind : dropGap gap = [] := by
    rw [← List.append_nil gap, dropGap_append blank]
    rfl
  simp only [Document.ofText, read, behind, List.isEmpty_nil]

end Read

end HeaderBindings.Json
