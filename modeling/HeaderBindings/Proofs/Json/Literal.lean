import HeaderBindings.Json.Literal

set_option autoImplicit false

namespace HeaderBindings.Json.Literal

/-- A hexadecimal digit, in either case, and its value. -/
def HexDigit (c : Char) (n : Nat) : Prop :=
  n < 16 ∧ (c = Nat.digitChar n ∨ c = (Nat.digitChar n).toUpper)

def shortEscapes : List (Char × Char) :=
  [('"', '"'), ('\\', '\\'), ('/', '/'), ('b', '\x08'), ('f', '\x0c'), ('n', '\n'), ('r', '\r'),
    ('t', '\t')]

/-- The spellings of a unit: a character as itself, an escape with one letter, or one with four
digits. -/
inductive UnitSpells : Unit → List Char → Prop
  | plain {c : Char} (quote : c ≠ '"') (backslash : c ≠ '\\') (printable : 0x20 ≤ c.toNat) :
    UnitSpells (.char c) [c]
  | short {letter c : Char} (known : (letter, c) ∈ shortEscapes) :
    UnitSpells (.char c) ['\\', letter]
  | code {a b c d : Char} {i j k l : Nat} (first : HexDigit a i) (second : HexDigit b j)
    (third : HexDigit c k) (fourth : HexDigit d l) :
    UnitSpells (.code (((i * 16 + j) * 16 + k) * 16 + l)) ['\\', 'u', a, b, c, d]

inductive UnitsSpell : List Unit → List Char → Prop
  | nil : UnitsSpell [] []
  | cons {u : Unit} {us : List Unit} {first rest : List Char} (here : UnitSpells u first)
    (later : UnitsSpell us rest) : UnitsSpell (u :: us) (first ++ rest)

/-- What units stand for. A character above U+FFFF is a pair of codes, and no half of a pair stands
for anything alone. -/
inductive Means : List Unit → List Char → Prop
  | nil : Means [] []
  | char (c : Char) {us : List Unit} {cs : List Char} (later : Means us cs) :
    Means (.char c :: us) (c :: cs)
  | code (c : Char) {us : List Unit} {cs : List Char} (later : Means us cs) :
    Means (.code c.toNat :: us) (c :: cs)
  | pair {high low : Nat} {c : Char} {us : List Unit} {cs : List Char}
    (first : 0xD800 ≤ high ∧ high ≤ 0xDBFF) (second : 0xDC00 ≤ low ∧ low ≤ 0xDFFF)
    (same : c.toNat = 0x10000 + (high - 0xD800) * 0x400 + (low - 0xDC00)) (later : Means us cs) :
    Means (.code high :: .code low :: us) (c :: cs)

/-- The texts between the quotation marks of a literal, by the string that it stands for; with half
of a surrogate pair alone it stands for none. -/
inductive Spells : Option String → List Char → Prop
  | text {s : String} {us : List Unit} {cs : List Char} (units : UnitsSpell us cs)
    (means : Means us s.toList) : Spells (some s) cs
  | unpaired {us : List Unit} {cs : List Char} (units : UnitsSpell us cs)
    (nothing : ∀ text, ¬ Means us text) : Spells none cs

section Units

theorem units?_plain {c : Char} (rest : List Char) (quote : c ≠ '"') (backslash : c ≠ '\\')
    (printable : 0x20 ≤ c.toNat) :
    units? (c :: rest) = (units? rest).map (push (.char c)) := by
  rw [units?]
  · rw [if_neg (Nat.not_lt.mpr printable)]
  · exact quote
  · intro a b d e tail same
    exact absurd same backslash
  · intro e tail same
    exact absurd same backslash
  · intro same
    exact absurd same backslash

theorem hexValue?_eq {c : Char} {n : Nat} (digit : HexDigit c n) : hexValue? c = some n := by
  have values : ∀ m < 16, hexValue? (Nat.digitChar m) = some m ∧
      hexValue? (Nat.digitChar m).toUpper = some m := by decide
  obtain ⟨small, lower | upper⟩ := digit
  · rw [lower]
    exact (values n small).1
  · rw [upper]
    exact (values n small).2

theorem units?_append {u : Unit} {first : List Char} (spells : UnitSpells u first)
    (rest : List Char) : units? (first ++ rest) = (units? rest).map (push u) := by
  cases spells with
  | plain quote backslash printable => exact units?_plain rest quote backslash printable
  | short known =>
      simp only [shortEscapes, List.mem_cons, Prod.mk.injEq, List.not_mem_nil, or_false] at known
      rcases known with ⟨rfl, rfl⟩ | ⟨rfl, rfl⟩ | ⟨rfl, rfl⟩ | ⟨rfl, rfl⟩ | ⟨rfl, rfl⟩ |
        ⟨rfl, rfl⟩ | ⟨rfl, rfl⟩ | ⟨rfl, rfl⟩ <;> simp [units?, escaped?]
  | @code a b c d i j k l first second third fourth =>
      have number : hex4? a b c d = some (((i * 16 + j) * 16 + k) * 16 + l) := by
        simp only [hex4?, hexValue?_eq first, hexValue?_eq second, hexValue?_eq third,
          hexValue?_eq fourth, Option.bind_eq_bind, Option.bind_some, Option.pure_def,
          Option.some.injEq]
        omega
      simp only [List.cons_append, List.nil_append, units?, number, Option.bind_some]

theorem units?_eq {us : List Unit} {cs : List Char} (spell : UnitsSpell us cs)
    (rest : List Char) : units? (cs ++ '"' :: rest) = some (us, rest) := by
  induction spell with
  | nil => simp [units?]
  | cons here later ih =>
      rw [List.append_assoc, units?_append here, ih]
      rfl

theorem UnitsSpell.code_lt {us : List Unit} {cs : List Char} (spell : UnitsSpell us cs) {n : Nat}
    (member : Unit.code n ∈ us) : n < 0x10000 := by
  induction spell with
  | nil => cases member
  | cons here later ih =>
      rcases List.mem_cons.mp member with same | behind
      · cases here with
        | plain => cases same
        | short => cases same
        | code first second third fourth =>
            cases same
            have := first.1
            have := second.1
            have := third.1
            have := fourth.1
            omega
      · exact ih behind

end Units

section Characters

/-- The number of a character is no half of a surrogate pair. -/
theorem not_surrogate (c : Char) : isHigh c.toNat = false ∧ isLow c.toNat = false := by
  have valid := c.valid
  simp only [UInt32.isValidChar, Nat.isValidChar] at valid
  simp only [isHigh, isLow, Bool.and_eq_false_iff, decide_eq_false_iff_not, Char.toNat]
  omega

theorem decode?_code (c : Char) (us : List Unit) :
    decode? (.code c.toNat :: us) = (decode? us).map (c :: ·) := by
  obtain ⟨noHigh, noLow⟩ := not_surrogate c
  conv => lhs; unfold decode?
  simp only [noHigh, noLow, Bool.false_eq_true, ↓reduceIte, Char.ofNat_toNat]

theorem decode?_eq {us : List Unit} {cs : List Char} (means : Means us cs) :
    decode? us = some cs := by
  induction means with
  | nil => rfl
  | char c later ih =>
      rw [decode?, ih]
      rfl
  | code c later ih =>
      rw [decode?_code, ih]
      rfl
  | @pair high low c us cs first second same later ih =>
      have isFirst : isHigh high = true := by simpa [isHigh] using first
      have isSecond : isLow low = true := by simpa [isLow] using second
      unfold decode?
      simp only [isFirst, isSecond, ↓reduceIte, ih, ← same, Char.ofNat_toNat, Option.map_some]

theorem toNat_ofNat {n : Nat} (valid : n.isValidChar) : (Char.ofNat n).toNat = n := by
  rw [Char.ofNat, dif_pos valid]
  rfl

theorem means_of_decode? {us : List Unit} {cs : List Char}
    (small : ∀ n, Unit.code n ∈ us → n < 0x10000) (decoded : decode? us = some cs) :
    Means us cs := by
  induction us using decode?.induct generalizing cs with
  | case1 =>
      cases decoded
      exact .nil
  | case2 c us ih =>
      rw [decode?, Option.map_eq_some_iff] at decoded
      obtain ⟨text, later, rfl⟩ := decoded
      exact .char c (ih (fun n member => small n (List.mem_cons_of_mem _ member)) later)
  | case3 high isFirst low rest isSecond ih =>
      unfold decode? at decoded
      simp only [isFirst, isSecond, ↓reduceIte, Option.map_eq_some_iff] at decoded
      obtain ⟨text, later, rfl⟩ := decoded
      have first : 0xD800 ≤ high ∧ high ≤ 0xDBFF := by simpa [isHigh] using isFirst
      have second : 0xDC00 ≤ low ∧ low ≤ 0xDFFF := by simpa [isLow] using isSecond
      refine .pair first second (toNat_ofNat ?_) (ih (fun n member => ?_) later)
      · right
        omega
      · exact small n (List.mem_cons_of_mem _ (List.mem_cons_of_mem _ member))
  | case4 high isFirst low rest isSecond =>
      unfold decode? at decoded
      simp [isFirst, isSecond] at decoded
  | case5 high us isFirst alone =>
      unfold decode? at decoded
      simp only [isFirst, ↓reduceIte] at decoded
      cases decoded
  | case6 low us isFirst isSecond =>
      unfold decode? at decoded
      simp [isFirst, isSecond] at decoded
  | case7 n us isFirst isSecond ih =>
      unfold decode? at decoded
      rw [if_neg isFirst, if_neg isSecond, Option.map_eq_some_iff] at decoded
      obtain ⟨text, later, rfl⟩ := decoded
      have bound := small n List.mem_cons_self
      simp only [isHigh, isLow, Bool.and_eq_true, decide_eq_true_eq] at isFirst isSecond
      have valid : n.isValidChar := by
        by_cases low : n < 55296
        · exact .inl low
        · exact .inr (by omega)
      have means := ih (fun m member => small m (List.mem_cons_of_mem _ member)) later
      have unit : Unit.code n = .code (Char.ofNat n).toNat := by rw [toNat_ofNat valid]
      rw [unit]
      exact .code _ means

end Characters

/-- Behind its opening quotation mark, a literal is read as the string that it stands for. -/
theorem read?_eq {s : Option String} {cs : List Char} (spells : Spells s cs) (rest : List Char) :
    read? (cs ++ '"' :: rest) = some (s, rest) := by
  cases spells with
  | text units means =>
      simp only [read?, units?_eq units, Option.map_some, decode?_eq means, String.ofList_toList]
  | @unpaired us _ units nothing =>
      have none : decode? us = none := by
        cases decoded : decode? us with
        | none => rfl
        | some text =>
            have small : ∀ n, Unit.code n ∈ us → n < 0x10000 := fun n => units.code_lt
            exact absurd (means_of_decode? small decoded) (nothing text)
      simp only [read?, units?_eq units, Option.map_some, none, Option.map_none]

section Written

theorem hexDigit_eq {n : Nat} (small : n < 16) : HexDigit (hexDigit n) n := ⟨small, .inl rfl⟩

theorem encodeChar_spells (c : Char) :
    ∃ u, UnitSpells u (encodeChar c) ∧ ∀ us cs, Means us cs → Means (u :: us) (c :: cs) := by
  unfold encodeChar
  by_cases quote : c = '"'
  · subst quote
    exact ⟨.char '"', .short (by decide), fun _ _ => .char _⟩
  by_cases backslash : c = '\\'
  · subst backslash
    exact ⟨.char '\\', .short (by decide), fun _ _ => .char _⟩
  by_cases control : c.toNat < 0x20
  · rw [if_neg quote, if_neg backslash, if_pos control]
    by_cases back : c = '\x08'
    · subst back
      exact ⟨.char '\x08', .short (by decide), fun _ _ => .char _⟩
    by_cases feed : c = '\x0c'
    · subst feed
      exact ⟨.char '\x0c', .short (by decide), fun _ _ => .char _⟩
    by_cases line : c = '\n'
    · subst line
      exact ⟨.char '\n', .short (by decide), fun _ _ => .char _⟩
    by_cases carriage : c = '\r'
    · subst carriage
      exact ⟨.char '\r', .short (by decide), fun _ _ => .char _⟩
    by_cases tab : c = '\t'
    · subst tab
      exact ⟨.char '\t', .short (by decide), fun _ _ => .char _⟩
    · rw [if_neg back, if_neg feed, if_neg line, if_neg carriage, if_neg tab]
      have zero : HexDigit '0' 0 := ⟨by decide, .inl rfl⟩
      have digits := UnitSpells.code zero zero (hexDigit_eq (show c.toNat / 16 < 16 by omega))
        (hexDigit_eq (show c.toNat % 16 < 16 by omega))
      have number : ((0 * 16 + 0) * 16 + c.toNat / 16) * 16 + c.toNat % 16 = c.toNat := by omega
      rw [number] at digits
      exact ⟨.code c.toNat, digits, fun _ _ => .code c⟩
  · rw [if_neg quote, if_neg backslash, if_neg control]
    exact ⟨.char c, .plain quote backslash (Nat.not_lt.mp control), fun _ _ => .char c⟩

theorem spells_encode (s : String) : Spells (some s) (s.toList.flatMap encodeChar) := by
  have all (cs : List Char) : ∃ us, UnitsSpell us (cs.flatMap encodeChar) ∧ Means us cs := by
    induction cs with
    | nil => exact ⟨[], .nil, .nil⟩
    | cons c cs ih =>
        obtain ⟨us, units, means⟩ := ih
        obtain ⟨u, here, meaning⟩ := encodeChar_spells c
        exact ⟨u :: us, .cons here units, meaning us cs means⟩
  obtain ⟨us, units, means⟩ := all s.toList
  exact .text units means

theorem write_append (s : String) (rest : List Char) :
    write s ++ rest = '"' :: (s.toList.flatMap encodeChar ++ '"' :: rest) := by
  simp [write]

end Written

end HeaderBindings.Json.Literal
