import HeaderBindings.Json.Parse
import HeaderBindings.Json.Print
import HeaderBindings.Proofs.Text.Scan

set_option autoImplicit false

namespace HeaderBindings.Json

/-- The text ends, or goes on with what can stand behind a value: white space, a comma, a bracket or
a brace. -/
def Delimited (rest : List Char) : Prop :=
  ∀ c ∈ rest.head?, isGap c = true ∨ c = ',' ∨ c = ']' ∨ c = '}'

namespace Number

structure Digits (cs : List Char) : Prop where
  occupied : cs ≠ []
  all : ∀ c ∈ cs, c.isDigit = true

inductive FractionSpells : Option (List Char) → List Char → Prop
  | absent : FractionSpells none []
  | present {digits : List Char} (spelled : Digits digits) :
    FractionSpells (some digits) ('.' :: digits)

inductive ExponentSpells : Option Int → List Char → Prop
  | absent : ExponentSpells none []
  | bare {letter : Char} {digits : List Char} (known : letter = 'e' ∨ letter = 'E')
    (spelled : Digits digits) : ExponentSpells (some (ofDigits digits)) (letter :: digits)
  | plus {letter : Char} {digits : List Char} (known : letter = 'e' ∨ letter = 'E')
    (spelled : Digits digits) : ExponentSpells (some (ofDigits digits)) (letter :: '+' :: digits)
  | minus {letter : Char} {digits : List Char} (known : letter = 'e' ∨ letter = 'E')
    (spelled : Digits digits) :
    ExponentSpells (some (-(ofDigits digits : Int))) (letter :: '-' :: digits)

/-- The spellings of a number. A natural number of 64 bits is spelled by its digits; any other is
given by its parts. -/
inductive Spells : Number → List Char → Prop
  | natural {n : Nat} (small : n < UInt64.size) : Spells (.integer n) (Nat.toDigits 10 n)
  | parts (negative : Bool) {whole fraction exponent : List Char} {digits : Option (List Char)}
    {power : Option Int} (spelled : Digits whole) (start : whole = ['0'] ∨ whole.head? ≠ some '0')
    (behind : FractionSpells digits fraction) (scaled : ExponentSpells power exponent)
    (other : ∀ n : Nat, ofParts negative whole digits power ≠ .integer n) :
    Spells (ofParts negative whole digits power)
      ((if negative then ['-'] else []) ++ (whole ++ (fraction ++ exponent)))

theorem isDigit_of_mem_toDigits {n : Nat} {c : Char} (member : c ∈ Nat.toDigits 10 n) :
    c.isDigit = true :=
  Nat.isDigit_of_mem_toDigits (by decide) (by decide) member

/-- Only zero is written with a zero in front. -/
theorem head_toDigits {n : Nat} (positive : 0 < n) :
    ∃ c cs, Nat.toDigits 10 n = c :: cs ∧ c ≠ '0' := by
  induction n using Nat.base_induction 10 (by decide) with
  | single n small =>
      have nonzero : ∀ m < 10, 0 < m → Nat.digitChar m ≠ '0' := by decide
      exact ⟨Nat.digitChar n, [], Nat.toDigits_of_lt_base small, nonzero n small positive⟩
  | digit n d small more ih =>
      obtain ⟨c, cs, digits, nonzero⟩ := ih more
      refine ⟨c, cs ++ Nat.toDigits 10 d, ?_, nonzero⟩
      rw [← Nat.toDigits_append_toDigits (by decide) more small, digits, List.cons_append]

theorem ofDigits_toDigits (n : Nat) : ofDigits (Nat.toDigits 10 n) = n :=
  Nat.ofDigitChars_toDigits (by decide) (by decide)

theorem digits_toDigits (n : Nat) : Digits (Nat.toDigits 10 n) :=
  ⟨Nat.toDigits_ne_nil, fun _ => isDigit_of_mem_toDigits⟩

theorem start_toDigits (n : Nat) :
    Nat.toDigits 10 n = ['0'] ∨ (Nat.toDigits 10 n).head? ≠ some '0' := by
  cases n with
  | zero => exact .inl rfl
  | succ n =>
      obtain ⟨c, cs, digits, nonzero⟩ := head_toDigits (Nat.succ_pos n)
      right
      simp [digits, nonzero]

section Parts

variable {cs rest : List Char}

def NoDigit (rest : List Char) : Prop := ∀ c ∈ rest.head?, c.isDigit = false

theorem Digits.read (digits : Digits cs) (ends : NoDigit rest) :
    digits? (cs ++ rest) = some (cs, rest) := by
  obtain ⟨taken, dropped⟩ := Text.span_append digits.all ends
  unfold digits?
  rw [taken, dropped]
  cases cs with
  | nil => exact absurd rfl digits.occupied
  | cons c cs => rfl

theorem Digits.head (digits : Digits cs) : ∃ c tail, cs = c :: tail ∧ c.isDigit = true := by
  cases cs with
  | nil => exact absurd rfl digits.occupied
  | cons c tail => exact ⟨c, tail, rfl, digits.all c List.mem_cons_self⟩

theorem Digits.read_whole (digits : Digits cs) (start : cs = ['0'] ∨ cs.head? ≠ some '0')
    (ends : NoDigit rest) : whole? (cs ++ rest) = some (cs, rest) := by
  unfold whole?
  rw [digits.read ends]
  split
  · rename_i c tail left same
    simp only [Option.some.injEq, Prod.mk.injEq] at same
    rcases start with zero | other
    · rw [zero] at same
      simp at same
    · rw [same.1] at other
      exact absurd rfl other
  · rfl

/-- The text does not go on with a part of a number. -/
structure Over (rest : List Char) : Prop where
  digit : NoDigit rest
  point : rest.head? ≠ some '.'
  exponent : rest.head? ≠ some 'e' ∧ rest.head? ≠ some 'E'

theorem over_of_delimited (delimited : Delimited rest) : Over rest := by
  cases rest with
  | nil => exact ⟨nofun, nofun, nofun, nofun⟩
  | cons c rest =>
      have known : c ∈ [' ', '\n', '\t', '\r', ',', ']', '}'] := by
        have behind := delimited c rfl
        simp only [isGap, Bool.or_eq_true, beq_iff_eq, or_assoc] at behind
        simpa only [List.mem_cons, List.not_mem_nil, or_false] using behind
      have each : ([' ', '\n', '\t', '\r', ',', ']', '}'].all fun d =>
          d.isDigit = false ∧ d ≠ '.' ∧ d ≠ 'e' ∧ d ≠ 'E') = true := by decide
      obtain ⟨digit, point, lower, upper⟩ :=
        of_decide_eq_true (List.all_eq_true.mp each c known)
      refine ⟨fun d here => ?_, ?_, ?_, ?_⟩
      · rw [← Option.some.inj here]
        exact digit
      · simpa using point
      · simpa using lower
      · simpa using upper

theorem FractionSpells.read {digits : Option (List Char)} (spelled : FractionSpells digits cs)
    (digit : NoDigit rest) (point : rest.head? ≠ some '.') :
    fraction? (cs ++ rest) = some (digits, rest) := by
  cases spelled with
  | absent =>
      rw [List.nil_append]
      unfold fraction?
      split
      · exact absurd rfl point
      · rfl
  | present spelled => simp only [List.cons_append, fraction?, spelled.read digit, Option.map_some]

theorem ExponentSpells.read {power : Option Int} (spelled : ExponentSpells power cs)
    (ended : Over rest) : exponent? (cs ++ rest) = some (power, rest) := by
  cases spelled with
  | absent =>
      cases rest with
      | nil => rfl
      | cons c rest =>
          have other : ¬ (c = 'e' ∨ c = 'E') := by simpa using ended.exponent
          rw [List.nil_append, exponent?, if_neg other]
  | @bare letter digits known spelled =>
      obtain ⟨c, tail, same, digit⟩ := spelled.head
      have unsigned : sign (digits ++ rest) = (false, digits ++ rest) := by
        rw [same, List.cons_append]
        unfold sign
        split
        · rename_i first
          rw [(List.cons.inj first).1] at digit
          cases digit
        · rename_i first
          rw [(List.cons.inj first).1] at digit
          cases digit
        · rfl
      rw [List.cons_append, exponent?, if_pos known, unsigned]
      simp only [spelled.read ended.digit, Option.map_some, Bool.false_eq_true, ↓reduceIte]
  | plus known spelled =>
      simp only [List.cons_append, exponent?, if_pos known, sign, spelled.read ended.digit,
        Option.map_some, Bool.false_eq_true, ↓reduceIte]
  | minus known spelled =>
      simp only [List.cons_append, exponent?, if_pos known, sign, spelled.read ended.digit,
        Option.map_some, ↓reduceIte]

/-- Behind an exponent, or where there is none, the text does not go on with a digit or a point. -/
theorem ExponentSpells.before {power : Option Int} (spelled : ExponentSpells power cs)
    (ended : Over rest) : NoDigit (cs ++ rest) ∧ (cs ++ rest).head? ≠ some '.' := by
  have letters {letter : Char} (known : letter = 'e' ∨ letter = 'E') (tail : List Char) :
      NoDigit (letter :: tail) ∧ (letter :: tail).head? ≠ some '.' := by
    rcases known with rfl | rfl <;> simp [NoDigit]
  cases spelled with
  | absent => exact ⟨ended.digit, ended.point⟩
  | bare known spelled => exact letters known _
  | plus known spelled => exact letters known _
  | minus known spelled => exact letters known _

theorem FractionSpells.before {digits : Option (List Char)} (spelled : FractionSpells digits cs)
    (digit : NoDigit rest) : NoDigit (cs ++ rest) := by
  cases spelled with
  | absent => exact digit
  | present spelled => simp [NoDigit]

theorem read?_parts (negative : Bool) {whole fraction exponent : List Char}
    {digits : Option (List Char)} {power : Option Int} (spelled : Digits whole)
    (start : whole = ['0'] ∨ whole.head? ≠ some '0') (behind : FractionSpells digits fraction)
    (scaled : ExponentSpells power exponent) (ended : Over rest) :
    read? ((if negative then ['-'] else []) ++ (whole ++ (fraction ++ exponent)) ++ rest) =
      some (ofParts negative whole digits power, rest) := by
  obtain ⟨digit, point⟩ := scaled.before ended
  have first := spelled.read_whole start (behind.before digit)
  have second := behind.read digit point
  have third := scaled.read ended
  unfold read?
  split
  rename_i minus left signed
  -- Digits come first if there is no sign, so the sign is the one that is written.
  have parts : minus = negative ∧ left = whole ++ (fraction ++ (exponent ++ rest)) := by
    cases negative with
    | true =>
        cases signed
        refine ⟨rfl, ?_⟩
        simp
    | false =>
        obtain ⟨c, tail, same, digit⟩ := spelled.head
        simp only [Bool.false_eq_true, ↓reduceIte, List.nil_append, List.append_assoc] at signed
        split at signed
        · rename_i other first
          rw [same, List.cons_append] at first
          rw [(List.cons.inj first).1] at digit
          cases digit
        · cases signed
          exact ⟨rfl, rfl⟩
  obtain ⟨rfl, rfl⟩ := parts
  simp only [first, second, third, Option.bind_eq_bind, Option.bind_some]
  rfl

end Parts

/-- A number is read, if what follows cannot belong to it. -/
theorem read?_eq {n : Number} {cs rest : List Char} (spelled : Spells n cs)
    (delimited : Delimited rest) : read? (cs ++ rest) = some (n, rest) := by
  have ended := over_of_delimited delimited
  cases spelled with
  | @natural n small =>
      have value : ofParts false (Nat.toDigits 10 n) none none = .integer n := by
        have bound : n ≤ maxSignificand := by
          show n ≤ UInt64.size - 1
          omega
        simp [ofParts, ofDigits_toDigits, bound]
      have read := read?_parts false (digits_toDigits n) (start_toDigits n) .absent .absent ended
      simpa only [Bool.false_eq_true, ↓reduceIte, List.nil_append, List.append_nil, value]
        using read
  | parts negative spelled start behind scaled other =>
      exact read?_parts negative spelled start behind scaled ended

theorem write_natCast (n : Nat) : (Number.integer n).write = Nat.toDigits 10 n := by
  rw [Number.write]
  exact Nat.toList_repr

end Number

end HeaderBindings.Json
