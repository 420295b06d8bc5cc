import HeaderBindings.Text.Blank
import HeaderBindings.Text.Word

set_option autoImplicit false

namespace HeaderBindings.Text

def blankCodes : List Nat :=
  [9, 10, 11, 12, 13, 0x20, 0x85, 0xA0, 0x1680, 0x2000, 0x2001, 0x2002, 0x2003, 0x2004, 0x2005,
    0x2006, 0x2007, 0x2008, 0x2009, 0x200A, 0x2028, 0x2029, 0x202F, 0x205F, 0x3000]

theorem mem_blankCodes {c : Char} (blank : isBlank c = true) : c.toNat ∈ blankCodes := by
  simp only [isBlank, Bool.or_eq_true, Bool.and_eq_true, decide_eq_true_eq, beq_iff_eq] at blank
  simp only [blankCodes, List.mem_cons, List.not_mem_nil, or_false]
  omega

theorem isWord_blankCodes : ∀ n ∈ blankCodes, isWord (Char.ofNat n) = false := by
  decide +kernel

theorem forall_mem_of_all {cs : List Char} {p : Char → Bool} {value : Bool}
    (all : cs.all (p · == value) = true) : ∀ c ∈ cs, p c = value := by
  intro c member
  simpa using List.all_eq_true.mp all c member

theorem isWord_of_isBlank {c : Char} (blank : isBlank c = true) : isWord c = false := by
  have plain := isWord_blankCodes c.toNat (mem_blankCodes blank)
  rwa [Char.ofNat_toNat] at plain

theorem isBlank_of_isWord {c : Char} (word : isWord c = true) : isBlank c = false := by
  cases blank : isBlank c with
  | false => rfl
  | true =>
      rw [isWord_of_isBlank blank] at word
      cases word

theorem ne_of_isBlank {c : Char} (blank : isBlank c = true) {d : Char}
    (visible : isBlank d = false) : c ≠ d := by
  rintro rfl
  rw [blank] at visible
  cases visible

theorem toNat_lt_of_isAsciiWord {c : Char} (word : isAsciiWord c = true) : c.toNat < 0x80 := by
  have bound {low high : UInt32}
      (within : (decide (c.val ≥ low) && decide (c.val ≤ high)) = true) : c.val ≤ high := by
    rw [Bool.and_eq_true, decide_eq_true_eq, decide_eq_true_eq] at within
    exact within.2
  rw [isAsciiWord, Bool.or_eq_true, beq_iff_eq] at word
  rcases word with letter | rfl
  · change (c.isUpper || c.isLower || c.isDigit) = true at letter
    rw [Bool.or_eq_true, Bool.or_eq_true] at letter
    rcases letter with (upper | lower) | digit
    · exact Nat.lt_of_le_of_lt (of_decide_eq_true upper).2 (by decide)
    · exact Nat.lt_of_le_of_lt (bound lower) (by decide)
    · exact Nat.lt_of_le_of_lt (bound digit) (by decide)
  · decide

theorem isWord_of_isAsciiWord {c : Char} (word : isAsciiWord c = true) : isWord c = true := by
  have small := toNat_lt_of_isAsciiWord word
  simp only [isWord, small, ↓reduceIte, word]

theorem isAsciiWord_iff {c : Char} (word : isWord c = true) :
    isAsciiWord c = true ↔ c.toNat < 0x80 := by
  refine ⟨toNat_lt_of_isAsciiWord, fun small => ?_⟩
  simpa only [isWord, small, ↓reduceIte] using word

theorem isDigit_eq_false_of_isAlpha {c : Char} (letter : c.isAlpha = true) : c.isDigit = false := by
  have bounds : (65 ≤ c.toNat ∧ c.toNat ≤ 90) ∨ (97 ≤ c.toNat ∧ c.toNat ≤ 122) := by
    change (c.isUpper || c.isLower) = true at letter
    rw [Bool.or_eq_true] at letter
    refine letter.imp (fun upper => of_decide_eq_true upper) fun lower => ?_
    change (decide (97 ≤ c.val) && decide (c.val ≤ 122)) = true at lower
    rw [Bool.and_eq_true, decide_eq_true_eq, decide_eq_true_eq] at lower
    exact lower
  have beyond : ¬ 48 ≤ c.toNat ∨ ¬ c.toNat ≤ 57 := by omega
  change (decide (48 ≤ c.val) && decide (c.val ≤ 57)) = false
  rw [Bool.and_eq_false_iff, decide_eq_false_iff_not, decide_eq_false_iff_not]
  exact beyond

/-- What can begin an identifier, among the characters of ASCII words. -/
theorem opens_identifier_iff {c : Char} (word : isAsciiWord c = true) :
    (c.isAlpha || c == '_') = true ↔ c.isDigit = false := by
  rw [isAsciiWord, Char.isAlphanum, Bool.or_eq_true, Bool.or_eq_true, beq_iff_eq] at word
  rw [Bool.or_eq_true, beq_iff_eq]
  constructor
  · rintro (letter | rfl)
    · exact isDigit_eq_false_of_isAlpha letter
    · decide
  · intro noDigit
    rcases word with (letter | digit) | underscore
    · exact .inl letter
    · rw [digit] at noDigit
      cases noDigit
    · exact .inr underscore

theorem isAsciiWord_of_isIdentifier {cs : List Char} (named : isIdentifier cs = true) :
    ∀ c ∈ cs, isAsciiWord c = true := by
  cases cs with
  | nil => simp
  | cons d cs =>
      rw [isIdentifier, Bool.and_eq_true, Bool.or_eq_true] at named
      obtain ⟨first, others⟩ := named
      intro c member
      rcases List.mem_cons.mp member with rfl | later
      · rcases first with letter | underscore
        · simp [isAsciiWord, Char.isAlphanum, letter]
        · simp [isAsciiWord, underscore]
      · exact List.all_eq_true.mp others c later

theorem ne_nil_of_isIdentifier {cs : List Char} (named : isIdentifier cs = true) : cs ≠ [] := by
  rintro rfl
  cases named

/-- What a word lacks to be an identifier. -/
theorem isIdentifier_iff {cs : List Char} (occupied : cs ≠ []) (word : ∀ c ∈ cs, isWord c = true) :
    isIdentifier cs = true ↔
      (∀ c ∈ cs, c.toNat < 0x80) ∧ ∀ c ∈ cs.head?, c.isDigit = false := by
  have ascii : (∀ c ∈ cs, c.toNat < 0x80) ↔ ∀ c ∈ cs, isAsciiWord c = true :=
    forall₂_congr fun c member => (isAsciiWord_iff (word c member)).symm
  rw [ascii]
  cases cs with
  | nil => exact absurd rfl occupied
  | cons c cs =>
      constructor
      · intro named
        have plain := isAsciiWord_of_isIdentifier named
        rw [isIdentifier, Bool.and_eq_true] at named
        refine ⟨plain, ?_⟩
        rintro d ⟨⟩
        exact (opens_identifier_iff (plain c (by simp))).mp named.1
      · rintro ⟨plain, noDigit⟩
        rw [isIdentifier, Bool.and_eq_true, List.all_eq_true]
        exact ⟨(opens_identifier_iff (plain c (by simp))).mpr (noDigit c rfl),
          fun d later => plain d (List.mem_cons_of_mem c later)⟩

end HeaderBindings.Text
