import Mathlib.Data.String.Basic

/-!
The order of texts is that of their UTF-8 bytes: of two letters the one with more bytes is the
greater one and has the greater mark in its first byte, and the bits behind the mark follow from
the highest to the lowest.
-/

set_option autoImplicit false

namespace HeaderBindings.Text

def bytes (text : String) : List UInt8 := text.toUTF8.data.toList

theorem bytes_eq_flatMap (text : String) :
    bytes text = text.toList.flatMap String.utf8EncodeChar := by
  rw [bytes, String.toUTF8_eq_toByteArray, ← String.utf8Encode_toList, List.utf8Encode,
    List.toList_data_toByteArray]

/-- The codes of the numbers below a limit come in the order of the numbers, and none is the start
of another. -/
def Ordered (limit : Nat) (code : Nat → List UInt8) : Prop :=
  ∀ m n, m < n → n < limit → ∀ first second, code m ++ first < code n ++ second

theorem lead_lt {m n : Nat} (less : m < n) (byte : n < 256) (first second : List UInt8) :
    UInt8.ofNat m :: first < UInt8.ofNat n :: second := by
  have lead : UInt8.ofNat m < UInt8.ofNat n := by
    rw [UInt8.lt_iff_toNat_lt, UInt8.toNat_ofNat', UInt8.toNat_ofNat']
    omega
  exact List.cons_lt_cons_iff.mpr (.inl lead)

/-- A first byte with a mark that says how many there are. -/
theorem ordered_lead (width mark : Nat) (byte : width + mark ≤ 256) :
    Ordered width fun n => [UInt8.ofNat (n % width + mark)] := by
  intro m n less small first second
  have lead : m % width + mark < n % width + mark := by
    rw [Nat.mod_eq_of_lt small, Nat.mod_eq_of_lt (less.trans small)]
    omega
  have byte : n % width + mark < 256 := by
    rw [Nat.mod_eq_of_lt small]
    omega
  exact lead_lt lead byte first second

/-- One more byte holds six more bits. -/
theorem Ordered.more {limit : Nat} {code : Nat → List UInt8} (ordered : Ordered limit code) :
    Ordered (limit * 64) fun n => code (n / 64) ++ [UInt8.ofNat (n % 64 + 128)] := by
  intro m n less small first second
  simp only [List.append_assoc, List.singleton_append]
  by_cases higher : m / 64 < n / 64
  · exact ordered (m / 64) (n / 64) higher (by omega) _ _
  · have same : m / 64 = n / 64 := by omega
    have last :
        UInt8.ofNat (m % 64 + 128) :: first < UInt8.ofNat (n % 64 + 128) :: second :=
      lead_lt (by omega) (by omega) first second
    rw [same]
    exact List.Lex.append_left (· < ·) last (code (n / 64))

/-- Numbers up to a bound have codes of one kind, those above it of another. -/
theorem Ordered.ite {limit : Nat} {low high : Nat → List UInt8} (bound : Nat)
    (below : Ordered (bound + 1) low) (above : Ordered limit high)
    (across : ∀ m n, m ≤ bound → bound < n → n < limit →
      ∀ first second, low m ++ first < high n ++ second) :
    Ordered limit fun n => if n ≤ bound then low n else high n := by
  intro m n less small first second
  by_cases up : n ≤ bound
  · simp only [up, if_true, if_pos (show m ≤ bound by omega)]
    exact below m n less (by omega) first second
  by_cases down : m ≤ bound
  · simp only [up, down, if_true, if_false]
    exact across m n down (by omega) small first second
  · simp only [up, down, if_false]
    exact above m n less small first second

theorem utf8EncodeChar_lt {c d : Char} (less : c < d) (first second : List UInt8) :
    String.utf8EncodeChar c ++ first < String.utf8EncodeChar d ++ second := by
  have one : Ordered 128 fun n => [UInt8.ofNat n] :=
    fun m n less small first second => lead_lt less (by omega) first second
  have two := (ordered_lead 32 192 (by omega)).more
  have three := (ordered_lead 16 224 (by omega)).more.more
  have four := (ordered_lead 8 240 (by omega)).more.more.more
  simp only [Nat.div_div_eq_div_mul, List.append_assoc, List.singleton_append] at three four
  -- More bytes have a greater mark in the first of them.
  have many := three.ite 65535 four fun m n low high small first second =>
    lead_lt (by omega) (by omega) _ _
  have some := two.ite 2047 many fun m n low high small first second => by
    split
    · exact lead_lt (by omega) (by omega) _ _
    · exact lead_lt (by omega) (by omega) _ _
  have all := one.ite 127 some fun m n low high small first second => by
    split
    · exact lead_lt (by omega) (by omega) _ _
    split
    · exact lead_lt (by omega) (by omega) _ _
    · exact lead_lt (by omega) (by omega) _ _
  have bound : d.val.toNat < 8 * 64 * 64 * 64 := by
    have valid := d.valid
    simp only [UInt32.isValidChar, Nat.isValidChar] at valid
    omega
  exact all c.val.toNat d.val.toNat less bound first second

theorem bytes_lt {first second : String} (less : first < second) : bytes first < bytes second := by
  rw [String.lt_iff_toList_lt] at less
  rw [bytes_eq_flatMap, bytes_eq_flatMap]
  generalize first.toList = cs at less
  generalize second.toList = ds at less
  induction less with
  | nil =>
      rename_i d ds
      have occupied : String.utf8EncodeChar d ≠ [] := String.utf8EncodeChar_ne_nil
      cases code : String.utf8EncodeChar d with
      | nil => exact absurd code occupied
      | cons byte rest =>
          rw [List.flatMap_cons, code]
          exact List.Lex.nil
  | rel less => exact utf8EncodeChar_lt less _ _
  | cons _ ih => exact List.Lex.append_left (· < ·) ih _

theorem bytes_inj {first second : String} : bytes first = bytes second ↔ first = second := by
  rw [bytes, bytes, String.toUTF8_eq_toByteArray, String.toUTF8_eq_toByteArray, Array.toList_inj,
    ← ByteArray.ext_iff, String.toByteArray_inj]

theorem bytes_lt_iff {first second : String} : bytes first < bytes second ↔ first < second := by
  refine ⟨fun less => ?_, bytes_lt⟩
  rcases lt_trichotomy first second with before | same | behind
  · exact before
  · rw [same] at less
    exact absurd less (List.lt_irrefl _)
  · exact absurd (bytes_lt behind) (List.lt_asymm less)

/-- Lists of texts, compared text by text, are ordered as the bytes of the texts are. -/
theorem map_bytes_lt_iff {first second : List String} :
    first.map bytes < second.map bytes ↔ first < second := by
  induction first generalizing second with
  | nil =>
      cases second with
      | nil => simp
      | cons other others => simp
  | cons name names ih =>
      cases second with
      | nil => simp
      | cons other others =>
          rw [List.map_cons, List.map_cons, List.cons_lt_cons_iff, List.cons_lt_cons_iff,
            bytes_lt_iff, bytes_inj, ih]

end HeaderBindings.Text
