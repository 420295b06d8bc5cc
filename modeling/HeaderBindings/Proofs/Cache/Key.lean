import HeaderBindings.Proofs.Stored

/-!
The bytes of a key determine the header and the options. Nothing separates the two, but the way in
which a text of options begins does not come up again further on in it: an opening brace stands
there in front only, or in a string literal, and what follows a literal is no letter `w`.
-/

set_option autoImplicit false

namespace HeaderBindings.Cache

open Json

/-- Where a reader of JSON stands: outside of string literals, inside of one, or there behind a
backslash. -/
inductive LiteralState
  | outside
  | inside
  | escape
  deriving DecidableEq, Repr

namespace LiteralState

/-- Where the reader stands after one more character. Outside of literals, and as what is escaped,
it takes no opening brace; outside it takes no letter `w` either. -/
def next : LiteralState → Char → Option LiteralState
  | outside, c =>
    if c = '"' then some inside else if c = '{' ∨ c = 'w' then none else some outside
  | inside, c => if c = '"' then some outside else if c = '\\' then some escape else some inside
  | escape, c => if c = '{' then none else some inside

def run (s : LiteralState) (cs : List Char) : Option LiteralState := cs.foldlM next s

theorem run_cons (s : LiteralState) (c : Char) (cs : List Char) :
    s.run (c :: cs) = (s.next c).bind fun t => t.run cs := List.foldlM_cons

theorem run_append (s : LiteralState) (first second : List Char) :
    s.run (first ++ second) = (s.run first).bind fun t => t.run second := List.foldlM_append

/-- No reader gets past the way in which options begin. -/
theorem run_opening (s : LiteralState) (before rest : List Char) :
    s.run (before ++ '{' :: '"' :: 'w' :: rest) = none := by
  rw [run_append]
  cases s.run before with
  | none => rfl
  | some t => cases t <;> simp [run_cons, next]

theorem run_encodeChar (c : Char) : run inside (Literal.encodeChar c) = some inside := by
  have digit : ∀ n < 16, Literal.hexDigit n ≠ '"' ∧ Literal.hexDigit n ≠ '\\' := by decide
  unfold Literal.encodeChar
  by_cases quote : c = '"'
  · rw [if_pos quote]
    rfl
  by_cases backslash : c = '\\'
  · rw [if_neg quote, if_pos backslash]
    rfl
  rw [if_neg quote, if_neg backslash]
  split
  · rename_i control
    split
    · rfl
    split
    · rfl
    split
    · rfl
    split
    · rfl
    split
    · rfl
    have high := digit (c.toNat / 16) (by omega)
    have low := digit (c.toNat % 16) (by omega)
    simp [next, high, low, run]
  · simp [next, quote, backslash, run]

end LiteralState

open LiteralState

/-- A piece of text that a reader takes between literals, and stands there again behind it. -/
def Balanced (cs : List Char) : Prop := run outside cs = some outside

theorem Balanced.append {first second : List Char} (left : Balanced first)
    (right : Balanced second) : Balanced (first ++ second) := by
  rw [Balanced, run_append, left]
  exact right

theorem Balanced.cons {c : Char} {cs : List Char} (taken : next outside c = some outside)
    (rest : Balanced cs) : Balanced (c :: cs) := by
  rw [Balanced, run_cons, taken]
  exact rest

theorem balanced_literal (s : String) : Balanced (Literal.write s) := by
  have inner (cs : List Char) : run inside (cs.flatMap Literal.encodeChar) = some inside := by
    induction cs with
    | nil => rfl
    | cons c cs ih =>
        rw [List.flatMap_cons, run_append, run_encodeChar, Option.bind_some, ih]
  rw [Balanced, Literal.write, run_append, run_cons]
  simp only [next, ↓reduceIte, Option.bind_some, inner]
  rfl

theorem balanced_digits {cs : List Char} (digits : ∀ c ∈ cs, c.isDigit = true) : Balanced cs := by
  induction cs with
  | nil => rfl
  | cons c cs ih =>
      have digit := digits c (by simp)
      have other (d : Char) (none : d.isDigit = false) : c ≠ d := by
        rintro rfl
        rw [none] at digit
        cases digit
      refine .cons ?_ (ih fun d member => digits d (List.mem_cons_of_mem c member))
      simp only [next, other '"' rfl, other '{' rfl, other 'w' rfl, or_self, ↓reduceIte]

inductive Flat : Json → Prop
  | boolean (b : Bool) : Flat (.boolean b)
  | size (n : Nat) : Flat (.number (.integer n))
  | text (s : String) : Flat (.text (some s))
  | texts (ss : List String) : Flat (.array (ss.map Codec.text.encode))

theorem Flat.balanced {v : Json} (flat : Flat v) : Balanced v.write := by
  cases flat with
  | boolean b => cases b <;> rfl
  | size n =>
      rw [write, Number.write_natCast]
      exact balanced_digits fun c => Number.isDigit_of_mem_toDigits
  | text s => exact balanced_literal s
  | texts ss =>
      have items (ss : List String) : Balanced (writeItems (ss.map Codec.text.encode)) := by
        induction ss with
        | nil => rfl
        | cons s ss ih => exact .cons rfl (.append (balanced_literal s) ih)
      cases ss with
      | nil => rfl
      | cons s ss =>
          rw [List.map_cons, write_array]
          exact .cons rfl (.append (balanced_literal s) (items ss))

def FlatMembers (members : List (Key × Json)) : Prop :=
  ∀ m ∈ members, (∃ key, m.1 = .text key) ∧ Flat m.2

theorem FlatMembers.balanced {ms : List (Key × Json)} (flat : FlatMembers ms) :
    Balanced (writeMembers ms) := by
  induction ms with
  | nil => rfl
  | cons m ms ih =>
      obtain ⟨k, v⟩ := m
      obtain ⟨⟨key, rfl⟩, here⟩ : (∃ key, k = .text key) ∧ Flat v := flat (k, v) (by simp)
      have rest := ih fun m member => flat m (List.mem_cons_of_mem _ member)
      have value : Balanced (':' :: v.write) := .cons rfl here.balanced
      have name : Balanced (',' :: Literal.write key) := .cons rfl (balanced_literal key)
      exact (name.append value).append rest

def laterMembers (o : Options) : List (Key × Json) :=
  [(.text "symbolPrefix", .text (some o.symbolPrefix)),
    (.text "runtimeSymbols", .array (o.runtimeSymbols.map Codec.text.encode)),
    (.text "runtimeMethods", .array (o.runtimeMethods.map Codec.text.encode)),
    (.text "headerFile", .text (some o.headerFile)),
    (.text "previewLength", .number (.integer o.previewLength.toNat)),
    (.text "parallel", .boolean o.parallel)]

theorem options_encode (o : Options) :
    Stored.options.encode o =
      .object ((.text "wrapperMacro", .text (some o.wrapperMacro)) :: laterMembers o) := rfl

theorem flat_laterMembers (o : Options) : FlatMembers (laterMembers o) := by
  intro m member
  simp only [laterMembers, List.mem_cons, List.not_mem_nil, or_false] at member
  rcases member with rfl | rfl | rfl | rfl | rfl | rfl
  · exact ⟨⟨_, rfl⟩, .text _⟩
  · exact ⟨⟨_, rfl⟩, .texts _⟩
  · exact ⟨⟨_, rfl⟩, .texts _⟩
  · exact ⟨⟨_, rfl⟩, .text _⟩
  · exact ⟨⟨_, rfl⟩, .size _⟩
  · exact ⟨⟨_, rfl⟩, .boolean _⟩

/-- The text of options: one opening brace, and behind it a reader takes all. -/
theorem options_text (o : Options) :
    ∃ cs, (Stored.toText Stored.options o).toList = '{' :: '"' :: 'w' :: cs ∧
      Balanced ('"' :: 'w' :: cs) := by
  have name : Literal.write "wrapperMacro" = '"' :: 'w' :: "rapperMacro\"".toList := by decide
  have value : Balanced (':' :: Literal.write o.wrapperMacro) :=
    .cons rfl (balanced_literal o.wrapperMacro)
  have behind := ((balanced_literal "wrapperMacro").append value).append
    (flat_laterMembers o).balanced
  rw [name, List.cons_append, List.cons_append, List.cons_append, List.cons_append] at behind
  refine ⟨_, ?_, behind⟩
  rw [Stored.toText, options_encode, toText, String.toList_ofList, write_object, write, name]
  rfl

theorem options_text_suffix {o p : Options} {before : List Char}
    (same : (Stored.toText Stored.options o).toList =
      before ++ (Stored.toText Stored.options p).toList) : before = [] := by
  obtain ⟨cs, text, balanced⟩ := options_text o
  obtain ⟨ds, other, _⟩ := options_text p
  rw [text, other] at same
  cases before with
  | nil => rfl
  | cons c before =>
      rw [List.cons_append, List.cons.injEq] at same
      rw [Balanced, same.2, run_opening] at balanced
      cases balanced

/-- A header with a text of options behind it is split in one way only. -/
theorem options_text_split {o p : Options} {header other : List Char}
    (same : header ++ (Stored.toText Stored.options o).toList =
      other ++ (Stored.toText Stored.options p).toList) : header = other ∧ o = p := by
  have texts : header = other := by
    rcases List.append_eq_append_iff.mp same with ⟨middle, longer, rest⟩ | ⟨middle, longer, rest⟩
    · rw [longer, options_text_suffix rest, List.append_nil]
    · rw [longer, options_text_suffix rest, List.append_nil]
  refine ⟨texts, Stored.toText_inj Stored.options_lawful (String.toList_inj.mp ?_)⟩
  rw [texts] at same
  exact List.append_cancel_left same

theorem append_toText_of_keyBytes_eq {o p : Options} {header other : String}
    (same : keyBytes o header = keyBytes p other) :
    header ++ Stored.toText Stored.options o = other ++ Stored.toText Stored.options p := by
  simp only [keyBytes, ByteArray.append_assoc, ByteArray.append_right_inj] at same
  apply String.toByteArray_inj.mp
  simpa only [String.toUTF8_eq_toByteArray, String.toByteArray_append] using same

theorem eq_of_keyBytes_eq {o p : Options} {header other : String}
    (same : keyBytes o header = keyBytes p other) : header = other ∧ o = p := by
  have text := congrArg String.toList (append_toText_of_keyBytes_eq same)
  rw [String.toList_append, String.toList_append] at text
  obtain ⟨letters, options⟩ := options_text_split text
  exact ⟨String.toList_inj.mp letters, options⟩

/-- Header and options are known by bytes of their own, though nothing stands between the two. -/
theorem keyBytes_eq_iff (o p : Options) (header other : String) :
    keyBytes o header = keyBytes p other ↔ header = other ∧ o = p := by
  constructor
  · exact eq_of_keyBytes_eq
  · rintro ⟨rfl, rfl⟩
    rfl

end HeaderBindings.Cache
