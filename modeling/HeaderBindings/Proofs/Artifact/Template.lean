import Mathlib.Data.Nat.Find
import HeaderBindings.Artifact.Document
import HeaderBindings.Proofs.Text.Scan

/-!
Where the placeholder of a template stands. The walk takes its first occurrence, and passes over
those that overlap it; so a text with one occurrence is a template, and so is a text whose other
occurrences all overlap the first. Rendering puts the declarations in place of the first occurrence
and changes nothing before or behind it.
-/

set_option autoImplicit false

namespace HeaderBindings.Template

open Text

/-- The pattern stands at a position. -/
def StandsAt (pattern cs : List Char) (i : Nat) : Prop := pattern <+: cs.drop i

instance (pattern cs : List Char) (i : Nat) : Decidable (StandsAt pattern cs i) :=
  inferInstanceAs (Decidable (pattern <+: cs.drop i))

section Positions

variable {pattern cs part rest : List Char} {i : Nat}

theorem standsAt_behind (k : Nat) :
    StandsAt pattern (part ++ (pattern ++ rest)) (part.length + pattern.length + k) ↔
      StandsAt pattern rest k := by
  rw [StandsAt, StandsAt, Nat.add_assoc, List.drop_length_add_append, List.drop_length_add_append]

theorem StandsAt.lt (stands : StandsAt pattern cs i) (occupied : pattern ≠ []) : i < cs.length := by
  refine Nat.lt_of_not_le fun behind => occupied ?_
  rwa [StandsAt, List.drop_of_length_le behind, List.prefix_nil] at stands

theorem exists_first (stands : StandsAt pattern cs i) :
    ∃ part rest, cs = part ++ (pattern ++ rest) ∧ ∀ j < part.length, ¬ StandsAt pattern cs j := by
  have some : ∃ i, StandsAt pattern cs i := ⟨i, stands⟩
  obtain ⟨rest, cut⟩ := Nat.find_spec some
  refine ⟨cs.take (Nat.find some), rest, ?_, fun j before => Nat.find_min some ?_⟩
  · rw [cut, List.take_append_drop]
  · exact Nat.lt_of_lt_of_le before (List.length_take_le _ _)

/-- The first place overlaps all others exactly if the pattern does not stand behind it. -/
theorem first_overlaps_iff
    (first : ∀ j < part.length, ¬ StandsAt pattern (part ++ (pattern ++ rest)) j) :
    (∀ j, StandsAt pattern (part ++ (pattern ++ rest)) j →
        part.length ≤ j ∧ j < part.length + pattern.length) ↔
      ∀ k, ¬ StandsAt pattern rest k := by
  constructor
  · intro overlaps k behind
    have inside := (overlaps _ ((standsAt_behind k).mpr behind)).2
    omega
  · intro absent j stands
    refine ⟨Nat.le_of_not_lt fun before => first j before stands, Nat.lt_of_not_le fun behind => ?_⟩
    rw [← Nat.add_sub_cancel' behind, standsAt_behind] at stands
    exact absent _ stands

end Positions

section Walk

variable {pattern cs part rest : List Char} {before : Option Char}

theorem literal_some (pattern rest text : List Char) (before : Option Char) :
    literal pattern text before (pattern ++ rest) = some ⟨pattern.length, text⟩ := by
  simp [literal]

theorem literal_eq_none (text : List Char) :
    literal pattern text before cs = none ↔ ¬ pattern <+: cs := by
  constructor
  · rintro missed ⟨rest, rfl⟩
    rw [literal_some] at missed
    cases missed
  · intro absent
    cases found : afterLiteral pattern cs with
    | none => simp [literal, found]
    | some rest => exact absurd ⟨rest, (eq_append_of_afterLiteral found).symm⟩ absent

theorem literal_proper (occupied : pattern ≠ []) (text : List Char) :
    Proper (literal pattern text) := by
  constructor
  · intro before cs hit found
    obtain ⟨_, _, rfl⟩ := Option.map_eq_some_iff.mp found
    exact List.length_pos_iff.mpr occupied
  · intro before cs hit found
    obtain ⟨rest, literal, rfl⟩ := Option.map_eq_some_iff.mp found
    have length := length_of_afterLiteral literal
    show pattern.length ≤ cs.length
    omega

theorem literal_quiet (text : List Char)
    (absent : ∀ i < part.length, ¬ StandsAt pattern (part ++ rest) i)
    {first : List Char} {c : Char} {second : List Char} (split : part = first ++ c :: second) :
    literal pattern text before (c :: second ++ rest) = none := by
  have here := absent first.length (by simp [split])
  rw [StandsAt, split, List.append_assoc, List.drop_left] at here
  exact (literal_eq_none text).mpr here

theorem spansFrom_first (occupied : pattern ≠ []) (before : Option Char) (text : List Char)
    (first : ∀ j < part.length, ¬ StandsAt pattern (part ++ (pattern ++ rest)) j) :
    ∃ last, spansFrom (literal pattern text) 0 before (part ++ (pattern ++ rest)) =
      pattern :: spansFrom (literal pattern text) 0 last rest := by
  rw [spansFrom_pass before part _ fun _ _ _ split => literal_quiet text first split,
    spansFrom_take occupied (literal_some pattern rest text _)]
  exact ⟨_, rfl⟩

theorem spansFrom_eq_nil (occupied : pattern ≠ []) (text : List Char) :
    spansFrom (literal pattern text) 0 before cs = [] ↔ ∀ i, ¬ StandsAt pattern cs i := by
  constructor
  · intro empty i stands
    obtain ⟨part, rest, rfl, first⟩ := exists_first stands
    obtain ⟨last, spans⟩ := spansFrom_first occupied before text first
    rw [spans] at empty
    cases empty
  · intro absent
    have passed : spansFrom (literal pattern text) 0 before (cs ++ []) = _ :=
      spansFrom_pass before cs [] fun _ _ _ split =>
        literal_quiet text (fun i _ => by simpa using absent i) split
    rw [List.append_nil] at passed
    rw [passed]
    rfl

/-- Where the first place overlaps all others, it is the only one that is replaced. -/
theorem replaceFrom_first (occupied : pattern ≠ []) (text : List Char)
    (first : ∀ j < part.length, ¬ StandsAt pattern (part ++ (pattern ++ rest)) j)
    (absent : ∀ k, ¬ StandsAt pattern rest k) :
    replaceFrom (literal pattern text) 0 true before (part ++ (pattern ++ rest)) =
      part ++ (text ++ rest) := by
  have proper := literal_proper occupied text
  rw [replaceFrom_pass before part _ fun _ _ _ split => literal_quiet text first split,
    replaceFrom_take proper occupied (literal_some pattern rest text _),
    replaceFrom_eq_self proper]
  intro before first second split
  have here := absent first.length
  rw [StandsAt, split, List.drop_left] at here
  exact (literal_eq_none text).mpr here

end Walk

theorem placeholder_ne_nil : placeholder ≠ [] := by decide

/-- A text is cut at the first occurrence of the placeholder, and that overlaps all others. -/
structure Parts (text before behind : String) : Prop where
  whole : text = before ++ String.ofList placeholder ++ behind
  sole : ∀ i, StandsAt placeholder text.toList i →
    before.length ≤ i ∧ i < before.length + placeholder.length

section Parts

variable {text before behind : String}

theorem Parts.toList (parts : Parts text before behind) :
    text.toList = before.toList ++ (placeholder ++ behind.toList) := by
  simp [parts.whole]

theorem Parts.walk (parts : Parts text before behind) :
    (∀ j < before.toList.length,
      ¬ StandsAt placeholder (before.toList ++ (placeholder ++ behind.toList)) j) ∧
    ∀ k, ¬ StandsAt placeholder behind.toList k := by
  have sole := parts.sole
  rw [parts.toList, ← String.length_toList] at sole
  have first := fun j early stands => Nat.not_lt.mpr (sole j stands).1 early
  exact ⟨first, (first_overlaps_iff first).mp sole⟩

theorem occurrences_eq_one :
    occurrences text = 1 ↔ ∃ before behind, Parts text before behind := by
  unfold occurrences spans
  constructor
  · intro single
    have some : ∃ i, StandsAt placeholder text.toList i := by
      refine Classical.byContradiction fun absent => ?_
      rw [(spansFrom_eq_nil placeholder_ne_nil []).mpr fun i stands => absent ⟨i, stands⟩] at single
      cases single
    obtain ⟨i, stands⟩ := some
    obtain ⟨part, rest, cut, first⟩ := exists_first stands
    rw [cut] at single first
    obtain ⟨last, spans⟩ := spansFrom_first placeholder_ne_nil none [] first
    rw [spans, List.length_cons, Nat.add_eq_right, List.length_eq_zero_iff] at single
    have absent := (spansFrom_eq_nil placeholder_ne_nil []).mp single
    refine ⟨String.ofList part, String.ofList rest, ?_, ?_⟩
    · simp [← String.toList_inj, cut]
    · rw [cut, String.length_ofList]
      exact (first_overlaps_iff first).mpr absent
  · rintro ⟨before, behind, parts⟩
    obtain ⟨first, absent⟩ := parts.walk
    obtain ⟨last, spans⟩ := spansFrom_first placeholder_ne_nil none [] first
    rw [parts.toList, spans, (spansFrom_eq_nil placeholder_ne_nil []).mpr absent]
    rfl

theorem Parts.render {t : Template} (parts : Parts t.text before behind) (declarations : String) :
    t.render declarations = before ++ declarations ++ behind := by
  obtain ⟨first, absent⟩ := parts.walk
  rw [Template.render, replaceAll, parts.toList,
    replaceFrom_first placeholder_ne_nil declarations.toList first absent]
  simp [← String.toList_inj]

theorem ofText_eq_ok {t : Template} : ofText text = .ok t ↔ t.text = text := by
  rw [ofText]
  split
  case isTrue once => grind [Template]
  case isFalse other =>
    refine ⟨nofun, ?_⟩
    rintro rfl
    exact absurd t.once other

/-- A text in which the placeholder stands at one position only is cut there. -/
theorem exists_parts_at {i : Nat} (only : ∀ j, StandsAt placeholder text.toList j ↔ j = i) :
    ∃ before behind, Parts text before behind ∧ before.length = i := by
  have stands := (only i).mpr rfl
  have length : (String.ofList (text.toList.take i)).length = i := by
    rw [String.length_ofList]
    exact List.length_take_of_le (Nat.le_of_lt (stands.lt placeholder_ne_nil))
  obtain ⟨rest, cut⟩ := stands
  refine ⟨_, String.ofList rest, ⟨?_, fun j stands => ?_⟩, length⟩
  · simp [← String.toList_inj, cut]
  · rw [(only j).mp stands, length]
    exact ⟨Nat.le_refl i, Nat.lt_add_of_pos_right (List.length_pos_iff.mpr placeholder_ne_nil)⟩

end Parts

/-- A template has two parts, and every rendered text has the declarations between them. -/
theorem exists_parts (t : Template) :
    ∃ before behind, ∀ declarations, t.render declarations = before ++ declarations ++ behind := by
  obtain ⟨before, behind, parts⟩ := occurrences_eq_one.mp t.once
  exact ⟨before, behind, parts.render⟩

/-- A text is a template exactly if the first occurrence of the placeholder overlaps all others;
then the declarations take its place. So it is if there are no others. -/
theorem ofText_iff_parts (text : String) :
    ((∃ t, ofText text = .ok t) ↔ ∃ before behind, Parts text before behind) ∧
      (∀ t, ofText text = .ok t → t.text = text ∧ ∀ before behind, Parts text before behind →
        ∀ declarations, t.render declarations = before ++ declarations ++ behind) ∧
      ((∀ before behind, ¬ Parts text before behind) →
        ∃ n, n ≠ 1 ∧ ofText text = .error (.template n)) ∧
      ∀ i, (∀ j, StandsAt placeholder text.toList j ↔ j = i) →
        ∃ before behind, Parts text before behind ∧ before.length = i := by
  refine ⟨?_, fun t read => ?_, fun whole => ?_, fun i only => exists_parts_at only⟩
  · rw [← occurrences_eq_one]
    refine ⟨?_, fun once => ⟨⟨text, once⟩, ofText_eq_ok.mpr rfl⟩⟩
    rintro ⟨t, read⟩
    exact ofText_eq_ok.mp read ▸ t.once
  · obtain rfl := ofText_eq_ok.mp read
    exact ⟨rfl, fun before behind parts => parts.render⟩
  · have other : occurrences text ≠ 1 := by
      rw [Ne, occurrences_eq_one]
      rintro ⟨before, behind, parts⟩
      exact whole before behind parts
    exact ⟨occurrences text, other, by simp [ofText, other]⟩

/-- A placeholder between two characters, and two placeholders with a character between them. -/
theorem ofText_iff_parts_between :
    let text := "<###OTHER_CODE###>"
    (∃ before behind, Parts text before behind ∧ before.length = 1) ∧
      Parts text "<" ">" ∧
      (∃ t, ofText text = .ok t ∧ t.text = text ∧
        ∀ declarations, t.render declarations = "<" ++ declarations ++ ">") ∧
      ∃ n, n ≠ 1 ∧ ofText "###OTHER_CODE### ###OTHER_CODE###" = .error (.template n) := by
  intro text
  have only (i : Nat) : StandsAt placeholder text.toList i ↔ i = 1 := by
    have below : ∀ i < text.toList.length, StandsAt placeholder text.toList i → i = 1 := by decide
    refine ⟨fun stands => below i (stands.lt placeholder_ne_nil) stands, ?_⟩
    rintro rfl
    decide
  have parts : Parts text "<" ">" := by
    refine ⟨by decide, fun i stands => ?_⟩
    rw [(only i).mp stands]
    decide
  obtain ⟨t, read⟩ := (ofText_iff_parts text).1.mpr ⟨"<", ">", parts⟩
  obtain ⟨same, rendered⟩ := (ofText_iff_parts text).2.1 t read
  refine ⟨(ofText_iff_parts text).2.2.2 1 only, parts, ⟨t, read, same, rendered "<" ">" parts⟩, ?_⟩
  refine (ofText_iff_parts "###OTHER_CODE### ###OTHER_CODE###").2.2.1 fun before behind parts => ?_
  have first := (parts.sole 0 (by decide)).1
  have second := (parts.sole 17 (by decide)).2
  have length : placeholder.length = 16 := rfl
  omega

/-- Two overlapping placeholders count as one. -/
theorem ofText_overlap :
    let text := "###OTHER_CODE###OTHER_CODE###"
    StandsAt placeholder text.toList 0 ∧ StandsAt placeholder text.toList 13 ∧
      (¬ ∃ i, ∀ j, StandsAt placeholder text.toList j ↔ j = i) ∧
      ∃ t, ofText text = .ok t ∧ t.text = text := by
  intro text
  have first : StandsAt placeholder text.toList 0 := by decide
  have second : StandsAt placeholder text.toList 13 := by decide
  refine ⟨first, second, ?_, ⟨text, by decide⟩, by decide, rfl⟩
  rintro ⟨i, only⟩
  have here := (only 0).mp first
  have there := (only 13).mp second
  omega

end HeaderBindings.Template
