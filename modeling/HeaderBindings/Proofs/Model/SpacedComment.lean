import HeaderBindings.Proofs.Declaration.Lexeme
import HeaderBindings.Proofs.Header.SpacedComment
import HeaderBindings.Proofs.Model.Definition
import HeaderBindings.Proofs.Model.Order

set_option autoImplicit false

namespace HeaderBindings.Model

open Text

theorem declared_lexemes {wrapper : List Char} (occupied : wrapper ≠ [])
    (words : ∀ c ∈ wrapper, isWord c = true) {candidates others : List (List Char)}
    (normal : ∀ candidate ∈ candidates, Normal wrapper candidate)
    (normal' : ∀ candidate ∈ others, Normal wrapper candidate)
    (typed : ∀ pair ∈ candidates.zip others, HoldsNothing pair.1 ↔ HoldsNothing pair.2)
    (same : candidates.map lexemes = others.map lexemes) :
    declared (candidates.map (Reading.ofCandidate wrapper)) =
      declared (others.map (Reading.ofCandidate wrapper)) := by
  induction candidates generalizing others with
  | nil => rw [List.map_eq_nil_iff.mp same.symm]
  | cons candidate candidates ih =>
      obtain ⟨other, others, rfl, alike, later⟩ := List.map_eq_cons_iff.mp same.symm
      have both : HoldsNothing candidate ↔ HoldsNothing other := typed (candidate, other) (by simp)
      have here : ∀ f, Function.ofCandidate wrapper candidate = .ok f ↔
          Function.ofCandidate wrapper other = .ok f := by
        intro f
        constructor
        · exact Function.ofCandidate_lexemes occupied words (normal candidate (by simp))
            (normal' other (by simp)) alike.symm both.mpr
        · exact Function.ofCandidate_lexemes occupied words (normal' other (by simp))
            (normal candidate (by simp)) alike both.mp
      have rest := ih (fun c member => normal c (List.mem_cons_of_mem candidate member))
        (fun c member => normal' c (List.mem_cons_of_mem other member))
        (fun pair member => typed pair (List.mem_cons_of_mem _ member)) later.symm
      rw [List.map_cons, List.map_cons]
      cases read : Function.ofCandidate wrapper candidate with
      | ok f =>
          rw [@declared_ok (.ofCandidate wrapper candidate) f read,
            @declared_ok (.ofCandidate wrapper other) f ((here f).mp read), rest]
      | error reason =>
          cases read' : Function.ofCandidate wrapper other with
          | ok f =>
              rw [(here f).mpr read'] at read
              cases read
          | error reason' =>
              rw [@declared_error (.ofCandidate wrapper candidate) reason read,
                @declared_error (.ofCandidate wrapper other) reason' read', rest]

theorem normal_candidates {policy : Header.Policy} {wrapper : List Char} (free : ';' ∉ wrapper)
    (header : List Char) :
    ∀ candidate ∈ Header.candidates policy wrapper header, Normal wrapper candidate := by
  intro candidate member
  exact ⟨(tidy_collapse _).part (infix_of_mem_spansFrom member),
    Header.exists_body_of_mem free member⟩

/-- A header has the same functions as it has with a space for each block comment, if every comment
in a statement that names the wrapper macro has, once the comments are gone, an end of the text,
white space or one of the characters `( ) , ;` on one of its sides, and no candidate has an empty
return type in one of the headers only. -/
theorem build_spaceComments (o : Options) (header : String) (valid : o.validate = .ok ())
    (apart : Header.CommentsApart o.wrapperMacro.toList header.toList)
    (typed : ∀ pair ∈
      (Header.candidates (.forWrapper o.wrapperMacro) o.wrapperMacro.toList header.toList).zip
        (Header.candidates (.forWrapper o.wrapperMacro) o.wrapperMacro.toList
          (Header.spaceComments header.toList)), HoldsNothing pair.1 ↔ HoldsNothing pair.2) :
    ∃ m n, build o header = .ok m ∧
      build o (String.ofList (Header.spaceComments header.toList)) = .ok n ∧
      m.functions = n.functions := by
  have named := isRun_wrapperMacro valid
  have free : ';' ∉ o.wrapperMacro.toList := named.not_mem (by decide)
  have same := apart.lexemes_candidates named
  refine ⟨_, _, buildWith_valid valid _ _, buildWith_valid valid _ _, functions_of_declared ?_⟩
  unfold readings
  rw [String.toList_ofList]
  exact declared_lexemes named.occupied named.letters (normal_candidates free _)
    (normal_candidates free _) typed same

/-- Comments before and behind punctuation, and next to a space; one in a statement without the
wrapper macro, and a candidate without a return type. -/
theorem build_spaceComments_list :
    ({} : Options).validate = .ok () ∧
      ∃ m n, build {} ("int a/**/b; /* f */ext_def(int/**/) f(char *s,/* size */int /**/a);" ++
          "ext_def() g(void);") = .ok m ∧
        build {} "int a b;  ext_def(int ) f(char *s, int  a);ext_def() g(void);" = .ok n ∧
        m.functions = n.functions := by
  have spaced : "int a b;  ext_def(int ) f(char *s, int  a);ext_def() g(void);" =
      String.ofList (Header.spaceComments
        ("int a/**/b; /* f */ext_def(int/**/) f(char *s,/* size */int /**/a);" ++
          "ext_def() g(void);").toList) := by decide +kernel
  rw [spaced]
  exact ⟨rfl, build_spaceComments {} _ rfl (by decide +kernel) (by decide +kernel)⟩

theorem exists_differing {o : Options} {first second : String} {f : Function}
    (valid : o.validate = .ok ())
    (absent : f ∉ (sift o.previewLength [] (readings o (.forWrapper o.wrapperMacro) first)).1)
    (present : f ∈ (sift o.previewLength [] (readings o (.forWrapper o.wrapperMacro) second)).1) :
    ∃ m n, build o first = .ok m ∧ build o second = .ok n ∧ m.functions ≠ n.functions := by
  refine ⟨_, _, buildWith_valid valid _ _, buildWith_valid valid _ _, ?_⟩
  intro same
  rw [functions_ofHeader, functions_ofHeader] at same
  refine absent ?_
  rwa [← List.mem_mergeSort, same, List.mem_mergeSort]

/-- A comment between two words of a type joins them, and with a star or a bracket on one side it
joins them too. Of a return type that is a comment nothing is left, and one that is a space is a
type. -/
theorem build_spaceComments_joined :
    (∀ header ∈ ["ext_def(int) f(unsigned/**/int a);", "ext_def(int) f(int/**/*a);",
        "ext_def(int) f(int*/**/a);", "ext_def(int) f(int b[2]/**/a);",
        "ext_def(int) f(int [/**/a);"],
      ∃ m n, build {} header = .ok m ∧
        build {} (String.ofList (Header.spaceComments header.toList)) = .ok n ∧
        m.functions ≠ n.functions) ∧
      Header.CommentsApart "ext_def".toList "ext_def(/**/) f(void);".toList ∧
      ∃ m n, build {} "ext_def(/**/) f(void);" = .ok m ∧
        build {} (String.ofList (Header.spaceComments "ext_def(/**/) f(void);".toList)) = .ok n ∧
        m.functions ≠ n.functions := by
  refine ⟨?_, by decide +kernel, ?_⟩
  · simp only [List.forall_mem_cons, List.not_mem_nil, false_implies, implies_true, and_true]
    have differ (type : String) (isPointer : Bool) {first second : String} :=
      @exists_differing {} first second
        ⟨"f", "int", false, .numeric, [⟨"a", type, isPointer, .ofType type isPointer⟩]⟩
    exact ⟨differ "unsigned int" false rfl (by decide +kernel) (by decide +kernel),
      differ "int" true rfl (by decide +kernel) (by decide +kernel),
      differ "int" true rfl (by decide +kernel) (by decide +kernel),
      differ "int b" true rfl (by decide +kernel) (by decide +kernel),
      differ "int [" false rfl (by decide +kernel) (by decide +kernel)⟩
  · exact @exists_differing _ _ _ ⟨"f", "", false, .ofType "" false, []⟩ rfl (by decide +kernel)
      (by decide +kernel)

end HeaderBindings.Model
