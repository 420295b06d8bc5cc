import Mathlib.Data.List.Chain
import HeaderBindings.Artifact.Document
import HeaderBindings.Proofs.Declaration.Read
import HeaderBindings.Proofs.Model.Account

set_option autoImplicit false

namespace HeaderBindings.Document

open Text

def commentLines (f : Function) : List String :=
  "    /**" :: f.parameters.map parameterLine ++ [returnLine f, "     */"]

/-- Lines one below the other, each with its line break. -/
def ofLines (lines : List String) : List Char := lines.flatMap fun line => line.toList ++ ['\n']

theorem block_toList (o : Options) (f : Function) :
    (block o f).toList = ofLines (commentLines f) ++ (signatureLine o f).toList := by
  have joined (lines : List String) (last : String) :
      ("\n".intercalate (lines ++ [last])).toList = ofLines lines ++ last.toList := by
    rw [String.toList_intercalate]
    induction lines with
    | nil => simp [ofLines]
    | cons line lines ih =>
        cases lines <;> simp_all [ofLines]
  have lines : blockLines o f = commentLines f ++ [signatureLine o f] := by
    simp [blockLines, commentLines]
  rw [block, lines, joined]

theorem parameterLine_toList (p : Parameter) :
    (parameterLine p).toList = "     * ".toList ++ ("@param ".toList ++ '{' ::
      (p.mappedType.label.toList ++ '}' :: ' ' :: (p.name.toList ++ (" - C Type: `".toList ++
        (p.displayType.toList ++ ['`']))))) := by
  unfold parameterLine typeTag
  simp

theorem returnLine_toList (f : Function) :
    (returnLine f).toList = "     * ".toList ++ ("@returns ".toList ++ '{' ::
      (f.returnMappedType.label.toList ++ '}' :: (" - C Type: `".toList ++
        (f.displayReturnType.toList ++ ['`'])))) := by
  unfold returnLine typeTag
  simp

theorem not_mem_label (t : MappedType) {c : Char} (other : isAsciiWord c = false) :
    c ∉ t.label.toList := by
  intro member
  have word : isAsciiWord c = true := by
    cases t <;> exact forall_mem_of_all (by decide) c member
  rw [word] at other
  cases other

theorem line_not_mem_displayType {cType : String} (base : IsBaseType cType.toList)
    (isPointer : Bool) : '\n' ∉ (displayType cType isPointer).toList := by
  cases isPointer <;> simp [displayType, base.line_not_mem]

theorem line_not_mem_parameterLine {p : Parameter} (kept : p.Kept) :
    '\n' ∉ (parameterLine p).toList := by
  have label : '\n' ∉ p.mappedType.label.toList := not_mem_label _ (by decide)
  have name : '\n' ∉ p.name.toList := kept.not_mem_name (by decide)
  have type : '\n' ∉ p.displayType.toList := line_not_mem_displayType kept.cType p.isPointer
  rw [parameterLine_toList]
  simp [label, name, type]

theorem line_not_mem_returnLine {f : Function} (kept : f.Kept) :
    '\n' ∉ (returnLine f).toList := by
  have label : '\n' ∉ f.returnMappedType.label.toList := not_mem_label _ (by decide)
  have type : '\n' ∉ f.displayReturnType.toList :=
    line_not_mem_displayType kept.returnCType f.returnIsPointer
  rw [returnLine_toList]
  simp [label, type]

/-- No line of the comment is broken. -/
theorem line_not_mem_commentLines {f : Function} (kept : f.Kept) :
    ∀ line ∈ commentLines f, '\n' ∉ line.toList := by
  intro line member
  simp only [commentLines, List.mem_append, List.mem_cons, List.mem_map, List.not_mem_nil,
    or_false] at member
  rcases member with (same | ⟨p, listed, rfl⟩) | rfl | same
  · rw [same]
    simp
  · exact line_not_mem_parameterLine (kept.parameters p listed)
  · exact line_not_mem_returnLine kept
  · rw [same]
    simp

/-- No star has a slash behind it. -/
def Unclosed (cs : List Char) : Prop := cs.IsChain fun c d => ¬ (c = '*' ∧ d = '/')

namespace Unclosed

variable {c : Char} {cs : List Char}

theorem not_infix (open_ : Unclosed cs) : ¬ ['*', '/'] <:+: cs := by
  intro within
  have chain := open_.infix within
  simp at chain

theorem cons (open_ : Unclosed cs) (other : c ≠ '*') : Unclosed (c :: cs) :=
  List.isChain_cons.mpr ⟨fun _ _ both => other both.1, open_⟩

theorem star (open_ : Unclosed (c :: cs)) (other : c ≠ '/') : Unclosed ('*' :: c :: cs) :=
  List.isChain_cons_cons.mpr ⟨fun both => other both.2, open_⟩

theorem append (open_ : Unclosed cs) (free : List Char) (none : '*' ∉ free) :
    Unclosed (free ++ cs) := by
  induction free with
  | nil => exact open_
  | cons c free ih =>
      have other : c ≠ '*' := fun same => none (by simp [same])
      exact (ih fun member => none (List.mem_cons_of_mem c member)).cons other

/-- A type is written between backquotes, so what follows its star is no slash. -/
theorem displayType (open_ : Unclosed cs) {cType : String} (base : IsBaseType cType.toList)
    (isPointer : Bool) :
    Unclosed ((displayType cType isPointer).toList ++ '`' :: '\n' :: cs) := by
  have quoted : Unclosed ('`' :: '\n' :: cs) := (open_.cons (by decide)).cons (by decide)
  cases isPointer with
  | false => exact quoted.append _ base.star_not_mem
  | true =>
      have starred := (quoted.star (by decide)).append _ base.star_not_mem
      simpa [HeaderBindings.displayType] using starred

/-- The star in front of a line has a space behind it. -/
theorem margin (open_ : Unclosed cs) : Unclosed ("     * ".toList ++ cs) := by
  have spaced : Unclosed ([' '] ++ cs) := open_.append _ (by decide)
  have starred : Unclosed ("     ".toList ++ '*' :: ' ' :: cs) :=
    (spaced.star (by decide)).append _ (by simp)
  simpa using starred

theorem parameterLine (open_ : Unclosed cs) {p : Parameter} (kept : p.Kept) :
    Unclosed ((parameterLine p).toList ++ '\n' :: cs) := by
  have typed := open_.displayType kept.cType p.isPointer
  have named := ((typed.append " - C Type: `".toList (by simp)).append _
    (kept.not_mem_name (by decide))).cons (c := ' ') (by decide)
  have labelled := (named.cons (c := '}') (by decide)).append _
    (not_mem_label p.mappedType (by decide))
  have line := ((labelled.cons (c := '{') (by decide)).append "@param ".toList (by simp)).margin
  rw [parameterLine_toList, Parameter.displayType]
  simpa using line

theorem returnLine (open_ : Unclosed cs) {f : Function} (kept : f.Kept) :
    Unclosed ((returnLine f).toList ++ '\n' :: cs) := by
  have typed := open_.displayType kept.returnCType f.returnIsPointer
  have labelled := ((typed.append " - C Type: `".toList (by simp)).cons (c := '}')
    (by decide)).append _ (not_mem_label f.returnMappedType (by decide))
  have line := ((labelled.cons (c := '{') (by decide)).append "@returns ".toList (by simp)).margin
  rw [returnLine_toList, Function.displayReturnType]
  simpa using line

theorem parameterLines (open_ : Unclosed cs) {parameters : List Parameter}
    (kept : ∀ p ∈ parameters, p.Kept) :
    Unclosed (ofLines (parameters.map Document.parameterLine) ++ cs) := by
  induction parameters with
  | nil => exact open_
  | cons p parameters ih =>
      have later := ih fun q member => kept q (List.mem_cons_of_mem p member)
      have line := later.parameterLine (kept p (by simp))
      simpa [ofLines] using line

/-- Behind a text without a closer, a closer is found nowhere else. -/
theorem eq_of_append_closer (open_ : Unclosed cs) {rest before behind : List Char}
    (free : '*' ∉ rest) (same : cs ++ '*' :: '/' :: rest = before ++ '*' :: '/' :: behind) :
    before = cs ∧ behind = rest := by
  rcases List.append_eq_append_iff.mp same with ⟨middle, longer, split⟩ | ⟨middle, shorter, split⟩
  · -- The other closer starts at this one or behind it.
    cases middle with
    | nil => simp_all
    | cons c middle =>
        cases middle with
        | nil => simp at split
        | cons d middle =>
            have later : rest = middle ++ '*' :: '/' :: behind := by simp_all
            exact absurd (by simp [later]) free
  · -- The other closer starts at this one or before it.
    cases middle with
    | nil => simp_all
    | cons c middle =>
        cases middle with
        | nil => simp at split
        | cons d middle =>
            simp only [List.cons_append, List.cons.injEq] at split
            obtain ⟨rfl, rfl, _⟩ := split
            have closed : ['*', '/'] <:+: cs := ⟨before, middle, by simp [shorter]⟩
            exact absurd closed open_.not_infix

end Unclosed

theorem ofLines_commentLines {f : Function} (kept : f.Kept) :
    ∃ start, ofLines (commentLines f) = start ++ '*' :: '/' :: ['\n'] ∧ Unclosed start := by
  have margin : Unclosed "     ".toList := by
    simpa using Unclosed.append List.isChain_nil "     ".toList (by simp)
  have opener : Unclosed ("    /**".toList ++
      '\n' :: (ofLines (f.parameters.map parameterLine) ++
        ((returnLine f).toList ++ '\n' :: "     ".toList))) := by
    have lines := (margin.returnLine kept).parameterLines kept.parameters
    have broken := (lines.cons (c := '\n') (by decide)).star (by decide)
    have doubled := (broken.star (by decide)).append "    /".toList (by simp)
    simpa using doubled
  exact ⟨_, by simp [ofLines, commentLines], opener⟩

/-- The block is a comment of the given lines and the signature. No line is broken, and the comment
has one closer, which ends its last line. -/
structure Sealed (o : Options) (f : Function) (lines : List String) : Prop where
  block : (block o f).toList = ofLines lines ++ (signatureLine o f).toList
  count : lines.length = f.parameters.length + 3
  whole : ∀ line ∈ lines, '\n' ∉ line.toList
  closer : ∃ start, ofLines lines = start ++ "*/\n".toList ∧
    ∀ before behind, ofLines lines = before ++ "*/".toList ++ behind →
      before = start ∧ behind = ['\n']

theorem sealed_commentLines (o : Options) {f : Function} (kept : f.Kept) :
    Sealed o f (commentLines f) := by
  obtain ⟨start, split, open_⟩ := ofLines_commentLines kept
  refine ⟨block_toList o f, by simp [commentLines], line_not_mem_commentLines kept, start,
    split, fun before behind other => ?_⟩
  rw [split] at other
  exact open_.eq_of_append_closer (by decide) (by simpa using other)

/-- Nothing that a header says can end the comment of a block early, or add a line to it. -/
theorem block_sealed (o : Options) :
    (∀ wrapper candidate f, Function.ofCandidate wrapper candidate = .ok f →
      ∃ lines, Sealed o f lines) ∧
    ∀ p policy header m, Model.buildWith p policy header = .ok m →
      ∀ f ∈ m.functions, ∃ lines, Sealed o f lines := by
  constructor
  · intro wrapper candidate f read
    exact ⟨_, sealed_commentLines o (Function.ofCandidate_kept read)⟩
  · intro p policy header m built f member
    have isRead : f.IsRead := Model.isRead_of_buildWith built member
    exact ⟨_, sealed_commentLines o isRead.kept⟩

/-- Types with closers, backquotes and line breaks in them. -/
theorem block_sealed_closers :
    (∃ f, Function.ofCandidate "ext_def".toList
        "ext_def(int**) f(*/ q, `*//`\n@param *x);".toList = .ok f ∧ ∃ lines, Sealed {} f lines) ∧
      ∃ m, Model.buildWith {} .empty "ext_def(int**) f(*/ q, `*//`\n@param *x);" = .ok m ∧
        m.functions.length = 1 ∧ ∀ f ∈ m.functions, ∃ lines, Sealed {} f lines := by
  have read : Function.ofCandidate "ext_def".toList
      "ext_def(int**) f(*/ q, `*//`\n@param *x);".toList =
        .ok ⟨"f", "int", true, .numeric,
          [⟨"q", "/", true, .numeric⟩, ⟨"x", "` //` @param", true, .numeric⟩]⟩ := by
    decide +kernel
  have built := Model.buildWith_valid (o := {}) rfl .empty
    "ext_def(int**) f(*/ q, `*//`\n@param *x);"
  exact ⟨⟨_, read, (block_sealed {}).1 _ _ _ read⟩,
    _, built, by decide +kernel, (block_sealed {}).2 _ _ _ _ built⟩

end HeaderBindings.Document
