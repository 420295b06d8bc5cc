import HeaderBindings.Proofs.Stored

set_option autoImplicit false

namespace HeaderBindings

open Json (Codec Fields keyed)

/-- Some of the options: for every field its value, if it is given. -/
structure PartialOptions where
  wrapperMacro : Option String := none
  symbolPrefix : Option String := none
  runtimeSymbols : Option (List String) := none
  runtimeMethods : Option (List String) := none
  headerFile : Option String := none
  previewLength : Option UInt64 := none
  parallel : Option Bool := none
  deriving DecidableEq, Repr

namespace PartialOptions

/-- The options with the fields that are given in place of theirs. -/
def applyTo (p : PartialOptions) (o : Options) : Options where
  wrapperMacro := p.wrapperMacro.getD o.wrapperMacro
  symbolPrefix := p.symbolPrefix.getD o.symbolPrefix
  runtimeSymbols := p.runtimeSymbols.getD o.runtimeSymbols
  runtimeMethods := p.runtimeMethods.getD o.runtimeMethods
  headerFile := p.headerFile.getD o.headerFile
  previewLength := p.previewLength.getD o.previewLength
  parallel := p.parallel.getD o.parallel

def names : List String :=
  ["wrapperMacro", "symbolPrefix", "runtimeSymbols", "runtimeMethods", "headerFile",
    "previewLength", "parallel"]

def member {α : Type} (name : String) (value : α → Json) (given : Option α) :
    List (String × Json) :=
  (given.map fun a => (name, value a)).toList

def texts (ss : List String) : Json := .array (ss.map fun s => .text (some s))

def members (p : PartialOptions) : List (String × Json) :=
  [member "wrapperMacro" (fun s => .text (some s)) p.wrapperMacro,
    member "symbolPrefix" (fun s => .text (some s)) p.symbolPrefix,
    member "runtimeSymbols" texts p.runtimeSymbols,
    member "runtimeMethods" texts p.runtimeMethods,
    member "headerFile" (fun s => .text (some s)) p.headerFile,
    member "previewLength" (fun n => .number (.integer n.toNat)) p.previewLength,
    member "parallel" .boolean p.parallel].flatten

/-- The text is an object that gives these fields, each once: in any order, among members of other
names, and in any spelling and layout. Keys are texts; a literal with half of a surrogate pair is
no key to any reader. -/
def WrittenAs (p : PartialOptions) (text : String) : Prop :=
  ∃ ms : List (String × Json), Json.Spaced (.object (keyed ms)) text.toList ∧
    (ms.filter fun m => m.1 ∈ names).Perm p.members

section Written

def slots (p : PartialOptions) : Stored.optionsFields.Slots :=
  (p.wrapperMacro, p.symbolPrefix, p.runtimeSymbols, p.runtimeMethods, p.headerFile,
    p.previewLength, p.parallel, ())

theorem names_eq : Stored.optionsFields.names = names := rfl

theorem given_slots (p : PartialOptions) : Stored.optionsFields.given p.slots = p.members := rfl

/-- Compact text is a way to write the fields, with other plain members among them or without. -/
theorem writtenAs_toText {p : PartialOptions} {ms : List (String × Json)}
    (each : ∀ m ∈ ms, Json.Plain m.2) (known : (ms.filter fun m => m.1 ∈ names).Perm p.members) :
    p.WrittenAs (Json.object (keyed ms)).toText := by
  refine ⟨ms, ?_, known⟩
  rw [Json.toText, String.toList_ofList]
  exact (Json.plain_keyed each).spells.spaced

/-- Every choice of fields and values can be written. -/
theorem exists_writtenAs (p : PartialOptions) : ∃ text, p.WrittenAs text := by
  have all : (p.members.filter fun m => m.1 ∈ names) = p.members := by
    rw [← given_slots, ← names_eq]
    exact List.filter_eq_self.mpr fun m member => decide_eq_true (Fields.mem_given member)
  have plain : ∀ m ∈ p.members, Json.Plain m.2 := by
    rw [← given_slots]
    exact fun m member => Fields.plain_of_given Stored.optionsFields_lawful member
  exact ⟨_, writtenAs_toText plain (List.Perm.of_eq all)⟩

end Written

section Read

theorem close_slots (p : PartialOptions) :
    Stored.optionsFields.close p.slots =
      .ok ((p.applyTo {}).wrapperMacro, (p.applyTo {}).symbolPrefix, (p.applyTo {}).runtimeSymbols,
        (p.applyTo {}).runtimeMethods, (p.applyTo {}).headerFile, (p.applyTo {}).previewLength,
        (p.applyTo {}).parallel, ()) := by
  simp only [Stored.optionsFields, Fields.close, slots, applyTo, Option.or_some]
  rfl

/-- What is written of some options is read as the defaults with these in their places. -/
theorem read_eq {p : PartialOptions} {text : String} (written : p.WrittenAs text) :
    Stored.ofText Stored.options text = .ok (p.applyTo {}) := by
  obtain ⟨ms, spaced, known⟩ := written
  rw [← given_slots, ← names_eq] at known
  have read := Fields.decode_given Stored.optionsFields_lawful "BindgenOptions" p.slots
    spaced.isWhole known
  rw [close_slots] at read
  simp only [Stored.ofText, Json.ofText_eq spaced, Codec.decodeText, Stored.options, Codec.record,
    read]
  rfl

/-- A text that gives some options stands for the defaults with these in their places, if those are
valid; else it is refused for what is wrong with them. The order of the fields, the layout and all
other members are of no matter. -/
theorem ofText_writtenAs {p : PartialOptions} {text : String} (written : p.WrittenAs text) :
    Options.ofText text =
      match (p.applyTo {}).validate with
      | .ok () => .ok (p.applyTo {})
      | .error fault => .error (.options fault) := by
  simp only [Options.ofText, read_eq written]
  cases (p.applyTo {}).validate <;> rfl

/-- Two fields in another order than theirs, one with an escape, behind a member that is none. -/
theorem ofText_writtenAs_swapped :
    let text :=
      "\x7b\"note\":[null,\"\\n\"],\n\"parallel\" : true,\"symbolPrefix\":\"\\u0024\"\x7d"
    WrittenAs { symbolPrefix := some "$", parallel := some true } text ∧
      Options.ofText text = .ok { symbolPrefix := "$", parallel := true } := by
  intro text
  have line : Json.Gap ['\n'] := by decide
  have space : Json.Gap [' '] := by decide
  have digit {n : Nat} (small : n < 16) : Json.Literal.HexDigit (Nat.digitChar n) n :=
    ⟨small, .inl rfl⟩
  have dollar : Json.Literal.Spells (some "$") ['\\', 'u', '0', '0', '2', '4'] :=
    .text (.cons (.code (@digit 0 (by decide)) (@digit 0 (by decide)) (@digit 2 (by decide))
      (@digit 4 (by decide))) .nil) (.code '$' .nil)
  have note := Json.MemberSpells.intro Json.gap_nil (Json.Literal.spells_encode "note")
    Json.gap_nil (Json.Spells.array (.more Json.Spells.null.spaced
      (.one (Json.Spells.text (Json.Literal.spells_encode "\n")).spaced))).spaced
  have parallel := Json.MemberSpells.intro line (Json.Literal.spells_encode "parallel") space
    (Json.Spaced.intro space .yes Json.gap_nil)
  have symbolPrefix := Json.MemberSpells.intro Json.gap_nil
    (Json.Literal.spells_encode "symbolPrefix") Json.gap_nil (Json.Spells.text dollar).spaced
  have spelled := (Json.Spells.object (.more note (.more parallel (.one symbolPrefix)))).spaced
  have members : PartialOptions.members { symbolPrefix := some "$", parallel := some true } =
      [("symbolPrefix", .text (some "$")), ("parallel", .boolean true)] := rfl
  have written : WrittenAs { symbolPrefix := some "$", parallel := some true } text := by
    dsimp only [text]
    exact ⟨[("note", .array [.null, .text (some "\n")]), ("parallel", .boolean true),
      ("symbolPrefix", .text (some "$"))], spelled, members ▸ List.Perm.swap _ _ _⟩
  exact ⟨written, ofText_writtenAs written⟩

end Read

end PartialOptions

end HeaderBindings
