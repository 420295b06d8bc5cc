import HeaderBindings.Artifact.Document

set_option autoImplicit false

namespace HeaderBindings.Template

/-- The lines of the default template; the last one is empty, so the text ends with a line break. -/
def standardLines : List String :=
   ["/// <reference types=\"emscripten\" />",
    "",
    "/**",
    " * TypeScript bindings for the Swisseph Emscripten-generated WebAssembly module.",
    " * Extends the EmscriptenModule with custom wrapped native functions.",
    " */",
    "export interface SwissephModule extends EmscriptenModule ".push '{',
    "    // --- Standard Emscripten Runtime Methods ---",
    "    /** Sets a value in the WebAssembly heap memory. */",
    "    setValue: typeof setValue;",
    "",
    "    /** Retrieves a value from the WebAssembly heap memory. */",
    "    getValue: typeof getValue;",
    "",
    "    /** Converts a JavaScript string to a UTF-8 encoded string in the WebAssembly memory. */",
    "    stringToUTF8: typeof stringToUTF8;",
    "",
    "    /** Converts a UTF-8 encoded string from the WebAssembly memory to a JavaScript string. */",
    "    UTF8ToString: typeof UTF8ToString;",
    "",
    "    /** Returns the number of bytes required to encode a JavaScript string as UTF-8. */",
    "    lengthBytesUTF8: typeof lengthBytesUTF8;",
    "",
    "    /** Provides access to the Emscripten virtual file system. */",
    "    FS: typeof FS;",
    "",
    "    /**",
    "     * Frees allocated memory in the WebAssembly heap.",
    "     *",
    "     * Equivalent to `free(void* ptr)` in C.",
    "     * @param ptr Pointer to the memory location to free.",
    "     */",
    "    _free(ptr: number): void;",
    "",
    "    /**",
    "     * Allocates memory in the WebAssembly heap.",
    "     *",
    "     * Equivalent to `malloc(size_t size)` in C.",
    "     * @param size Number of bytes to allocate.",
    "     * @returns A pointer to the beginning of the allocated memory block.",
    "     */",
    "    _malloc(size: number): number;",
    "",
    "    // --- Exported Swisseph C Functions ---",
    "###OTHER_CODE###",
    "".push '}',
    "",
    "/**",
    " * Initializes and returns the Swisseph WebAssembly module.",
    " *",
    " * @param moduleArg - Optional configuration object for the Emscripten module.",
    " * @returns A Promise that resolves to the initialized Swisseph instance.",
    " */",
    "export default function Module(moduleArg?: Partial<EmscriptenModule>): Promise<SwissephModule>;",
    ""]

theorem map_toList_ofList {cs : List Char} {lines : List String} {css : List (List Char)}
    (later : lines.map String.toList = css) :
    (String.ofList cs :: lines).map String.toList = cs :: css := by
  rw [List.map_cons, String.toList_ofList, later]

theorem map_toList_push {cs : List Char} {c : Char} {lines : List String}
    {css : List (List Char)} (later : lines.map String.toList = css) :
    ((String.ofList cs).push c :: lines).map String.toList = (cs ++ [c]) :: css := by
  rw [List.map_cons, String.toList_push, String.toList_ofList, later]

theorem occurrences_of_lines {lines : List String} {css : List (List Char)}
    (spelled : lines.map String.toList = css)
    (single : (Text.spans (literal placeholder []) (['\n'].intercalate css)).length = 1) :
    occurrences ("\n".intercalate lines) = 1 := by
  rw [occurrences, String.toList_intercalate, spelled]
  exact single

-- A literal is `String.ofList` of its characters; decoding it instead takes the kernel very long.
theorem occurrences_standardLines : occurrences ("\n".intercalate standardLines) = 1 := by
  apply occurrences_of_lines
  case spelled =>
    repeat first
      | apply map_toList_ofList
      | apply map_toList_push
    exact List.map_nil
  case single => decide +kernel

def standard : Template := ⟨"\n".intercalate standardLines, occurrences_standardLines⟩

end HeaderBindings.Template
