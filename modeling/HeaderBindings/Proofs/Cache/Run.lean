import HeaderBindings.Proofs.Cache.Entry

/-!
A cache makes no difference to the bindings of a header. What keeps it so through any run is that
every entry that can be read back is the model of the header and options under whose key it is
stored.
-/

set_option autoImplicit false

namespace HeaderBindings.Cache

open FileTree (readText_removeFile readText_write)

/-- What may happen to a cache and to the files around it. -/
inductive Call
  | generate (headerPath header : String) (o : Options)
  | set (headerPath header : String) (o : Options) (m : Model)
  | get (headerPath header : String) (o : Options)
  | delete (path : String)
  | overwrite (path : String) (content : ByteArray)

/-- Only a model that was built is stored, and what files are overwritten with is no entry. -/
def Call.Allowed : Call → Prop
  | set _ header o m => Model.build o header = .ok m
  | overwrite _ content => Undecodable content
  | _ => True

/-- The files after a call; one that fails leaves them as they were. -/
def Call.after (c : Cache) (t : FileTree) : Call → FileTree
  | generate headerPath header o => (c.generate t headerPath header o).2.1
  | set headerPath header o m => (c.set t headerPath header o m).toOption.getD t
  | get headerPath header o => (c.get t headerPath header o).2.1
  | delete path => (t.removeFile path).toOption.getD t
  | overwrite path content => (t.write path content).toOption.getD t

def run (c : Cache) (t : FileTree) (calls : List Call) : FileTree :=
  calls.foldl (fun t call => call.after c t) t

/-- What a look for an entry hashes of the bytes that are looked for: it hashes them only if there
is an entry to compare with. -/
def Lookup.hashes (bytes : ByteArray) : Lookup → List ByteArray
  | .stale => [bytes]
  | .hit _ => [bytes]
  | _ => []

def Call.hashes (c : Cache) (t : FileTree) : Call → List ByteArray
  | generate headerPath header o =>
    (c.lookup t headerPath header o).hashes (keyBytes o header) ++
      match (c.lookup t headerPath header o).model?, Model.build o header with
      | none, .ok _ => [keyBytes o header]
      | _, _ => []
  | set _ header o _ => [keyBytes o header]
  | get headerPath header o => (c.lookup t headerPath header o).hashes (keyBytes o header)
  | _ => []

def hashed (c : Cache) (t : FileTree) : List Call → List ByteArray
  | [] => []
  | call :: calls => call.hashes c t ++ c.hashed (call.after c t) calls

/-- Nothing is stored: what can be read at the path of an entry file is no entry. -/
def Vacant (c : Cache) (t : FileTree) : Prop :=
  ∀ headerPath text, t.readText (c.entryPath headerPath) = .ok text →
    ∃ fault, Stored.ofText Stored.cacheEntry text = .error fault

/-- The entry is the model of a header, under the key of that header; the bytes of the key are
among those known. -/
def Genuine (known : ByteArray → Prop) (entry : CacheEntry) : Prop :=
  ∃ o header, known (keyBytes o header) ∧ Model.build o header = .ok entry.model ∧
    entry.hash = key o header

/-- Every entry that can be read back is genuine. -/
def Sound (c : Cache) (known : ByteArray → Prop) (t : FileTree) : Prop :=
  ∀ headerPath text entry, t.readText (c.entryPath headerPath) = .ok text →
    Stored.ofText Stored.cacheEntry text = .ok entry → Genuine known entry

/-- A cache is vacant if its directory is empty, missing, or no directory at all. -/
theorem vacant_of_empty {c : Cache} {t : FileTree} (named : c.directory ≠ "")
    (empty : ∀ d, t.status c.directory = .ok (d, .directory) → t.names d = []) : Vacant c t := by
  intro headerPath text read
  obtain ⟨l, content, status, _⟩ := FileTree.readText_eq_ok.mp read
  exact absurd status (FileTree.status_of_empty named (single_entryName headerPath) empty l _)

section Soundness

variable {c : Cache} {known : ByteArray → Prop} {t : FileTree}

theorem Vacant.sound (vacant : Vacant c t) : Sound c known t := by
  intro headerPath text entry read decoded
  obtain ⟨fault, failed⟩ := vacant headerPath text read
  rw [failed] at decoded
  cases decoded

theorem Sound.remove (sound : Sound c known t) (path : String) :
    Sound c known ((t.removeFile path).toOption.getD t) := by
  cases done : t.removeFile path with
  | error e => exact sound
  | ok removed =>
      intro headerPath text entry read decoded
      exact sound headerPath text entry (readText_removeFile done read) decoded

theorem Sound.write (sound : Sound c known t) {path : String} {content : ByteArray}
    {written : FileTree} (done : t.write path content = .ok written)
    (genuine : ∀ text entry, String.fromUTF8? content = some text →
      Stored.ofText Stored.cacheEntry text = .ok entry → Genuine known entry) :
    Sound c known written := by
  intro headerPath text entry read decoded
  rcases readText_write done read with before | new
  · exact sound headerPath text entry before decoded
  · exact genuine text entry new decoded

theorem Sound.set (sound : Sound c known t) {headerPath header : String} {o : Options} {m : Model}
    {stored : FileTree} (built : Model.build o header = .ok m)
    (hashed : known (keyBytes o header))
    (done : c.set t headerPath header o m = .ok stored) : Sound c known stored := by
  refine sound.write done ?_
  intro text entry read decoded
  rw [FileTree.fromUTF8?_toUTF8, Option.some.injEq] at read
  rw [← read, Stored.ofText_toText Stored.cacheEntry_lawful, Except.ok.injEq] at decoded
  subst decoded
  exact ⟨o, header, hashed, built, rfl⟩

theorem Sound.afterLookup (sound : Sound c known t) (headerPath : String) (found : Lookup) :
    Sound c known (c.afterLookup t headerPath found) := by
  cases found with
  | corrupt fault => exact sound.remove _
  | _ => exact sound

theorem Sound.generate (sound : Sound c known t) {headerPath header : String} {o : Options}
    (hashed : ∀ bytes ∈ (Call.generate headerPath header o).hashes c t, known bytes) :
    Sound c known (c.generate t headerPath header o).2.1 := by
  have looked := sound.afterLookup headerPath (c.lookup t headerPath header o)
  unfold Cache.generate get
  simp only
  cases missed : (c.lookup t headerPath header o).model? with
  | some m => exact looked
  | none =>
      cases built : Model.build o header with
      | error failure => exact looked
      | ok m =>
          have new : known (keyBytes o header) :=
            hashed _ (by simp [Call.hashes, missed, built])
          simp only
          split
          · rename_i stored done
            exact looked.set built new done
          · exact looked

/-- Every call that is allowed keeps the entries genuine. -/
theorem Sound.after (sound : Sound c known t) {call : Call} (allowed : call.Allowed)
    (hashed : ∀ bytes ∈ call.hashes c t, known bytes) : Sound c known (call.after c t) := by
  cases call with
  | generate headerPath header o => exact sound.generate hashed
  | set headerPath header o m =>
      have new : known (keyBytes o header) := hashed _ (by simp [Call.hashes])
      show Sound c known ((c.set t headerPath header o m).toOption.getD t)
      cases done : c.set t headerPath header o m with
      | error e => exact sound
      | ok stored => exact sound.set allowed new done
  | get headerPath header o => exact sound.afterLookup headerPath _
  | delete path => exact sound.remove path
  | overwrite path content =>
      show Sound c known ((t.write path content).toOption.getD t)
      cases done : t.write path content with
      | error e => exact sound
      | ok written =>
          refine sound.write done ?_
          intro text entry read decoded
          obtain ⟨fault, failed⟩ := allowed text read
          rw [failed] at decoded
          cases decoded

theorem Sound.run (sound : Sound c known t) {calls : List Call}
    (allowed : ∀ call ∈ calls, call.Allowed) (hashed : ∀ bytes ∈ c.hashed t calls, known bytes) :
    Sound c known (c.run t calls) := by
  induction calls generalizing t with
  | nil => exact sound
  | cons call calls ih =>
      have next := sound.after (allowed call (by simp)) fun bytes member =>
        hashed bytes (List.mem_append_left _ member)
      exact ih next (fun other member => allowed other (List.mem_cons_of_mem call member))
        fun bytes member => hashed bytes (List.mem_append_right _ member)

theorem Sound.generate_eq (sound : Sound c known t)
    (free : ∀ x y, known x → known y → Digest.sha256 x = Digest.sha256 y → x = y)
    {headerPath header : String} {o : Options}
    (hashed : ∀ bytes ∈ (Call.generate headerPath header o).hashes c t, known bytes) :
    (c.generate t headerPath header o).1 = Bindings.generate o header := by
  unfold Cache.generate get Bindings.generate
  simp only
  cases found : c.lookup t headerPath header o with
  | hit m =>
      obtain ⟨text, read, decoded⟩ := lookup_eq_hit.mp found
      obtain ⟨p, other, before, built, stored⟩ := sound headerPath text _ read decoded
      have now : known (keyBytes o header) :=
        hashed _ (by simp [Call.hashes, Lookup.hashes, found])
      obtain ⟨rfl, rfl⟩ := eq_of_keyBytes_eq (free _ _ now before stored)
      rw [built]
      rfl
  | _ =>
      simp only [Lookup.model?]
      cases built : Model.build o header with
      | error failure => rfl
      | ok m =>
          simp only
          split <;> rfl

end Soundness

theorem hashed_append (c : Cache) (t : FileTree) (first second : List Call) :
    c.hashed t (first ++ second) = c.hashed t first ++ c.hashed (c.run t first) second := by
  induction first generalizing t with
  | nil => rfl
  | cons call first ih =>
      rw [List.cons_append, hashed, hashed, ih, List.append_assoc]
      rfl

def Call.keyBytes? : Call → Option ByteArray
  | generate _ header o => some (keyBytes o header)
  | set _ header o _ => some (keyBytes o header)
  | get _ header o => some (keyBytes o header)
  | _ => none

theorem Lookup.mem_hashes {found : Lookup} {bytes hashed : ByteArray}
    (member : hashed ∈ found.hashes bytes) : hashed = bytes := by
  cases found with
  | stale => exact List.mem_singleton.mp member
  | hit m => exact List.mem_singleton.mp member
  | _ => cases member

/-- A run hashes nothing but the headers and options of its calls. -/
theorem mem_hashed {c : Cache} {t : FileTree} {calls : List Call} {bytes : ByteArray}
    (member : bytes ∈ c.hashed t calls) : ∃ call ∈ calls, call.keyBytes? = some bytes := by
  induction calls generalizing t with
  | nil => cases member
  | cons call calls ih =>
      rcases List.mem_append.mp member with here | later
      · refine ⟨call, by simp, ?_⟩
        cases call with
        | generate headerPath header o =>
            rcases List.mem_append.mp here with looked | stored
            · exact congrArg some (Lookup.mem_hashes looked).symm
            · split at stored
              · exact congrArg some (List.mem_singleton.mp stored).symm
              · cases stored
        | set headerPath header o m => exact congrArg some (List.mem_singleton.mp here).symm
        | get headerPath header o => exact congrArg some (Lookup.mem_hashes here).symm
        | delete path => cases here
        | overwrite path content => cases here
      · obtain ⟨other, listed, same⟩ := ih later
        exact ⟨other, List.mem_cons_of_mem call listed, same⟩

/-- Through any run from a vacant cache in which no two hashes collide, bindings are the same as
without a cache. -/
theorem generate_refines (c : Cache) (t : FileTree) (calls : List Call) (start : Vacant c t)
    (allowed : ∀ call ∈ calls, call.Allowed)
    (free : ∀ x ∈ c.hashed t calls, ∀ y ∈ c.hashed t calls,
      Digest.sha256 x = Digest.sha256 y → x = y)
    (before after : List Call) (headerPath header : String) (o : Options)
    (split : calls = before ++ .generate headerPath header o :: after) :
    (c.generate (c.run t before) headerPath header o).1 = Bindings.generate o header := by
  have parts : c.hashed t calls = c.hashed t before ++
      ((Call.generate headerPath header o).hashes c (c.run t before) ++
        c.hashed ((Call.generate headerPath header o).after c (c.run t before)) after) := by
    rw [split, hashed_append]
    rfl
  have sound : Sound c (· ∈ c.hashed t calls) (c.run t before) := by
    refine start.sound.run (fun call member => allowed call ?_) fun bytes member => ?_
    · rw [split]
      exact List.mem_append_left _ member
    · rw [parts]
      exact List.mem_append_left _ member
  refine sound.generate_eq (fun x y first second => free x first y second) fun bytes member => ?_
  rw [parts]
  exact List.mem_append_right _ (List.mem_append_left _ member)

/-- Two header paths share an entry file, which is corrupt at first; the second of them finds what
was stored for the first. -/
theorem generate_refines_shared :
    let c : Cache := ⟨"cache"⟩
    let t : FileTree := { entries := [(["cache"], .directory)] }
    let header := "ext_def(int) f(int x);"
    let before : List Call :=
      [.overwrite "cache/a_h.json" "junk".toUTF8, .generate "a/h" header {}, .delete "cache/b.json"]
    let calls := before ++ [.generate "a:h" header {}]
    Vacant c t ∧ (∀ call ∈ calls, call.Allowed) ∧
      (∀ x ∈ c.hashed t calls, ∀ y ∈ c.hashed t calls,
        Digest.sha256 x = Digest.sha256 y → x = y) ∧
      (c.generate (c.run t before) "a:h" header {}).1 = Bindings.generate {} header := by
  intro c t header before calls
  have start : Vacant c t := by
    have there : ({ entries := [(["cache"], .directory)] } : FileTree).status "cache" =
        .ok (["cache"], .directory) := by rfl
    refine vacant_of_empty (by decide) fun d status => ?_
    rw [show t.status c.directory = _ from there] at status
    cases status
    decide +kernel
  have allowed : ∀ call ∈ calls, call.Allowed := by
    have junk : Undecodable "junk".toUTF8 := by
      intro text read
      rw [FileTree.fromUTF8?_toUTF8, Option.some.injEq] at read
      rw [← read]
      exact ⟨.notJson, by rfl⟩
    intro call member
    simp only [calls, before, List.cons_append, List.nil_append, List.mem_cons, List.not_mem_nil,
      or_false] at member
    rcases member with rfl | rfl | rfl | rfl
    · exact junk
    · trivial
    · trivial
    · trivial
  have one : ∀ bytes ∈ c.hashed t calls, bytes = keyBytes {} header := by
    intro bytes member
    obtain ⟨call, listed, same⟩ := mem_hashed member
    simp only [calls, before, List.cons_append, List.nil_append, List.mem_cons, List.not_mem_nil,
      or_false] at listed
    rcases listed with rfl | rfl | rfl | rfl
    · cases same
    · exact (Option.some.inj same).symm
    · cases same
    · exact (Option.some.inj same).symm
  have free : ∀ x ∈ c.hashed t calls, ∀ y ∈ c.hashed t calls,
      Digest.sha256 x = Digest.sha256 y → x = y :=
    fun x first y second _ => (one x first).trans (one y second).symm
  exact ⟨start, allowed, free,
    generate_refines c t calls start allowed free before [] "a:h" header {} rfl⟩

end HeaderBindings.Cache
