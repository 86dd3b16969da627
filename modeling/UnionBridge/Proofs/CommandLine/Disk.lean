import Mathlib
import UnionBridge.CommandLine.Disk

/-! Writing files. Storing a file changes what its own name holds and nothing else, so effects that write to different
files do not get in each other's way. -/
namespace UnionBridge

variable {d d' : Disk} {directory p : Path} {here name other parts : List String} {part : String} {bytes : List UInt8} {text : String}

namespace Raw

@[simp]
theorem text?_ofString (s : String) : (ofString s).text? = some s := by
  have hchars (cs : List Char) : (ofChars cs).mapM Glyph.char? = some cs := by
    induction cs with
    | nil => rfl
    | cons c cs ih =>
      have ih : (cs.map Glyph.char).mapM Glyph.char? = some cs := ih
      simp [ofChars, Glyph.char?, ih]
  rw [text?, ofString, hchars, Option.map_some, String.ofList_toList]

theorem encode_ofString (s : String) : (ofString s).encode = .ok s.toUTF8.toList := by
  rw [encode, text?_ofString]

theorem text?_append_append {r : Raw} (h : r.text? = none) (before after : Raw) : (before ++ r ++ after).text? = none := by
  have hstray : r.mapM Glyph.char? = none := Option.map_eq_none_iff.mp h
  simp [text?, List.mapM_append, hstray]

theorem ofString_append (s t : String) : ofString (s ++ t) = ofString s ++ ofString t := by
  simp [ofString, ofChars]

end Raw

namespace Disk

/-- The name of the file that is there, or would be once it is written. -/
def Entry.name? : Entry → Option (List String)
  | .file name _ | .vacant name => some name
  | _ => none

/-- The name of the file that a path can be written to. -/
def target? (d : Disk) (directory p : Path) : Option (List String) :=
  if hasNull p then none else (d.entry directory p).name?

/-- Paths that can all be written, each to a file of its own. -/
def Writable (d : Disk) (directory : Path) (ps : List Path) : Prop :=
  (∀ p ∈ ps, (d.target? directory p).isSome) ∧ (ps.map (d.target? directory)).Nodup

/-- A path leads to a file that holds a text and nothing else. -/
def Holds (d : Disk) (directory p : Path) (text : String) : Prop :=
  ∃ name, d.target? directory p = some name ∧ d.file? name = some text.toUTF8.toList

/-- One disk comes from another one by writing some texts, and in no other way. -/
structure Wrote (d d' : Disk) (directory : Path) (ws : List (Path × String)) : Prop where
  holds : ∀ w ∈ ws, d'.Holds directory w.1 w.2
  others : ∀ name, some name ∉ (ws.map Prod.fst).map (d.target? directory) → d'.file? name = d.file? name
  directories : d'.directories = d.directories
  targets : ∀ p name, d.target? directory p = some name → d'.target? directory p = some name

/-! ### Storing one file -/

/-- A name under which a file can be stored: that of a file, or a free one in a directory. -/
def Free (d : Disk) (name : List String) : Prop :=
  (d.file? name).isSome ∨ name ≠ [] ∧ d.isDirectory name.dropLast ∧ ¬d.isDirectory name

theorem fst_stored (f : List String × List UInt8) : (if f.1 = name then (name, bytes) else f).1 = f.1 := by
  split
  · rename_i h
    exact h.symm
  · rfl

theorem file?_store : (d.store name bytes).file? other = if other = name then some bytes else d.file? other := by
  rw [store]
  split
  · rename_i hfile
    simp only [file?, List.find?_map, Function.comp_def, fst_stored]
    cases hfind : d.files.find? fun f => f.1 = other with
    | none =>
      have hne : other ≠ name := by
        rintro rfl
        simp [file?, hfind] at hfile
      simp [hne]
    | some f =>
      have hf : f.1 = other := by simpa using List.find?_some hfind
      simp only [Option.map_some, hf]
      split <;> rfl
  · rename_i hfile
    have hnone : d.file? name = none := by simpa using hfile
    simp only [file?, List.find?_append, Option.map_or] at hnone ⊢
    split
    · rename_i h
      simp [h, hnone]
    · rename_i h
      simp [Ne.symm h]

/-- Storing a file adds its name to those of the files, unless it is one of them. -/
theorem mem_names_store :
    other ∈ (d.store name bytes).files.map Prod.fst ↔
      other ∈ d.files.map Prod.fst ∨ d.file? name = none ∧ other = name := by
  rw [store]
  split
  · rename_i hfile
    have hsome : d.file? name ≠ none := fun h => by simp [h] at hfile
    simp only [List.map_map, Function.comp_def, fst_stored, hsome, false_and, or_false]
  · rename_i hfile
    have hnone : d.file? name = none := by simpa using hfile
    simp [hnone]

theorem isDirectory_iff :
    d.isDirectory name ↔
      name = [] ∨ (∃ x ∈ d.directories, name <+: x) ∨
        ∃ x ∈ d.files.map Prod.fst, name <+: x ∧ name.length < x.length := by
  simp [isDirectory, or_assoc]

/-- What a directory is in is a directory, too. -/
theorem isDirectory_of_isPrefix (h : d.isDirectory name) (hp : other <+: name) : d.isDirectory other := by
  rw [isDirectory_iff] at h ⊢
  rcases h with rfl | ⟨x, hx, hname⟩ | ⟨x, hx, hname, hlen⟩
  · exact .inl (List.prefix_nil.mp hp)
  · exact .inr (.inl ⟨x, hx, hp.trans hname⟩)
  · exact .inr (.inr ⟨x, hx, hp.trans hname, Nat.lt_of_le_of_lt hp.length_le hlen⟩)

theorem directories_store : (d.store name bytes).directories = d.directories := by
  rw [store]
  split <;> rfl

theorem isDirectory_store (h : d.Free name) : (d.store name bytes).isDirectory other = d.isDirectory other := by
  rw [Bool.eq_iff_iff]
  constructor
  · intro hother
    rw [isDirectory_iff, directories_store] at hother
    rcases hother with hother | hother | ⟨x, hx, hpre, hlen⟩
    · exact isDirectory_iff.mpr (.inl hother)
    · exact isDirectory_iff.mpr (.inr (.inl hother))
    rcases mem_names_store.mp hx with hx | ⟨hnone, rfl⟩
    · exact isDirectory_iff.mpr (.inr (.inr ⟨x, hx, hpre, hlen⟩))
    rcases h with h | ⟨hne, hparent, -⟩
    · simp [hnone] at h
    · -- The new file lies in a directory, and so in everything above that.
      refine isDirectory_of_isPrefix hparent (List.prefix_of_prefix_length_le hpre (List.dropLast_prefix x) ?_)
      rw [List.length_dropLast]
      omega
  · intro hother
    rw [isDirectory_iff] at hother
    rw [isDirectory_iff, directories_store]
    rcases hother with hother | hother | ⟨x, hx, h⟩
    · exact .inl hother
    · exact .inr (.inl hother)
    · exact .inr (.inr ⟨x, mem_names_store.mpr (.inl hx), h⟩)

/-! ### Paths -/

/-- A walk from a directory that comes to a file or a free name comes to one under which a file can be stored. -/
theorem free_of_walk (hhere : d.isDirectory here) (h : (d.walk here parts).name? = some name) : d.Free name := by
  fun_induction d.walk here parts with
  | case1 | case2 | case3 | case5 | case7 | case10 => cases h
  | case4 here rest hne ih => exact ih (isDirectory_of_isPrefix hhere (List.dropLast_prefix here)) h
  | case6 here part rest hdots next hlen bytes hfile hrest =>
    obtain rfl : next = name := Option.some.inj h
    exact .inl (by rw [hfile]; rfl)
  | case8 here part rest hdots next hlen hfile hdir ih => exact ih hdir h
  | case9 here part rest hdots next hlen hfile hdir hrest =>
    obtain rfl : next = name := Option.some.inj h
    exact .inr ⟨by simp [next], by simpa [next] using hhere, hdir⟩

theorem walk_cons (hdots : part ≠ "..") (hlen : ¬part.utf8ByteSize > nameLimit) :
    d.walk here (part :: parts) =
      match d.file? (here ++ [part]) with
      | some bytes => if parts.isEmpty then .file (here ++ [part]) bytes else .fault .notDirectory
      | none =>
        if d.isDirectory (here ++ [part]) then d.walk (here ++ [part]) parts
        else if parts.isEmpty then .vacant (here ++ [part])
        else .fault .missing := by
  rw [walk]
  · exact if_neg hlen
  · exact hdots

/-- A file that is stored stands on no way to another file. -/
theorem name?_walk_store (hfree : d.Free name) (h : (d.walk here parts).name? = some other) :
    ((d.store name bytes).walk here parts).name? = some other := by
  fun_induction d.walk here parts with
  | case1 | case2 | case3 | case5 | case7 | case10 => cases h
  | case4 here rest hne ih =>
    rw [walk, if_neg hne]
    exact ih h
  | case6 here part rest hdots next hlen old hfile hrest =>
    obtain rfl : here ++ [part] = other := Option.some.inj h
    have hfile : d.file? (here ++ [part]) = some old := hfile
    rw [walk_cons hdots hlen, file?_store, hfile]
    by_cases heq : here ++ [part] = name
    · simp [heq, hrest, Entry.name?]
    · simp [heq, hrest, Entry.name?]
  | case8 here part rest hdots next hlen hfile hdir ih =>
    have hfile : d.file? (here ++ [part]) = none := hfile
    have hdir : d.isDirectory (here ++ [part]) := hdir
    have hne : here ++ [part] ≠ name := by
      rintro rfl
      rcases hfree with hsome | ⟨-, -, hnot⟩
      · simp [hfile] at hsome
      · exact hnot hdir
    rw [walk_cons hdots hlen, file?_store, if_neg hne, hfile, isDirectory_store hfree]
    simp only [hdir, if_true]
    exact ih h
  | case9 here part rest hdots next hlen hfile hdir hrest =>
    obtain rfl : here ++ [part] = other := Option.some.inj h
    have hfile : d.file? (here ++ [part]) = none := hfile
    have hdir : ¬d.isDirectory (here ++ [part]) := hdir
    rw [walk_cons hdots hlen, file?_store, hfile, isDirectory_store hfree]
    by_cases heq : here ++ [part] = name
    · simp [heq, hrest, Entry.name?]
    · simp [heq, hrest, hdir, Entry.name?]

/-- No file is reached by a path that leads out of the working directory. -/
theorem entry_eq_walk (h : (d.entry directory p).name? = some name) :
    d.entry directory p = d.walk [] (p.relativeTo directory).parts ∧
      ∀ d' : Disk, d'.entry directory p = d'.walk [] (p.relativeTo directory).parts := by
  simp only [entry] at h ⊢
  split at h
  · cases h
  split at h
  · split at h
    · cases h
    · split at h <;> cases h
  · rename_i hlen habs
    simp [hlen, habs]

theorem free_of_target? (h : d.target? directory p = some name) : d.Free name := by
  rw [target?] at h
  split at h
  · cases h
  · rw [(entry_eq_walk h).1] at h
    exact free_of_walk (isDirectory_iff.mpr (.inl rfl)) h

/-- Paths lead where they led after a file was stored. -/
theorem target?_store (hfree : d.Free name) (h : d.target? directory p = some other) :
    (d.store name bytes).target? directory p = some other := by
  rw [target?] at h ⊢
  split at h
  · cases h
  · rename_i hnull
    obtain ⟨hwalk, hall⟩ := entry_eq_walk h
    rw [if_neg hnull, hall]
    exact name?_walk_store hfree (hwalk ▸ h)

theorem write_of_target? (h : d.target? directory p = some name) :
    d.write directory p (Raw.ofString text) = (d.store name text.toUTF8.toList, none) := by
  rw [target?] at h
  rw [write]
  split at h
  · cases h
  · rename_i hnull
    rw [if_neg hnull, Raw.encode_ofString]
    cases he : d.entry directory p <;> rw [he] at h <;> cases h <;> rfl

/-- A file whose text has no encoding is left empty. -/
theorem write_of_stray {raw : Raw} {e : Raw.EncodingError} (h : d.target? directory p = some name)
    (hraw : raw.encode = .error e) : d.write directory p raw = (d.store name [], some (.encoding e)) := by
  rw [target?] at h
  rw [write]
  split at h
  · cases h
  · rename_i hnull
    rw [if_neg hnull, hraw]
    cases he : d.entry directory p <;> rw [he] at h <;> cases h <;> rfl

namespace Writable

variable {ps : List Path}

theorem map_target?_store (h : d.Writable directory (p :: ps)) (hp : d.target? directory p = some name) :
    ps.map ((d.store name bytes).target? directory) = ps.map (d.target? directory) := by
  refine List.map_congr_left fun q hq => ?_
  obtain ⟨n, hn⟩ := Option.isSome_iff_exists.mp (h.1 q (List.mem_cons_of_mem _ hq))
  rw [hn, target?_store (free_of_target? hp) hn]

theorem store (h : d.Writable directory (p :: ps)) (hp : d.target? directory p = some name) :
    (d.store name bytes).Writable directory ps := by
  constructor
  · intro q hq
    obtain ⟨n, hn⟩ := Option.isSome_iff_exists.mp (h.1 q (List.mem_cons_of_mem _ hq))
    rw [target?_store (free_of_target? hp) hn]
    rfl
  · rw [h.map_target?_store hp]
    exact (List.nodup_cons.mp h.2).2

end Writable

namespace Wrote

variable {ws : List (Path × String)}

theorem nil : d.Wrote d directory [] where
  holds := by simp
  others _ _ := rfl
  directories := rfl
  targets _ _ h := h

/-- What is written first stays when the rest goes elsewhere. -/
theorem cons (hw : d.Writable directory (p :: ws.map Prod.fst)) (hp : d.target? directory p = some name)
    (h : (d.store name text.toUTF8.toList).Wrote d' directory ws) : d.Wrote d' directory ((p, text) :: ws) := by
  have hfree := free_of_target? hp
  have hothers (other : List String) (hother : some other ∉ (ws.map Prod.fst).map (d.target? directory)) :
      d'.file? other = (d.store name text.toUTF8.toList).file? other :=
    h.others other (hw.map_target?_store hp ▸ hother)
  constructor
  case holds =>
    intro w hmem
    rcases List.mem_cons.mp hmem with rfl | hmem
    · refine ⟨name, h.targets _ _ (target?_store hfree hp), ?_⟩
      rw [hothers name (hp ▸ (List.nodup_cons.mp hw.2).1), file?_store, if_pos rfl]
    · exact h.holds w hmem
  case others =>
    intro other hother
    rw [List.map_cons, List.map_cons, List.mem_cons, not_or, hp] at hother
    rw [hothers other hother.2, file?_store, if_neg fun h => hother.1 (congrArg some h)]
  case directories => rw [h.directories, directories_store]
  case targets => exact fun q n hq => h.targets q n (target?_store hfree hq)

end Wrote

end Disk

end UnionBridge
