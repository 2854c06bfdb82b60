import Mathlib.Tactic.Common
import Tunescript.Proofs.Text.Utf8
import Tunescript.Storage.Files

/-!
# Written files

A file can be put in the place of anything but a directory, so that no way to any place leads
through it and all paths lead where they led before (`follow_put`).  What has been written to a path
is read from it (`read_of_write`), and what can be read from a path can be written over
(`exists_write_of_read`).  A file that is found is found when something has been written
(`hasFile_of_write`).
-/

namespace Tunescript.Files

variable {fs fs' : Files} {names names' : List Text} {node : Node} {path : Path} {shown : Text}
  {content : Bytes}

theorem lookup_map_of_mem {es : List (List Text × Node)} (h : (es.lookup names).isSome) :
  (es.map fun e => if e.1 = names then (names, node) else e).lookup names = some node
  := by
  induction es with
  | nil => cases h
  | cons e es ih =>
    obtain ⟨key, old⟩ := e
    rw [List.map_cons]
    dsimp only
    split
    · rw [List.lookup_cons_self]
    · rename_i hkey
      have hne : (names == key) = false := beq_eq_false_iff_ne.mpr (Ne.symm hkey)
      rw [List.lookup_cons, hne] at h ⊢
      apply ih h

theorem lookup_map_of_ne (es : List (List Text × Node)) (h : names' ≠ names) :
  (es.map fun e => if e.1 = names then (names, node) else e).lookup names' = es.lookup names'
  := by
  induction es with
  | nil => rfl
  | cons e es ih =>
    obtain ⟨key, old⟩ := e
    rw [List.map_cons]
    dsimp only
    split
    · rename_i hkey
      have hne : (names' == names) = false := beq_eq_false_iff_ne.mpr h
      rw [List.lookup_cons, List.lookup_cons, hkey, hne, ih]
    · rw [List.lookup_cons, List.lookup_cons, ih]

/-- The node that has been put at some names is found there. -/
theorem lookup_put_self :
  (fs.put names node).nodes.lookup names = some node
  := by
  rw [put]
  split
  · rename_i h
    apply lookup_map_of_mem h
  · rename_i h
    rw [List.lookup_append, Option.not_isSome_iff_eq_none.mp h, List.lookup_cons_self]
    rfl

/-- At other names there is what was there before. -/
theorem lookup_put_of_ne (h : names' ≠ names) :
  (fs.put names node).nodes.lookup names' = fs.nodes.lookup names'
  := by
  rw [put]
  split
  · apply lookup_map_of_ne _ h
  · have hne : (names' == names) = false := beq_eq_false_iff_ne.mpr h
    rw [List.lookup_append, List.lookup_cons, hne, List.lookup_nil, Option.or_none]

theorem node?_put_self (h : fs.node? names ≠ some .directory) :
  (fs.put names node).node? names = some node
  := by
  rw [node?] at h ⊢
  split at h
  · contradiction
  · rename_i hup
    rw [if_neg hup, lookup_put_self]

theorem node?_put_of_ne (h : names' ≠ names) :
  (fs.put names node).node? names' = fs.node? names'
  := by
  rw [node?, node?, lookup_put_of_ne h]

/-- A path leads where it led before something was put in the place of what is no directory. -/
theorem follow_put {here rest : List Text} (h : fs.node? names ≠ some .directory)
    (hfollow : fs.follow shown here rest = .ok names') :
  (fs.put names node).follow shown here rest = .ok names'
  := by
  induction rest generalizing here with
  | nil => exact hfollow
  | cons name rest ih =>
    rw [follow] at hfollow ⊢
    split at hfollow
    · cases hfollow
    · cases hfollow
    · rename_i hhere
      have hne : here ≠ names := by
        rintro rfl
        apply h hhere
      rw [node?_put_of_ne hne, hhere]
      dsimp only
      split at hfollow
      · cases hfollow
      · rename_i hname
        rw [if_neg hname]
        apply ih hfollow

theorem resolve_put (h : fs.node? names ≠ some .directory)
    (hresolve : fs.resolve path shown = .ok names') :
  (fs.put names node).resolve path shown = .ok names'
  := by
  rw [resolve] at hresolve ⊢
  split at hresolve
  · cases hresolve
  · split at hresolve
    · cases hresolve
    · rename_i hnull hlength
      rw [if_neg hnull, if_neg hlength]
      apply follow_put h hresolve

/-- A content is written to the place to which its path leads, unless that is a directory. -/
theorem write_eq_ok_iff :
  fs.write path shown content = .ok fs' ↔
    ∃ names, fs.resolve path shown = .ok names ∧ fs.node? names ≠ some .directory ∧
      fs' = fs.put names (.file content)
  := by
  rw [write]
  cases fs.resolve path shown with
  | error e => exact iff_of_false nofun fun ⟨_, h, _⟩ => nomatch h
  | ok names =>
    simp only [bind, Except.bind, Except.ok.injEq, exists_eq_left']
    split
    · rename_i hdirectory
      exact iff_of_false nofun fun h => h.1 hdirectory
    · rename_i hother
      rw [and_iff_right hother, Except.ok.injEq, eq_comm]

/-- The content of a file is read at the place to which its path leads. -/
theorem read_eq_ok_iff :
  fs.read path shown = .ok content ↔
    ∃ names, fs.resolve path shown = .ok names ∧ fs.node? names = some (.file content)
  := by
  rw [read]
  cases fs.resolve path shown with
  | error e => exact iff_of_false nofun fun ⟨_, h, _⟩ => nomatch h
  | ok names =>
    simp only [bind, Except.bind, Except.ok.injEq, exists_eq_left']
    split
    · rename_i hnone
      simp [hnone]
    · rename_i hdirectory
      simp [hdirectory]
    · rename_i hfile
      simp [hfile]

/-- What has been written to a path is read from it. -/
theorem read_of_write (h : fs.write path shown content = .ok fs') :
  fs'.read path shown = .ok content
  := by
  obtain ⟨names, hresolve, hnode, rfl⟩ := write_eq_ok_iff.mp h
  exact read_eq_ok_iff.mpr ⟨names, resolve_put hnode hresolve, node?_put_self hnode⟩

/-- A file that can be read can be written over. -/
theorem exists_write_of_read (h : fs.read path shown = .ok content) (content' : Bytes) :
  ∃ fs', fs.write path shown content' = .ok fs'
  := by
  obtain ⟨names, hresolve, hnode⟩ := read_eq_ok_iff.mp h
  have hother : fs.node? names ≠ some .directory := by
    rw [hnode]
    nofun
  exact ⟨_, write_eq_ok_iff.mpr ⟨names, hresolve, hother, rfl⟩⟩

/-- What can be read can also be read when something has been written. -/
theorem exists_read_of_write {path' : Path} {shown' : Text} {old : Bytes}
    (hread : fs.read path' shown' = .ok old) (h : fs.write path shown content = .ok fs') :
  ∃ new, fs'.read path' shown' = .ok new
  := by
  obtain ⟨names, -, hnode, rfl⟩ := write_eq_ok_iff.mp h
  obtain ⟨names', hresolve, hfile⟩ := read_eq_ok_iff.mp hread
  have hresolve : (fs.put names (.file content)).resolve path' shown' = .ok names' :=
    resolve_put hnode hresolve
  by_cases hsame : names' = names
  · rw [hsame] at hresolve
    exact ⟨content, read_eq_ok_iff.mpr ⟨names, hresolve, node?_put_self hnode⟩⟩
  · use old
    rw [read_eq_ok_iff]
    use names', hresolve
    rw [node?_put_of_ne hsame, hfile]

section Found

variable {file : Text}

/-- A file is found if it can be read and its name is not one of a directory. -/
theorem hasFile_iff :
  fs.hasFile file ↔
    Path.namesDirectory file = false ∧ ∃ content, fs.read (Path.ofText file) file = .ok content
  := by
  rw [hasFile, Bool.and_eq_true, Bool.not_eq_true']
  cases fs.read (Path.ofText file) file with
  | error e => simp [Except.isOk, Except.toBool]
  | ok content => simp [Except.isOk, Except.toBool]

/-- The name of a file that is found holds no null character. -/
theorem null_not_mem_of_hasFile (h : fs.hasFile file) :
  Path.null ∉ file
  := by
  obtain ⟨-, content, hread⟩ := hasFile_iff.mp h
  obtain ⟨names, hresolve, -⟩ := read_eq_ok_iff.mp hread
  rw [resolve] at hresolve
  split at hresolve
  · cases hresolve
  · rename_i hnull
    simpa using hnull

/-- A file is still found when something has been written. -/
theorem hasFile_of_write (hfile : fs.hasFile file) (h : fs.write path shown content = .ok fs') :
  fs'.hasFile file
  := by
  obtain ⟨hname, old, hread⟩ := hasFile_iff.mp hfile
  apply hasFile_iff.mpr ⟨hname, exists_read_of_write hread h⟩

end Found

section Texts

open Text (encode unifyLineEnds)

variable {t : Text}

/-- The text of a file that holds the encoding of a text. -/
theorem readText_of_read (h : fs.read path path.text = .ok (encode t)) :
  fs.readText path = .ok (unifyLineEnds t)
  := by
  rw [readText, h]
  simp only [Except.mapError, bind, Except.bind, Text.decode_eq_ok_iff.mpr rfl]
  rfl

theorem writeText_eq_ok_iff :
  fs.writeText path t = .ok fs' ↔ fs.full = false ∧ fs.write path path.text (encode t) = .ok fs'
  := by
  rw [writeText]
  cases fs.full with
  | true => exact iff_of_false nofun fun h => nomatch h.1
  | false => exact (and_iff_right rfl).symm

end Texts

end Tunescript.Files
