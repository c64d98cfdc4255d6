import ForgeDB.ByteStrings
import Mathlib.Data.List.TakeWhile

/-!
# Lexical path operations

`std::filesystem::path` on plain POSIX paths, as byte strings. Two different strings
are taken to name two different files.
-/

namespace ForgeDB.FilePaths

def separator : Byte := 47

def dot : Byte := 46

/-- Everything up to and including the last separator. -/
def directoryPart (p : Bytes) : Bytes := (p.reverse.dropWhile (fun b => b != separator)).reverse

/-- `parent_path`: the trailing separators go, except for the root's. -/
def parentPath (p : Bytes) : Bytes :=
  let dir := directoryPart p
  let trimmed := (dir.reverse.dropWhile (fun b => b == separator)).reverse
  if trimmed = [] then dir.take 1 else trimmed

/-- `p / name` for a relative name. -/
def joinPath (p name : Bytes) : Bytes :=
  if p = [] ∨ p.getLast? = some separator then p ++ name else p ++ separator :: name

/-- The part of `joinPath` in front of the name. -/
def joinPrefix (p : Bytes) : Bytes :=
  if p = [] ∨ p.getLast? = some separator then p else p ++ [separator]

theorem joinPath_eq (p name : Bytes) : joinPath p name = joinPrefix p ++ name := by
  rw [joinPath, joinPrefix]
  split <;> simp

/-- `filename`: what follows the last separator. -/
def filenamePart (p : Bytes) : Bytes := (p.reverse.takeWhile (fun b => b != separator)).reverse

/-- `extension` of a file name: from its last dot on; a leading dot does not count. -/
def extension (name : Bytes) : Bytes :=
  let tail := (name.reverse.takeWhile (fun b => b != dot)).reverse
  if tail.length + 1 < name.length then dot :: tail else []

theorem mem_of_mem_directoryPart {p : Bytes} {b : Byte} (h : b ∈ directoryPart p) : b ∈ p := by
  have h' := (List.dropWhile_suffix _).subset (List.mem_reverse.mp h)
  exact List.mem_reverse.mp h'

theorem mem_of_mem_parentPath {p : Bytes} {b : Byte} (h : b ∈ parentPath p) : b ∈ p := by
  simp only [parentPath] at h
  split at h
  · exact mem_of_mem_directoryPart (List.mem_of_mem_take h)
  · have h' := (List.dropWhile_suffix _).subset (List.mem_reverse.mp h)
    exact mem_of_mem_directoryPart (List.mem_reverse.mp h')

theorem filenamePart_suffix (p : Bytes) : filenamePart p <:+ p := by
  have h := (List.takeWhile_prefix (fun b => b != separator) (l := p.reverse)).reverse
  rwa [List.reverse_reverse] at h

theorem filenamePart_append (front : Bytes) {name : Bytes} (h : separator ∉ name) :
    filenamePart (front ++ separator :: name) = name := by
  have hall : ∀ b ∈ name.reverse, (b != separator) = true := by
    intro b hb
    rw [bne_iff_ne]
    rintro rfl
    exact h (List.mem_reverse.mp hb)
  have hrev : (front ++ separator :: name).reverse = name.reverse ++ separator :: front.reverse := by
    simp
  rw [filenamePart, hrev, List.takeWhile_append_of_pos hall]
  simp

theorem extension_suffix {name : Bytes} (h : extension name ≠ []) : extension name <:+ name := by
  simp only [extension] at h ⊢
  split_ifs at h ⊢ with hlong
  · have hsplit := List.takeWhile_append_dropWhile (p := fun b => b != dot) (l := name.reverse)
    cases hrest : name.reverse.dropWhile (fun b => b != dot) with
    | nil =>
      rw [hrest, List.append_nil] at hsplit
      rw [hsplit, List.reverse_reverse] at hlong
      omega
    | cons b rest =>
      -- the iteration has stopped at the dot
      have hb : b = dot := by
        have hstop := List.head?_dropWhile_not (fun b => b != dot) name.reverse
        rw [hrest] at hstop
        simpa using hstop
      rw [hrest, hb] at hsplit
      refine ⟨rest.reverse, ?_⟩
      have hname := congrArg List.reverse hsplit
      rw [List.reverse_append, List.reverse_cons, List.reverse_reverse, List.append_assoc] at hname
      exact hname
  · exact absurd rfl h

theorem suffix_of_extension {p e : Bytes} (h : extension (filenamePart p) = e) (hne : e ≠ []) :
    e <:+ p := by
  have hsuffix := extension_suffix (by rwa [h] : extension (filenamePart p) ≠ [])
  rw [h] at hsuffix
  exact hsuffix.trans (filenamePart_suffix p)

end ForgeDB.FilePaths
