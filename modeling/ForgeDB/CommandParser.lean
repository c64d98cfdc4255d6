import ForgeDB.HeaderTypes
import ForgeDB.TextStreams

/-!
# The command parser

A command line is an operation in any case, a key, and for a `PUT` the rest of the line
as the value, less one leading blank. A parsed key is never empty and has no white space.
-/

namespace ForgeDB.CommandParser
open TextStreams

/-- `std::toupper` in the C locale. -/
def toUpperByte (b : Byte) : Byte := if 97 ≤ b.val ∧ b.val ≤ 122 then Fin.ofNat 256 (b.val - 32) else b

def toUpper (value : Bytes) : Bytes := value.map toUpperByte

/-- The value of a `PUT`: the rest of the line without one leading blank. -/
def putValue (stream : Bytes) : Bytes :=
  let value := (getline stream).1
  if value.head? = some blank then value.tail else value

def parseKeyOnly (type : CommandType) (stream : Bytes) : Command :=
  match extractWord stream with
  | none => {}
  | some (key, stream) =>
    match extractWord stream with
    | some _ => {}
    | none => { type := type, key := key }

def parsePut (stream : Bytes) : Command :=
  match extractWord stream with
  | none => {}
  | some (key, stream) =>
    let value := putValue stream
    if value = [] then {} else { type := .put, key := key, value := value }

def parseCommand (input : Bytes) : Command :=
  match extractWord input with
  | none => {}
  | some (operation, stream) =>
    let operation := toUpper operation
    if operation = text "PUT" then parsePut stream
    else if operation = text "GET" then parseKeyOnly .get stream
    else if operation = text "DELETE" ∨ operation = text "DEL" then parseKeyOnly .deleteKey stream
    else if operation = text "EXIT" ∨ operation = text "QUIT" then { type := .exit }
    else {}

def Keyed (command : Command) : Prop :=
  command.type = .put ∨ command.type = .get ∨ command.type = .deleteKey → IsWord command.key

private theorem keyed_default : Keyed {} := by
  intro h
  rcases h with h | h | h <;> cases h

theorem keyed_parseKeyOnly (type : CommandType) (stream : Bytes) :
    Keyed (parseKeyOnly type stream) := by
  rw [parseKeyOnly]
  split
  · exact keyed_default
  · next key rest hkey =>
    split
    · exact keyed_default
    · exact fun _ => isWord_of_extractWord hkey

theorem keyed_parsePut (stream : Bytes) : Keyed (parsePut stream) := by
  rw [parsePut]
  split
  · exact keyed_default
  · next key rest hkey =>
    simp only
    split
    · exact keyed_default
    · exact fun _ => isWord_of_extractWord hkey

/-- Whatever the line, the key of a parsed command is non-empty and free of white space. -/
theorem keyed_parseCommand (input : Bytes) : Keyed (parseCommand input) := by
  rw [parseCommand]
  split
  · exact keyed_default
  · next operation stream _ =>
    simp only
    split_ifs
    · exact keyed_parsePut stream
    · exact keyed_parseKeyOnly .get stream
    · exact keyed_parseKeyOnly .deleteKey stream
    · intro h
      rcases h with h | h | h <;> cases h
    · exact keyed_default

theorem length_extractWord {s w rest : Bytes} (h : extractWord s = some (w, rest)) :
    w.length + rest.length ≤ s.length := by
  have hskip : (skipSpaces s).length ≤ s.length := (List.dropWhile_suffix _).length_le
  have hsplit := congrArg List.length
    (List.takeWhile_append_dropWhile (p := fun b => !isSpace b) (l := skipSpaces s))
  simp only [extractWord] at h
  split at h
  · cases h
  · obtain ⟨rfl, rfl⟩ := Prod.mk.inj (Option.some.inj h)
    rw [List.length_append] at hsplit
    omega

theorem length_putValue (stream : Bytes) : (putValue stream).length ≤ stream.length := by
  have hline : (getline stream).1.length ≤ stream.length := (List.takeWhile_prefix _).length_le
  simp only [putValue]
  split
  · exact (List.tail_suffix _).length_le.trans hline
  · exact hline

theorem length_parsePut (stream : Bytes) :
    (parsePut stream).key.length + (parsePut stream).value.length ≤ stream.length := by
  rw [parsePut]
  split
  · exact Nat.zero_le _
  · next key rest hkey =>
    have hlen := length_extractWord hkey
    have hvalue := length_putValue rest
    simp only
    split
    · exact Nat.zero_le _
    · simp only
      omega

theorem length_parseKeyOnly (type : CommandType) (stream : Bytes) :
    (parseKeyOnly type stream).key.length + (parseKeyOnly type stream).value.length ≤
      stream.length := by
  rw [parseKeyOnly]
  split
  · exact Nat.zero_le _
  · next key rest hkey =>
    have hlen := length_extractWord hkey
    split
    · exact Nat.zero_le _
    · simp only [List.length_nil]
      omega

theorem length_parseCommand (input : Bytes) :
    (parseCommand input).key.length + (parseCommand input).value.length ≤ input.length := by
  rw [parseCommand]
  split
  · exact Nat.zero_le _
  · next operation stream hop =>
    have hlen := length_extractWord hop
    simp only
    split_ifs
    · exact (length_parsePut stream).trans (by omega)
    · exact (length_parseKeyOnly .get stream).trans (by omega)
    · exact (length_parseKeyOnly .deleteKey stream).trans (by omega)
    · exact Nat.zero_le _
    · exact Nat.zero_le _

end ForgeDB.CommandParser
