import ForgeDB.CommandParser
import ForgeDB.Protocol

/-!
# The grammar of command lines

Which commands a line stands for, in terms of its tokens, and that the parser finds exactly
these. A request reaches the parser as the payload of one frame, so a value can be any bytes
there, but the grammar ends it at the first newline.
-/

namespace ForgeDB.CommandGrammar
open CommandParser TextStreams

/-- The tokens of a line: its maximal runs without white space. -/
def tokens (s : Bytes) : List Bytes := (s.splitOnP isSpace).filter (fun w => w ≠ [])

def Blank (s : Bytes) : Prop := ∀ b ∈ s, isSpace b = true

/-- The first token is `op`, the second one is `key`, and `rest` is what follows it. -/
def SecondToken (s op key rest : Bytes) : Prop :=
  ∃ a b, Blank a ∧ Blank b ∧ b ≠ [] ∧ IsWord op ∧ IsWord key ∧
    (∀ c ∈ rest.head?, isSpace c = true) ∧ s = a ++ (op ++ (b ++ (key ++ rest)))

/-- The bytes up to the first newline or the end, less at most one leading blank. -/
def ValueOf (rest value : Bytes) : Prop :=
  rest.takeWhile (fun b => b != newline) = blank :: value ∨
    rest.takeWhile (fun b => b != newline) = value ∧ value.head? ≠ some blank

/-- The commands of the grammar. -/
inductive Denotes (s : Bytes) : Command → Prop
  | put {op key rest value : Bytes} : SecondToken s op key rest → toUpper op = text "PUT" →
      ValueOf rest value → value ≠ [] → Denotes s ⟨.put, key, value⟩
  | get {op key : Bytes} : tokens s = [op, key] → toUpper op = text "GET" →
      Denotes s ⟨.get, key, []⟩
  | deleteKey {op key : Bytes} : tokens s = [op, key] →
      toUpper op = text "DELETE" ∨ toUpper op = text "DEL" → Denotes s ⟨.deleteKey, key, []⟩
  | exit {op : Bytes} {ops : List Bytes} : tokens s = op :: ops →
      toUpper op = text "EXIT" ∨ toUpper op = text "QUIT" → Denotes s ⟨.exit, [], []⟩

section Tokens

variable {s w a rest : Bytes} {op key value : Bytes}

@[simp] theorem tokens_nil : tokens [] = [] := by
  rw [tokens, List.splitOnP_nil]
  rfl

theorem tokens_cons_space {b : Byte} (s : Bytes) (h : isSpace b = true) :
    tokens (b :: s) = tokens s := by
  have hnone : ∀ c ∈ ([] : Bytes), isSpace c = false := by simp
  have hsplit := List.splitOnP_append_cons_of_forall_mem hnone b h s
  rw [List.nil_append] at hsplit
  rw [tokens, hsplit, List.filter_cons_of_neg (by simp), ← tokens]

theorem tokens_blank_append (h : Blank a) (s : Bytes) : tokens (a ++ s) = tokens s := by
  induction a with
  | nil => rfl
  | cons b a ih =>
    rw [List.cons_append, tokens_cons_space _ (h b List.mem_cons_self)]
    exact ih (fun c hc => h c (List.mem_cons_of_mem _ hc))

theorem tokens_word_append (hw : IsWord w) (hr : ∀ b ∈ rest.head?, isSpace b = true) :
    tokens (w ++ rest) = w :: tokens rest := by
  cases rest with
  | nil =>
    rw [List.append_nil, tokens, List.splitOnP_eq_singleton hw.2, tokens_nil,
      List.filter_cons_of_pos (by simpa using hw.1), List.filter_nil]
  | cons b rest =>
    have hb := hr b rfl
    rw [tokens_cons_space rest hb, tokens, List.splitOnP_append_cons_of_forall_mem hw.2 b hb,
      List.filter_cons_of_pos (by simpa using hw.1), ← tokens]

theorem extractWord_split (h : extractWord s = some (w, rest)) :
    ∃ a, Blank a ∧ IsWord w ∧ (∀ b ∈ rest.head?, isSpace b = true) ∧ s = a ++ (w ++ rest) := by
  have hword := isWord_of_extractWord h
  simp only [extractWord] at h
  split at h
  · cases h
  obtain ⟨hw, hrest⟩ := Prod.mk.inj (Option.some.inj h)
  refine ⟨s.takeWhile isSpace, fun b hb => List.mem_takeWhile_imp hb, hword, ?_, ?_⟩
  · intro b hb
    have hstop := List.head?_dropWhile_not (fun b => !isSpace b) (skipSpaces s)
    rw [hrest, hb] at hstop
    simpa using hstop
  · rw [← hw, ← hrest, List.takeWhile_append_dropWhile, skipSpaces, List.takeWhile_append_dropWhile]

theorem extractWord_blank_append (h : Blank a) (s : Bytes) : extractWord (a ++ s) = extractWord s := by
  induction a with
  | nil => rfl
  | cons b a ih =>
    rw [List.cons_append, extractWord_cons_space _ (h b List.mem_cons_self)]
    exact ih (fun c hc => h c (List.mem_cons_of_mem _ hc))

theorem tokens_of_extractWord (h : extractWord s = some (w, rest)) : tokens s = w :: tokens rest := by
  obtain ⟨a, ha, hw, hr, rfl⟩ := extractWord_split h
  rw [tokens_blank_append ha, tokens_word_append hw hr]

theorem tokens_of_extractWord_none (h : extractWord s = none) : tokens s = [] := by
  have hblank : Blank s := by
    simp only [extractWord] at h
    split at h
    · next hnil =>
      cases hskip : skipSpaces s with
      | nil => exact List.dropWhile_eq_nil_iff.mp hskip
      | cons c rest =>
        have hfirst := List.head?_dropWhile_not isSpace s
        rw [← skipSpaces, hskip] at hfirst
        simp only [List.head?_cons] at hfirst
        simp [hskip, hfirst] at hnil
    · cases h
  have h := tokens_blank_append hblank []
  rwa [List.append_nil, tokens_nil] at h

theorem extractWord_of_tokens_cons {ws : List Bytes} (h : tokens s = w :: ws) :
    ∃ rest, extractWord s = some (w, rest) ∧ tokens rest = ws := by
  cases hx : extractWord s with
  | none =>
    rw [tokens_of_extractWord_none hx] at h
    cases h
  | some p =>
    obtain ⟨w', rest⟩ := p
    rw [tokens_of_extractWord hx] at h
    cases h
    exact ⟨rest, rfl, rfl⟩

theorem extractWord_of_tokens_nil (h : tokens s = []) : extractWord s = none := by
  cases hx : extractWord s with
  | none => rfl
  | some p =>
    rw [tokens_of_extractWord hx] at h
    cases h

theorem secondToken_iff : SecondToken s op key rest ↔
    ∃ mid, extractWord s = some (op, mid) ∧ extractWord mid = some (key, rest) := by
  constructor
  · rintro ⟨a, b, ha, hb, hne, hop, hkey, hrest, rfl⟩
    have hmid : ∀ c ∈ (b ++ (key ++ rest)).head?, isSpace c = true := by
      cases b with
      | nil => exact absurd rfl hne
      | cons c b =>
        intro c' hc'
        obtain rfl : c = c' := by simpa using hc'
        exact hb c List.mem_cons_self
    refine ⟨b ++ (key ++ rest), ?_, ?_⟩
    · rw [extractWord_blank_append ha, extractWord_append hop hmid]
    · rw [extractWord_blank_append hb, extractWord_append hkey hrest]
  · rintro ⟨mid, hfirst, hsecond⟩
    obtain ⟨a, ha, hop, hmid, rfl⟩ := extractWord_split hfirst
    obtain ⟨b, hb, hkey, hrest, rfl⟩ := extractWord_split hsecond
    refine ⟨a, b, ha, hb, ?_, hop, hkey, hrest, rfl⟩
    -- without a blank in between, the first token would go on
    rintro rfl
    cases key with
    | nil => exact hkey.1 rfl
    | cons c key =>
      have hspace := hmid c rfl
      rw [hkey.2 c List.mem_cons_self] at hspace
      cases hspace

private theorem dropBlank_iff (line value : Bytes) :
    line = blank :: value ∨ line = value ∧ value.head? ≠ some blank ↔
      (if line.head? = some blank then line.tail else line) = value := by
  constructor
  · rintro (rfl | ⟨rfl, hhead⟩)
    · simp
    · rw [if_neg hhead]
  · rintro rfl
    split
    · next hhead =>
      obtain ⟨tail, rfl⟩ := List.head?_eq_some_iff.mp hhead
      exact Or.inl rfl
    · next hhead => exact Or.inr ⟨rfl, hhead⟩

theorem valueOf_iff : ValueOf rest value ↔ putValue rest = value := dropBlank_iff _ value

end Tokens

section Parsing

variable {s : Bytes} {op key : Bytes} {command : Command}

/-- A line of two tokens is read by two extractions, and a third one finds nothing. -/
theorem extractWord_of_two_tokens (h : tokens s = [op, key]) :
    ∃ mid rest, extractWord s = some (op, mid) ∧ extractWord mid = some (key, rest) ∧
      extractWord rest = none := by
  obtain ⟨mid, hfirst, hmid⟩ := extractWord_of_tokens_cons h
  obtain ⟨rest, hsecond, hrest⟩ := extractWord_of_tokens_cons hmid
  exact ⟨mid, rest, hfirst, hsecond, extractWord_of_tokens_nil hrest⟩

theorem parseKeyOnly_of_tokens {type : CommandType} {mid rest : Bytes}
    (hsecond : extractWord mid = some (key, rest)) (hrest : extractWord rest = none) :
    parseKeyOnly type mid = ⟨type, key, []⟩ := by
  simp only [parseKeyOnly, hsecond, hrest]

theorem parseCommand_of_denotes (h : Denotes s command) : parseCommand s = command := by
  cases h with
  | put hsecond hop hvalue hne =>
    obtain ⟨mid, hfirst, hmid⟩ := secondToken_iff.mp hsecond
    simp only [parseCommand, hfirst, hop, if_pos, parsePut, hmid, valueOf_iff.mp hvalue, if_neg hne]
  | get htokens hop =>
    obtain ⟨mid, rest, hfirst, hsecond, hrest⟩ := extractWord_of_two_tokens htokens
    have hput : text "GET" ≠ text "PUT" := by decide
    simp only [parseCommand, hfirst, hop, if_neg hput, if_pos]
    exact parseKeyOnly_of_tokens hsecond hrest
  | @deleteKey op _ htokens hop =>
    obtain ⟨mid, rest, hfirst, hsecond, hrest⟩ := extractWord_of_two_tokens htokens
    have hput : toUpper op ≠ text "PUT" := by
      rcases hop with hop | hop <;> rw [hop] <;> decide
    have hget : toUpper op ≠ text "GET" := by
      rcases hop with hop | hop <;> rw [hop] <;> decide
    simp only [parseCommand, hfirst, if_neg hput, if_neg hget, if_pos hop]
    exact parseKeyOnly_of_tokens hsecond hrest
  | @exit op _ htokens hop =>
    obtain ⟨mid, hfirst, -⟩ := extractWord_of_tokens_cons htokens
    have hput : toUpper op ≠ text "PUT" := by
      rcases hop with hop | hop <;> rw [hop] <;> decide
    have hget : toUpper op ≠ text "GET" := by
      rcases hop with hop | hop <;> rw [hop] <;> decide
    have hdelete : ¬ (toUpper op = text "DELETE" ∨ toUpper op = text "DEL") := by
      rcases hop with hop | hop <;> rw [hop] <;> decide
    simp only [parseCommand, hfirst, if_neg hput, if_neg hget, if_neg hdelete, if_pos hop]

theorem parseKeyOnly_eq (type : CommandType) (mid : Bytes) :
    parseKeyOnly type mid = {} ∨
      ∃ key rest, extractWord mid = some (key, rest) ∧ extractWord rest = none ∧
        parseKeyOnly type mid = ⟨type, key, []⟩ := by
  rw [parseKeyOnly]
  split
  · exact Or.inl rfl
  · next key rest hkey =>
    split
    · exact Or.inl rfl
    · next hrest => exact Or.inr ⟨key, rest, hkey, hrest, rfl⟩

theorem denotes_or_invalid (s : Bytes) : parseCommand s = {} ∨ Denotes s (parseCommand s) := by
  rw [parseCommand]
  split
  · exact Or.inl rfl
  next op mid hfirst =>
  simp only
  split_ifs with hput hget hdelete hexit
  · rw [parsePut]
    split
    · exact Or.inl rfl
    · next key rest hsecond =>
      simp only
      split
      · exact Or.inl rfl
      · next hne =>
        exact Or.inr (.put (secondToken_iff.mpr ⟨mid, hfirst, hsecond⟩) hput (valueOf_iff.mpr rfl) hne)
  · rcases parseKeyOnly_eq .get mid with hnone | ⟨key, rest, hsecond, hrest, heq⟩
    · exact Or.inl hnone
    · rw [heq]
      refine Or.inr (.get ?_ hget)
      rw [tokens_of_extractWord hfirst, tokens_of_extractWord hsecond,
        tokens_of_extractWord_none hrest]
  · rcases parseKeyOnly_eq .deleteKey mid with hnone | ⟨key, rest, hsecond, hrest, heq⟩
    · exact Or.inl hnone
    · rw [heq]
      refine Or.inr (.deleteKey ?_ hdelete)
      rw [tokens_of_extractWord hfirst, tokens_of_extractWord hsecond,
        tokens_of_extractWord_none hrest]
  · exact Or.inr (.exit (tokens_of_extractWord hfirst) hexit)
  · exact Or.inl rfl

end Parsing

/-- The parser returns a command exactly when the line denotes it, and an invalid command with
empty fields for all other lines; its keys are words. -/
theorem parseCommand_grammar (s : Bytes) :
    (∀ command, parseCommand s = command ↔
        Denotes s command ∨ command = ⟨.invalid, [], []⟩ ∧ ∀ other, ¬ Denotes s other) ∧
      ((parseCommand s).type = .put ∨ (parseCommand s).type = .get ∨
          (parseCommand s).type = .deleteKey →
        (parseCommand s).key ≠ [] ∧ ∀ b ∈ (parseCommand s).key, isSpace b = false) := by
  refine ⟨fun command => ⟨?_, ?_⟩, keyed_parseCommand s⟩
  · rintro rfl
    rcases denotes_or_invalid s with hinvalid | hdenotes
    · refine Or.inr ⟨hinvalid, fun other hother => ?_⟩
      rw [← parseCommand_of_denotes hother, hinvalid] at hother
      cases hother
    · exact Or.inl hdenotes
  · rintro (hdenotes | ⟨rfl, hnone⟩)
    · exact parseCommand_of_denotes hdenotes
    · rcases denotes_or_invalid s with hinvalid | hdenotes
      · exact hinvalid
      · exact absurd hdenotes (hnone _)

section Frames

variable {maxMessageSize : ℕ} {key value : Bytes}

def putRequest (key value : Bytes) : Bytes := text "PUT " ++ key ++ text " " ++ value

theorem parseCommand_putRequest (hkey : IsWord key) (value : Bytes) :
    parseCommand (putRequest key value) =
      if value.takeWhile (fun b => b != newline) = [] then {}
      else ⟨.put, key, value.takeWhile (fun b => b != newline)⟩ := by
  have hsecond : SecondToken (putRequest key value) (text "PUT") key (blank :: value) := by
    refine ⟨[], [blank], by simp [Blank], ?_, by simp, ?_, hkey, ?_, ?_⟩
    · intro b hb
      rw [List.mem_singleton.mp hb]
      rfl
    · exact ⟨by decide, by decide +kernel⟩
    · intro b hb
      obtain rfl : blank = b := by simpa using hb
      rfl
    · rw [putRequest, List.append_assoc, List.append_assoc]
      rfl
  have hvalue : putValue (blank :: value) = value.takeWhile (fun b => b != newline) :=
    valueOf_iff.mp (Or.inl rfl)
  obtain ⟨mid, hfirst, hmid⟩ := secondToken_iff.mp hsecond
  have hop : toUpper (text "PUT") = text "PUT" := by decide
  simp only [parseCommand, hfirst, hop, if_pos, parsePut, hmid, hvalue]

theorem takeWhile_newline_iff :
    value.takeWhile (fun b => b != newline) = value ↔ newline ∉ value := by
  rw [List.takeWhile_eq_self_iff]
  constructor
  · intro h hmem
    exact absurd (h newline hmem) (by simp)
  · intro h b hb
    rw [bne_iff_ne]
    rintro rfl
    exact h hb

/-- A value survives the frame and the parser exactly when it has no newline. -/
theorem framed_put_iff (hmax : maxMessageSize < 2 ^ 32) (key value : Bytes) (hkey : key ≠ [])
    (hword : ∀ b ∈ key, isSpace b = false) (hvalue : value ≠ [])
    (hfit : (putRequest key value).length ≤ maxMessageSize) :
    (Protocol.tryExtractFrame maxMessageSize
        (Protocol.createFrame maxMessageSize (putRequest key value))).1.map parseCommand =
      some ⟨.put, key, value⟩ ↔ newline ∉ value := by
  have hextract : Protocol.tryExtractFrame maxMessageSize
      (Protocol.createFrame maxMessageSize (putRequest key value)) =
        (some (putRequest key value), []) := by
    have hlook := Protocol.look_createFrame hmax hfit []
    rw [List.append_nil] at hlook
    rw [Protocol.tryExtractFrame_eq, hlook]
  rw [hextract, Option.map_some, Option.some.injEq, parseCommand_putRequest ⟨hkey, hword⟩,
    ← takeWhile_newline_iff]
  constructor
  · intro h
    split at h
    · cases h
    · exact (Command.mk.inj h).2.2
  · intro h
    rw [h, if_neg hvalue]

end Frames

theorem framed_put_iff_blanks :
    (Protocol.tryExtractFrame 64 (Protocol.createFrame 64
        (putRequest (text "k") (text "  two words ")))).1.map parseCommand =
      some ⟨.put, text "k", text "  two words "⟩ :=
  (framed_put_iff (by decide) (text "k") (text "  two words ") (by decide) (by decide +kernel)
    (by decide) (by decide)).mpr (by decide)

/-- The part behind the newline is lost. -/
theorem framed_put_newline :
    ¬ ∀ (maxMessageSize : ℕ) (key value : Bytes), maxMessageSize < 2 ^ 32 → IsWord key → value ≠ [] →
      (putRequest key value).length ≤ maxMessageSize →
      (Protocol.tryExtractFrame maxMessageSize
          (Protocol.createFrame maxMessageSize (putRequest key value))).1.map parseCommand =
        some ⟨.put, key, value⟩ := by
  intro h
  have hlost := h 64 (text "k") (text "a\nb") (by decide)
    ⟨by decide, by decide +kernel⟩ (by decide) (by decide)
  exact absurd hlost (by decide +kernel)

end ForgeDB.CommandGrammar
