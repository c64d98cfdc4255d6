import ForgeDB.Serialization
import ForgeDB.StreamFraming

/-!
# Messages in a byte stream

A message is sent behind its length in four bytes. The receiver cuts one message at a
time off the front of its buffer; a length above the limit empties the buffer. The limit
is declared in a header, so it is a parameter here.
-/

namespace ForgeDB.Protocol
open LittleEndian Serialization StreamFraming

variable (maxMessageSize : ℕ)

def createFrame (payload : Bytes) : Bytes :=
  if payload.length > maxMessageSize then []
  else appendUint32 [] (payload.length % 2 ^ 32) ++ payload

/-- The payload, when a complete frame is in front, and the buffer afterwards. -/
def tryExtractFrame (inputBuffer : Bytes) : Option Bytes × Bytes :=
  if inputBuffer.length < 4 then (none, inputBuffer)
  else
    match readUint32 inputBuffer 0 with
    | none => (none, inputBuffer)
    | some (messageSize, _) =>
      if messageSize > maxMessageSize then (none, [])
      else if inputBuffer.length < 4 + messageSize then (none, inputBuffer)
      else (some ((inputBuffer.drop 4).take messageSize), inputBuffer.drop (4 + messageSize))

def verdict (s : Bytes) : Verdict Byte Bytes :=
  if s.length < 4 then .incomplete
  else if value (s.take 4) > maxMessageSize then .refused
  else if s.length < 4 + value (s.take 4) then .incomplete
  else .framed ((s.drop 4).take (value (s.take 4))) (s.drop (4 + value (s.take 4)))

variable {maxMessageSize} {s payload rest : Bytes}

theorem verdict_eq_framed_iff : verdict maxMessageSize s = .framed payload rest ↔
    4 + value (s.take 4) ≤ s.length ∧ value (s.take 4) ≤ maxMessageSize ∧
      payload = (s.drop 4).take (value (s.take 4)) ∧ rest = s.drop (4 + value (s.take 4)) := by
  rw [verdict]
  split_ifs with h₁ h₂ h₃
  · exact iff_of_false (by simp) (fun h => by omega)
  · exact iff_of_false (by simp) (fun h => by omega)
  · exact iff_of_false (by simp) (fun h => by omega)
  · rw [Verdict.framed.injEq]
    constructor
    · rintro ⟨rfl, rfl⟩
      exact ⟨by omega, by omega, rfl, rfl⟩
    · rintro ⟨-, -, rfl, rfl⟩
      exact ⟨rfl, rfl⟩

theorem verdict_eq_refused_iff :
    verdict maxMessageSize s = .refused ↔ 4 ≤ s.length ∧ maxMessageSize < value (s.take 4) := by
  rw [verdict]
  split_ifs with h₁ h₂ h₃
  · exact iff_of_false (by simp) (fun h => by omega)
  · exact iff_of_true rfl ⟨by omega, h₂⟩
  · exact iff_of_false (by simp) (fun h => by omega)
  · exact iff_of_false (by simp) (fun h => by omega)

variable (maxMessageSize)

/-- The length field decides, and it is there before the rest of the message. -/
def framer : Framer Byte Bytes where
  look := verdict maxMessageSize
  look_nil := rfl
  shorter := by
    intro s payload rest h
    obtain ⟨hlen, -, -, rfl⟩ := verdict_eq_framed_iff.mp h
    rw [List.length_drop]
    omega
  framed_append := by
    intro s payload rest h t
    obtain ⟨hlen, hmax, rfl, rfl⟩ := verdict_eq_framed_iff.mp h
    have hhead : (s ++ t).take 4 = s.take 4 := List.take_append_of_le_length (by omega)
    rw [verdict_eq_framed_iff, hhead]
    refine ⟨by rw [List.length_append]; omega, hmax, ?_, ?_⟩
    · rw [List.drop_append_of_le_length (by omega),
        List.take_append_of_le_length (by rw [List.length_drop]; omega)]
    · rw [List.drop_append_of_le_length hlen]
  refused_append := by
    intro s h t
    obtain ⟨hlen, hmax⟩ := verdict_eq_refused_iff.mp h
    have hhead : (s ++ t).take 4 = s.take 4 := List.take_append_of_le_length hlen
    rw [verdict_eq_refused_iff, hhead]
    exact ⟨by rw [List.length_append]; omega, hmax⟩

theorem tryExtractFrame_eq (s : Bytes) :
    tryExtractFrame maxMessageSize s = match (framer maxMessageSize).look s with
      | .framed payload rest => (some payload, rest)
      | .refused => (none, [])
      | .incomplete => (none, s) := by
  have hlook : (framer maxMessageSize).look s = verdict maxMessageSize s := rfl
  rw [hlook, tryExtractFrame, verdict]
  by_cases h₁ : s.length < 4
  · rw [if_pos h₁, if_pos h₁]
  · have hread : readUint32 s 0 = some (value (s.take 4), 4) := by
      have h := readWord_append 4 [] s
      rw [if_pos (by omega)] at h
      exact h
    rw [if_neg h₁, if_neg h₁, hread]
    simp only
    split_ifs with h₂ h₃
    · rfl
    · rfl
    · rfl

variable {maxMessageSize}

theorem createFrame_eq (hmax : maxMessageSize < 2 ^ 32) (h : payload.length ≤ maxMessageSize) :
    createFrame maxMessageSize payload = encode 4 payload.length ++ payload := by
  rw [createFrame, if_neg (by omega), appendUint32, appendWord_eq, List.nil_append,
    Nat.mod_eq_of_lt (by omega)]

theorem createFrame_ne_nil_iff :
    createFrame maxMessageSize payload ≠ [] ↔ payload.length ≤ maxMessageSize := by
  rw [createFrame, appendUint32, appendWord_eq]
  split_ifs with h
  · simp [h]
  · refine iff_of_true ?_ (by omega)
    intro hnil
    have hlen := congrArg List.length hnil
    simp at hlen

theorem look_createFrame (hmax : maxMessageSize < 2 ^ 32) (h : payload.length ≤ maxMessageSize)
    (rest : Bytes) :
    (framer maxMessageSize).look (createFrame maxMessageSize payload ++ rest) =
      .framed payload rest := by
  have hvalue : value (encode 4 payload.length) = payload.length :=
    value_encode_of_lt (by norm_num; omega)
  have hframe : createFrame maxMessageSize payload ++ rest =
      encode 4 payload.length ++ (payload ++ rest) := by
    rw [createFrame_eq hmax h, List.append_assoc]
  refine verdict_eq_framed_iff.mpr ?_
  rw [hframe, List.take_left' (length_encode 4 _), hvalue, List.drop_left' (length_encode 4 _)]
  refine ⟨?_, h, List.take_left.symm, ?_⟩
  · simp only [List.length_append, length_encode]
    omega
  · rw [← List.drop_drop, List.drop_left' (length_encode 4 _), List.drop_left]

theorem look_torn (hmax : maxMessageSize < 2 ^ 32) (h : payload.length ≤ maxMessageSize)
    {torn : Bytes} (hpre : torn <+: createFrame maxMessageSize payload)
    (hlt : torn.length < (createFrame maxMessageSize payload).length) :
    (framer maxMessageSize).look torn = .incomplete := by
  have hlook : (framer maxMessageSize).look torn = verdict maxMessageSize torn := rfl
  rw [createFrame_eq hmax h] at hpre hlt
  rw [List.length_append, length_encode] at hlt
  rw [hlook, verdict]
  split_ifs with h₁ h₂ h₃
  · rfl
  all_goals
    have hhead : torn.take 4 = encode 4 payload.length := by
      obtain ⟨more, hmore⟩ := hpre
      have htake : (torn ++ more).take 4 = torn.take 4 := List.take_append_of_le_length (by omega)
      rw [← htake, hmore, List.take_left' (length_encode 4 _)]
    have hvalue : value (torn.take 4) = payload.length := by
      rw [hhead, value_encode_of_lt (by norm_num; omega)]
  · omega
  · rfl
  · omega

variable (maxMessageSize)

/-- The frames of some payloads, one after the other. -/
def framed (payloads : List Bytes) : Bytes := (payloads.map (createFrame maxMessageSize)).flatten

@[simp] theorem framed_nil : framed maxMessageSize [] = [] := rfl

theorem framed_cons (payload : Bytes) (payloads : List Bytes) :
    framed maxMessageSize (payload :: payloads) =
      createFrame maxMessageSize payload ++ framed maxMessageSize payloads := rfl

theorem framed_append (payloads more : List Bytes) :
    framed maxMessageSize (payloads ++ more) =
      framed maxMessageSize payloads ++ framed maxMessageSize more := by
  rw [framed, List.map_append, List.flatten_append]
  rfl

/-- The payloads whose frames lie wholly within the first `n` bytes. -/
def completeWithin : ℕ → List Bytes → List Bytes
  | _, [] => []
  | n, payload :: payloads =>
    if (createFrame maxMessageSize payload).length ≤ n then
      payload :: completeWithin (n - (createFrame maxMessageSize payload).length) payloads
    else []

variable {maxMessageSize}

theorem completeWithin_initial (n : ℕ) (payloads : List Bytes) :
    completeWithin maxMessageSize n payloads <+: payloads := by
  induction payloads generalizing n with
  | nil => exact List.prefix_refl _
  | cons payload payloads ih =>
    rw [completeWithin]
    split
    · exact (List.prefix_cons_inj _).mpr (ih _)
    · exact List.nil_prefix

theorem pull_framed_append (hmax : maxMessageSize < 2 ^ 32) {payloads : List Bytes}
    (hp : ∀ p ∈ payloads, p.length ≤ maxMessageSize) (t : Bytes) :
    (framer maxMessageSize).pull (framed maxMessageSize payloads ++ t) =
      (payloads ++ ((framer maxMessageSize).pull t).1, ((framer maxMessageSize).pull t).2) := by
  induction payloads with
  | nil => rfl
  | cons payload payloads ih =>
    have hlook := look_createFrame hmax (hp payload List.mem_cons_self)
      (framed maxMessageSize payloads ++ t)
    rw [← List.append_assoc] at hlook
    rw [framed_cons, Framer.pull_of_framed hlook,
      ih (fun p hmem => hp p (List.mem_cons_of_mem _ hmem))]
    rfl

/-- Every buffer is the frames found in front of it and the rest. -/
theorem framed_append_pull (hmax : maxMessageSize < 2 ^ 32) (s : Bytes) :
    (∀ p ∈ ((framer maxMessageSize).pull s).1, p.length ≤ maxMessageSize) ∧
      framed maxMessageSize ((framer maxMessageSize).pull s).1 ++ ((framer maxMessageSize).pull s).2 =
        s := by
  induction s using Framer.pull_induction (F := framer maxMessageSize) with
  | stop s hready =>
    rw [Framer.pull_of_not_ready hready]
    exact ⟨by simp, rfl⟩
  | next s payload rest hlook ih =>
    obtain ⟨hall, hrest⟩ := ih
    obtain ⟨hlen, hle, hpayload, hafter⟩ := verdict_eq_framed_iff.mp hlook
    have hsize : payload.length = value (s.take 4) := by
      rw [hpayload, List.length_take, List.length_drop]
      omega
    have hframe : createFrame maxMessageSize payload ++ rest = s := by
      have hhead : encode 4 (value (s.take 4)) = s.take 4 := by
        have h4 : (s.take 4).length = 4 := by
          rw [List.length_take]
          omega
        have hencode := encode_value (s.take 4)
        rwa [h4] at hencode
      rw [createFrame_eq hmax (hsize ▸ hle), hsize, hhead, hpayload, hafter, List.append_assoc,
        ← List.drop_drop, List.take_append_drop, List.take_append_drop]
    rw [Framer.pull_of_framed hlook]
    constructor
    · exact List.forall_mem_cons.mpr ⟨hsize ▸ hle, hall⟩
    · rw [framed_cons, List.append_assoc]
      exact (congrArg _ hrest).trans hframe

/-- However much of the frames has arrived, the receiver finds the complete ones and then
waits. -/
theorem pull_arrived (hmax : maxMessageSize < 2 ^ 32) {payloads : List Bytes}
    (hp : ∀ p ∈ payloads, p.length ≤ maxMessageSize) {received : Bytes}
    (h : received <+: framed maxMessageSize payloads) :
    ((framer maxMessageSize).pull received).1 =
        completeWithin maxMessageSize received.length payloads ∧
      (framer maxMessageSize).look ((framer maxMessageSize).pull received).2 = .incomplete := by
  induction payloads generalizing received with
  | nil =>
    obtain rfl := List.prefix_nil.mp h
    exact ⟨rfl, rfl⟩
  | cons payload payloads ih =>
    have hfirst := hp payload List.mem_cons_self
    rw [framed_cons] at h
    rw [completeWithin]
    by_cases hlen : (createFrame maxMessageSize payload).length ≤ received.length
    · obtain ⟨rest, rfl⟩ := List.prefix_of_prefix_length_le (List.prefix_append _ _) h hlen
      have hrest : rest <+: framed maxMessageSize payloads := (List.prefix_append_right_inj _).mp h
      obtain ⟨hfound, hstand⟩ := ih (fun p hmem => hp p (List.mem_cons_of_mem _ hmem)) hrest
      rw [Framer.pull_of_framed (look_createFrame hmax hfirst rest), if_pos hlen, hfound,
        List.length_append, Nat.add_sub_cancel_left]
      exact ⟨rfl, hstand⟩
    · have htorn : (framer maxMessageSize).look received = .incomplete :=
        look_torn hmax hfirst
          (List.prefix_of_prefix_length_le h (List.prefix_append _ _) (by omega)) (by omega)
      have hnot : ¬ (framer maxMessageSize).Ready received := by
        rintro ⟨p, rest, hlook⟩
        rw [htorn] at hlook
        cases hlook
      rw [Framer.pull_of_not_ready hnot, if_neg hlen]
      exact ⟨rfl, htorn⟩

end ForgeDB.Protocol
