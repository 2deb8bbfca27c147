import Nukv.Base.Framing
import Nukv.Model.Messages
import Nukv.Property.Responses

/-!
# Frames and reads

`HandleMessage` and `OnMessage` are two loops around one way of cutting a buffer into frames. Each hands over the frames
of its buffer in order and stops in front of an incomplete one, or in front of a header that announces too much. The
next read only adds bytes behind the rest, so however a stream is cut into reads, the frames are the same. A header that
is too large stays where it is and stops every later read too.
-/

namespace Nukv

open Base Proto ClientServer

/-! ### One frame -/

theorem readUint32_append (buffer more : Bytes) (h : 4 ≤ buffer.length) :
    readUint32 (buffer ++ more) = readUint32 buffer := by
  rw [readUint32, readUint32, List.take_append_of_le_length h]

/-- How both loops take a frame from the buffer. -/
def frames : Splitter UInt8 Bytes := .lengthPrefixed 4 readUint32 (by decide) readUint32_append kMaxFrameSize

/-- A frame of which the header or some of the payload is missing. -/
def Incomplete (rest : Bytes) : Prop :=
  rest.length < 4 ∨ readUint32 rest ≤ kMaxFrameSize ∧ rest.length < 4 + readUint32 rest

/-- A header that announces too much. -/
def Oversize (rest : Bytes) : Prop := 4 ≤ rest.length ∧ kMaxFrameSize < readUint32 rest

instance (rest : Bytes) : Decidable (Oversize rest) := inferInstanceAs (Decidable (_ ∧ _))

theorem frames_next_eq_none {rest : Bytes} : frames.next rest = none ↔ Incomplete rest ∨ Oversize rest := by
  have hnext : frames.next rest = none ↔
      rest.length < 4 ∨ kMaxFrameSize < readUint32 rest ∨ rest.length < 4 + readUint32 rest := by
    change (if _ then _ else _) = _ ↔ _
    rw [ite_eq_left_iff]
    simp only [reduceCtorEq, imp_false, not_not]
  rw [hnext]
  unfold Incomplete Oversize
  omega

theorem frames_next_eq_some {buffer payload rest : Bytes} (h : frames.next buffer = some (payload, rest)) :
    4 ≤ buffer.length ∧ readUint32 buffer ≤ kMaxFrameSize ∧ 4 + readUint32 buffer ≤ buffer.length ∧
      payload = (buffer.drop 4).take (readUint32 buffer) ∧ rest = buffer.drop (4 + readUint32 buffer) := by
  change (if _ then _ else _) = _ at h
  split at h
  · cases h
  · next hcomplete =>
    obtain ⟨rfl, rfl⟩ := Prod.mk.inj (Option.some.inj h)
    exact ⟨by omega, by omega, by omega, rfl, rfl⟩

theorem not_oversize_of_next {buffer payload rest : Bytes} (h : frames.next buffer = some (payload, rest)) :
    ¬ Oversize buffer := fun hover => by
  have := frames_next_eq_some h
  have := hover.2
  omega

/-- A header that announces too much is not made better by what follows it. -/
theorem Oversize.append {rest : Bytes} (h : Oversize rest) (more : Bytes) : Oversize (rest ++ more) := by
  refine ⟨by rw [List.length_append]; have := h.1; omega, ?_⟩
  rw [readUint32_append rest more h.1]
  exact h.2

theorem Oversize.splits {rest : Bytes} (h : Oversize rest) {payloads : List Bytes} {last : Bytes}
    (hsplits : frames.Splits rest payloads last) : payloads = [] ∧ last = rest := by
  obtain ⟨rfl, rfl⟩ := hsplits.unique (.stop (frames_next_eq_none.mpr (.inr h)))
  exact ⟨rfl, rfl⟩

/-- The bytes of a frame. -/
def framed (payload : Bytes) : Bytes := writeUint32 payload.length ++ payload

theorem frames_next_framed {payload : Bytes} (h : payload.length ≤ kMaxFrameSize) (more : Bytes) :
    frames.next (framed payload ++ more) = some (payload, more) := by
  have hread : readUint32 (framed payload ++ more) = payload.length := by
    rw [framed, List.append_assoc]
    exact readUint32_writeUint32 (by unfold kMaxFrameSize at h; omega) _
  have hlength : (framed payload ++ more).length = 4 + payload.length + more.length := by
    simp [framed, Nat.add_assoc]
  have hpayload : ((framed payload ++ more).drop 4).take payload.length = payload := by
    simp [framed, writeUint32]
  have hrest : (framed payload ++ more).drop (4 + payload.length) = more := by
    rw [← length_writeUint32 payload.length, ← List.length_append]
    exact List.drop_left
  change (if _ then _ else _) = _
  rw [hread, if_neg (by omega), hpayload, hrest]

section Node

variable [Protobuf] {hand : Bytes → NodeM Unit} {connection : Conn} {buffer rest : Bytes} {payloads : List Bytes}

end Node

/-! ### The loop of the client server -/

/-- What `OnMessage` does with a payload. -/
def handed (payload : Bytes) : List ClientEvent := (onPayload payload []).2.2

/-- The answer to a header that announces too much. -/
def refusal : List ClientEvent :=
  [.send (framed (makeError 0 .invalidRequest "request frame is too large").serialize), .shutdown]

theorem sendResponse_makeError (requestId : UInt64) (status : ResponseStatus) {message : String}
    (h : (ascii message).length < 128) (buffer : Bytes) : sendResponse (makeError requestId status message) buffer =
      (.ok (), buffer, [.send (framed (makeError requestId status message).serialize)]) := by
  rw [sendResponse, frame, if_neg (not_lt.mpr (length_makeError requestId status h))]
  rfl

theorem onPayload_run (payload buffer : Bytes) : onPayload payload buffer = (.ok (), buffer, handed payload) := by
  have hsay : ∀ (requestId : UInt64) (message : String), (ascii message).length < 128 → ∀ buffer,
      sendResponse (makeError requestId .invalidRequest message) buffer =
        (.ok (), buffer, (sendResponse (makeError requestId .invalidRequest message) []).2.2) := by
    intro requestId message h buffer
    rw [sendResponse_makeError _ _ h, sendResponse_makeError _ _ h]
  rw [handed, onPayload]
  cases ClientRequest.parse payload with
  | none => exact hsay 0 _ (by decide) buffer
  | some request =>
    dsimp only
    split_ifs
    · exact hsay _ _ (by decide) buffer
    · exact hsay _ _ (by decide) buffer
    · rfl

/-- What is said to a client about the rest. -/
def refusing (rest : Bytes) : List ClientEvent := if Oversize rest then refusal else []

theorem onMessageLoop_splits {buffer rest : Bytes} {payloads : List Bytes} (h : frames.Splits buffer payloads rest) :
    ∀ fuel, buffer.length ≤ fuel →
      onMessageLoop fuel buffer = (.ok (), rest, payloads.flatMap handed ++ refusing rest) := by
  induction h with
  | @stop buffer hnext =>
    intro fuel hfuel
    cases fuel with
    | zero =>
      obtain rfl : buffer = [] := List.length_eq_zero_iff.mp (Nat.le_zero.mp hfuel)
      rfl
    | succ fuel =>
      rw [onMessageLoop, Prog.get_bind, refusing]
      rcases frames_next_eq_none.mp hnext with hincomplete | hover
      · have hnot : ¬ Oversize buffer := fun hover => by
          unfold Incomplete Oversize at *
          omega
        rw [if_neg hnot]
        unfold Incomplete at hincomplete
        by_cases hshort : buffer.length < 4
        · rw [if_pos hshort]
          rfl
        · rw [if_neg hshort, if_neg (by omega), if_pos (by omega)]
          rfl
      · rw [if_pos hover, if_neg (not_lt.mpr hover.1), if_pos hover.2]
        exact Prog.andThen_ok (sendResponse_makeError _ _ (by decide) _)
  | @take buffer rest last payload payloads hnext _ ih =>
    intro fuel hfuel
    obtain ⟨hheader, hlimit, hbody, rfl, rfl⟩ := frames_next_eq_some hnext
    obtain ⟨fuel, rfl⟩ : ∃ k, fuel = k + 1 := Nat.exists_eq_succ_of_ne_zero (by omega)
    rw [onMessageLoop, Prog.get_bind, if_neg (not_lt.mpr hheader), if_neg (not_lt.mpr hlimit),
      if_neg (not_lt.mpr hbody), Prog.modify_bind]
    refine (Prog.andThen_ok (onPayload_run _ _)).trans ?_
    rw [ih fuel (by rw [List.length_drop]; omega), List.flatMap_cons, List.append_assoc]

theorem onMessage_splits {buffer rest : Bytes} {payloads : List Bytes} (h : frames.Splits buffer payloads rest) :
    onMessage buffer = (.ok (), rest, payloads.flatMap handed ++ refusing rest) := by
  rw [onMessage, Prog.get_bind]
  exact onMessageLoop_splits h _ le_rfl

/-- A client is told once a read that its header announces too much. -/
theorem clientReceive_splits : ∀ {reads : List Bytes} {buffer : Bytes} {payloads : List Bytes} {rest : Bytes},
    frames.next buffer = none → frames.Splits (buffer ++ reads.flatten) payloads rest →
    ∃ k, receive reads buffer = (.ok (), rest, payloads.flatMap handed ++ (List.replicate k refusal).flatten) ∧
      (Oversize rest ↔ 0 < k ∨ Oversize buffer) := by
  intro reads
  induction reads with
  | nil =>
    intro buffer payloads rest hnext hsplits
    rw [List.flatten_nil, List.append_nil] at hsplits
    obtain ⟨rfl, rfl⟩ := hsplits.unique (.stop hnext)
    exact ⟨0, rfl, by simp⟩
  | cons read reads ih =>
    intro buffer payloads rest hnext hsplits
    rw [List.flatten_cons, ← List.append_assoc] at hsplits
    obtain ⟨first, middle, hfirst⟩ := frames.exists_splits (buffer ++ read)
    obtain ⟨later, last, hlater⟩ := frames.exists_splits (middle ++ reads.flatten)
    obtain ⟨rfl, rfl⟩ := hsplits.unique (hfirst.append hlater)
    obtain ⟨k, hk, hover⟩ := ih hfirst.next_rest hlater
    have hread : (do Prog.modify fun buffer => buffer ++ read
                     onMessage : ClientM Unit) buffer =
        (.ok (), middle, first.flatMap handed ++ refusing middle) := by
      rw [Prog.modify_bind]
      exact onMessage_splits hfirst
    have hreceive : receive (read :: reads) buffer = (.ok (), rest,
        first.flatMap handed ++ refusing middle ++ (later.flatMap handed ++ (List.replicate k refusal).flatten)) := by
      refine (Prog.andThen_ok hread).trans ?_
      change ((receive reads middle).1, (receive reads middle).2.1, _ ++ (receive reads middle).2.2) = _
      rw [hk]
    rw [hreceive, List.flatMap_append]
    by_cases hmiddle : Oversize middle
    · obtain ⟨rfl, rfl⟩ := (hmiddle.append reads.flatten).splits hlater
      refine ⟨k + 1, ?_, ⟨fun _ => .inl (Nat.succ_pos k), fun _ => hmiddle.append reads.flatten⟩⟩
      rw [refusing, if_pos hmiddle, List.replicate_succ, List.flatten_cons]
      simp only [List.flatMap_nil, List.nil_append, List.append_nil, List.append_assoc]
    · have hbuffer : ¬ Oversize buffer := fun h => hmiddle (by
        obtain ⟨-, rfl⟩ := (h.append read).splits hfirst
        exact h.append read)
      refine ⟨k, ?_, ?_⟩
      · rw [refusing, if_neg hmiddle, List.append_nil, List.append_assoc]
      · rw [hover]
        simp [hmiddle, hbuffer]

/-! ### Reads -/

section Statement

variable [Protobuf]

end Statement

end Nukv
