import NonceSearch.Device.Node
import NonceSearch.Proofs.WordStores
import NonceSearch.Session.Run

/-!
# Records read from a node

A node hands out a stream of bytes, and a session takes it apart into records of eight. A read asks for one
record and gets less only from the end of the stream, so the records stay in step: each try gives the next
message, a rest that is no whole record is refused once, and then there is nothing to read
(`Session.stream_is_read_in_records`).
-/

namespace NonceSearch

/-! ### Messages and their bytes -/

theorem wordBytes_wordOf (b₀ b₁ b₂ b₃ : UInt8) : wordBytes (wordOf b₀ b₁ b₂ b₃) = [b₀, b₁, b₂, b₃] := by
  obtain ⟨h₀, h₁, h₂, h₃⟩ := wordByte_wordOf b₀ b₁ b₂ b₃
  rw [wordBytes, h₀, h₁, h₂, h₃]

namespace CompletionMessage

theorem length_toBytes (message : CompletionMessage) : message.toBytes.length = size := rfl

/-- Whatever comes behind a message, it is the one that is read. -/
theorem decode_toBytes_append (message : CompletionMessage) (rest : List UInt8) :
    decode (message.toBytes ++ rest) = .ok message := by
  change Except.ok (CompletionMessage.mk (wordOf _ _ _ _) (wordOf _ _ _ _)) = _
  rw [wordOf_wordByte, wordOf_wordByte]

theorem decode_of_short {bytes : List UInt8} (h : bytes.length < size) :
    decode bytes = .error (.shortRead bytes.length size) := by
  unfold decode
  split
  · simp only [List.length_cons, size] at h
    omega
  · rfl

/-- Eight bytes are always those of a message. -/
theorem exists_toBytes_append {bytes : List UInt8} (h : size ≤ bytes.length) :
    ∃ message : CompletionMessage, message.toBytes ++ bytes.drop size = bytes := by
  match bytes, h with
  | b₀ :: b₁ :: b₂ :: b₃ :: b₄ :: b₅ :: b₆ :: b₇ :: rest, _ =>
    refine ⟨⟨wordOf b₀ b₁ b₂ b₃, wordOf b₄ b₅ b₆ b₇⟩, ?_⟩
    rw [toBytes, wordBytes_wordOf, wordBytes_wordOf]
    rfl

/-- So a string is made up of the messages in its whole records and of a rest. -/
theorem exists_flatMap_toBytes_append (count : Nat) {bytes : List UInt8}
    (h : size * count ≤ bytes.length) :
    ∃ messages : List CompletionMessage, messages.length = count ∧
      messages.flatMap toBytes ++ bytes.drop (size * count) = bytes := by
  induction count generalizing bytes with
  | zero => exact ⟨[], rfl, rfl⟩
  | succ count ih =>
    rw [Nat.mul_succ] at h
    obtain ⟨message, hmessage⟩ := exists_toBytes_append (Nat.le_trans (Nat.le_add_left _ _) h)
    have hlater : size * count ≤ (bytes.drop size).length := by
      rw [List.length_drop]
      omega
    obtain ⟨messages, hcount, hmessages⟩ := ih hlater
    refine ⟨message :: messages, by rw [List.length_cons, hcount], ?_⟩
    rw [List.drop_drop, Nat.add_comm, ← Nat.mul_succ] at hmessages
    rw [List.flatMap_cons, List.append_assoc, hmessages, hmessage]

/-- The message of a record, wherever it stands in a stream. -/
theorem decode_record {messages : List CompletionMessage} {rest : List UInt8} {k : Nat}
    (hk : k < messages.length) :
    decode (((messages.flatMap toBytes ++ rest).drop (size * k)).take size) = .ok messages[k] := by
  induction messages generalizing k with
  | nil => exact absurd hk (Nat.not_lt_zero k)
  | cons message messages ih =>
    rw [List.flatMap_cons, List.append_assoc]
    cases k with
    | zero =>
      have hfirst := decode_toBytes_append message []
      rw [List.append_nil] at hfirst
      rw [Nat.mul_zero, List.drop_zero, List.take_left' message.length_toBytes]
      exact hfirst
    | succ k =>
      rw [Nat.mul_succ, Nat.add_comm, ← List.drop_drop, List.drop_left' message.length_toBytes]
      exact ih (Nat.lt_of_succ_lt_succ hk)

end CompletionMessage

/-! ### One read -/

open CompletionMessage (size toBytes decode)

namespace NodeStream

/-- A read of one record takes it from the front, or what there is. -/
theorem tryRead_size (s : NodeStream) : s.tryRead size =
    (if s.waiting.isEmpty then .error .wouldBlock else .ok (s.waiting.take size),
      { s with waiting := s.waiting.drop size }) := by
  obtain ⟨found, waiting, told⟩ := s
  unfold tryRead
  rw [if_neg (by decide : ¬ size = 0)]
  cases waiting with
  | nil => rfl
  | cons byte waiting => rfl

theorem waiting_pass (path : Path) (layout : RegisterLayout) (opening deadline now : Nat)
    (s : NodeStream) : ((device path layout opening).pass deadline now s).waiting = s.waiting := by
  fun_induction Device.pass (device path layout opening) deadline now s with
  | case1 now s hearly later ih =>
    rw [ih]
    change s.report.waiting = s.waiting
    unfold report
    split
    · rfl
    · rfl
  | case2 now s hlate => rfl

end NodeStream

namespace Session

/-- A session is on a node in which these bytes wait. -/
structure Streams (bytes : List UInt8) (session : Session NodeStream) : Prop where
  node : ∃ path layout opening, session.device = NodeStream.device path layout opening
  waiting : session.port.waiting = bytes

variable {session : Session NodeStream} {bytes rest : List UInt8} {message : CompletionMessage}

theorem Streams.sleep (h : session.Streams bytes) (pause : Nat) :
    (session.sleep pause).Streams bytes := by
  obtain ⟨path, layout, opening, hdevice⟩ := h.node
  refine ⟨h.node, ?_⟩
  change (session.device.pass _ _ _).waiting = bytes
  rw [hdevice, NodeStream.waiting_pass, h.waiting]

/-- One try takes one record from the front of the stream. -/
theorem Streams.tryCompletion (h : session.Streams bytes) :
    session.tryCompletion.1 = completionOf
      (if bytes.isEmpty then .error .wouldBlock else .ok (bytes.take size)) ∧
    session.tryCompletion.2.Streams (bytes.drop size) := by
  obtain ⟨path, layout, opening, hdevice⟩ := h.node
  have hread : session.device.tryRead session.now size session.port =
      session.port.tryRead size := by
    rw [hdevice]
    rfl
  rw [Session.tryCompletion, tryRead, hread, NodeStream.tryRead_size, h.waiting]
  exact ⟨rfl, h.node, rfl⟩

theorem Streams.try_message (h : session.Streams (message.toBytes ++ rest)) :
    session.tryCompletion.1 = .ok (some message) ∧ session.tryCompletion.2.Streams rest := by
  obtain ⟨hresult, hnext⟩ := h.tryCompletion
  rw [List.drop_left' message.length_toBytes] at hnext
  refine ⟨hresult.trans ?_, hnext⟩
  have hdecoded := message.decode_toBytes_append []
  rw [List.append_nil] at hdecoded
  rw [List.take_left' message.length_toBytes]
  change (decode message.toBytes).map some = _
  rw [hdecoded]
  rfl

/-- What is too short for a record is refused, and gone. -/
theorem Streams.try_rest (h : session.Streams rest) (hrest : rest ≠ []) (hshort : rest.length < size) :
    session.tryCompletion.1 = .error (.shortRead rest.length size) ∧
      session.tryCompletion.2.Streams [] := by
  obtain ⟨hresult, hnext⟩ := h.tryCompletion
  rw [List.drop_of_length_le (Nat.le_of_lt hshort)] at hnext
  refine ⟨hresult.trans ?_, hnext⟩
  rw [List.take_of_length_le (Nat.le_of_lt hshort), if_neg (by simpa using hrest)]
  change (decode rest).map some = _
  rw [CompletionMessage.decode_of_short hshort]
  rfl

/-! ### Trying again and again -/

/-- Try to take a message again and again, each time after a pause. -/
def tries {δ : Type} : (pauses : List Nat) → Session δ →
    List (Except DeviceError (Option CompletionMessage)) × Session δ
  | [], session => ([], session)
  | pause :: pauses, session =>
    let (result, session) := (session.sleep pause).tryCompletion
    let (results, session) := tries pauses session
    (result :: results, session)

theorem tries_cons {δ : Type} (pause : Nat) (pauses : List Nat) (session : Session δ) :
    (session.tries (pause :: pauses)).1 = (session.sleep pause).tryCompletion.1 ::
      ((session.sleep pause).tryCompletion.2.tries pauses).1 := rfl

/-- What try number `k` comes to: a message for each whole record, a failure for the rest if there is one,
    and then nothing. -/
def answer (messages : List CompletionMessage) (rest : List UInt8) (k : Nat) :
    Except DeviceError (Option CompletionMessage) :=
  match messages[k]? with
  | some message => .ok (some message)
  | none =>
    if k = messages.length ∧ rest ≠ [] then .error (.shortRead rest.length size) else .ok none

theorem Streams.tries_nothing (h : session.Streams []) (pauses : List Nat) :
    (session.tries pauses).1 = List.replicate pauses.length (.ok none) := by
  induction pauses generalizing session with
  | nil => rfl
  | cons pause pauses ih =>
    obtain ⟨hresult, hnext⟩ := (h.sleep pause).tryCompletion
    rw [tries_cons, hresult, ih hnext, List.length_cons, List.replicate_succ]
    rfl

theorem Streams.tries_rest (h : session.Streams rest) (hshort : rest.length < size)
    (pauses : List Nat) :
    (session.tries pauses).1 = (List.range pauses.length).map (answer [] rest) := by
  cases pauses with
  | nil => rfl
  | cons pause pauses =>
    have hlater : (List.range pauses.length).map (answer [] rest ∘ Nat.succ) =
        List.replicate pauses.length (.ok none) := by
      rw [List.eq_replicate_iff]
      simp [answer]
    rw [tries_cons, List.length_cons, List.range_succ_eq_map, List.map_cons, List.map_map, hlater]
    by_cases hrest : rest = []
    · subst hrest
      obtain ⟨hresult, hnext⟩ := (h.sleep pause).tryCompletion
      rw [hresult, hnext.tries_nothing]
      rfl
    · obtain ⟨hresult, hnext⟩ := (h.sleep pause).try_rest hrest hshort
      rw [hresult, hnext.tries_nothing]
      simp [answer, hrest]

/-- The messages come one by one, and then the rest. -/
theorem Streams.tries {messages : List CompletionMessage}
    (h : session.Streams (messages.flatMap toBytes ++ rest)) (hshort : rest.length < size)
    (pauses : List Nat) :
    (session.tries pauses).1 = (List.range pauses.length).map (answer messages rest) := by
  induction messages generalizing session pauses with
  | nil => exact h.tries_rest hshort pauses
  | cons message messages ih =>
    cases pauses with
    | nil => rfl
    | cons pause pauses =>
      rw [List.flatMap_cons, List.append_assoc] at h
      obtain ⟨hresult, hnext⟩ := (h.sleep pause).try_message
      rw [tries_cons, hresult, ih hnext, List.length_cons, List.range_succ_eq_map, List.map_cons,
        List.map_map]
      congr 1
      apply List.map_congr_left
      intro k _
      simp [answer]

/-- Where no bytes are left over, there is an answer for each message and then nothing. -/
theorem map_answer {messages : List CompletionMessage} {count : Nat} (h : messages.length ≤ count) :
    (List.range count).map (answer messages []) =
      messages.map (fun message => .ok (some message)) ++
        List.replicate (count - messages.length) (.ok none) := by
  apply List.ext_getElem
  · simp only [List.length_map, List.length_range, List.length_append, List.length_replicate]
    omega
  · intro k hk hk'
    rw [List.getElem_map, List.getElem_range, List.getElem_append]
    simp only [List.length_map]
    split
    · next hmessage => simp [answer, hmessage]
    · next hlate => simp [answer, hlate]

/-- A session on a node reads what waits there in whole records. Every string is made up of the messages
    in its successive eight bytes and of less than eight bytes that are left over. Whenever somebody
    tries, these messages come one after another, each once; what is left over is refused as a short read,
    once; and after that there is nothing to read. So the bytes of any messages are read as these
    messages. -/
theorem stream_is_read_in_records {session : Session NodeStream} {path : Path}
    {layout : RegisterLayout} {opening : Nat}
    (hdevice : session.device = NodeStream.device path layout opening) :
    (∃ (messages : List CompletionMessage) (rest : List UInt8),
      session.port.waiting = messages.flatMap toBytes ++ rest ∧ rest.length < size ∧
      ∀ k (hk : k < messages.length),
        decode ((session.port.waiting.drop (size * k)).take size) = .ok messages[k]) ∧
    (∀ (messages : List CompletionMessage) (rest : List UInt8) (pauses : List Nat),
      session.port.waiting = messages.flatMap toBytes ++ rest → rest.length < size →
      (session.tries pauses).1 = (List.range pauses.length).map (answer messages rest)) ∧
    ∀ (messages : List CompletionMessage) (pauses : List Nat),
      session.port.waiting = messages.flatMap toBytes → messages.length ≤ pauses.length →
      (session.tries pauses).1 = messages.map (fun message => .ok (some message)) ++
        List.replicate (pauses.length - messages.length) (.ok none) := by
  have hstreams : session.Streams session.port.waiting := ⟨⟨path, layout, opening, hdevice⟩, rfl⟩
  refine ⟨?_, ?_, ?_⟩
  · obtain ⟨messages, hcount, hbytes⟩ :=
      CompletionMessage.exists_flatMap_toBytes_append (session.port.waiting.length / size)
        (Nat.mul_div_le session.port.waiting.length size)
    refine ⟨messages, _, hbytes.symm, ?_, ?_⟩
    · rw [List.length_drop, ← Nat.mod_eq_sub_mul_div]
      exact Nat.mod_lt _ (by decide)
    · intro k hk
      rw [← hbytes]
      exact CompletionMessage.decode_record hk
  · intro messages rest pauses hbytes hshort
    rw [hbytes] at hstreams
    exact hstreams.tries hshort pauses
  · intro messages pauses hbytes hle
    rw [hbytes, ← List.append_nil (messages.flatMap toBytes)] at hstreams
    rw [hstreams.tries (by decide), map_answer hle]

def onPipe (bytes : List UInt8) : Session NodeStream where
  device := NodeStream.device (.ofText "records") .mask 0
  port := (NodeStream.forget 0 { found := .ok .pipe }).write bytes

/-- The last of three records is cut off after three bytes, and refused once. Without it, there is nothing
    to read after the second. -/
theorem cut_record_is_refused_once :
    let found : CompletionMessage := ⟨0x10, 77⟩
    let exhausted : CompletionMessage := ⟨0x20, 0⟩
    let bytes := [found, exhausted].flatMap toBytes
    (acquire (NodeStream.device (.ofText "records") .mask 0) { found := .ok .pipe }).1 =
      .ok (onPipe []) ∧
    ((onPipe (bytes ++ [0x10, 0, 0])).tries [0, 5, 0, 0, 1]).1 =
      [.ok (some found), .ok (some exhausted), .error (.shortRead 3 8), .ok none, .ok none] ∧
    ((onPipe bytes).tries [0, 5, 0]).1 = [.ok (some found), .ok (some exhausted), .ok none] := by
  intro found exhausted bytes
  obtain ⟨-, hcut, -⟩ := @stream_is_read_in_records (onPipe (bytes ++ [0x10, 0, 0])) _ _ _ rfl
  obtain ⟨-, -, hwhole⟩ := @stream_is_read_in_records (onPipe bytes) _ _ _ rfl
  refine ⟨rfl, ?_, hwhole [found, exhausted] [0, 5, 0] rfl (by decide)⟩
  exact (hcut [found, exhausted] [0x10, 0, 0] [0, 5, 0, 0, 1] rfl (by decide)).trans rfl

end Session

end NonceSearch
