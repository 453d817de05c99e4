import UpsServer.Protocol.RoundTrip

namespace UpsServer

/-- The sending side of a non-blocking socket: the bytes that the kernel has
accepted, and whether the connection has been given up. -/
structure OutgoingSocket where
  accepted : Str := []
  isGivenUp : Bool := false
deriving DecidableEq

/-- A call of `sendMsg`: the message, the order in which its fields are visited, and
the answer of the kernel to `send`, which is the number of bytes it accepts or
`none` for a failure. -/
structure SendCall where
  msg : ProtocolData
  fields : List (Str × Str)
  order : UnorderedMap.IsIterationOrder fields msg.data
  sentBytes : Option Nat

namespace OutgoingSocket

/-- The result of `send` is logged, and nothing else is made of it. -/
def sendData (socket : OutgoingSocket) (data : Str) (sentBytes : Option Nat) : OutgoingSocket :=
  { socket with accepted := socket.accepted ++ data.take (sentBytes.getD 0) }

/-- `~SocketBase`. -/
def close (socket : OutgoingSocket) : OutgoingSocket := { socket with isGivenUp := true }

def sendMsg (socket : OutgoingSocket) (call : SendCall) : Except Fault OutgoingSocket := do
  let data ← serializeProtocolData call.msg.method call.fields
  pure (socket.sendData data call.sentBytes)

/-- The stream consists of the whole texts, and is cut only where the connection is
given up. -/
def InWholeTexts (socket : OutgoingSocket) (texts : List Str) : Prop :=
  socket.accepted = texts.flatten ∨ socket.isGivenUp = true ∧ socket.accepted <+: texts.flatten

end OutgoingSocket

namespace SendCall

/-- The text of the message. -/
def text (call : SendCall) : Except Fault Str := serializeProtocolData call.msg.method call.fields

/-- The kernel accepts the whole message. -/
def IsAccepted (call : SendCall) : Prop :=
  ∀ text, call.text = .ok text → ∃ n, call.sentBytes = some n ∧ text.length ≤ n

private theorem exists_text (call : SendCall) : ∃ text, call.text = .ok text ∧ text ≠ [] := by
  obtain ⟨name, hname, _⟩ := serializeMethodName_ok call.msg.method
  refine ⟨_, BufferedParser.serializeProtocolData_eq hname call.fields, ?_⟩
  exact List.append_ne_nil_of_right_ne_nil _ END_SEQUENCE.nonempty

private theorem isAccepted_iff {call : SendCall} {text : Str} (h : call.text = .ok text) :
    call.IsAccepted ↔ text.length ≤ call.sentBytes.getD 0 := by
  obtain ⟨text', htext', hne⟩ := call.exists_text
  obtain rfl := Except.ok.inj (h.symm.trans htext')
  have hpos := List.length_pos_iff.mpr hne
  constructor
  · intro haccepted
    obtain ⟨n, hn, hle⟩ := haccepted text h
    rwa [hn]
  · intro hle text' htext
    obtain rfl := Except.ok.inj (h.symm.trans htext)
    cases hanswer : call.sentBytes with
    | none =>
      rw [hanswer] at hle
      exact absurd hle (Nat.not_le.mpr hpos)
    | some n =>
      rw [hanswer] at hle
      exact ⟨n, rfl, hle⟩

end SendCall

namespace OutgoingSocket

/-- What is accepted of a text and of what follows it is the whole of both only if
it is the whole of each. -/
theorem take_append_eq_iff {text rest sent : Str} (n : Nat) (hle : sent.length ≤ rest.length) :
    text.take n ++ sent = text ++ rest ↔ text.take n = text ∧ sent = rest := by
  constructor
  · intro heq
    have htake : (text.take n).length ≤ text.length := List.length_take_le' _ _
    have hlength := congrArg List.length heq
    rw [List.length_append, List.length_append] at hlength
    exact List.append_inj heq (by omega)
  · rintro ⟨htext, hrest⟩
    rw [htext, hrest]

private theorem sendMsg_of_text {call : SendCall} {text : Str} (h : call.text = .ok text)
    (socket : OutgoingSocket) : socket.sendMsg call = .ok (socket.sendData text call.sentBytes) := by
  rw [sendMsg, ← SendCall.text, h]
  rfl

/-- What a sequence of calls makes of a socket. -/
theorem foldlM_sendMsg (socket : OutgoingSocket) (calls : List SendCall) :
    ∃ texts : List Str, calls.mapM SendCall.text = .ok texts ∧ ∃ sent : Str,
      calls.foldlM sendMsg socket = .ok { socket with accepted := socket.accepted ++ sent } ∧
        sent.length ≤ texts.flatten.length ∧
        (sent = texts.flatten ↔ ∀ call ∈ calls, call.IsAccepted) ∧
        ((∀ call ∈ calls.dropLast, call.IsAccepted) → sent <+: texts.flatten) := by
  induction calls generalizing socket with
  | nil =>
    exact ⟨[], rfl, [], by simp [pure, Except.pure], Nat.le_refl _, by simp,
      fun _ => List.prefix_refl _⟩
  | cons call calls ih =>
    obtain ⟨text, htext, _⟩ := call.exists_text
    obtain ⟨texts, htexts, sent, hsent, hle, hiff, hcut⟩ :=
      ih (socket.sendData text call.sentBytes)
    have hwhole : call.IsAccepted ↔ text.take (call.sentBytes.getD 0) = text := by
      rw [SendCall.isAccepted_iff htext, List.take_eq_self_iff]
    refine ⟨text :: texts, ?_, text.take (call.sentBytes.getD 0) ++ sent, ?_, ?_, ?_, ?_⟩
    · rw [List.mapM_cons, htext, htexts]
      rfl
    · rw [List.foldlM_cons, sendMsg_of_text htext, ok_bind, hsent, sendData, List.append_assoc]
    · rw [List.flatten_cons, List.length_append, List.length_append]
      exact Nat.add_le_add (List.length_take_le' _ _) hle
    · rw [List.flatten_cons, take_append_eq_iff _ hle, List.forall_mem_cons, ← hiff, hwhole]
    · intro haccepted
      rw [List.flatten_cons]
      by_cases hnil : calls = []
      · subst hnil
        have hempty : sent = texts.flatten := hiff.mpr (List.forall_mem_nil _)
        obtain rfl : [] = texts := Except.ok.inj htexts
        rw [hempty, List.flatten_nil, List.append_nil, List.append_nil]
        exact List.take_prefix _ _
      · rw [List.dropLast_cons_of_ne_nil hnil] at haccepted
        obtain ⟨hfirst, hlater⟩ := List.forall_mem_cons.mp haccepted
        rw [hwhole.mp hfirst]
        exact (List.prefix_append_right_inj text).mpr (hcut hlater)

/-- Whatever messages are sent and whatever the kernel answers, the stream consists
of whole messages exactly when each is accepted whole: a short answer is not
noticed. Only the last message may be cut when the connection is closed. -/
theorem inWholeTexts_iff (calls : List SendCall) :
    ∃ socket texts, calls.foldlM sendMsg {} = .ok socket ∧ calls.mapM SendCall.text = .ok texts ∧
      (socket.InWholeTexts texts ↔ ∀ call ∈ calls, call.IsAccepted) ∧
      ((∀ call ∈ calls.dropLast, call.IsAccepted) → socket.close.InWholeTexts texts) := by
  obtain ⟨texts, htexts, sent, hsent, _, hiff, hcut⟩ := foldlM_sendMsg {} calls
  refine ⟨_, texts, hsent, htexts, ?_, fun haccepted => .inr ⟨rfl, hcut haccepted⟩⟩
  rw [← hiff]
  constructor
  · rintro (hwhole | ⟨hgivenUp, _⟩)
    · exact hwhole
    · cases hgivenUp
  · exact fun hwhole => .inl hwhole

/-- A call for a message without fields. -/
def plainCall (method : MethodName) (sentBytes : Option Nat) : SendCall where
  msg := newProtocolMessage method []
  fields := []
  order := UnorderedMap.isIterationOrder_setAll List.nodup_nil
  sentBytes := sentBytes

/-- The kernel takes four bytes of the first message and all of the second. -/
theorem not_inWholeTexts_shortAnswer :
    ∃ socket texts, [plainCall .GAME_IDLE (some 4), plainCall .REQ_ACCEPTED (some 17)].foldlM sendMsg {} =
        .ok socket ∧
      [plainCall .GAME_IDLE (some 4), plainCall .REQ_ACCEPTED (some 17)].mapM SendCall.text = .ok texts ∧
      socket.accepted = "GAMEREQ_ACCEPTED\n\r\n\r\n".toList ∧ ¬ socket.InWholeTexts texts := by
  refine ⟨{ accepted := "GAMEREQ_ACCEPTED\n\r\n\r\n".toList },
    ["GAME_IDLE\n\r\n\r\n".toList, "REQ_ACCEPTED\n\r\n\r\n".toList], rfl, rfl, rfl, ?_⟩
  rintro (hwhole | ⟨hgivenUp, _⟩)
  · revert hwhole
    decide
  · cases hgivenUp

end OutgoingSocket

end UpsServer
