import Parley.Client.Inbound
import Parley.Proofs.Event.RoundTrip
import Parley.Proofs.Frame.RoundTrip

/-!
# From one client to another

What a client transmits is a frame that another client takes in. Heartbeats travel in the same
frames and are known by their payload alone, before the action is looked at; so an event is taken
for a heartbeat exactly if its payload is that of one. Of the events that are read back from their
payloads only a departure can have it: no JSON text is the payload of a heartbeat.
-/

namespace Parley

namespace Event

/-! ## The payload of a heartbeat -/

theorem read?_ping : Json.Tree.read? Frame.ping = none := by
  simp [Json.Tree.read?, Json.tokens?, Frame.ping, Json.scan, Json.isSpace, Json.scanNumeral,
    Json.scanDigits, Json.isDigit, Json.isWhole]

theorem ofRecord_ping {α : Type} (a : Action) (read : Json.Tree → Option α) (build : α → Event) :
    ofRecord a Frame.ping read build = .error (.badJson a) := by
  have hblank : ¬ Text.isAllBlank Frame.ping = true := by decide
  rw [ofRecord, recordTree?, if_neg hblank, read?_ping]
  rfl

theorem ofData_ping (a : Action) (build : Json → Event) :
    ofData a Frame.ping build = .error (.badJson a) := by
  have hblank : ¬ Text.isAllBlank Frame.ping = true := by decide
  rw [ofData, if_neg hblank, Json.parse?, read?_ping]
  rfl

theorem decode_unsubscribeTopic_ping :
    decode .unsubscribeTopic Frame.ping = .ok (.departed Frame.ping) := by
  rw [decode, departedId, read?_ping]

/-- The payload of a heartbeat is a departure, or the payload of an action that has none. -/
theorem decode_ping {a : Action} {e : Event} (h : decode a Frame.ping = .ok e) :
    e = .departed Frame.ping ∨ e.payload = "" := by
  cases a with
  | pingChannel | startStream | stopStream | streamInquiry | loadMessages | loadSubscribers
  | text | rtc => cases (ofRecord_ping ..).symm.trans h
  | subscribeTopic | subscribersPresent | subscribeInit | setPosition | setPage | setScale
  | setStroke | drawLines | shareFile | changeSetting | setSelectedText =>
      cases (ofData_ping ..).symm.trans h
  | unsubscribeTopic => exact .inl (Except.ok.inj (h.symm.trans decode_unsubscribeTopic_ping))
  | hasMoreMessages | subscribe | unsubscribe | roleCall =>
      cases h
      exact .inr rfl

theorem payload_eq_ping_iff {e : Event} (h : decode e.action e.payload = .ok e) :
    e.payload = Frame.ping ↔ e = .departed Frame.ping := by
  constructor
  · intro hping
    rw [hping] at h
    rcases decode_ping h with he | hempty
    · exact he
    · rw [hempty] at hping
      exact absurd hping (by decide)
  · rintro rfl
    rfl

theorem action_eq_roleCall_iff {e : Event} (h : decode e.action e.payload = .ok e) :
    e.action = .roleCall ↔ e = .roleCall := by
  constructor
  · intro haction
    rw [haction] at h
    exact (Except.ok.inj h).symm
  · rintro rfl
    rfl

end Event

namespace Client

variable {σ τ : Type} {bytes : List UInt8} {f : Frame} {m : Message}

/-! ## Taking in a frame -/

theorem exists_encode_pong : ∃ pong, Frame.pong.encode = .ok pong :=
  Frame.exists_encode_iff.mpr (by decide)

theorem receive_heartbeat (hf : Frame.decode bytes = .ok f) (hping : f.payload = Frame.ping)
    (c : Client τ) : receive bytes c = ({ c with heartbeat := some c.now }, pongEffects) := by
  have hheartbeat : f.isHeartbeat = true := beq_iff_eq.mpr hping
  rw [receive, hf]
  exact if_pos hheartbeat

theorem receive_of_payload_ne (hf : Frame.decode bytes = .ok f) (hping : f.payload ≠ Frame.ping)
    (c : Client τ) :
    receive bytes c =
      if f.action = .roleCall then (c, [.tell .profileRefresh])
      else
        match Message.ofFrame f with
        | .error _ => (c, [])
        | .ok m => ((dispatch m c).2, []) := by
  have hheartbeat : ¬ f.isHeartbeat = true := fun h => hping (beq_iff_eq.mp h)
  rw [receive, hf]
  exact if_neg hheartbeat

theorem receive_roleCall (hf : Frame.decode bytes = .ok f) (hping : f.payload ≠ Frame.ping)
    (haction : f.action = .roleCall) (c : Client τ) :
    receive bytes c = (c, [.tell .profileRefresh]) := by
  rw [receive_of_payload_ne hf hping, if_pos haction]

theorem receive_message (hf : Frame.decode bytes = .ok f) (hping : f.payload ≠ Frame.ping)
    (haction : f.action ≠ .roleCall) (hm : Message.ofFrame f = .ok m) (c : Client τ) :
    receive bytes c = ((dispatch m c).2, []) := by
  rw [receive_of_payload_ne hf hping, if_neg haction, hm]

/-! ## Bytes that are dropped -/

/-- Bytes that are dropped: no frame, or a frame that is no heartbeat and has a payload that cannot
be read. -/
inductive Dropped : List UInt8 → Prop
  | frame {bytes : List UInt8} {e : FrameError} : Frame.decode bytes = .error e → Dropped bytes
  | payload {bytes : List UInt8} {f : Frame} {e : Event.Error} : Frame.decode bytes = .ok f →
      f.isHeartbeat = false → Event.decode f.action f.payload = .error e → Dropped bytes

theorem receive_of_dropped (h : Dropped bytes) (c : Client τ) : receive bytes c = (c, []) := by
  cases h with
  | frame he => rw [receive, he]
  | @payload f e hf hheartbeat he =>
      have haction : f.action ≠ .roleCall := by
        intro haction
        rw [haction] at he
        cases he
      have hm : Message.ofFrame f = .error e := by
        rw [Message.ofFrame, he]
        rfl
      rw [receive_of_payload_ne hf (fun hping => ?_), if_neg haction, hm]
      rw [Frame.isHeartbeat, hping] at hheartbeat
      cases hheartbeat

/-! ## What is transmitted -/

/-- The message that an event is for the listeners of its topic. -/
def message (sender : Client σ) (store : Bool) (topic : String) (e : Event) : Message where
  store := store
  historical := false
  timestamp := sender.now.rfc3339
  topic := topic
  sender := sender.connectionId.getD ""
  event := e

variable {sender : Client σ} {store : Bool} {topic wire : String} {e : Event}

theorem decode_transmitted (h : (sender.frame store topic e).encode = .ok wire) :
    Frame.decode (Text.bytes wire) = .ok (sender.frame store topic e) := by
  have hread := Frame.decode_encode h []
  rwa [List.append_nil] at hread

theorem ofFrame_frame (h : Event.decode e.action e.payload = .ok e) :
    Message.ofFrame (sender.frame store topic e) = .ok (sender.message store topic e) := by
  rw [Message.ofFrame]
  change (Event.decode e.action e.payload >>= _) = _
  rw [h]
  rfl

/-- What becomes of an event that is read back from its payload. -/
theorem receive_transmitted_cases (he : Event.decode e.action e.payload = .ok e)
    (hwire : (sender.frame store topic e).encode = .ok wire) (receiver : Client τ) :
    (e = .departed Frame.ping ∧ receive (Text.bytes wire) receiver =
      ({ receiver with heartbeat := some receiver.now }, pongEffects)) ∨
    (e = .roleCall ∧ receive (Text.bytes wire) receiver = (receiver, [.tell .profileRefresh])) ∨
    (e ≠ .departed Frame.ping ∧ e ≠ .roleCall ∧ receive (Text.bytes wire) receiver =
      ((dispatch (sender.message store topic e) receiver).2, [])) := by
  have hf := decode_transmitted hwire
  by_cases hping : e = .departed Frame.ping
  · exact .inl ⟨hping, receive_heartbeat hf ((Event.payload_eq_ping_iff he).mpr hping) receiver⟩
  have hpayload : e.payload ≠ Frame.ping := mt (Event.payload_eq_ping_iff he).mp hping
  by_cases hrole : e = .roleCall
  · have haction := (Event.action_eq_roleCall_iff he).mpr hrole
    exact .inr (.inl ⟨hrole, receive_roleCall hf hpayload haction receiver⟩)
  · have haction : e.action ≠ .roleCall := mt (Event.action_eq_roleCall_iff he).mp hrole
    exact .inr (.inr ⟨hping, hrole,
      receive_message hf hpayload haction (ofFrame_frame he) receiver⟩)

/-- An event that is read back from its payload reaches another client as a message, or as a
heartbeat if it is the departure of the socket `PING`, or as a changed profile if it is that. Bytes
that are dropped have no effect at all. -/
theorem receive_transmitted (receiver : Client τ) :
    (∀ (sender : Client σ) (store : Bool) (topic wire : String) (e : Event),
      Event.decode e.action e.payload = .ok e → (sender.frame store topic e).encode = .ok wire →
      (∃ pong, Frame.pong.encode = .ok pong ∧
        (receive (Text.bytes wire) receiver =
            ({ receiver with heartbeat := some receiver.now }, [.write pong]) ↔
          e = .departed "PING")) ∧
      (receive (Text.bytes wire) receiver = (receiver, [.tell .profileRefresh]) ↔ e = .roleCall) ∧
      (e ≠ .departed "PING" → e ≠ .roleCall →
        receive (Text.bytes wire) receiver =
          ((dispatch (sender.message store topic e) receiver).2, []))) ∧
    ∀ bytes, Dropped bytes → receive bytes receiver = (receiver, []) := by
  refine ⟨fun sender store topic wire e he hwire => ?_,
    fun bytes h => receive_of_dropped h receiver⟩
  obtain ⟨pong, hpong⟩ := exists_encode_pong
  have heffects : pongEffects = [.write pong] := by rw [pongEffects, hpong]
  have hcases := receive_transmitted_cases he hwire receiver
  rw [heffects] at hcases
  rcases hcases with ⟨rfl, hr⟩ | ⟨rfl, hr⟩ | ⟨hping, hrole, hr⟩
  · exact ⟨⟨pong, hpong, fun _ => rfl, fun _ => hr⟩, by simp [hr], fun h => absurd rfl h⟩
  · exact ⟨⟨pong, hpong, by simp [hr], nofun⟩, ⟨fun _ => rfl, fun _ => hr⟩, fun _ h => absurd rfl h⟩
  · exact ⟨⟨pong, hpong, by simp [hr], fun h => absurd h hping⟩,
      ⟨by simp [hr], fun h => absurd h hrole⟩, fun _ _ => hr⟩

/-- A text that only says `PING` is a message; the departure of the socket `PING` is a heartbeat. -/
theorem receive_transmitted_ping :
    ∃ text departure,
      ({ create {} () with connectionId := some "s1" }.frame true "room"
        (.text ⟨"PING", .written⟩)).encode = .ok text ∧
      ((create {} ()).frame false "" (.departed "PING")).encode = .ok departure ∧
      receive (Text.bytes text) (create {} ()) =
        ((dispatch ({ create {} () with connectionId := some "s1" }.message true "room"
          (.text ⟨"PING", .written⟩)) (create {} ())).2, []) ∧
      (receive (Text.bytes departure) (create {} ())).1.heartbeat = some (create {} ()).now ∧
      receive [0xFF] (create {} ()) = (create {} (), []) := by
  have hwell : (Event.text ⟨"PING", .written⟩).WellFormed := ⟨nofun, nofun⟩
  obtain ⟨text, hencode⟩ : ∃ text, ({ create {} () with connectionId := some "s1" }.frame true
      "room" (.text ⟨"PING", .written⟩)).encode = .ok text :=
    Frame.exists_encode_iff.mpr (by decide)
  obtain ⟨departure, hencode'⟩ : ∃ departure, ((create {} ()).frame false ""
      (.departed "PING")).encode = .ok departure :=
    Frame.exists_encode_iff.mpr (by decide)
  obtain ⟨hsent, hdropped⟩ := receive_transmitted (σ := Unit) (create {} ())
  obtain ⟨-, -, hmessage⟩ := hsent _ true "room" text _ (Event.decode_payload hwell nofun) hencode
  obtain ⟨⟨pong, -, hheartbeat⟩, -, -⟩ := hsent _ false "" departure (.departed "PING")
    Event.decode_unsubscribeTopic_ping hencode'
  refine ⟨text, departure, hencode, hencode', hmessage nofun nofun, ?_, ?_⟩
  · rw [hheartbeat.mpr rfl]
  · exact hdropped _ (.frame (Frame.decode_of_fault (.short (by decide))))

/-- The payload of a heartbeat cannot be read under its action, yet it is answered: a heartbeat is
known before its payload is read. -/
theorem receive_unreadable_heartbeat :
    Frame.decode (Text.bytes "00001000001f00001f00000000000000000004PING") =
      .ok { action := .pingChannel, payload := "PING" } ∧
    Event.decode .pingChannel "PING" = .error (.badJson .pingChannel) ∧
    receive (Text.bytes "00001000001f00001f00000000000000000004PING") (create {} ()) ≠
      (create {} (), []) := by
  have hwire : Frame.encode { action := .pingChannel, payload := "PING" } =
      .ok "00001000001f00001f00000000000000000004PING" :=
    Frame.encode_eq_ok_iff.mpr ⟨by decide, by decide⟩
  have hread := Frame.decode_encode hwire []
  rw [List.append_nil] at hread
  refine ⟨hread, Event.ofRecord_ping .., fun h => ?_⟩
  rw [receive_heartbeat hread rfl] at h
  cases congrArg (fun r => r.1.heartbeat) h

end Client

end Parley
