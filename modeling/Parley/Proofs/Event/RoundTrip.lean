import Parley.Proofs.Event.Records
import Parley.Proofs.Json.Kept

/-!
# Payloads that are read back

Every event is read back from its payload under its own action, with one exception. The id of a
departed socket is written as it is, without quotes, but quotes are taken off when it is read; so an
id that is itself the text of a JSON string comes back as the string, which is shorter.
-/

namespace Parley.Event

open Json (ReadsBack Passable IsStringText)

/-! ## Records -/

theorem ofRecord_render {α : Type} {read : Json.Tree → Option α} {write : α → Json}
    (h : ReadsBack read write) (a : Action) (build : α → Event) (x : α) :
    ofRecord a (write x).render read build = .ok (build x) := by
  have hblank : ¬ Text.isAllBlank (write x).render = true := by
    rw [Json.isAllBlank_render (h.integral x)]
    exact Bool.false_ne_true
  have htree : recordTree? (write x).render >>= read = some x := by
    rw [recordTree?, if_neg hblank, Json.read?_render (h.integral x)]
    exact h.read_tree x
  rw [ofRecord, htree]

/-- An empty payload is an empty record. -/
theorem ofRecord_empty {α : Type} {read : Json.Tree → Option α} {x : α}
    (h : read (.object []) = some x) (a : Action) (build : α → Event) :
    ofRecord a "" read build = .ok (build x) := by
  have htree : recordTree? "" >>= read = some x := h
  rw [ofRecord, htree]

theorem ofRecord_targetPayload (target : Option String) (a : Action)
    (build : Option String → Event) :
    ofRecord a (targetPayload target) CallTarget.ofTree? build = .ok (build target) := by
  have hempty : CallTarget.ofTree? (.object []) = some none := rfl
  cases target with
  | none => exact ofRecord_empty hempty a build
  | some id => exact ofRecord_render CallTarget.readsBack a build (some id)

theorem ofRecord_roster (r : Table Participant) (a : Action) (build : Table Participant → Event) :
    ofRecord a (if r.isEmpty then "" else (rosterToJson r).render) rosterOfTree? build =
      .ok (build r) := by
  split
  · rename_i hempty
    have hr : r = .empty := by
      cases r
      congr
      exact List.isEmpty_iff.mp hempty
    have hread : rosterOfTree? (.object []) = some .empty := rfl
    rw [hr]
    exact ofRecord_empty hread a build
  · exact ofRecord_render readsBack_roster a build r

/-! ## Data that is passed through -/

theorem ofData_dataPayload {data : Json} (h : Passable data) (a : Action) (build : Json → Event) :
    ofData a (dataPayload data) build = .ok (build data) := by
  unfold dataPayload
  split
  · rfl
  · rw [ofData, Json.isAllBlank_render h.canonical.integral, if_neg Bool.false_ne_true,
      Json.parse?_render h]

/-! ## Departures -/

theorem departedId_of_isStringText {id s : String} (h : IsStringText id s) : departedId id = s := by
  rw [departedId, Json.read?_eq_string_iff.mpr h]

theorem departedId_eq_self {id : String} (h : ¬ ∃ s, IsStringText id s) : departedId id = id := by
  unfold departedId
  split
  · rename_i s hread
    exact absurd ⟨s, Json.read?_eq_string_iff.mp hread⟩ h
  · rfl

theorem departedId_eq_iff {id : String} : departedId id = id ↔ ¬ ∃ s, IsStringText id s := by
  constructor
  · rintro hid ⟨s, hs⟩
    have hlength := hs.length_lt
    rw [← departedId_of_isStringText hs, hid] at hlength
    exact Nat.lt_irrefl _ hlength
  · exact departedId_eq_self

/-! ## Events -/

/-- The data of an event that passes its data through. -/
def data? : Event → Option Json
  | subscribeTopic data | subscribersPresent data | subscribeInit data | whiteboard _ data =>
    some data
  | _ => none

/-- An event that there can be: a whiteboard event has a whiteboard action, and data is such as can
be passed through. -/
structure WellFormed (e : Event) : Prop where
  whiteboard : ∀ a data, e = .whiteboard a data → a.isWhiteboard = true
  data : ∀ data ∈ e.data?, Passable data

theorem decode_whiteboard {a : Action} (h : a.isWhiteboard = true) (payload : String) :
    decode a payload = ofData a payload (.whiteboard a) := by
  cases a <;> first | rfl | cases h

theorem decode_payload {e : Event} (h : e.WellFormed) (hid : ∀ id, e ≠ .departed id) :
    decode e.action e.payload = .ok e := by
  cases e with
  | pingChannel t => exact ofRecord_targetPayload t _ _
  | startStream t => exact ofRecord_targetPayload t _ _
  | stopStream t => exact ofRecord_targetPayload t _ _
  | streamInquiry t => exact ofRecord_targetPayload t _ _
  | departed id => exact absurd rfl (hid id)
  | subscribeTopic d => exact ofData_dataPayload (h.data d rfl) _ _
  | loadMessages p => exact ofRecord_render PageRequest.readsBack .loadMessages .loadMessages p
  | hasMoreMessages => rfl
  | subscribe => rfl
  | unsubscribe => rfl
  | subscribers r => exact ofRecord_roster r _ _
  | subscribersPresent d => exact ofData_dataPayload (h.data d rfl) _ _
  | text t => exact ofRecord_render TextMessage.readsBack .text .text t
  | signal s => exact ofRecord_render Envelope.readsBack .rtc .signal s
  | whiteboard a d =>
      exact (decode_whiteboard (h.whiteboard a d rfl) _).trans
        (ofData_dataPayload (h.data d rfl) _ _)
  | subscribeInit d => exact ofData_dataPayload (h.data d rfl) _ _
  | roleCall => rfl

theorem decode_payload_departed (id : String) :
    decode .unsubscribeTopic (payload (.departed id)) = .ok (.departed id) ↔
      ¬ ∃ s, IsStringText id s := by
  rw [← departedId_eq_iff]
  constructor
  · intro h
    exact Event.departed.inj (Except.ok.inj h)
  · intro h
    exact congrArg (fun id => Except.ok (Event.departed id)) h

theorem action_of_ofRecord {α : Type} {read : Json.Tree → Option α} {a : Action} {payload : String}
    {build : α → Event} {e : Event} (h : ofRecord a payload read build = .ok e)
    (hbuild : ∀ x, (build x).action = a) : e.action = a := by
  unfold ofRecord at h
  split at h
  · cases h
    exact hbuild _
  · cases h

theorem action_of_ofData {a : Action} {payload : String} {build : Json → Event} {e : Event}
    (h : ofData a payload build = .ok e) (hbuild : ∀ x, (build x).action = a) : e.action = a := by
  unfold ofData at h
  split at h
  · cases h
    exact hbuild _
  · split at h
    · cases h
      exact hbuild _
    · cases h

theorem action_of_decode {a : Action} {payload : String} {e : Event}
    (h : decode a payload = .ok e) : e.action = a := by
  cases a with
  | pingChannel | startStream | stopStream | streamInquiry | loadMessages | loadSubscribers
  | text | rtc => exact action_of_ofRecord h fun _ => rfl
  | subscribeTopic | subscribersPresent | subscribeInit | setPosition | setPage | setScale
  | setStroke | drawLines | shareFile | changeSetting | setSelectedText =>
      exact action_of_ofData h fun _ => rfl
  | unsubscribeTopic | hasMoreMessages | subscribe | unsubscribe | roleCall =>
      cases h
      rfl

/-- An event is read back from its payload, whatever it is, except that the id of a departed socket
must not be the text of a JSON string. Whatever a payload is read as has the action under which it
was read. -/
theorem payload_roundTrip :
    (∀ e : Event, e.WellFormed → (decode e.action e.payload = .ok e ↔
      ∀ id, e = .departed id → ¬ ∃ s, IsStringText id s)) ∧
    ∀ (a : Action) (payload : String) (e : Event), decode a payload = .ok e → e.action = a := by
  refine ⟨fun e h => ?_, fun a payload e => action_of_decode⟩
  by_cases hid : ∃ id, e = .departed id
  · obtain ⟨id, rfl⟩ := hid
    simp only [departed.injEq, forall_eq']
    exact decode_payload_departed id
  · simp only [not_exists] at hid
    exact ⟨fun _ id he => absurd he (hid id), fun _ => decode_payload h hid⟩

/-- A drawing with the least integer and a text that has to be escaped comes back; a socket id in
quotes does not. -/
theorem payload_roundTrip_quotes :
    ∃ drawing, drawing = whiteboard .drawLines (.object
        [("from", .array [.number (.integer (-9223372036854775808)), .null]),
          ("to", .string "\"\n")]) ∧
      drawing.WellFormed ∧ decode .drawLines drawing.payload = .ok drawing ∧
      decode .unsubscribeTopic (payload (.departed (Json.string "x").render)) ≠
        .ok (.departed (Json.string "x").render) := by
  have hdrawing : (whiteboard .drawLines (.object
      [("from", .array [.number (.integer (-9223372036854775808)), .null]),
        ("to", .string "\"\n")])).WellFormed := by
    constructor
    · rintro a data ⟨⟩
      rfl
    · rintro data ⟨⟩
      refine ⟨.object (by decide) ?_, by decide⟩
      simp only [List.forall_mem_cons, List.not_mem_nil, false_implies, implies_true, and_true]
      refine ⟨.array ?_, .string _⟩
      simp only [List.forall_mem_cons, List.not_mem_nil, false_implies, implies_true, and_true]
      exact ⟨.integer (by decide), .null⟩
  have hquoted : ∃ s, IsStringText (Json.string "x").render s :=
    ⟨"x", Json.read?_eq_string_iff.mp (Json.read?_render (.string "x"))⟩
  have hdeparted : (departed (Json.string "x").render).WellFormed := ⟨nofun, nofun⟩
  exact ⟨_, rfl, hdrawing, (payload_roundTrip.1 _ hdrawing).mpr nofun,
    fun h => (payload_roundTrip.1 _ hdeparted).mp h _ rfl hquoted⟩

end Parley.Event
