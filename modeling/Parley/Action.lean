/-!
# Actions

The action of a frame says what its payload is. On the wire an action is its ordinal, so the order
of the constructors is fixed and new ones are added at the end.
-/

namespace Parley

inductive Action where
  /-- A new subscriber asks whether anyone streams. -/
  | pingChannel
  /-- Asks one peer to begin negotiating with the sender. -/
  | startStream
  /-- The sender no longer publishes media. -/
  | stopStream
  /-- The sender streams and waits for peers that have no link to it yet. -/
  | streamInquiry
  /-- A participant's socket left the topic. -/
  | unsubscribeTopic
  | subscribeTopic
  /-- Asks for a page of the backlog. -/
  | loadMessages
  /-- There is more backlog than the last page. -/
  | hasMoreMessages
  /-- Joins a topic, and acknowledges it. -/
  | subscribe
  | unsubscribe
  /-- Asks for the roster, and answers with it. -/
  | loadSubscribers
  | subscribersPresent
  | text
  /-- A session description or a candidate. -/
  | rtc
  | setPosition
  | setPage
  | setScale
  | setStroke
  | drawLines
  | shareFile
  | changeSetting
  | subscribeInit
  | setSelectedText
  /-- The own profile changed on the server. -/
  | roleCall
  deriving DecidableEq, Repr, Inhabited

namespace Action

/-- Every action, at the place of its ordinal. -/
def all : List Action :=
  [pingChannel, startStream, stopStream, streamInquiry, unsubscribeTopic, subscribeTopic,
    loadMessages, hasMoreMessages, subscribe, unsubscribe, loadSubscribers, subscribersPresent,
    text, rtc, setPosition, setPage, setScale, setStroke, drawLines, shareFile, changeSetting,
    subscribeInit, setSelectedText, roleCall]

def ordinal : Action → Nat
  | pingChannel => 0
  | startStream => 1
  | stopStream => 2
  | streamInquiry => 3
  | unsubscribeTopic => 4
  | subscribeTopic => 5
  | loadMessages => 6
  | hasMoreMessages => 7
  | subscribe => 8
  | unsubscribe => 9
  | loadSubscribers => 10
  | subscribersPresent => 11
  | text => 12
  | rtc => 13
  | setPosition => 14
  | setPage => 15
  | setScale => 16
  | setStroke => 17
  | drawLines => 18
  | shareFile => 19
  | changeSetting => 20
  | subscribeInit => 21
  | setSelectedText => 22
  | roleCall => 23

/-- The action with an ordinal, if the ordinal is one. -/
def ofOrdinal? : Int → Option Action
  | .ofNat n => all[n]?
  | .negSucc _ => none

theorem ofOrdinal?_ordinal (a : Action) : ofOrdinal? a.ordinal = some a := by
  cases a <;> rfl

def isWhiteboard : Action → Bool
  | setPosition | setPage | setScale | setStroke | drawLines | shareFile | changeSetting
  | setSelectedText => true
  | _ => false

/-- Actions that drive the protocol itself; the others carry application data. -/
def isControl (a : Action) : Bool := !a.isWhiteboard && a != text

def title : Action → String
  | pingChannel => "PING_CHANNEL"
  | startStream => "START_STREAM"
  | stopStream => "STOP_STREAM"
  | streamInquiry => "STREAM_INQUIRY"
  | unsubscribeTopic => "UNSUBSCRIBE_TOPIC"
  | subscribeTopic => "SUBSCRIBE_TOPIC"
  | loadMessages => "LOAD_MESSAGES"
  | hasMoreMessages => "HAS_MORE_MESSAGES"
  | subscribe => "SUBSCRIBE"
  | unsubscribe => "UNSUBSCRIBE"
  | loadSubscribers => "LOAD_SUBSCRIBERS"
  | subscribersPresent => "SUBSCRIBERS_PRESENT"
  | text => "TEXT"
  | rtc => "RTC"
  | setPosition => "SET_POSITION"
  | setPage => "SET_PAGE"
  | setScale => "SET_SCALE"
  | setStroke => "SET_STROKE"
  | drawLines => "DRAW_LINES"
  | shareFile => "SHARE_FILE"
  | changeSetting => "CHANGE_SETTING"
  | subscribeInit => "SUBSCRIBE_INIT"
  | setSelectedText => "SET_SELECTED_TEXT"
  | roleCall => "ROLE_CALL"

def tag : Action → String
  | pingChannel => "PingChannel"
  | startStream => "StartStream"
  | stopStream => "StopStream"
  | streamInquiry => "StreamInquiry"
  | unsubscribeTopic => "UnsubscribeTopic"
  | subscribeTopic => "SubscribeTopic"
  | loadMessages => "LoadMessages"
  | hasMoreMessages => "HasMoreMessages"
  | subscribe => "Subscribe"
  | unsubscribe => "Unsubscribe"
  | loadSubscribers => "LoadSubscribers"
  | subscribersPresent => "SubscribersPresent"
  | text => "Text"
  | rtc => "Rtc"
  | setPosition => "SetPosition"
  | setPage => "SetPage"
  | setScale => "SetScale"
  | setStroke => "SetStroke"
  | drawLines => "DrawLines"
  | shareFile => "ShareFile"
  | changeSetting => "ChangeSetting"
  | subscribeInit => "SubscribeInit"
  | setSelectedText => "SetSelectedText"
  | roleCall => "RoleCall"

def ofTitle? (s : String) : Option Action := all.find? (·.title = s)

def ofTag? (s : String) : Option Action := all.find? (·.tag = s)

end Action

end Parley
