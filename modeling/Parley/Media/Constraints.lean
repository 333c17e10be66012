import Parley.Json.Record
import Parley.Signal

/-!
# Call settings

The servers that help two peers find each other, and what to ask of the devices.
-/

namespace Parley

/-- A server that relays media or tells a peer its own address. -/
structure IceServer where
  urls : List String
  username : Option String := none
  credential : Option String := none
  deriving DecidableEq, Repr, Inhabited

namespace IceServer

def toJson (s : IceServer) : Json :=
  .object (("urls", .array (s.urls.map .string)) ::
    (optionalMember "username" (s.username.map .string) ++
      optionalMember "credential" (s.credential.map .string)))

def ofTree? (t : Json.Tree) : Option IceServer :=
  match t.fields? ["urls", "username", "credential"] with
  | some ⟨_, [urls, username, credential]⟩ => do
    let urls ← Json.required (Json.Tree.listOf? Json.Tree.string?) urls
    let username ← Json.optional Json.Tree.string? username
    let credential ← Json.optional Json.Tree.string? credential
    return ⟨urls, username, credential⟩
  | _ => none

end IceServer

structure AudioConstraints where
  echoCancellation : Bool := true
  noiseSuppression : Bool := true
  autoGainControl : Bool := true
  channelCount : UInt8 := 2
  sampleRate : UInt32 := 48000
  sampleSize : UInt8 := 16
  /-- Wanted latency in seconds. -/
  latency : Single := Binary.ofRatio .single false 1 100
  deriving DecidableEq, Repr, Inhabited

namespace AudioConstraints

def toJson (a : AudioConstraints) : Json :=
  .object [("echo_cancellation", .bool a.echoCancellation),
    ("noise_suppression", .bool a.noiseSuppression),
    ("auto_gain_control", .bool a.autoGainControl),
    ("channel_count", .ofNat a.channelCount.toNat),
    ("sample_rate", .ofNat a.sampleRate.toNat),
    ("sample_size", .ofNat a.sampleSize.toNat), ("latency", .number (.single a.latency))]

def ofTree? (t : Json.Tree) : Option AudioConstraints :=
  match t.fields? ["echo_cancellation", "noise_suppression", "auto_gain_control", "channel_count",
    "sample_rate", "sample_size", "latency"] with
  | some ⟨_, [echo, noise, gain, channels, rate, size, latency]⟩ => do
    let echo ← Json.required Json.Tree.bool? echo
    let noise ← Json.required Json.Tree.bool? noise
    let gain ← Json.required Json.Tree.bool? gain
    let channels ← Json.required Json.Tree.u8? channels
    let rate ← Json.required Json.Tree.u32? rate
    let size ← Json.required Json.Tree.u8? size
    let latency ← Json.required Json.Tree.single? latency
    return ⟨echo, noise, gain, channels, rate, size, latency⟩
  | _ => none

end AudioConstraints

structure VideoConstraints where
  width : UInt32 := 520
  height : UInt32 := 390
  maxFrameRate : UInt32 := 30
  deriving DecidableEq, Repr, Inhabited

namespace VideoConstraints

def toJson (v : VideoConstraints) : Json :=
  .object [("width", .ofNat v.width.toNat), ("height", .ofNat v.height.toNat),
    ("max_frame_rate", .ofNat v.maxFrameRate.toNat)]

def ofTree? (t : Json.Tree) : Option VideoConstraints :=
  match t.fields? ["width", "height", "max_frame_rate"] with
  | some ⟨_, [width, height, rate]⟩ => do
    let width ← Json.required Json.Tree.u32? width
    let height ← Json.required Json.Tree.u32? height
    let rate ← Json.required Json.Tree.u32? rate
    return ⟨width, height, rate⟩
  | _ => none

end VideoConstraints

/-- What to ask of the devices; no video for a voice call. -/
structure MediaConstraints where
  audio : AudioConstraints := {}
  video : Option VideoConstraints := none
  deriving DecidableEq, Repr, Inhabited

namespace MediaConstraints

def voice : MediaConstraints := {}

def withVideo : MediaConstraints := { video := some {} }

def toJson (m : MediaConstraints) : Json :=
  .object [("audio", m.audio.toJson), ("video", (m.video.map VideoConstraints.toJson).getD .null)]

/-- By name the video may be left out; in order it must be given, if only as `null`. -/
def ofTree? (t : Json.Tree) : Option MediaConstraints :=
  match t.fields? ["audio", "video"] with
  | some ⟨byName, [audio, video]⟩ => do
    let audio ← Json.required AudioConstraints.ofTree? audio
    let readVideo := Json.nullable VideoConstraints.ofTree?
    let video ← if byName then Json.withDefault none readVideo video
      else Json.required readVideo video
    return ⟨audio, video⟩
  | _ => none

end MediaConstraints

structure CallConfig where
  iceServers : List IceServer := []
  video : VideoConstraints := {}
  audio : AudioConstraints := {}
  deriving DecidableEq, Repr, Inhabited

namespace CallConfig

/-- A relay and an address server on port 3478 of one host. -/
def ofHost (host user password : String) : CallConfig :=
  { iceServers :=
      [{ urls := ["turn:" ++ host ++ ":3478"], username := some user, credential := some password },
        { urls := ["stun:" ++ host ++ ":3478"] }] }

def constraints (c : CallConfig) (video : Bool) : MediaConstraints :=
  { audio := c.audio, video := if video then some c.video else none }

end CallConfig

end Parley
