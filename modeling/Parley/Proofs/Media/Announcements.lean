import Parley.Media.Peer
import Parley.Proofs.Sdp

/-!
# Tracks are announced once

A connection reports tracks when it takes a remote description, and at no other time
(`Peer.announces_after`). It knows the ids of all tracks that it has met, so that what it reports
over any operations are the tracks that the descriptions it took list one after the other, without
those that have the id of one before them.
-/

namespace Parley

/-! ## Reports of tracks -/

def PeerEvent.track? : PeerEvent → Option Track
  | .track t => some t
  | _ => none

/-- The tracks among reports, in the order of the reports. -/
def tracksIn (events : List PeerEvent) : List Track := events.filterMap PeerEvent.track?

@[simp] theorem tracksIn_append (xs ys : List PeerEvent) :
    tracksIn (xs ++ ys) = tracksIn xs ++ tracksIn ys := List.filterMap_append

theorem tracksIn_eq_nil_iff {events : List PeerEvent} :
    tracksIn events = [] ↔ ∀ e ∈ events, e.track? = none := List.filterMap_eq_nil_iff

theorem tracksIn_map_track (ts : List Track) : tracksIn (ts.map .track) = ts := by
  rw [tracksIn, List.filterMap_map]
  exact List.filterMap_some

/-- The tracks that descriptions list, one description after the other. -/
def Sdp.listed (ds : List Description) : List Track := ds.flatMap fun d => tracks d.sdp

/-- The tracks of a list without those that have the id of one before them. -/
def Track.firstMentions (ts : List Track) : List Track := ts.eraseDupsBy (·.id == ·.id)

namespace Peer

/-! ## Fresh tracks -/

section Fresh

variable {t : Track} {known : List String}

theorem freshTracks_of_mem (h : t.id ∈ known) (rest : List Track) :
    freshTracks known (t :: rest) = freshTracks known rest :=
  if_pos (List.contains_iff_mem.mpr h)

theorem freshTracks_of_not_mem (h : t.id ∉ known) (rest : List Track) :
    freshTracks known (t :: rest) = (t :: (freshTracks (known ++ [t.id]) rest).1,
      (freshTracks (known ++ [t.id]) rest).2) :=
  if_neg (mt List.contains_iff_mem.mp h)

variable (known)

theorem freshTracks_append (ts more : List Track) :
    freshTracks known (ts ++ more) =
      ((freshTracks known ts).1 ++ (freshTracks (freshTracks known ts).2 more).1,
        (freshTracks (freshTracks known ts).2 more).2) := by
  induction ts generalizing known with
  | nil => rfl
  | cons t rest ih =>
      rw [List.cons_append]
      by_cases h : t.id ∈ known
      · rw [freshTracks_of_mem h, freshTracks_of_mem h, ih]
      · rw [freshTracks_of_not_mem h, freshTracks_of_not_mem h, ih]
        rfl

theorem freshTracks_known (ts : List Track) :
    (freshTracks known ts).2 = known ++ (freshTracks known ts).1.map (·.id) := by
  induction ts generalizing known with
  | nil => exact (List.append_nil known).symm
  | cons t rest ih =>
      by_cases h : t.id ∈ known
      · rw [freshTracks_of_mem h, ih]
      · rw [freshTracks_of_not_mem h, ih, List.append_assoc]
        rfl

theorem freshTracks_eq (ts : List Track) :
    (freshTracks known ts).1 = Track.firstMentions (ts.filter fun t => t.id ∉ known) := by
  induction ts generalizing known with
  | nil => rfl
  | cons t rest ih =>
      by_cases h : t.id ∈ known
      · rw [freshTracks_of_mem h, ih, List.filter_cons_of_neg (by simpa using h)]
      · have hfilter : (rest.filter fun s => s.id ∉ known ++ [t.id]) =
            (rest.filter fun s => s.id ∉ known).filter fun s => (s.id == t.id) = false := by
          rw [List.filter_filter]
          refine List.filter_congr fun s _ => ?_
          simp [and_comm]
        rw [freshTracks_of_not_mem h, List.filter_cons_of_pos (by simpa using h),
          Track.firstMentions, List.eraseDupsBy_cons, ← hfilter]
        exact congrArg (t :: ·) (ih _)

/-- Each id becomes known once. -/
theorem nodup_freshTracks {known : List String} (h : known.Nodup) (ts : List Track) :
    (freshTracks known ts).2.Nodup := by
  induction ts generalizing known with
  | nil => exact h
  | cons t rest ih =>
      by_cases hmem : t.id ∈ known
      · rw [freshTracks_of_mem hmem]
        exact ih h
      · rw [freshTracks_of_not_mem hmem]
        refine ih (List.nodup_append.mpr ⟨h, by simp, fun a ha b hb hab => hmem ?_⟩)
        rwa [← List.mem_singleton.mp hb, ← hab]

theorem mem_freshTracks_known (ts : List Track) {id : String} :
    id ∈ (freshTracks known ts).2 ↔ id ∈ known ∨ id ∈ ts.map (·.id) := by
  induction ts generalizing known with
  | nil => simp [freshTracks]
  | cons t rest ih =>
      rw [List.map_cons, List.mem_cons]
      by_cases h : t.id ∈ known
      · have hid : id = t.id → id ∈ known := fun heq => heq ▸ h
        rw [freshTracks_of_mem h, ih, ← or_assoc, or_iff_left_of_imp hid]
      · rw [freshTracks_of_not_mem h, ih, List.mem_append, List.mem_singleton, or_assoc]

end Fresh

/-! ## One operation -/

variable {p : Peer}

/-- The remote description that an operation is to apply. -/
def Operation.remote? : Operation → Option Description
  | .setRemote d => some d
  | _ => none

/-- The remote description that an operation does apply. -/
def taken (p : Peer) (op : Operation) : List Description :=
  match p.perform op with
  | .ok _ => op.remote?.toList
  | .error _ => []

theorem exists_announce {d : Description} {r : Peer × List PeerEvent}
    (h : p.setRemote d = .ok r) : ∃ q : Peer, q.announced = p.announced ∧ r = q.announce d := by
  unfold setRemote at h
  split at h
  · cases h
  · cases h
    exact ⟨{ p with pendingRemote := some d, signaling := .haveRemoteOffer }, rfl, rfl⟩
  · cases h
    exact ⟨{ p with
      currentLocal := p.pendingLocal, pendingLocal := none, currentRemote := some d,
      signaling := .stable }, rfl, rfl⟩
  · cases h

/-- An operation other than one with a remote description announces no track. -/
theorem silent_perform {op : Operation} (h : op.remote? = none) {r : Peer × List PeerEvent}
    (hr : p.perform op = .ok r) : tracksIn r.2 = [] ∧ r.1.announced = p.announced := by
  cases op with
  | setRemote d => cases h
  | addTrack | removeTrack | setIce | close =>
      cases hr
      exact ⟨rfl, rfl⟩
  | createOffer =>
      change p.createOffer.map _ = .ok r at hr
      cases hoffer : p.createOffer <;> rw [hoffer] at hr <;> cases hr
      exact ⟨rfl, rfl⟩
  | createAnswer =>
      change p.createAnswer.map _ = .ok r at hr
      cases hanswer : p.createAnswer <;> rw [hanswer] at hr <;> cases hr
      exact ⟨rfl, rfl⟩
  | setLocal d =>
      change p.setLocal d = .ok r at hr
      unfold setLocal at hr
      split at hr <;> cases hr <;> exact ⟨rfl, rfl⟩
  | clearLocal =>
      change p.clearLocal = .ok r at hr
      unfold clearLocal at hr
      split at hr <;> cases hr <;> exact ⟨rfl, rfl⟩
  | rollback =>
      change p.rollback = .ok r at hr
      unfold rollback at hr
      split at hr <;> cases hr
      exact ⟨rfl, rfl⟩
  | addCandidate c =>
      change p.addCandidate c = .ok r at hr
      unfold addCandidate at hr
      split at hr
      · cases hr
      · split at hr
        · cases hr
        · dsimp only at hr
          split at hr <;> cases hr <;> exact ⟨rfl, rfl⟩

/-- So it is if it fails. -/
theorem tracksIn_reply (p : Peer) (op : Operation) (h : op.remote? = none) :
    tracksIn (Result.reply p (p.perform op)).events = [] := by
  cases hr : p.perform op with
  | error e => rfl
  | ok r => exact (silent_perform h hr).1

/-- What an operation announces are the fresh tracks of the remote description that it applies. -/
theorem announces_after (p : Peer) (op : Operation) :
    freshTracks p.announced (Sdp.listed (p.taken op)) =
      (tracksIn (p.after op).2, (p.after op).1.announced) := by
  unfold taken after
  cases hr : p.perform op with
  | error e => rfl
  | ok r =>
      cases hremote : op.remote? with
      | none =>
          obtain ⟨hsilent, hknown⟩ := silent_perform hremote hr
          dsimp only
          rw [hsilent, hknown]
          rfl
      | some d =>
          obtain rfl : op = .setRemote d := by
            cases op <;> cases hremote
            rfl
          obtain ⟨q, hq, rfl⟩ := exists_announce hr
          dsimp only
          rw [Option.toList_some, Sdp.listed, List.flatMap_singleton, announce,
            tracksIn_map_track, hq]

/-! ## Many operations -/

/-- What a connection reports over operations that are carried out one after the other. -/
def reports (p : Peer) : List Operation → List PeerEvent
  | [] => []
  | op :: rest => (p.after op).2 ++ reports (p.after op).1 rest

/-- The remote descriptions that are applied meanwhile. -/
def descriptionsTaken (p : Peer) : List Operation → List Description
  | [] => []
  | op :: rest => p.taken op ++ descriptionsTaken (p.after op).1 rest

theorem announces_reports (p : Peer) (ops : List Operation) :
    (freshTracks p.announced (Sdp.listed (p.descriptionsTaken ops))).1 =
      tracksIn (p.reports ops) := by
  induction ops generalizing p with
  | nil => rfl
  | cons op rest ih =>
      have hlisted : Sdp.listed (p.descriptionsTaken (op :: rest)) =
          Sdp.listed (p.taken op) ++ Sdp.listed ((p.after op).1.descriptionsTaken rest) :=
        List.flatMap_append
      rw [hlisted, freshTracks_append, announces_after, reports, tracksIn_append, ← ih]

/-- What descriptions say of tracks, and what a new connection makes of it. The tracks that a reader
takes from the text of a description are those that were written into it, in their order, as long as
no name in it breaks a line and no track id has a blank. Whatever is done with a connection after it
was made, the tracks that it announces are those that the remote descriptions it took list one after
the other, without those that have the id of one before them. So it announces each id that is
listed, and no id twice. -/
theorem descriptions_announce_tracks :
    (∀ (label word : String) (ts : List Track), '\n' ∉ label.toList → '\n' ∉ word.toList →
      (∀ t ∈ ts, '\n' ∉ t.id.toList ∧ ' ' ∉ t.id.toList) →
      Sdp.tracks (Sdp.text label word ts) = ts) ∧
    ∀ (label : String) (ops : List Operation),
      let listed := Sdp.listed (({ label } : Peer).descriptionsTaken ops)
      let announced := tracksIn (({ label } : Peer).reports ops)
      announced = Track.firstMentions listed ∧ (announced.map (·.id)).Nodup ∧
        ∀ id, id ∈ announced.map (·.id) ↔ id ∈ listed.map (·.id) := by
  refine ⟨fun label word ts hlabel hword hts => Sdp.tracks_text hlabel hword hts,
    fun label ops => ?_⟩
  intro listed announced
  have hannounced : (freshTracks [] listed).1 = announced := announces_reports { label } ops
  have hknown : (freshTracks [] listed).2 = announced.map (·.id) := by
    rw [freshTracks_known, hannounced, List.nil_append]
  refine ⟨?_, ?_, fun id => ?_⟩
  · have hall : (listed.filter fun t => t.id ∉ []) = listed := List.filter_eq_self.mpr (by simp)
    rw [← hannounced, freshTracks_eq, hall]
  · rw [← hknown]
    exact nodup_freshTracks List.nodup_nil listed
  · rw [← hknown, mem_freshTracks_known]
    simp

/-- An offer, one that comes too early and is refused, and one that adds a track. -/
theorem descriptions_announce_tracks_again :
    let first : Description := ⟨.offer, Sdp.text "ann" "offer" [⟨"a1", .audio⟩]⟩
    let more : Description := ⟨.offer, Sdp.text "ann" "offer" [⟨"a1", .audio⟩, ⟨"a2", .video⟩]⟩
    let ops : List Operation := [.setRemote first, .setRemote more,
      .setLocal ⟨.answer, Sdp.text "zoe" "answer" []⟩, .setRemote more]
    ('\n' ∉ "ann".toList ∧ '\n' ∉ "offer".toList ∧ Sdp.tracks first.sdp = [⟨"a1", .audio⟩]) ∧
      ({ label := "zoe" } : Peer).descriptionsTaken ops = [first, more] ∧
      tracksIn (({ label := "zoe" } : Peer).reports ops) = [⟨"a1", .audio⟩, ⟨"a2", .video⟩] := by
  intro first more ops
  obtain ⟨hread, hannounce⟩ := descriptions_announce_tracks
  obtain ⟨hannounced, -⟩ := hannounce "zoe" ops
  have htaken : ({ label := "zoe" } : Peer).descriptionsTaken ops = [first, more] := by
    decide +kernel
  have hfirst : Sdp.tracks first.sdp = [⟨"a1", .audio⟩] :=
    hread "ann" "offer" _ (by decide) (by decide) (by decide)
  refine ⟨⟨by decide, by decide, hfirst⟩, htaken, ?_⟩
  rw [hannounced, htaken]
  decide +kernel

end Peer

end Parley
