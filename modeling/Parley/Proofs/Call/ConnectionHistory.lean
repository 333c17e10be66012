import Parley.Proofs.Call.Stance
import Parley.Proofs.Text.Digits

/-!
# The history of a connection

A call does only a few things to a connection: it adds and removes tracks, offers, applies remote
descriptions and adds remote candidates; and the network acts on it. What a connection went through
and what it reported meanwhile is its course. The candidates that a connection found over its course
are those that it reported, in the same order, if its engine tells of each candidate when it is
found (`Gathers`), as the engine of connections in memory does.
-/

namespace Parley

/-- The candidates among reports, in the order of the reports. -/
def gatheredIn (events : List PeerEvent) : List Candidate :=
  events.filterMap fun
    | .gathered c => some c
    | _ => none

@[simp] theorem gatheredIn_nil : gatheredIn [] = [] := rfl

@[simp] theorem gatheredIn_append (xs ys : List PeerEvent) :
    gatheredIn (xs ++ ys) = gatheredIn xs ++ gatheredIn ys := List.filterMap_append

/-- Engines that keep what their connections found, and report each candidate when it is found and
at no other time. -/
class Gathers (κ : Type) [Connection κ] where
  found : κ → List Candidate
  found_addTrack : ∀ p t, found (Connection.addTrack p t) = found p
  found_removeTrack : ∀ p t, found (Connection.removeTrack p t) = found p
  found_createOffer : ∀ p, found (Connection.createOffer p).after =
    found p ++ gatheredIn (Connection.createOffer p).events
  found_createAnswer : ∀ p, found (Connection.createAnswer p).after =
    found p ++ gatheredIn (Connection.createAnswer p).events
  found_setLocal : ∀ p d, found (Connection.setLocal p d).after =
    found p ++ gatheredIn (Connection.setLocal p d).events
  found_clearLocal : ∀ p, found (Connection.clearLocal p).after =
    found p ++ gatheredIn (Connection.clearLocal p).events
  found_rollback : ∀ p, found (Connection.rollback p).after =
    found p ++ gatheredIn (Connection.rollback p).events
  found_setRemote : ∀ p d, found (Connection.setRemote p d).after =
    found p ++ gatheredIn (Connection.setRemote p d).events
  found_addCandidate : ∀ p c, found (Connection.addCandidate p c).after =
    found p ++ gatheredIn (Connection.addCandidate p c).events
  found_network : ∀ p n, found (Connection.network p n).1 =
    found p ++ gatheredIn (Connection.network p n).2

export Gathers (found)

namespace Connection

variable {κ : Type} [Connection κ]

/-- What a call and the network make of a connection, with what it reports meanwhile. -/
inductive Course (p : κ) : κ → List PeerEvent → Prop where
  | nothing : Course p p []
  | addTrack {q : κ} {events : List PeerEvent} (h : Course p q events) (t : Track) :
      Course p (addTrack q t) events
  | removeTrack {q : κ} {events : List PeerEvent} (h : Course p q events) (t : Track) :
      Course p (removeTrack q t) events
  | offer {q : κ} {events : List PeerEvent} (h : Course p q events) :
      Course p (offer q).after (events ++ (offer q).events)
  | apply {q : κ} {events : List PeerEvent} (h : Course p q events) (d : Description) :
      Course p (apply q d).after (events ++ (apply q d).events)
  | addCandidate {q : κ} {events : List PeerEvent} (h : Course p q events) (c : Candidate) :
      Course p (addCandidate q c).after (events ++ (addCandidate q c).events)
  | network {q : κ} {events : List PeerEvent} (h : Course p q events) (n : Network κ) :
      Course p (network q n).1 (events ++ (network q n).2)

namespace Course

variable {p q r : κ} {events events' : List PeerEvent}

theorem trans (h : Course p q events) (h' : Course q r events') :
    Course p r (events ++ events') := by
  induction h' with
  | nothing => rwa [List.append_nil]
  | addTrack _ t ih => exact ih.addTrack t
  | removeTrack _ t ih => exact ih.removeTrack t
  | offer _ ih =>
      rw [← List.append_assoc]
      exact ih.offer
  | apply _ d ih =>
      rw [← List.append_assoc]
      exact ih.apply d
  | addCandidate _ c ih =>
      rw [← List.append_assoc]
      exact ih.addCandidate c
  | network _ n ih =>
      rw [← List.append_assoc]
      exact ih.network n

theorem addTracks (h : Course p q events) (tracks : List Track) :
    Course p (tracks.foldl Connection.addTrack q) events := by
  induction tracks generalizing q with
  | nil => exact h
  | cons t rest ih => exact ih (h.addTrack t)

theorem removeTracks (h : Course p q events) (tracks : List Track) :
    Course p (tracks.foldl Connection.removeTrack q) events := by
  induction tracks generalizing q with
  | nil => exact h
  | cons t rest ih => exact ih (h.removeTrack t)

end Course

/-! ## What is found over a course -/

/-- A reply that reports what was found for it. -/
def Finds [Gathers κ] {α : Type} (p : κ) (o : Reply κ α) : Prop :=
  found o.after = found p ++ gatheredIn o.events

section

variable [Gathers κ] {α β : Type} {p : κ}

theorem Finds.andThen {o : Reply κ α} {f : α → κ → Reply κ β} (h : Finds p o)
    (hf : ∀ a, Finds o.after (f a o.after)) : Finds p (o.andThen f) := by
  unfold Reply.andThen
  split
  · exact h
  · rename_i a _
    have hnext : found (f a o.after).after = _ := hf a
    have hfirst : found o.after = _ := h
    simp only [Finds, hnext, hfirst, gatheredIn_append, List.append_assoc]

theorem Finds.map {o : Reply κ α} (h : Finds p o) (g : α → β) : Finds p (o.map g) := h

theorem finds_skip (p : κ) : Finds p (Reply.skip p) := by simp [Finds, Reply.skip]

theorem finds_offer (p : κ) : Finds p (offer p) :=
  .andThen (Gathers.found_createOffer p) fun d => .map (Gathers.found_setLocal _ d) _

theorem finds_makeRoom (p : κ) : Finds p (makeRoom p) := by
  unfold makeRoom
  split
  · exact Gathers.found_rollback p
  · split
    · exact Gathers.found_clearLocal p
    · exact finds_skip p
  · exact finds_skip p

theorem finds_apply (p : κ) (d : Description) : Finds p (apply p d) := by
  unfold apply
  split
  · refine .map (.andThen (finds_makeRoom p) fun _ => ?_) _
    refine .andThen (Gathers.found_setRemote _ d) fun _ => ?_
    exact .andThen (Gathers.found_createAnswer _) fun a => .map (Gathers.found_setLocal _ a) _
  · exact .map (Gathers.found_setRemote p d) _

theorem found_of_course {q : κ} {events : List PeerEvent} (h : Course p q events) :
    found q = found p ++ gatheredIn events := by
  induction h with
  | nothing => simp
  | addTrack _ t ih => rw [Gathers.found_addTrack, ih]
  | removeTrack _ t ih => rw [Gathers.found_removeTrack, ih]
  | @offer q _ _ ih =>
      have hnext : found (offer q).after = _ := finds_offer q
      rw [hnext, ih, gatheredIn_append, List.append_assoc]
  | @apply q _ _ d ih =>
      have hnext : found (apply q d).after = _ := finds_apply q d
      rw [hnext, ih, gatheredIn_append, List.append_assoc]
  | addCandidate _ c ih =>
      rw [Gathers.found_addCandidate, ih, gatheredIn_append, List.append_assoc]
  | network _ n ih => rw [Gathers.found_network, ih, gatheredIn_append, List.append_assoc]

end

end Connection

/-! ## Connections in memory -/

namespace Peer

theorem gatheredIn_announce (p : Peer) (d : Description) : gatheredIn (p.announce d).2 = [] := by
  simp [announce, gatheredIn]

theorem gatheredIn_gather (p : Peer) :
    gatheredIn p.gather.2 =
      (List.range candidatesPerDescription).map fun i => candidate p.label (p.gathered + i) := by
  rw [gatheredIn, gather, List.filterMap_map, ← List.filterMap_eq_map]
  rfl

/-- The candidates that a connection found are numbered in the order in which it found them. -/
def foundCandidates (p : Peer) : List Candidate := (List.range p.gathered).map (candidate p.label)

theorem foundCandidates_gather (p : Peer) :
    p.gather.1.foundCandidates = p.foundCandidates ++ gatheredIn p.gather.2 := by
  rw [gatheredIn_gather]
  simp [foundCandidates, gather, List.range_add, Function.comp_def]

theorem foundCandidates_setLocal (p : Peer) (d : Description) :
    (Result.reply p (p.setLocal d)).after.foundCandidates =
      p.foundCandidates ++ gatheredIn (Result.reply p (p.setLocal d)).events := by
  unfold setLocal
  split <;> simp only [Result.reply, foundCandidates_gather, gatheredIn_nil, List.append_nil] <;>
    rfl

theorem foundCandidates_setRemote (p : Peer) (d : Description) :
    (Result.reply p (p.setRemote d)).after.foundCandidates =
      p.foundCandidates ++ gatheredIn (Result.reply p (p.setRemote d)).events := by
  unfold setRemote
  split <;> simp only [Result.reply, gatheredIn_announce, gatheredIn_nil, List.append_nil] <;> rfl

instance : Gathers Peer where
  found := foundCandidates
  found_addTrack _ _ := rfl
  found_removeTrack _ _ := rfl
  found_createOffer p := (List.append_nil _).symm
  found_createAnswer p := (List.append_nil _).symm
  found_setLocal := foundCandidates_setLocal
  found_clearLocal p := by
    rw [connection_clearLocal, clearLocal]
    split <;> exact (List.append_nil _).symm
  found_rollback p := by
    rw [connection_rollback, rollback]
    split <;> exact (List.append_nil _).symm
  found_setRemote := foundCandidates_setRemote
  found_addCandidate p c := by
    rw [connection_addCandidate, Peer.addCandidate]
    split
    · exact (List.append_nil _).symm
    · split
      · exact (List.append_nil _).symm
      · dsimp only
        split <;> exact (List.append_nil _).symm
  found_network _ _ := (List.append_nil _).symm

@[simp] theorem found_eq (p : Peer) : found p = p.foundCandidates := rfl

theorem candidate_inj {label : String} {m n : Nat} (h : candidate label m = candidate label n) :
    m = n := by
  have htext := congrArg (String.toList ∘ Candidate.candidate) h
  have hdigits : ∀ k : Nat, (toString k).toList = Nat.toDigits 10 k := fun _ => Nat.toList_repr
  simp only [Function.comp_apply, candidate, String.toList_append, List.append_assoc,
    List.append_cancel_left_eq, hdigits] at htext
  exact Text.toDigits_inj (c := ' ') rfl htext

/-- No candidate is found twice. -/
theorem nodup_foundCandidates (p : Peer) : p.foundCandidates.Nodup :=
  List.Pairwise.map _ (fun _ _ hne h => hne (candidate_inj h)) List.nodup_range

end Peer

end Parley
