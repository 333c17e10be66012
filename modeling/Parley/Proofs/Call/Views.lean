import Mathlib.Data.List.Chain
import Parley.Proofs.Call.Inputs
import Parley.Proofs.Call.MediaOperations
import Parley.Proofs.Listings

/-!
# What observers see

An observer of a call knows of it what it was told: the remote streams and the control. Every step
tells of what it changes of these, after the change, so that the observer's view is that of the call
(`Call.Shows`). A step that tells of no streams leaves the remote media of every link as they are.
The control is told of only when it changes.
-/

namespace Parley

/-- What can be seen of a call. -/
structure View where
  streams : List (String × MediaStream) := []
  control : Control := .start

namespace View

def see (v : View) : CallEvent → View
  | .streamsUpdated streams => { v with streams }
  | .controlChanged control => { v with control }
  | .notice _ => v

end View

def CallEvent.streams? : CallEvent → Option (List (String × MediaStream))
  | .streamsUpdated streams => some streams
  | _ => none

def CallEvent.control? : CallEvent → Option Control
  | .controlChanged control => some control
  | _ => none

/-- The view that comes of events has what was last told of each part. -/
theorem View.foldl_see (events : List CallEvent) (v : View) :
    events.foldl View.see v = ⟨(events.filterMap CallEvent.streams?).getLastD v.streams,
      (events.filterMap CallEvent.control?).getLastD v.control⟩ := by
  induction events generalizing v with
  | nil => rfl
  | cons e rest ih =>
      rw [List.foldl_cons, ih]
      cases e with
      | streamsUpdated streams =>
          simp only [see, CallEvent.streams?, CallEvent.control?, List.filterMap_cons,
            List.getLastD_cons]
      | controlChanged control =>
          simp only [see, CallEvent.streams?, CallEvent.control?, List.filterMap_cons,
            List.getLastD_cons]
      | notice n => rfl

theorem MediaStream.eq_empty_of_isEmpty {m : MediaStream} (h : m.isEmpty = true) : m = {} :=
  congrArg MediaStream.mk (List.isEmpty_iff.mp h)

namespace Call

variable {κ : Type}

/-- What the user interface is told. -/
def told (effects : List CallEffect) : List CallEvent :=
  effects.filterMap fun
    | .tell e => some e
    | _ => none

@[simp] theorem told_append (xs ys : List CallEffect) : told (xs ++ ys) = told xs ++ told ys :=
  List.filterMap_append

def view (c : Call κ) : View := ⟨c.streams, c.control⟩

/-! ## Remote media -/

/-- The remote media of every link, in the order of the participants' ids. -/
def remoteMedia (c : Call κ) : List (String × MediaStream) :=
  c.links.toList.map fun e => (e.1, e.2.media)

theorem streams_eq (c : Call κ) : c.streams = c.remoteMedia.filter fun e => !e.2.isEmpty := by
  rw [remoteMedia, List.filter_map]
  rfl

theorem mem_streams_iff {c : Call κ} {r : String} {m : MediaStream} :
    (r, m) ∈ c.streams ↔ m.isEmpty = false ∧ ∃ l, c.links.find? r = some l ∧ l.media = m := by
  rw [streams_eq, List.mem_filter, remoteMedia, List.mem_map]
  constructor
  · rintro ⟨⟨⟨r, l⟩, hl, heq⟩, hm⟩
    cases heq
    exact ⟨by simpa using hm, l, Table.find?_eq_some_iff.mpr hl, rfl⟩
  · rintro ⟨hm, l, hl, rfl⟩
    exact ⟨⟨(r, l), Table.find?_eq_some_iff.mp hl, rfl⟩, by simp [hm]⟩

/-- The streams are in the order of the ids, one of each participant. -/
theorem pairwise_streams (c : Call κ) : c.streams.Pairwise (·.1 < ·.1) := by
  have hordered : c.remoteMedia.Pairwise (·.1 < ·.1) := List.pairwise_map.mpr c.links.ordered
  rw [streams_eq]
  exact hordered.filter _

theorem streams_put {c : Call κ} {r : String} {l k : Link κ} (hl : c.links.find? r = some l)
    (hk : k.media = l.media) : (c.put r k).streams = c.streams := by
  rw [streams_eq, streams_eq]
  exact congrArg (List.filter _) (Table.map_toList_insert hl (by rw [hk]))

theorem streams_map {c c' : Call κ} {f : Link κ → Link κ} (hf : ∀ l, (f l).media = l.media)
    (hlinks : c'.links = c.links.map fun _ l => f l) : c'.streams = c.streams := by
  have hmedia : c'.remoteMedia = c.remoteMedia := by
    rw [remoteMedia, hlinks]
    refine List.map_map.trans (congrArg (List.map · c.links.toList) (funext fun e => ?_))
    exact congrArg (Prod.mk e.1) (hf e.2)
  rw [streams_eq, streams_eq, hmedia]

/-- A new link brings no stream. -/
theorem streams_insert {c c' : Call κ} {r : String} {k : Link κ} (hl : c.links.find? r = none)
    (hk : k.media = {}) (hlinks : c'.links = c.links.insert r k) : c'.streams = c.streams := by
  obtain ⟨before, after, hinsert, hlist⟩ := c.links.exists_toList_insert r k
  rw [streams_eq, streams_eq, remoteMedia, remoteMedia, hlinks, hinsert, hlist, hl]
  simp [hk, MediaStream.isEmpty]

/-! ## Steps -/

/-- A step tells of all that it changes: whoever saw the call before and hears what is told sees the
call after it. Each control that is told of is another one than that before. -/
structure Shows (c : Call κ) (t : Step κ) : Prop where
  view : (told t.2).foldl View.see c.view = t.1.view
  differs : (c.control :: (told t.2).filterMap CallEvent.control?).IsChain (· ≠ ·)

namespace Shows

variable {c : Call κ} {t : Step κ}

theorem last (h : Shows c t) :
    ((told t.2).filterMap CallEvent.control?).getLastD c.control = t.1.control := by
  have hview := h.view
  rw [View.foldl_see] at hview
  exact congrArg View.control hview

theorem andThen {f : Call κ → Step κ} (h : Shows c t) (hf : Shows t.1 (f t.1)) :
    Shows c (t.andThen f) where
  view := by
    rw [Step.andThen_effects, told_append, List.foldl_append, h.view]
    exact hf.view
  differs := by
    obtain ⟨hhead, htail⟩ := List.isChain_cons.mp hf.differs
    rw [Step.andThen_effects, told_append, List.filterMap_append, ← List.cons_append,
      List.isChain_append]
    refine ⟨h.differs, htail, fun x hx y hy => ?_⟩
    have hlast : t.1.control = x := by
      rw [← h.last, List.getLastD_eq_getLast?]
      rw [List.getLast?_cons] at hx
      exact Option.some.inj hx
    exact hlast ▸ hhead y hy

/-- A step that changes nothing to be seen and tells nothing. -/
theorem aside (hstreams : t.1.streams = c.streams) (hcontrol : t.1.control = c.control)
    (htold : told t.2 = []) : Shows c t where
  view := by rw [htold, Call.view, Call.view, hstreams, hcontrol]; rfl
  differs := by rw [htold]; exact .singleton _

/-- A step after which it is told of the streams, whatever became of them. -/
theorem update (hcontrol : t.1.control = c.control)
    (htold : told t.2 = [.streamsUpdated t.1.streams]) : Shows c t where
  view := by rw [htold, Call.view, Call.view, hcontrol]; rfl
  differs := by rw [htold]; exact .singleton _

/-- A step that starts from other streams, if it is told of the streams when it is done. -/
theorem update_last {d : Call κ} {effects : List CallEffect} (htold : told effects = [])
    (hcontrol : d.control = c.control) (h : Shows d t) :
    Shows c (Step.andThen (d, effects) fun _ => t.andThen fun c => (c, c.tellStreams)) := by
  have hevents : told (effects ++ (t.2 ++ t.1.tellStreams)) =
      told t.2 ++ [.streamsUpdated t.1.streams] := by
    rw [told_append, told_append, htold]
    rfl
  have hlast := h.last
  have hdiffers := h.differs
  rw [hcontrol] at hlast hdiffers
  constructor
  · change (told (effects ++ (t.2 ++ t.1.tellStreams))).foldl View.see c.view = t.1.view
    rw [hevents, List.foldl_append, View.foldl_see (told t.2)]
    exact congrArg (View.mk t.1.streams) hlast
  · change List.IsChain _ (c.control ::
      (told (effects ++ (t.2 ++ t.1.tellStreams))).filterMap CallEvent.control?)
    rw [hevents, List.filterMap_append]
    exact (List.append_nil _).symm ▸ hdiffers

theorem nothing (c : Call κ) : Shows c (c, []) := aside rfl rfl rfl

theorem say {effects : List CallEffect} (h : told effects = []) : Shows c (c, effects) :=
  aside rfl rfl h

theorem notice (n : Notice) : Shows c (c, [.tell (.notice n)]) := ⟨rfl, .singleton _⟩

theorem setControl (control : Control) (c : Call κ) : Shows c (c.setControl control) := by
  unfold Call.setControl
  split
  · exact nothing c
  · rename_i hne
    exact ⟨rfl, .cons_cons hne (.singleton _)⟩

theorem told_releaseAll (s : MediaStream) : told (releaseAll s) = [] := by
  simp [told, releaseAll]

variable [Connection κ]

theorem of_op {s : Setting κ} {q : Event → Prop} (h : Op s q c t) : Shows c t := by
  cases h with
  | note _ _ => exact aside rfl rfl rfl
  | say _ => exact say rfl
  | refuse _ _ => exact aside rfl rfl rfl
  | make hl _ => exact aside (streams_insert hl rfl rfl) rfl rfl
  | report o hl hk => exact aside (streams_put hl hk.media) rfl (by simp [putReported, told])
  | describe _ _ => exact say (by simp [told, sendDescription])
  | track _ _ => exact update rfl rfl
  | @clear remote l hl =>
      by_cases hmedia : l.media.isEmpty = true
      · have hcleared : l.clearMedia.2 = false := by simp [Link.clearMedia, hmedia]
        rw [hcleared]
        exact aside (streams_put hl (MediaStream.eq_empty_of_isEmpty hmedia).symm) rfl rfl
      · have hcleared : l.clearMedia.2 = true := by simp [Link.clearMedia, hmedia]
        rw [hcleared]
        exact update rfl rfl
  | remove hl =>
      rw [Call.remove, hl]
      exact update rfl rfl

theorem of_mediaOp (h : MediaOp c t) : Shows c t := by
  cases h with
  | control control => exact setControl control c
  | epoch => exact aside rfl rfl rfl
  | attach stream =>
      exact aside (streams_map (f := fun l => l.attach stream) (fun _ => rfl) rfl) rfl rfl
  | detach stream =>
      exact aside (streams_map (f := fun l => l.detach stream) (fun _ => rfl) rfl) rfl
        (told_releaseAll _)
  | release _ => exact say (told_releaseAll _)
  | acquire _ _ => exact say rfl
  | say _ => exact say rfl
  | notice n => exact notice n

omit [Connection κ] in
theorem ready {remote : String} {l : Link κ} {k : Link κ × List Candidate}
    (hl : c.links.find? remote = some l) (hk : k.1.Follows l) : Shows c (c.putReady remote k) :=
  aside (streams_put hl hk.media) rfl (by simp [putReady, told, sendCandidate])

theorem teardown (c : Call κ) : Shows c c.teardown := by
  unfold Call.teardown
  split
  · exact nothing c
  · -- The links are gone before the control changes, and the streams are told of after that.
    let c' : Call κ := { c with
      ended := true, epoch := c.epoch + 1, links := .empty, held := none,
      retired := c.retired ++ c.links.values.map Link.close }
    exact update_last (d := c') (told_releaseAll _) rfl (setControl .start c')

theorem step (s : Setting κ) (c : Call κ) (i : Input) : Shows c (c.step s i) := by
  by_cases hi : i = .teardown
  · subst hi
    exact teardown c
  · exact of_makes .andThen .nothing .of_op .ready .of_mediaOp (makes_step hi s c)

theorem network (c : Call κ) (remote : String) (serial : Nat) (n : Connection.Network κ) :
    Shows c (c.updatePeer remote serial fun p => (Connection.network p n).1, []) := by
  let update (l : Link κ) : Link κ :=
    if l.remote = remote ∧ l.serial = serial then
      { l with peer := (Connection.network l.peer n).1 } else l
  have hmedia : ∀ l, (update l).media = l.media := by
    intro l
    unfold update
    split <;> rfl
  exact aside (streams_map hmedia rfl) rfl rfl

end Shows

end Call

namespace Agent

variable {κ : Type} [Connection κ]

/-- Whatever an agent lived through: who replays what it told, from no streams and the control that
offers to start, has the streams and the control of its call. These are what was last told of each,
and the streams are those of all links that receive a track, in the order of the ids. No control was
told of twice in a row. -/
theorem observers_are_never_stale (history : List (Setting κ × Turn κ)) :
    let c := (run {} history).1.call
    let events := Call.told (run {} history).2
    events.foldl View.see {} = ⟨c.streams, c.control⟩ ∧
      (events.filterMap CallEvent.streams?).getLastD [] = c.streams ∧
      (events.filterMap CallEvent.control?).getLastD .start = c.control ∧
      (∀ r m, (r, m) ∈ c.streams ↔
        m.isEmpty = false ∧ ∃ l, c.links.find? r = some l ∧ l.media = m) ∧
      c.streams.Pairwise (·.1 < ·.1) ∧
      (Control.start :: events.filterMap CallEvent.control?).IsChain (· ≠ ·) := by
  intro c events
  have hshows : Call.Shows {} (c, (run {} history).2) :=
    run_of_steps .nothing .andThen .step .network {} history
  have hview : events.foldl View.see {} = c.view := hshows.view
  have hlast := hview
  rw [View.foldl_see] at hlast
  exact ⟨hview, congrArg View.streams hlast, congrArg View.control hlast,
    fun _ _ => Call.mem_streams_iff, c.pairwise_streams, hshows.differs⟩

end Agent

end Parley
