import Parley.Marker.Disk

/-!
# A marker file is as good as a marker in memory

Two marker stores that show the same marker and go on doing so whatever is stored cannot be told
apart by the calls that are made with them (`MarkerStore.Simulates`). A file that can be written
shows the marker that was stored in it last, as a marker in memory does; before that it shows the
one that its bytes spell.
-/

namespace Parley

/-! ## Stores that cannot be told apart -/

section Simulation

variable {σ τ : Type} [MarkerStore σ] [MarkerStore τ]

/-- Related stores show the same marker and stay related when the same marker is stored in both. -/
structure MarkerStore.Simulates (R : σ → τ → Prop) : Prop where
  load : ∀ {s t}, R s t → MarkerStore.load s = MarkerStore.load t
  store : ∀ {s t} m, R s t → R (MarkerStore.store m s) (MarkerStore.store m t)

namespace MarkerStore.Simulates

variable {R : σ → τ → Prop} {s : σ} {t : τ}

theorem onClose (hR : Simulates R) (h : R s t) (p : ReconnectPolicy) :
    (p.onClose s).1 = (p.onClose t).1 ∧ (p.onClose s).2.1 = (p.onClose t).2.1 ∧
      R (p.onClose s).2.2 (p.onClose t).2.2 := by
  unfold ReconnectPolicy.onClose
  rw [hR.load h]
  cases MarkerStore.load t with
  | absent => exact ⟨rfl, rfl, h⟩
  | active => exact ⟨rfl, rfl, h⟩
  | blurred => exact ⟨rfl, rfl, hR.store .absent h⟩

theorem onFocus (hR : Simulates R) (h : R s t) (focused isOpen : Bool) :
    R (ReconnectPolicy.onFocus focused isOpen s) (ReconnectPolicy.onFocus focused isOpen t) := by
  unfold ReconnectPolicy.onFocus
  rw [hR.load h]
  split
  · exact hR.store .blurred h
  · split
    · exact hR.store .active h
    · exact h
  · exact h

/-- A call has the same answer on both sides and leaves them related. -/
theorem perform (hR : Simulates R) (h : R s t) (c : MarkerCall) (ps : Policies) :
    (c.perform ps s).1 = (c.perform ps t).1 ∧ (c.perform ps s).2.1 = (c.perform ps t).2.1 ∧
      R (c.perform ps s).2.2 (c.perform ps t).2.2 := by
  cases c with
  | load => exact ⟨congrArg MarkerAnswer.marker (hR.load h), rfl, h⟩
  | store m => exact ⟨rfl, rfl, hR.store m h⟩
  | close n =>
      obtain ⟨hdecision, hpolicy, hstores⟩ := hR.onClose h (ps n)
      exact ⟨congrArg MarkerAnswer.decision hdecision, congrArg (ps.set n) hpolicy, hstores⟩
  | opened n => exact ⟨rfl, rfl, hR.store .active h⟩
  | focus focused isOpen => exact ⟨rfl, rfl, hR.onFocus h focused isOpen⟩
  | noticeShown n => exact ⟨rfl, rfl, h⟩

end MarkerStore.Simulates

end Simulation

/-! ## One file -/

namespace MarkerFile

variable {f : MarkerFile} {bs : List UInt8}

/-- The file can be read, written and removed, whether it is there or not. -/
def Usable : MarkerFile → Prop
  | missing | holding _ => True
  | directory | unreachable => False

theorem Usable.store (hf : f.Usable) (m : Marker) : (f.store m).Usable := by
  cases f with
  | missing => cases m <;> trivial
  | holding bs => cases m <;> trivial
  | directory => exact hf.elim
  | unreachable => exact hf.elim

theorem load_write (hf : f.Usable) (s : String) : (f.write (Text.bytes s)).load = Marker.ofText s := by
  have hwrite : f.write (Text.bytes s) = holding (Text.bytes s) := by
    cases f with
    | missing => rfl
    | holding bs => rfl
    | directory => exact hf.elim
    | unreachable => exact hf.elim
  rw [hwrite, load, Text.ofBytes?_bytes]
  rfl

/-- A file that can be used shows the marker that was stored last. -/
theorem load_store (hf : f.Usable) (m : Marker) : (f.store m).load = m := by
  cases m with
  | absent =>
      cases f with
      | directory => exact hf.elim
      | missing => rfl
      | holding bs => rfl
      | unreachable => rfl
  | active => exact (load_write hf "true").trans (by decide)
  | blurred => exact (load_write hf "blurred").trans (by decide)

/-- A file shows an active or a blurred marker if it holds the word for it, with white space around
it or not. -/
theorem load_eq_iff {word : String} {m : Marker} (hm : ∀ s, Marker.ofText s = m ↔ Text.trim s = word)
    (habsent : m ≠ .absent) :
    f.load = m ↔ ∃ text, f = holding (Text.bytes text) ∧ Text.trim text = word := by
  constructor
  · intro hload
    cases f with
    | holding bs =>
        change Marker.ofText? (Text.ofBytes? bs) = m at hload
        cases htext : Text.ofBytes? bs with
        | none =>
            rw [htext] at hload
            exact absurd hload.symm habsent
        | some text =>
            rw [htext, Marker.ofText?, Option.map_some, Option.getD_some] at hload
            exact ⟨text, by rw [Text.bytes_of_ofBytes? htext], (hm text).mp hload⟩
    | missing => exact absurd hload.symm habsent
    | directory => exact absurd hload.symm habsent
    | unreachable => exact absurd hload.symm habsent
  · rintro ⟨text, rfl, htext⟩
    rw [load, Text.ofBytes?_bytes, Marker.ofText?, Option.map_some, Option.getD_some]
    exact (hm text).mpr htext

theorem load_eq_active_iff :
    f.load = .active ↔ ∃ text, f = holding (Text.bytes text) ∧ Text.trim text = "true" := by
  refine load_eq_iff (fun s => ?_) nofun
  unfold Marker.ofText
  dsimp only
  split
  · simp_all
  · split <;> simp_all

theorem load_eq_blurred_iff :
    f.load = .blurred ↔ ∃ text, f = holding (Text.bytes text) ∧ Text.trim text = "blurred" := by
  refine load_eq_iff (fun s => ?_) nofun
  unfold Marker.ofText
  dsimp only
  split
  · simp_all
  · split <;> simp_all

end MarkerFile

/-! ## A file on the disk -/

/-- At the path stands a file that can be used and shows the marker; the rest of the disk is as it
was. -/
structure Disk.Shows (path : String) (d before : Disk) (marker : Marker) : Prop where
  usable : (d path).Usable
  load : (d path).load = marker
  rest : ∀ p, p ≠ path → d p = before p

namespace Mount

/-- A disk used through a store for the path. -/
def Shows (path : String) (before : Disk) (m : Mount) (marker : Marker) : Prop :=
  m.store.path = path ∧ m.disk.Shows path before marker

theorem simulates (path : String) (before : Disk) : MarkerStore.Simulates (Shows path before) where
  load h := by
    obtain ⟨rfl, hdisk⟩ := h
    exact hdisk.load
  store {m _} marker h := by
    obtain ⟨rfl, hdisk⟩ := h
    have hfile : (MarkerStore.store marker m : Mount).disk m.store.path = m.file.store marker :=
      if_pos rfl
    refine ⟨rfl, ?_, ?_, fun p hp => ?_⟩
    · rw [hfile]
      exact hdisk.usable.store marker
    · rw [hfile]
      exact MarkerFile.load_store hdisk.usable marker
    · exact (if_neg hp).trans (hdisk.rest p hp)

end Mount

namespace MarkerCall

theorem run_of_shows {path : String} {before d : Disk} {marker : Marker}
    (h : d.Shows path before marker) {calls : List (FileStore × MarkerCall)}
    (hcalls : ∀ c ∈ calls, c.1.path = path) (ps : Policies) :
    (runOnDisk ps d calls).1 = (run ps marker (calls.map (·.2))).1 ∧
      (runOnDisk ps d calls).2.1 = (run ps marker (calls.map (·.2))).2.1 ∧
      (runOnDisk ps d calls).2.2.Shows path before (run ps marker (calls.map (·.2))).2.2 := by
  induction calls generalizing d marker ps with
  | nil => exact ⟨rfl, rfl, h⟩
  | cons c rest ih =>
      obtain ⟨files, c⟩ := c
      obtain ⟨hpath, hrest⟩ := List.forall_mem_cons.mp hcalls
      obtain ⟨hanswer, hpolicies, -, hdisk⟩ :=
        (Mount.simulates path before).perform (s := ⟨files, d⟩) ⟨hpath, h⟩ c ps
      obtain ⟨hanswers, hpolicies', hdisk'⟩ := ih hdisk hrest (c.perform ps marker).2.1
      simp only [runOnDisk, run, List.map_cons]
      rw [hanswer, hpolicies, hanswers]
      exact ⟨rfl, hpolicies', hdisk'⟩

/-- Calls through any stores for a path have the answers of the same calls of one marker in memory
that began as what the file spelled, and leave the same policies and the same marker behind. -/
theorem file_is_as_memory (path : String) (d : Disk) (hfile : (d path).Usable) (ps : Policies)
    (calls : List (FileStore × MarkerCall)) (hcalls : ∀ c ∈ calls, c.1.path = path) :
    let onDisk := runOnDisk ps d calls
    let inMemory := run ps (d path).load (calls.map (·.2))
    onDisk.1 = inMemory.1 ∧ onDisk.2.1 = inMemory.2.1 ∧
      (onDisk.2.2 path).load = inMemory.2.2 ∧ (∀ p, p ≠ path → onDisk.2.2 p = d p) ∧
      ((d path).load = .active ↔
        ∃ text, d path = .holding (Text.bytes text) ∧ Text.trim text = "true") ∧
      ((d path).load = .blurred ↔
        ∃ text, d path = .holding (Text.bytes text) ∧ Text.trim text = "blurred") := by
  intro onDisk inMemory
  have hshows : d.Shows path d (d path).load := ⟨hfile, rfl, fun _ _ => rfl⟩
  obtain ⟨hanswers, hpolicies, hend⟩ := run_of_shows hshows hcalls ps
  exact ⟨hanswers, hpolicies, hend.load, hend.rest, MarkerFile.load_eq_active_iff,
    MarkerFile.load_eq_blurred_iff⟩

/-- A padded word is an active marker. The window loses the focus, the connection is lost twice, and
a store is made anew in between. -/
theorem file_is_as_memory_padded :
    let d : Disk := fun path =>
      if path = "on-call" then .holding (Text.bytes "\t true\n") else .missing
    let ps : Policies := fun _ => { delay := 5000 }
    let old : FileStore := ⟨"on-call"⟩
    let new : FileStore := ⟨"on-call"⟩
    let calls : List (FileStore × MarkerCall) :=
      [(old, .close 0), (old, .noticeShown 0), (old, .opened 0), (old, .focus false true),
        (new, .load), (new, .close 1), (old, .load), (new, .close 1)]
    (runOnDisk ps d calls).1 =
        [.decision ⟨.after 5000, some .reconnecting⟩, .shown true, .notice (some .reconnected),
          .done, .marker .blurred, .decision ⟨.immediate, none⟩, .marker .absent,
          .decision ⟨.stay, none⟩] ∧
      ((runOnDisk ps d calls).2.2 "on-call").load = .absent := by
  intro d ps old new calls
  obtain ⟨hanswers, -, hend, -, hactive, -⟩ :=
    file_is_as_memory "on-call" d trivial ps calls (by decide)
  rw [hactive.mpr ⟨"\t true\n", rfl, by decide⟩] at hanswers hend
  exact ⟨hanswers.trans (by decide), hend.trans (by decide)⟩

end MarkerCall

end Parley
