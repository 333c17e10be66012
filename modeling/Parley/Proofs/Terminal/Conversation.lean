import Parley.Proofs.Terminal.Screen

/-!
# A conversation in a terminal

From when a terminal is on its topic, lines, events of its session and events of its client come in
any order. At every moment a line has exactly one outcome (`Terminal.TakesLines`); over a whole run
the texts that were typed are the frames that were handed to the socket and the reports of those
that were not (`Terminal.SendsTexts`), and what the log accepts is what is printed of messages
(`Terminal.ShowsMessages`).
-/

namespace Parley.Terminal

variable {σ : Type} [MarkerStore σ]

/-- What becomes of a line now, in a terminal with a certain session. -/
structure TakesLines (t : Terminal σ) (n : Nat) : Prop where
  /-- A text that the client takes is one stored frame more that waits, and nothing is shown. -/
  taken : ∀ line text, text? line = some text →
    (t.client.transmit true t.options.topic (.text ⟨text, .written⟩)).1 = true →
    ∃ texts wire, t.client.outbound = some texts ∧
      posts [wire] = [⟨true, t.options.topic, some (.text ⟨text, .written⟩)⟩] ∧
      t.turn (.input (.line line)) =
        ({ t with client := { t.client with outbound := some (texts ++ [wire]) } }, [], [])
  /-- Any other text is reported, and nothing else happens. -/
  refused : ∀ line text, text? line = some text →
    (t.client.transmit true t.options.topic (.text ⟨text, .written⟩)).1 = false →
    t.turn (.input (.line line)) = (t, [unsent], [])
  blank : ∀ line, Text.trim line = "" → t.turn (.input (.line line)) = (t, [], [])
  who : ∀ line, Text.trim line = "/who" →
    t.turn (.input (.line line)) = (t, t.showRoster n, [])
  session : ∃ s, t.client.sessions[n]? = some s
  noMore : ∀ line s, Text.trim line = "/more" → t.client.sessions[n]? = some s →
    s.moreAvailable = false →
    t.turn (.input (.line line)) = (t, [.print "(no older messages)"], [])
  /-- The next page is asked for in one frame if the socket is open. -/
  more : ∀ line s, Text.trim line = "/more" → t.client.sessions[n]? = some s →
    s.moreAvailable = true →
    let next := t.turn (.input (.line line))
    next.2 = ([], []) ∧
    (t.client.isOpen = true → ∃ texts wire, t.client.outbound = some texts ∧
      Client.readings (Frame.posting? .loadMessages) [wire] =
        [⟨false, t.options.topic, some (.loadMessages ⟨s.page + 1, t.options.pageSize⟩)⟩] ∧
      next.1.client.outbound = some (texts ++ [wire])) ∧
    (t.client.isOpen = false → t.client.outbound = none ∧ next.1.client.outbound = none)
  /-- Whoever leaves takes no more lines. -/
  leaves : ∀ u : Turn σ, u.ends = true → (t.turn u).1.stage = .leaving

/-- What becomes of the texts that are typed in a run. -/
structure SendsTexts (t : Terminal σ) (us : List (Turn σ)) : Prop where
  typed : (t.sayings us).map Prod.fst = typed us
  noCommand : ∀ text ∈ Terminal.typed us, text ∉ commands
  /-- The frames of texts that are written or wait are among those that waited and those of the
  texts that were taken, in this order. -/
  frames : (posts (Client.written (t.run us).2.2) ++
    posts ((t.run us).1.client.outbound.getD [])).Sublist
      (posts (t.client.outbound.getD []) ++ t.options.postings (t.sayings us))
  /-- No frame is lost but with a socket. -/
  allFrames : (∀ done, done <+: us → (t.run done).1.client.outbound.isSome) →
    posts (Client.written (t.run us).2.2) ++ posts ((t.run us).1.client.outbound.getD []) =
      posts (t.client.outbound.getD []) ++ t.options.postings (t.sayings us)
  reports : (t.run us).2.1.count unsent = (t.sayings us).countP (!·.2)

/-- What becomes of the messages that arrive in a run. -/
structure ShowsMessages (t : Terminal σ) (n : Nat) (us : List (Turn σ)) : Prop where
  /-- A turn that picks a message up shows the line of its text if the log accepts it, and nothing
  else. -/
  shown : ∀ u m roster, t.heard? u = some (.message m, roster) →
    (t.turn u).2.1 = ((accepted? (.message m, roster)).map printed).toList
  printed : ((t.moments us).flatMap fun m => m.1.showing m.2) =
    ((t.heards us).filterMap accepted?).map printed
  lines : ∀ a ∈ (t.heards us).filterMap accepted?, ChatLog.IsLineOf a a.line
  log : (t.run us).1.log.entries =
    ((((t.heards us).filterMap accepted?).filter (·.historical)).map
        ChatLog.Arrival.line).reverse ++
      t.log.entries ++
        (((t.heards us).filterMap accepted?).filter (!·.historical)).map ChatLog.Arrival.line
  /-- What the session reports is picked up once, in the order in which it is reported, until the
  terminal is left. -/
  mail : ∀ done rest, stay us = done ++ rest →
    (t.heards done).map Prod.fst ++ (t.run done).1.client.stream n <+:
      (t.heards us).map Prod.fst ++ (t.run (stay us)).1.client.stream n

theorem Standing.takesLines {t : Terminal σ} (h : t.Standing) {n : Nat}
    (hstage : t.stage = .joined n) : t.TakesLines n := by
  obtain ⟨s, hs, hserves⟩ := h.session n hstage
  refine
    { taken := fun line text htext htaken => turn_taken h hstage htext htaken
      refused := fun line text htext hrefused => turn_refused h hstage htext hrefused
      blank := fun line htrim => turn_blank hstage htrim
      who := fun line htrim => turn_who hstage htrim
      session := ⟨s, hs⟩
      noMore := fun line s htrim hs hmore => ?_
      more := fun line s' htrim hs' hmore => ?_
      leaves := fun u hends => stage_turn_of_ends hstage hends }
  · rw [turn_more hstage htrim hs, hmore]
    rfl
  · cases hs.symm.trans hs'
    have hfits := hserves.fits hmore
    rw [turn_more hstage htrim hs, hmore, ← hserves.topic, ← hserves.pageSize]
    rw [← hserves.topic] at hfits
    exact ⟨rfl, fun hopen => Client.loadMore_posting h.client hs hopen hfits,
      fun hclosed => Client.outbound_loadMore_of_closed h.client hclosed n⟩

theorem Standing.sendsTexts {t : Terminal σ} (h : t.Standing) {n : Nat}
    (hstage : t.stage = .joined n) {us : List (Turn σ)} (hus : ∀ u ∈ us, u.IsGenuine) :
    t.SendsTexts us where
  typed := map_fst_sayings_eq_typed hstage us
  noCommand _ htext := not_mem_commands_of_typed htext
  frames := (posts_run h hus).1
  allFrames := (posts_run h hus).2
  reports := count_unsent_run h hus

theorem Standing.showsMessages {t : Terminal σ} (h : t.Standing) {n : Nat}
    (hstage : t.stage = .joined n) {us : List (Turn σ)} (hus : ∀ u ∈ us, u.IsGenuine) :
    t.ShowsMessages n us := by
  obtain ⟨acts, hlog, haccepted⟩ := log_run h hus
  refine
    { shown := fun u m roster hheard => shown_of_message hheard
      printed := t.showing_run us
      lines := fun a ha => ?_
      log := ?_
      mail := fun done rest hstay => ?_ }
  · rw [← haccepted] at ha
    exact ChatLog.isLineOf_line (ChatLog.keyed_of_mem_accepted ha)
  · rw [hlog, ChatLog.entries_run, haccepted]
  · have hgenuine : ∀ u ∈ done ++ rest, u.IsGenuine :=
      fun u hu => hus u (mem_of_mem_stay (hstay ▸ hu))
    have hends : ∀ u ∈ done ++ rest, u.ends = false := fun u hu => ends_of_mem_stay (hstay ▸ hu)
    obtain ⟨hdone, hrest⟩ := List.forall_mem_append.mp hgenuine
    obtain ⟨hdone', hrest'⟩ := List.forall_mem_append.mp hends
    rw [heards, heards, ← collect_stay onTopic_heard hstage us, hstay, collect_append, run_append,
      List.map_append, List.append_assoc]
    exact (List.prefix_append_right_inj _).mpr
      (stream_run (h.run hdone) (stage_run hstage hdone') hrest hrest')

/-- A terminal that is on its topic, after whatever happened before, and whatever happens then: what
becomes of a line now, and of the texts and the messages from now on. -/
theorem converses (options : Options) (markers : σ) (before us : List (Turn σ)) (n : Nat)
    (hgenuine : ∀ u ∈ before ++ us, u.IsGenuine)
    (hstage : ((start options markers).run before).1.stage = .joined n) :
    let t := ((start options markers).run before).1
    t.TakesLines n ∧ t.SendsTexts us ∧ t.ShowsMessages n us := by
  obtain ⟨hbefore, hus⟩ := List.forall_mem_append.mp hgenuine
  have h := (Standing.start options markers).run hbefore
  exact ⟨h.takesLines hstage, h.sendsTexts hstage hus, h.showsMessages hstage hus⟩

/-- A line is sent, a command ends the conversation, and what is typed after it is not sent. -/
theorem converses_until_quit :
    let options : Options := { host := "localhost", topic := "room" }
    let before : List (Turn Marker) :=
      [.input (.network (.ticket (.ok ⟨"s1", "c1"⟩))), .input (.network .opened), .input .told]
    let us : List (Turn Marker) :=
      [.input (.line " hello "), .input (.line "/quit"), .input (.line "later")]
    let t := ((start options Marker.absent).run before).1
    (∀ u ∈ before ++ us, u.IsGenuine) ∧ t.stage = .joined 0 ∧ typed us = ["hello"] ∧
      t.sayings us = [("hello", true)] ∧ (t.sayings us).map Prod.fst = typed us ∧
      posts (Client.written (t.run us).2.2) ++ posts ((t.run us).1.client.outbound.getD []) =
        posts (t.client.outbound.getD []) ++ [⟨true, "room", some (.text ⟨"hello", .written⟩)⟩] ∧
      (t.run us).2.1.count unsent = 0 := by
  intro options before us t
  have hgenuine : ∀ u ∈ before ++ us, u.IsGenuine := by
    simp [before, us, Turn.IsGenuine, Turn.world?, Client.Turn.ComesIn]
  have hstage : t.stage = .joined 0 := by decide +kernel
  have hsaid : t.sayings us = [("hello", true)] := by decide +kernel
  have hopen : ∀ done, done <+: us → (t.run done).1.client.outbound.isSome := by
    intro done hdone
    simp only [us, List.prefix_cons_iff, List.prefix_nil] at hdone
    rcases hdone with rfl | ⟨_, rfl, rfl | ⟨_, rfl, rfl | ⟨_, rfl, rfl⟩⟩⟩ <;> decide +kernel
  have htexts : t.SendsTexts us :=
    (converses options Marker.absent before us 0 hgenuine hstage).2.1
  have hoptions : t.options = options := options_run _ before
  have hframes := htexts.allFrames hopen
  have hreports := htexts.reports
  rw [hsaid] at hreports
  rw [hsaid, hoptions] at hframes
  exact ⟨hgenuine, hstage, by decide +kernel, hsaid, htexts.typed, hframes, hreports⟩

end Parley.Terminal
