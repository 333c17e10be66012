import Parley.Proofs.Call.Lines

/-!
# Lines in a step

A step of a call may act on several lines, as when it publishes a stream. What comes of one of them
is said in `line_step`: unless the step cuts the line, the link stays the same link, its stance
moves as it does when a description is heard or an offer is made, and the descriptions that go there
are those of that move. With that, every link of a call is in some stance after every step
(`sound_step`).
-/

namespace Parley

namespace Call

variable {r : String} {c : Call} {st : Stance}

/-! ## What a step does on a line -/

/-- What comes of the line to a participant in a step: the stance of the link and the descriptions
that go there. A link that is there stays the same link. -/
structure Line (r : String) (c : Call) (t : Step) (st : Stance) (ds : List Description) : Prop where
  stands : t.1.At r st
  serial : ∀ l, c.links.find? r = some l → ∃ l', t.1.links.find? r = some l' ∧ l'.serial = l.serial
  sends : descriptionsTo r t.2 = ds
  alive : ∀ signal ∈ Agent.reports t.2, signal.event.IsAlive

theorem at_congr {c' : Call} (h : c.At r st) (hlinks : c'.links.find? r = c.links.find? r) :
    c'.At r st := by rwa [At, hlinks]

theorem Acts.line {t : Step} {ds : List Description} (h : Acts r c t ds) (hat : t.1.At r st) :
    Line r c t st ds :=
  ⟨hat, h.serial, h.sends, h.alive⟩

theorem Acts.line_of_ne {r' : String} {t : Step} {ds : List Description} (h : Acts r' c t ds)
    (hne : r ≠ r') (hat : c.At r st) : Line r c t st [] where
  stands := at_congr hat (h.elsewhere r hne)
  serial l hl := ⟨l, (h.elsewhere r hne).trans hl, rfl⟩
  sends := h.quiet r hne
  alive := h.alive

theorem Acts.sound {t : Step} {ds : List Description} (h : Acts r c t ds) (hat : t.1.At r st)
    (hc : c.Sound) : t.1.Sound := by
  intro r'
  by_cases hr : r' = r
  · exact ⟨st, hr ▸ hat⟩
  · obtain ⟨st', hst'⟩ := hc r'
    exact ⟨st', at_congr hst' (h.elsewhere r' hr)⟩

theorem Line.andThen {t : Step} {f : Call → Step} {st' : Stance} {ds ds' : List Description}
    (h : Line r c t st ds) (hf : Line r t.1 (f t.1) st' ds') :
    Line r c (t.andThen f) st' (ds ++ ds') where
  stands := hf.stands
  serial l hl := by
    obtain ⟨l', hl', hserial⟩ := h.serial l hl
    obtain ⟨l'', hl'', hserial'⟩ := hf.serial l' hl'
    exact ⟨l'', hl'', hserial'.trans hserial⟩
  sends := by rw [Step.andThen_effects, descriptionsTo_append, h.sends, hf.sends]
  alive signal hsignal := by
    rw [Step.andThen_effects, Agent.reports_append] at hsignal
    exact (List.mem_append.mp hsignal).elim (h.alive signal) (hf.alive signal)

/-- A step that changes all links alike, in a way that stances do not see. -/
theorem line_map {f : Link → Link} {c' : Call} {effects : List CallEffect} (h : c.At r st)
    (hlinks : c'.links = c.links.map fun _ l => f l) (hf : ∀ l, l.Holds st → (f l).Holds st)
    (hserial : ∀ l, (f l).serial = l.serial) (hsends : descriptionsTo r effects = [])
    (hreports : Agent.reports effects = []) : Line r c (c', effects) st [] where
  stands := by
    simp only [At, hlinks, Table.find?_map]
    cases hl : c.links.find? r with
    | none => simpa [At, hl] using h
    | some l => exact hf l (by simpa [At, hl] using h)
  serial l hl := ⟨f l, by simp [hlinks, hl], hserial l⟩
  sends := hsends
  alive signal hsignal := by rw [hreports] at hsignal; cases hsignal

/-- A step that leaves the links alone and sends neither descriptions nor reports. -/
theorem line_nothing {c' : Call} {effects : List CallEffect} (h : c.At r st)
    (hlinks : c'.links = c.links) (hsends : descriptionsTo r effects = [])
    (hreports : Agent.reports effects = []) : Line r c (c', effects) st [] where
  stands := at_congr h (by rw [hlinks])
  serial l hl := ⟨l, by rw [hlinks, hl], rfl⟩
  sends := hsends
  alive signal hsignal := by rw [hreports] at hsignal; cases hsignal

theorem line_setControl (control : Control) (h : c.At r st) :
    Line r c (c.setControl control) st [] := by
  unfold setControl
  split <;> exact line_nothing h rfl rfl rfl

/-- Where every participant gets one offer, there is at most one on each line. -/
theorem line_offerAll {s : Setting} (hs : s.Fresh) {remotes : List String}
    (hnodup : remotes.Nodup) (hc : c.Sound) (h : c.At r st) :
    ∃ st' ds, Spoken st st' ds ∧ (r ∉ remotes → st' = st ∧ ds = []) ∧
      Line r c (offerAll s remotes c) st' ds := by
  induction remotes generalizing c st with
  | nil => exact ⟨st, [], .nothing, fun _ => ⟨rfl, rfl⟩, line_nothing h rfl rfl rfl⟩
  | cons remote rest ih =>
      obtain ⟨hmem, hrest⟩ := List.nodup_cons.mp hnodup
      rw [offerAll]
      by_cases hr : r = remote
      · subst hr
        obtain ⟨st₁, ds₁, hspoken, hacts, hat⟩ := acts_offer hs h
        obtain ⟨st', ds, -, hskip, hline⟩ := ih hrest (hacts.sound hat hc) hat
        obtain ⟨rfl, rfl⟩ := hskip hmem
        refine ⟨st', ds₁, hspoken, fun hnot => absurd List.mem_cons_self hnot, ?_⟩
        rw [← List.append_nil ds₁]
        exact (hacts.line hat).andThen hline
      · obtain ⟨st₁, hst₁⟩ := hc remote
        obtain ⟨_, _, _, hacts, hat⟩ := acts_offer hs hst₁
        have hline := hacts.line_of_ne hr h
        obtain ⟨st', ds, hspoken, hskip, hline'⟩ := ih hrest (hacts.sound hat hc) hline.stands
        refine ⟨st', ds, hspoken, fun hnot => ?_, hline.andThen hline'⟩
        exact hskip fun hr' => hnot (List.mem_cons_of_mem _ hr')

theorem line_publish {s : Setting} (hs : s.Fresh) (stream : MediaStream) (hc : c.Sound)
    (h : c.At r st) :
    ∃ st' ds, Spoken st st' ds ∧ Line r c (c.publish s stream) st' ds := by
  let c' : Call := { c with links := c.links.map fun _ l => l.attach stream, held := some stream }
  have hattach : ∀ r st, c.At r st → Line r c (c', []) st [] := fun r st hat =>
    line_map hat rfl (fun l hl => hl.attach stream) (fun _ => rfl) rfl rfl
  have hsound : c'.Sound := fun r => (hc r).imp fun st hst => (hattach r st hst).stands
  obtain ⟨st', ds, hspoken, -, hline⟩ :=
    line_offerAll hs c'.links.nodup_keys hsound (hattach r st h).stands
  have hinquiry : Line r (offerAll s c'.links.keys c').1
      ((offerAll s c'.links.keys c').1, [.send (.streamInquiry none)]) st' [] :=
    line_nothing hline.stands rfl rfl rfl
  have hrest : Line r c' (c.publish s stream) st' (ds ++ ([] ++ [])) :=
    hline.andThen (f := fun c => Step.andThen (c, [.send (.streamInquiry none)]) (setControl .stop))
      (hinquiry.andThen (line_setControl .stop hline.stands))
  refine ⟨st', ds, hspoken, ?_⟩
  rw [← List.append_nil ds, ← List.nil_append (ds ++ [])]
  exact (hattach r st h).andThen (f := fun _ => c.publish s stream) hrest

/-- What the call hears from a participant when it takes a step. -/
def hearing (s : Setting) (r : String) : Input → Option Description
  | .session (.message m) => if m.sender = r then heard s m else none
  | _ => none

/-- Whether a step makes the call offer to a participant: media came, or the participant asked. -/
def Input.Prompts (r : String) : Input → Prop
  | .media _ _ => True
  | .session (.message m) => m.sender = r ∧ Call.Prompts m
  | _ => False

/-- Whether a step does away with the link to a participant: the call is torn down, or the link's
connection reports that its path is dead. -/
def Cuts (r : String) (c : Call) : Input → Prop
  | .teardown => True
  | .signal signal =>
    signal.remote = r ∧ ¬ signal.event.IsAlive ∧
      ∃ l, c.links.find? r = some l ∧ l.serial = signal.serial
  | _ => False

/-- What a step does on a line that it does not cut: a description is heard, and otherwise the call
offers only if it is prompted. -/
inductive Stepped (s : Setting) (r : String) (i : Input) (st : Stance) :
    Stance → List Description → Prop where
  | heard {d : Description} {st' : Stance} {ds : List Description} : hearing s r i = some d →
      Heard (yieldsTo s r = true) (s.connect r = none) st d st' ds → Stepped s r i st st' ds
  | prompted {st' : Stance} {ds : List Description} : hearing s r i = none → i.Prompts r →
      Spoken st st' ds → Stepped s r i st st' ds
  | nothing : hearing s r i = none → Stepped s r i st st []

theorem releaseAll_quiet (r : String) (s : MediaStream) : descriptionsTo r (releaseAll s) = [] := by
  simp [descriptionsTo, releaseAll]

theorem reports_releaseAll (s : MediaStream) : Agent.reports (releaseAll s) = [] := by
  simp [Agent.reports, releaseAll]

theorem line_message {s : Setting} (hs : s.Fresh) (m : Message) (hc : c.Sound) (h : c.At r st) :
    ∃ st' ds, Stepped s r (.session (.message m)) st st' ds ∧
      Line r c (c.onMessage s m) st' ds := by
  by_cases hr : r = m.sender
  · subst hr
    obtain ⟨st', ds, hmessaged, hacts, hat⟩ := acts_onMessage hs m h
    refine ⟨st', ds, ?_, hacts.line hat⟩
    cases hmessaged with
    | heard hheard hst' => exact .heard (by simp [hearing, hheard]) hst'
    | prompted hnone hprompts hspoken =>
        exact .prompted (by simp [hearing, hnone]) ⟨rfl, hprompts⟩ hspoken
    | nothing hnone => exact .nothing (by simp [hearing, hnone])
  · obtain ⟨stm, hstm⟩ := hc m.sender
    obtain ⟨_, _, _, hacts, -⟩ := acts_onMessage hs m hstm
    exact ⟨st, [], .nothing (if_neg (Ne.symm hr)), hacts.line_of_ne hr h⟩

theorem line_onSession {s : Setting} (hs : s.Fresh) (e : SessionEvent) (hc : c.Sound)
    (hended : ¬ c.ended) (h : c.At r st) :
    ∃ st' ds, Stepped s r (.session e) st st' ds ∧ Line r c (c.onSession s e) st' ds := by
  unfold onSession
  rw [if_neg hended]
  cases e with
  | message m => exact line_message hs m hc h
  | subscribed => exact ⟨st, [], .nothing rfl, line_nothing h rfl rfl rfl⟩
  | rosterUpdated roster =>
      refine ⟨st, [], .nothing rfl, ?_⟩
      dsimp only
      split <;> exact line_nothing h rfl rfl rfl
  | participantLeft _ => exact ⟨st, [], .nothing rfl, line_nothing h rfl rfl rfl⟩
  | moreHistory => exact ⟨st, [], .nothing rfl, line_nothing h rfl rfl rfl⟩

theorem acts_onSignal (signal : PeerSignal) (halive : signal.event.IsAlive)
    (h : c.At signal.remote st) :
    Acts signal.remote c (c.onSignal signal) [] ∧ (c.onSignal signal).1.At signal.remote st := by
  unfold onSignal
  split
  · exact ⟨.nothing rfl (fun _ => rfl) rfl, h⟩
  · cases hl : c.links.find? signal.remote with
    | none => exact ⟨.nothing rfl (fun _ => rfl) rfl, h⟩
    | some l =>
        have hst : l.Holds st := by simpa [At, hl] using h
        dsimp only
        split
        · exact ⟨.nothing rfl (fun _ => rfl) rfl, h⟩
        · cases he : signal.event with
          | gathered x =>
              exact ⟨.putReady hl (Link.gather_serial l x), at_put (hst.gather x)⟩
          | track t =>
              exact ⟨.put hl rfl (fun _ => rfl) (List.forall_mem_nil _),
                at_put (hst.congr hst.peer rfl rfl)⟩
          | iceChanged state =>
              have hdead := halive state he
              simp only [hdead]
              exact ⟨.nothing rfl (fun _ => rfl) rfl, h⟩

/-- A connection that reports a dead path loses its link, and nothing else happens. -/
theorem onSignal_of_dead {signal : PeerSignal} (hdead : ¬ signal.event.IsAlive) :
    (c.onSignal signal = (c, []) ∧
      (¬ c.ended → ∀ l, c.links.find? signal.remote = some l → l.serial ≠ signal.serial)) ∨
    (c.onSignal signal = c.remove signal.remote ∧
      ∃ l, c.links.find? signal.remote = some l ∧ l.serial = signal.serial) := by
  unfold onSignal
  split
  · rename_i hended
    exact .inl ⟨rfl, fun hnot => absurd hended hnot⟩
  · cases hl : c.links.find? signal.remote with
    | none => exact .inl ⟨rfl, fun _ l hl' => by cases hl'⟩
    | some l =>
        dsimp only
        split
        · rename_i hserial
          exact .inl ⟨rfl, fun _ l' hl' => Option.some.inj hl' ▸ hserial⟩
        · rename_i hserial
          cases he : signal.event with
          | gathered x => exact absurd (fun s hs => by rw [he] at hs; cases hs) hdead
          | track t => exact absurd (fun s hs => by rw [he] at hs; cases hs) hdead
          | iceChanged state =>
              have hstate : state.isDead = true := by
                refine Decidable.byContradiction fun hlive => hdead fun s hs => ?_
                rw [he, PeerEvent.iceChanged.injEq] at hs
                rw [← hs]
                simpa using hlive
              simp only [hstate]
              exact .inr ⟨rfl, l, rfl, by simpa using hserial⟩

theorem reports_remove (remote : String) (c : Call) : Agent.reports (c.remove remote).2 = [] := by
  unfold remove; split <;> rfl

theorem find?_remove_self (remote : String) (c : Call) :
    (c.remove remote).1.links.find? remote = none := by
  unfold remove
  split
  · assumption
  · exact Table.find?_erase_self ..

theorem line_onSignal (signal : PeerSignal) (hcut : ¬ Cuts r c (.signal signal)) (hc : c.Sound)
    (h : c.At r st) : Line r c (c.onSignal signal) st [] := by
  by_cases halive : signal.event.IsAlive
  · by_cases hr : r = signal.remote
    · subst hr
      obtain ⟨hacts, hat⟩ := acts_onSignal signal halive h
      exact hacts.line hat
    · obtain ⟨stm, hstm⟩ := hc signal.remote
      exact (acts_onSignal signal halive hstm).1.line_of_ne hr h
  · obtain ⟨hnone, -⟩ | ⟨hremove, l, hl, hserial⟩ := onSignal_of_dead halive (c := c)
    · rw [hnone]
      exact line_nothing h rfl rfl rfl
    · have hr : r ≠ signal.remote := fun hr => hcut ⟨hr.symm, halive, l, hr ▸ hl, hserial⟩
      rw [hremove, remove, hl]
      have hfind := Table.find?_erase_of_ne c.links hr
      exact ⟨at_congr h hfind, fun l' hl' => ⟨l', hfind.trans hl', rfl⟩, rfl, nofun⟩

/-- What comes of an input once the call is over: media that arrive are given back. -/
def Input.surplus : Input → List CallEffect
  | .media _ (.ok stream) => releaseAll stream
  | _ => []

/-- An ended call stays as it is and only gives media back. -/
theorem step_of_ended {κ : Type} [Connection κ] {c : Call κ} (s : Setting κ) (i : Input)
    (hended : c.ended) : c.step s i = (c, i.surplus) := by
  cases i with
  | session e => exact if_pos hended
  | start video => exact if_pos (.inl hended)
  | leave => exact if_pos hended
  | teardown => exact if_pos hended
  | signal signal => exact if_pos hended
  | media epoch result =>
      cases result with
      | error e => exact if_pos (.inl hended)
      | ok stream => exact if_pos (.inl hended)

theorem reports_surplus (i : Input) : Agent.reports i.surplus = [] := by
  unfold Input.surplus
  split
  · exact reports_releaseAll _
  · rfl

theorem line_startMedia (video : Bool) (h : c.At r st) : Line r c (c.startMedia video) st [] := by
  unfold startMedia
  split
  · exact line_nothing h rfl rfl rfl
  · have hcontrol := line_setControl .pending h
    exact hcontrol.andThen (f := fun c => (c, [.acquire video c.epoch]))
      (line_nothing hcontrol.stands rfl rfl rfl)

theorem line_withdraw (h : c.At r st) : Line r c c.withdraw st [] := by
  unfold withdraw
  split
  · exact line_nothing h rfl rfl rfl
  · rename_i stream _
    exact line_map h rfl (fun l hl => hl.detach stream) (fun _ => rfl) (releaseAll_quiet r stream)
      (reports_releaseAll stream)

theorem line_farewell (h : c.At r st) : Line r c c.farewell st [] := by
  have hsay : Line r c (c, [.send (.stopStream none)]) st [] := line_nothing h rfl rfl rfl
  exact hsay.andThen (line_setControl .start h)

theorem line_leave (hended : ¬ c.ended) (h : c.At r st) : Line r c c.leave st [] := by
  unfold leave
  rw [if_neg hended]
  have hwithdraw := line_withdraw (c := { c with epoch := c.epoch + 1 }) h
  have hall := hwithdraw.andThen (line_farewell hwithdraw.stands)
  exact ⟨hall.stands, hall.serial, hall.sends, hall.alive⟩

theorem line_onMedia {s : Setting} (hs : s.Fresh) (epoch : Nat)
    (result : Except MediaError MediaStream) (hc : c.Sound) (h : c.At r st) :
    ∃ st' ds, Spoken st st' ds ∧ Line r c (c.onMedia s epoch result) st' ds := by
  unfold onMedia
  split
  · refine ⟨st, [], .nothing, ?_⟩
    cases result with
    | error e => exact line_nothing h rfl rfl rfl
    | ok stream => exact line_nothing h rfl (releaseAll_quiet r stream) (reports_releaseAll stream)
  · cases result with
    | error e =>
        have hcontrol := line_setControl .start h
        exact ⟨st, [], .nothing, hcontrol.andThen (f := fun c => (c, [.tell _]))
          (line_nothing hcontrol.stands rfl rfl rfl)⟩
    | ok stream => exact line_publish hs stream hc h

theorem line_step {s : Setting} (hs : s.Fresh) (i : Input) (hcut : ¬ Cuts r c i) (hc : c.Sound)
    (hended : ¬ c.ended) (h : c.At r st) :
    ∃ st' ds, Stepped s r i st st' ds ∧ Line r c (c.step s i) st' ds := by
  cases i with
  | session e => exact line_onSession hs e hc hended h
  | start video => exact ⟨st, [], .nothing rfl, line_startMedia video h⟩
  | leave => exact ⟨st, [], .nothing rfl, line_leave hended h⟩
  | teardown => exact absurd trivial hcut
  | signal signal => exact ⟨st, [], .nothing rfl, line_onSignal signal hcut hc h⟩
  | media epoch result =>
      obtain ⟨st', ds, hspoken, hline⟩ := line_onMedia hs epoch result hc h
      exact ⟨st', ds, .prompted rfl trivial hspoken, hline⟩

/-! ## Every call is sound -/

theorem at_of_none (h : c.links.find? r = none) : c.At r {} := by rw [At, h]

theorem setControl_links {κ : Type} (control : Control) (c : Call κ) :
    (c.setControl control).1.links = c.links := by
  unfold setControl; split <;> rfl

theorem setControl_silent (control : Control) (c : Call) (r : String) :
    descriptionsTo r (c.setControl control).2 = [] ∧
      Agent.reports (c.setControl control).2 = [] := by
  unfold setControl; split <;> exact ⟨rfl, rfl⟩

theorem teardown_silent (hended : ¬ c.ended) :
    c.teardown.1.links = .empty ∧ (∀ r, descriptionsTo r c.teardown.2 = []) ∧
      Agent.reports c.teardown.2 = [] := by
  unfold teardown
  rw [if_neg hended]
  refine ⟨setControl_links .start _, fun r => ?_, ?_⟩
  · simp only [Step.andThen_effects, descriptionsTo_append, releaseAll_quiet,
      (setControl_silent .start _ r).1]
    rfl
  · simp only [Step.andThen_effects, Agent.reports_append, reports_releaseAll,
      (setControl_silent .start _ "").2]
    rfl

/-- A step that cuts a line leaves nothing of it, unless the call is over already. -/
theorem cut_step (s : Setting) {i : Input} (hcut : Cuts r c i) (hended : ¬ c.ended) :
    (c.step s i).1.links.find? r = none := by
  cases i with
  | teardown =>
      have hlinks : (c.step s .teardown).1.links = .empty := (teardown_silent hended).1
      rw [hlinks]
      rfl
  | signal signal =>
      obtain ⟨hr, hdead, l, hl, hserial⟩ := hcut
      subst hr
      change (c.onSignal signal).1.links.find? signal.remote = none
      obtain ⟨-, hnone⟩ | ⟨hremove, -⟩ := onSignal_of_dead hdead (c := c)
      · exact absurd hserial (hnone hended l hl)
      · rw [hremove]
        exact find?_remove_self ..
  | session e => cases hcut
  | start video => cases hcut
  | leave => cases hcut
  | media epoch result => cases hcut

/-- A step reports nothing bad of the network. -/
theorem alive_step {s : Setting} (hs : s.Fresh) (i : Input) (hc : c.Sound) :
    ∀ signal ∈ Agent.reports (c.step s i).2, signal.event.IsAlive := by
  intro signal hsignal
  by_cases hended : c.ended
  · rw [step_of_ended s i hended, reports_surplus] at hsignal
    cases hsignal
  · by_cases hcut : Cuts "" c i
    · have hnone : Agent.reports (c.step s i).2 = [] := by
        cases i with
        | teardown => exact (teardown_silent hended).2.2
        | signal signal =>
            change Agent.reports (c.onSignal signal).2 = []
            obtain ⟨hnone, -⟩ | ⟨hremove, -⟩ := onSignal_of_dead hcut.2.1 (c := c)
            · rw [hnone]
              rfl
            · rw [hremove]
              exact reports_remove ..
        | session e => cases hcut
        | start video => cases hcut
        | leave => cases hcut
        | media epoch result => cases hcut
      rw [hnone] at hsignal
      cases hsignal
    · obtain ⟨st, hst⟩ := hc ""
      obtain ⟨_, _, -, hline⟩ := line_step hs i hcut hc hended hst
      exact hline.alive signal hsignal

theorem sound_step {s : Setting} (hs : s.Fresh) (i : Input) (hc : c.Sound) :
    (c.step s i).1.Sound := by
  by_cases hended : c.ended
  · rwa [step_of_ended s i hended]
  · intro r
    obtain ⟨st, hst⟩ := hc r
    by_cases hcut : Cuts r c i
    · exact ⟨{}, at_of_none (cut_step s hcut hended)⟩
    · obtain ⟨st', _, -, hline⟩ := line_step hs i hcut hc hended hst
      exact ⟨st', hline.stands⟩

end Call

end Parley
