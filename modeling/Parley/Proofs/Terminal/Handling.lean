import Parley.Proofs.Client.Socket
import Parley.Terminal.Turns

/-!
# How a terminal handles what happens

Whatever happens to a terminal, it does one of a few things, and each has an exact outcome
(`Terminal.Handles`). What is proved of terminals is proved by these cases. The client goes its own
way in those that come from the world around; in the others it is asked for one thing, if for
anything.
-/

namespace Parley.Terminal

/-- What a line may say that is not to be sent. -/
def commands : List String := ["", "/quit", "/who", "/more"]

/-- The text of a line that is to be sent. -/
def text? (line : String) : Option String :=
  if Text.trim line ∈ commands then none else some (Text.trim line)

theorem text?_eq_some_iff {line text : String} :
    text? line = some text ↔ Text.trim line = text ∧ text ∉ commands := by
  unfold text?
  split
  · rename_i h
    simp only [reduceCtorEq, false_iff, not_and, Decidable.not_not]
    exact fun heq => heq ▸ h
  · rename_i h
    rw [Option.some.injEq]
    exact ⟨fun heq => ⟨heq, heq ▸ h⟩, And.left⟩

theorem text?_of_command {line : String} (h : Text.trim line ∈ commands) : text? line = none :=
  if_pos h

/-- What is said of a text that was not sent. -/
def unsent : TerminalOutput := .warn "not connected, message not sent"

variable {σ : Type}

namespace Turn

/-- What the world does to the client of a terminal. -/
def world? : Turn σ → Option (Client.Turn σ)
  | .input (.network i) => some (.input i)
  | .input _ => none
  | .clock now => some (.clock now)
  | .markers m => some (.markers m)

/-- The terminal is left, because a line says so or there are no more lines. -/
def ends : Turn σ → Bool
  | .input (.line line) => Text.trim line = "/quit"
  | .input .eof => true
  | _ => false

/-- The text that is typed. -/
def text? : Turn σ → Option String
  | .input (.line line) => Terminal.text? line
  | _ => none

@[simp] theorem ends_line (line : String) :
    (Turn.input (.line line) : Turn σ).ends = decide (Text.trim line = "/quit") := rfl

@[simp] theorem text?_line (line : String) :
    (Turn.input (.line line) : Turn σ).text? = Terminal.text? line := rfl

theorem text?_of_world {u : Turn σ} {v : Client.Turn σ} (h : u.world? = some v) :
    u.text? = none := by
  cases u with
  | clock | markers => rfl
  | input i =>
    cases i with
    | network => rfl
    | _ => cases h

theorem ends_of_world {u : Turn σ} {v : Client.Turn σ} (h : u.world? = some v) :
    u.ends = false := by
  cases u with
  | clock | markers => rfl
  | input i =>
    cases i with
    | network => rfl
    | _ => cases h

theorem text?_of_ends {u : Turn σ} (h : u.ends = true) : u.text? = none := by
  cases u with
  | clock | markers => rfl
  | input i =>
    cases i with
    | line line =>
        rw [ends_line, decide_eq_true_eq] at h
        rw [text?_line]
        exact text?_of_command (by simp [h, commands])
    | _ => rfl

end Turn

theorem takeMail_eq_some_iff {s s' : Session} {e : SessionEvent} :
    takeMail s = some (e, s') ↔
      ∃ r others rest, s.receivers = r :: others ∧ r.mailbox = e :: rest ∧
        s' = { s with receivers := { r with mailbox := rest } :: others } := by
  unfold takeMail
  split
  · rename_i r others hreceivers
    split
    · rename_i e' rest hmail
      rw [Option.some.injEq, Prod.mk.injEq]
      constructor
      · rintro ⟨rfl, rfl⟩
        exact ⟨r, others, rest, hreceivers, hmail, rfl⟩
      · rintro ⟨r', others', rest', hreceivers', hmail', rfl⟩
        cases hreceivers.symm.trans hreceivers'
        cases hmail.symm.trans hmail'
        exact ⟨rfl, rfl⟩
    · rename_i hmail
      refine iff_of_false nofun ?_
      rintro ⟨r', others', rest', hreceivers', hmail', -⟩
      cases hreceivers.symm.trans hreceivers'
      cases hmail.symm.trans hmail'
  · rename_i hreceivers
    refine iff_of_false nofun ?_
    rintro ⟨r', others', rest', hreceivers', -⟩
    cases hreceivers.symm.trans hreceivers'

/-- What the log takes in is all that an event of the session changes. -/
theorem onSession_fst (s : Session) (e : SessionEvent) (t : Terminal σ) :
    (onSession s e t).1 = { t with log := (t.log.apply e s.roster).1 } := by
  unfold onSession
  dsimp only
  split
  case h_5 => split <;> rfl
  all_goals rfl

/-- What is shown of an event of the session does not depend on the client. -/
theorem onSession_snd_congr (s : Session) (e : SessionEvent) (t : Terminal σ) (c : Client σ) :
    (onSession s e { t with client := c }).2 = (onSession s e t).2 := by
  unfold onSession
  dsimp only
  split
  case h_5 => split <;> rfl
  all_goals rfl

theorem onLine_of_text [MarkerStore σ] {t : Terminal σ} {line text : String}
    (h : text? line = some text) (n : Nat) : t.onLine n line = t.say n text := by
  obtain ⟨rfl, hnot⟩ := text?_eq_some_iff.mp h
  unfold onLine
  split
  case h_5 => rfl
  all_goals
    rename_i htrim
    simp [htrim, commands] at hnot

theorem sendOn_of_eq_false {c : Client σ} {n : Nat} {store : Bool} {e : Event}
    (h : (c.sendOn n store e).1 = false) : (c.sendOn n store e).2 = c := by
  unfold Client.sendOn at h ⊢
  split
  · rfl
  · rename_i s hs
    rw [hs] at h
    exact Client.transmit_of_eq_false h

variable [MarkerStore σ]

/-- What a terminal does in a turn: itself afterwards, what it shows and what its client wants. -/
inductive Handles (t : Terminal σ) : Turn σ → Course σ → Prop
  | world {u : Turn σ} {v : Client.Turn σ} (told : List ClientEvent) : u.world? = some v →
      Handles t u ({ t with client := (t.client.turn v).1, told }, [], (t.client.turn v).2)
  | joins (rest : List ClientEvent) : t.stage = .connecting →
      Handles t (.input .told)
        ({ t with
            told := rest, client := (t.client.openSession t.options.topic t.options.pageSize).2,
            stage := .joined (t.client.openSession t.options.topic t.options.pageSize).1 }, [], [])
  | fails (rest : List ClientEvent) (n : Notice) : t.stage = .connecting →
      Handles t (.input .told)
        ({ t with told := rest, stage := .failed },
          [.warn (failureText t.options.host n.message)], [])
  | told (rest : List ClientEvent) (n : Option Notice) :
      Handles t (.input .told)
        ({ t with told := rest }, (n.map fun n => .warn (noticeLine n)).toList, [])
  | ignores {i : Input} : (∀ n, t.stage ≠ .joined n) → Handles t (.input i) (t, [], [])
  | rests {n : Nat} : t.stage = .joined n → t.client.sessions[n]? >>= takeMail = none →
      Handles t (.input .heard) (t, [], [])
  | hears {n : Nat} {s s' : Session} {e : SessionEvent} : t.stage = .joined n →
      t.client.sessions[n]? = some s → takeMail s = some (e, s') →
      Handles t (.input .heard)
        ({ t with
            client := t.client.updateSession n fun _ => s', log := (t.log.apply e s'.roster).1 },
          (onSession s' e t).2, [])
  | blank {n : Nat} {line : String} : t.stage = .joined n → Text.trim line = "" →
      Handles t (.input (.line line)) (t, [], [])
  | who {n : Nat} {line : String} : t.stage = .joined n → Text.trim line = "/who" →
      Handles t (.input (.line line)) (t, t.showRoster n, [])
  | asksMore {n : Nat} {line : String} {s : Session} : t.stage = .joined n →
      Text.trim line = "/more" → t.client.sessions[n]? = some s → s.moreAvailable = true →
      Handles t (.input (.line line))
        ({ t with log := t.log.clearMore, client := (t.client.loadMore n).2 }, [], [])
  | noMore {n : Nat} {line : String} : t.stage = .joined n → Text.trim line = "/more" →
      (∀ s, t.client.sessions[n]? = some s → s.moreAvailable = false) →
      Handles t (.input (.line line)) (t, [.print "(no older messages)"], [])
  | sends {n : Nat} {line text : String} {c : Client σ} : t.stage = .joined n →
      text? line = some text → t.client.sendOn n true (.text ⟨text, .written⟩) = (true, c) →
      Handles t (.input (.line line)) ({ t with client := c }, [], [])
  | cannotSend {n : Nat} {line text : String} : t.stage = .joined n → text? line = some text →
      (t.client.sendOn n true (.text ⟨text, .written⟩)).1 = false →
      Handles t (.input (.line line)) (t, [unsent], [])
  | leaves {n : Nat} {u : Turn σ} : t.stage = .joined n → u.ends = true →
      Handles t u (t.leave n, [], [])

theorem handles_onTold (t : Terminal σ) (e : ClientEvent) (rest : List ClientEvent) :
    Handles t (.input .told)
      ((onTold e { t with told := rest }).1, (onTold e { t with told := rest }).2, []) := by
  unfold onTold
  dsimp only
  split
  · rename_i hstage
    exact .joins rest hstage
  · rename_i n hstage
    split
    · exact .fails rest n hstage
    · exact .told rest (some n)
  · rename_i n _
    exact .told rest (some n)
  · exact .told rest none

theorem handles_told (t : Terminal σ) : Handles t (.input .told) (t.turn (.input .told)) := by
  change Handles t _ ((t.step .told).1, (t.step .told).2, [])
  unfold step
  dsimp only
  split
  · exact .told t.told none
  · exact t.handles_onTold _ _

theorem handles_heard (t : Terminal σ) : Handles t (.input .heard) (t.turn (.input .heard)) := by
  change Handles t _ ((t.step .heard).1, (t.step .heard).2, [])
  unfold step
  dsimp only
  split
  · rename_i n hstage
    split
    · rename_i hnone
      exact .rests hstage hnone
    · rename_i e s' hsome
      obtain ⟨s, hs, hmail⟩ := Option.bind_eq_some_iff.mp hsome
      rw [onSession_fst, onSession_snd_congr]
      exact .hears hstage hs hmail
  · rename_i hstage
    exact .ignores hstage

theorem handles_line (t : Terminal σ) (line : String) :
    Handles t (.input (.line line)) (t.turn (.input (.line line))) := by
  change Handles t _ ((t.step (.line line)).1, (t.step (.line line)).2, [])
  unfold step
  dsimp only
  split
  · rename_i n hstage
    unfold onLine
    split
    · rename_i htrim
      exact .blank hstage htrim
    · rename_i htrim
      exact .leaves hstage (decide_eq_true htrim)
    · rename_i htrim
      exact .who hstage htrim
    · rename_i htrim
      unfold more
      cases hs : t.client.sessions[n]? with
      | none => exact .noMore hstage htrim (by simp [hs])
      | some s =>
          cases hmore : s.moreAvailable with
          | true => simpa [hmore] using .asksMore hstage htrim hs hmore
          | false => simpa [hmore] using .noMore hstage htrim (by simp [hs, hmore])
    · rename_i hblank hquit hwho hmore
      have htext : text? line = some (Text.trim line) := by
        refine text?_eq_some_iff.mpr ⟨rfl, ?_⟩
        simp only [commands, List.mem_cons, List.not_mem_nil, or_false, not_or]
        exact ⟨hblank, hquit, hwho, hmore⟩
      unfold say
      dsimp only
      cases hsent : (t.client.sendOn n true (.text ⟨Text.trim line, .written⟩)).1 with
      | true => exact .sends hstage htext (Prod.ext hsent rfl)
      | false =>
          rw [sendOn_of_eq_false hsent]
          exact .cannotSend hstage htext hsent
  · rename_i hstage
    exact .ignores hstage

/-- Every turn is handled in one of these ways. -/
theorem handles_turn (t : Terminal σ) (u : Turn σ) : Handles t u (t.turn u) := by
  cases u with
  | clock now => exact .world (v := .clock now) t.told rfl
  | markers m => exact .world (v := .markers m) t.told rfl
  | input i =>
    cases i with
    | network i => exact .world (v := .input i) _ rfl
    | told => exact t.handles_told
    | heard => exact t.handles_heard
    | line line => exact t.handles_line line
    | eof =>
        change Handles t _ ((t.step .eof).1, (t.step .eof).2, [])
        unfold step
        dsimp only
        split
        · rename_i n hstage
          exact .leaves hstage rfl
        · rename_i hstage
          exact .ignores hstage

end Parley.Terminal
