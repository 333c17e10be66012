import Parley.Config
import Parley.Proofs.Text.Lines
import Parley.Proofs.Text.Percent

/-!
# Both ends read the same ticket

A text is a ticket exactly if one colon divides it and something stands on both sides of it
(`Ticket.Divides`). A ticket need not be cut to be kept: the whole text and the number of bytes in
front of the colon are enough, for the connection id is what follows the next byte, and a character
always begins there (`Ticket.Kept.connectionId?_kept`). In the address of the socket the ticket is
escaped, so that the other end reads it from the query as it was and divides it in the same way.
-/

namespace Parley

namespace Text

/-- The text without so many bytes at its beginning; none if they are more than it has or end inside
of a character. -/
def dropBytes? (n : Nat) (s : String) : Option String :=
  if h : String.Pos.Raw.IsValid s ⟨n⟩ then some (s.sliceFrom ⟨⟨n⟩, h⟩).copy else none

theorem dropBytes?_append (s rest : String) :
    dropBytes? s.utf8ByteSize (s ++ rest) = some rest := by
  have hvalid : String.Pos.Raw.IsValid (s ++ rest) s.rawEndPos :=
    String.Pos.Raw.isValid_iff_exists_append.mpr ⟨s, rest, rfl, rfl⟩
  have hsplits : (⟨s.rawEndPos, hvalid⟩ : (s ++ rest).Pos).Splits s rest := ⟨rfl, rfl⟩
  exact (dif_pos hvalid).trans (congrArg some hsplits.copy_sliceFrom_eq)

end Text

namespace Ticket

/-- A text that one colon divides, with something on both sides of it. -/
structure Divides (raw secret id : String) : Prop where
  text : raw = secret ++ ":" ++ id
  count : raw.toList.count ':' = 1
  secret_ne : secret ≠ ""
  id_ne : id ≠ ""

/-- Neither part has a colon. -/
theorem Divides.at_colon {raw secret id : String} (h : Divides raw secret id) :
    raw.toList = secret.toList ++ ':' :: id.toList ∧ ':' ∉ secret.toList ∧ ':' ∉ id.toList := by
  have hraw : raw.toList = secret.toList ++ ':' :: id.toList := by
    simp [h.text]
  have hcount := h.count
  rw [hraw, List.count_append, List.count_cons_self] at hcount
  exact ⟨hraw, List.count_eq_zero.mp (by omega), List.count_eq_zero.mp (by omega)⟩

theorem parse_eq (raw : String) :
    parse raw = match Text.splitAt? ':' raw.toList with
      | none => .error (.malformed raw)
      | some (secret, id) =>
        if secret.isEmpty || id.isEmpty || id.contains ':' then .error (.malformed raw)
        else .ok ⟨String.ofList secret, String.ofList id⟩ := by
  unfold parse Text.splitAt?
  dsimp only
  cases raw.toList.dropWhile (· != ':') <;> rfl

theorem parse_eq_ok_iff {raw : String} {t : Ticket} :
    parse raw = .ok t ↔ Divides raw t.secret t.connectionId := by
  refine ⟨fun h => ?_, fun h => ?_⟩
  · rw [parse_eq] at h
    split at h
    · cases h
    · rename_i secret id hsplit
      split at h
      · cases h
      · rename_i hparts
        cases h
        simp only [Bool.or_eq_true, List.isEmpty_iff, List.contains_iff_mem, not_or] at hparts
        obtain ⟨⟨hsecret, hid⟩, hcolon⟩ := hparts
        obtain ⟨hraw, hfirst⟩ := Text.splitAt?_eq_some_iff.mp hsplit
        refine ⟨String.toList_injective ?_, ?_, by simpa using hsecret, by simpa using hid⟩
        · simp [hraw]
        · rw [hraw, List.count_append, List.count_cons_self, List.count_eq_zero.mpr hfirst,
            List.count_eq_zero.mpr hcolon]
  · obtain ⟨hraw, hsecret, hid⟩ := h.at_colon
    rw [parse_eq, hraw, Text.splitAt?_append hsecret]
    simp [h.secret_ne, h.id_ne, hid]

theorem eq_malformed_of_parse {raw : String} {e : TicketError} (h : parse raw = .error e) :
    e = .malformed raw := by
  rw [parse_eq] at h
  split at h
  · cases h
    rfl
  · split at h <;> cases h
    rfl

/-! ## As it is kept -/

/-- A ticket in one piece: its text, and how many bytes of it stand before the colon. -/
structure Kept where
  text : String
  split : Nat
  deriving DecidableEq, Repr

namespace Kept

def parse (raw : String) : Except TicketError Kept :=
  match Text.splitAt? ':' raw.toList with
  | none => .error (.malformed raw)
  | some (secret, id) =>
    if secret.isEmpty || id.isEmpty || id.contains ':' then .error (.malformed raw)
    else .ok ⟨raw, (String.ofList secret).utf8ByteSize⟩

/-- What follows the colon; none if the text cannot be cut there. -/
def connectionId? (k : Kept) : Option String := Text.dropBytes? (k.split + 1) k.text

end Kept

def kept (t : Ticket) : Kept := ⟨t.text, t.secret.utf8ByteSize⟩

theorem kept_split_add_one (t : Ticket) : t.kept.split + 1 = (t.secret ++ ":").utf8ByteSize := by
  rw [String.utf8ByteSize_append]
  rfl

theorem Kept.connectionId?_kept (t : Ticket) : t.kept.connectionId? = some t.connectionId := by
  rw [connectionId?, kept_split_add_one]
  exact Text.dropBytes?_append _ _

/-- The same texts are tickets, and each is kept with its colon at the place where it divides. -/
theorem Kept.parse_eq (raw : String) : Kept.parse raw = (Ticket.parse raw).map kept := by
  have hparse := Ticket.parse_eq raw
  unfold Kept.parse
  cases hsplit : Text.splitAt? ':' raw.toList with
  | none =>
      rw [hsplit] at hparse
      rw [hparse]
      rfl
  | some parts =>
      obtain ⟨secret, id⟩ := parts
      rw [hsplit] at hparse
      dsimp only at hparse ⊢
      split at hparse
      · rename_i hrefused
        rw [hparse, if_pos hrefused]
        rfl
      · rename_i htaken
        have htext : raw = Ticket.text ⟨String.ofList secret, String.ofList id⟩ :=
          (parse_eq_ok_iff.mp hparse).text
        rw [hparse, if_neg htaken]
        exact congrArg (fun text => Except.ok (Kept.mk text _)) htext

theorem Kept.isValid_split (t : Ticket) :
    String.Pos.Raw.IsValid t.text ⟨t.kept.split⟩ ∧
      String.Pos.Raw.IsValid t.text ⟨t.kept.split + 1⟩ := by
  refine ⟨String.Pos.Raw.isValid_iff_exists_append.mpr ⟨t.secret, ":" ++ t.connectionId, ?_, rfl⟩,
    String.Pos.Raw.isValid_iff_exists_append.mpr ⟨t.secret ++ ":", t.connectionId, rfl, ?_⟩⟩
  · rw [Ticket.text, String.append_assoc]
  · rw [kept_split_add_one]
    rfl

/-! ## In the address of the socket -/

theorem socketUrl_eq (t : Ticket) (c : ClientConfig) :
    c.socketUrl t = (if c.secure then "wss" else "ws") ++ "://" ++ c.host ++ c.socketPath ++
      "?ticket=" ++ Text.Percent.encode t.text := by
  rw [ClientConfig.socketUrl, ClientConfig.socketTail, ClientConfig.socketOrigin]
  simp only [String.append_assoc]

/-- Which texts are tickets, and what both ends make of them. A text is a ticket exactly if a single
colon divides it with something on both sides, and is refused as malformed else; it is the same for
tickets that are kept in one piece. The ticket has that text, and what follows the colon is its
connection id. One that is kept says the same: the places before and after its colon are places
between characters, and the connection id is what follows the second. In the address of the socket,
whatever the client's settings are, the ticket stands after the host, the path and the mark of the
query as plain characters and escapes. These are read as the text of the ticket, which is divided at
its colon into the same two parts. -/
theorem ticket_read_alike (raw : String) :
    ((∃ t, parse raw = .ok t) ↔ ∃ secret id, Divides raw secret id) ∧
    (∀ e, parse raw = .error e → e = .malformed raw) ∧
    Kept.parse raw = (parse raw).map kept ∧
    ∀ t, parse raw = .ok t →
      t.text = raw ∧ Divides raw t.secret t.connectionId ∧
      (t.kept.text = raw ∧ String.Pos.Raw.IsValid raw ⟨t.kept.split⟩ ∧
        String.Pos.Raw.IsValid raw ⟨t.kept.split + 1⟩ ∧
        t.kept.connectionId? = some t.connectionId) ∧
      ∀ c : ClientConfig, ∃ value,
        c.socketUrl t = (if c.secure then "wss" else "ws") ++ "://" ++ c.host ++ c.socketPath ++
          "?ticket=" ++ value ∧
        Text.Percent.Escaped value.toList ∧ Text.Percent.decode? value = some raw ∧
        Text.splitAt? ':' raw.toList = some (t.secret.toList, t.connectionId.toList) := by
  refine ⟨⟨fun ⟨t, h⟩ => ⟨_, _, parse_eq_ok_iff.mp h⟩, fun ⟨secret, id, h⟩ =>
    ⟨⟨secret, id⟩, parse_eq_ok_iff.mpr h⟩⟩, fun e => eq_malformed_of_parse, Kept.parse_eq raw,
    fun t h => ?_⟩
  have hdivides := parse_eq_ok_iff.mp h
  obtain rfl : raw = t.text := hdivides.text
  obtain ⟨htext, hsecret, -⟩ := hdivides.at_colon
  obtain ⟨hbefore, hafter⟩ := Kept.isValid_split t
  refine ⟨rfl, hdivides, ⟨rfl, hbefore, hafter, Kept.connectionId?_kept t⟩, fun c => ?_⟩
  exact ⟨_, socketUrl_eq t c, Text.Percent.escaped_encode t.text,
    Text.Percent.decode?_encode t.text, Text.splitAt?_eq_some_iff.mpr ⟨htext, hsecret⟩⟩

/-- A ticket with characters of two bytes and a slash. -/
theorem ticket_read_alike_accented :
    let t : Ticket := ⟨"clé", "çà/1"⟩
    parse "clé:çà/1" = .ok t ∧ Kept.parse "clé:çà/1" = .ok ⟨"clé:çà/1", 4⟩ ∧
      Kept.connectionId? ⟨"clé:çà/1", 4⟩ = some "çà/1" ∧
      ∃ value, ({} : ClientConfig).socketUrl t = "wss://localhost/sock?ticket=" ++ value ∧
        Text.Percent.Escaped value.toList ∧ Text.Percent.decode? value = some "clé:çà/1" := by
  intro t
  have hparse : parse "clé:çà/1" = .ok t :=
    parse_eq_ok_iff.mpr ⟨by decide, by decide, by decide, by decide⟩
  obtain ⟨-, -, hkept, hread⟩ := ticket_read_alike "clé:çà/1"
  obtain ⟨-, -, ⟨-, -, -, hid⟩, haddress⟩ := hread t hparse
  obtain ⟨value, hurl, hescaped, hdecode, -⟩ := haddress {}
  rw [hparse] at hkept
  exact ⟨hparse, hkept, hid, value, hurl, hescaped, hdecode⟩

end Ticket

end Parley
