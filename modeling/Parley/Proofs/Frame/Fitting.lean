import Parley.Config
import Parley.Event.Payload
import Parley.Proofs.Frame.RoundTrip
import Parley.Time.Stamp

/-!
# What always fits into a frame

A frame of a client holds the time at which it was sent and the connection id of the socket. Neither
keeps it from being written: the time of a clock that counts its seconds in 64 bits has few digits,
and a connection id is part of the address of its socket, whose length is limited. Nor does the
payload of a request for a page, which is two numbers of 32 bits.
-/

namespace Parley

namespace Text

theorem length_le_utf8ByteSize (cs : List Char) : cs.length ≤ (String.ofList cs).utf8ByteSize := by
  rw [← bytes_length, bytes, String.toByteArray_ofList, List.utf8Encode,
    List.toList_data_toByteArray]
  induction cs with
  | nil => exact Nat.le_refl 0
  | cons c cs ih =>
      have hc : 0 < c.utf8Size := c.utf8Size_pos
      rw [List.flatMap_cons, List.length_append, List.length_cons, String.length_utf8EncodeChar]
      omega

theorem utf8ByteSize_digits {cs : List Char} (h : ∀ c ∈ cs, c.isDigit = true) :
    (String.ofList cs).utf8ByteSize = cs.length := by
  have hlength := congrArg List.length (Frame.map_bytes_digits h)
  rwa [List.length_map, bytes_length] at hlength

/-- Escaping makes no text shorter. -/
theorem Percent.utf8ByteSize_le_encode (s : String) :
    s.utf8ByteSize ≤ (Percent.encode s).utf8ByteSize := by
  have hbyte (b : UInt8) : 1 ≤ (Percent.encodeByte b).length := by
    unfold Percent.encodeByte
    split
    · exact Nat.le_refl 1
    · simp [Percent.escape]
  have hlength (bs : List UInt8) : bs.length ≤ (bs.flatMap Percent.encodeByte).length := by
    induction bs with
    | nil => exact Nat.le_refl 0
    | cons b bs ih =>
        have hb := hbyte b
        rw [List.flatMap_cons, List.length_append, List.length_cons]
        omega
  calc s.utf8ByteSize = (bytes s).length := (bytes_length s).symm
    _ ≤ ((bytes s).flatMap Percent.encodeByte).length := hlength _
    _ ≤ (Percent.encode s).utf8ByteSize := length_le_utf8ByteSize _

end Text

/-- The connection id of a socket whose address is of use fits into a frame. -/
theorem ClientConfig.connectionId_fits {c : ClientConfig} {t : Ticket}
    (h : (c.socketTarget? t).isSome) : t.connectionId.utf8ByteSize ≤ Frame.maxFieldLength := by
  have hid : t.connectionId.utf8ByteSize ≤ t.text.utf8ByteSize := by
    rw [Ticket.text, String.utf8ByteSize_append]
    omega
  have htail : t.text.utf8ByteSize ≤ (c.socketTail t).utf8ByteSize := by
    rw [socketTail, String.utf8ByteSize_append]
    exact Nat.le_trans (Text.Percent.utf8ByteSize_le_encode _) (Nat.le_add_left ..)
  have haddress : (c.socketTail t).utf8ByteSize ≤ addressLimit := by
    rw [socketTarget?] at h
    cases htake : Text.Tail.verbatim? (c.socketTail t) with
    | none =>
        rw [htake] at h
        cases h
    | some tail =>
        have hsize : tail.size = (c.socketTail t).utf8ByteSize := by
          unfold Text.Tail.verbatim? at htake
          dsimp only at htake
          split at htake
          · cases htake
            rfl
          · cases htake
        rw [htake, Option.bind_eq_bind, Option.bind_some, targetWithin?] at h
        split at h
        · omega
        · cases h
  have hlimit : addressLimit ≤ Frame.maxFieldLength := by decide
  omega

/-! ## Requests for pages -/

theorem Json.integerChars_natCast (n : Nat) : Json.integerChars n = Nat.toDigits 10 n := by
  rw [Json.integerChars, if_neg (by omega)]
  rfl

namespace PageRequest

theorem render_toJson (p : PageRequest) :
    p.toJson.render = "\x7b\"page\":" ++ String.ofList (Nat.toDigits 10 p.page.toNat) ++
      ",\"pageSize\":" ++ String.ofList (Nat.toDigits 10 p.pageSize.toNat) ++ "\x7d" := by
  have hpage : Json.stringChars "page" = ['"', 'p', 'a', 'g', 'e', '"'] := by decide
  have hsize : Json.stringChars "pageSize" =
      ['"', 'p', 'a', 'g', 'e', 'S', 'i', 'z', 'e', '"'] := by decide
  refine String.toList_injective ?_
  simp only [toJson, Json.ofNat, Json.render, Json.chars, Json.membersChars, Json.moreMembersChars,
    Json.Number.chars, Json.integerChars_natCast, hpage, hsize, String.toList_ofList,
    String.toList_append]
  simp

theorem utf8ByteSize_digits_le (n : UInt32) :
    (String.ofList (Nat.toDigits 10 n.toNat)).utf8ByteSize ≤ 10 := by
  rw [Text.utf8ByteSize_digits (Text.spells_toDigits _).digits]
  exact (Nat.length_toDigits_le_iff (by decide) (by decide)).mpr
    (Nat.lt_of_lt_of_le n.toNat_lt (by decide))

theorem payload_fits (p : PageRequest) :
    (Event.loadMessages p).payload.utf8ByteSize ≤ Frame.maxFieldLength := by
  have hpage := utf8ByteSize_digits_le p.page
  have hsize := utf8ByteSize_digits_le p.pageSize
  have hmarks : "\x7b\"page\":".utf8ByteSize = 8 ∧ ",\"pageSize\":".utf8ByteSize = 12 ∧
      "\x7d".utf8ByteSize = 1 := by decide
  rw [Event.payload, render_toJson]
  simp only [String.utf8ByteSize_append, Frame.maxFieldLength]
  omega

end PageRequest

namespace Stamp

/-! ## The text of a time -/

theorem utf8ByteSize_padded_le (width n : Nat) (hwidth : width ≤ 16)
    (hn : n < 10000000000000000) : (padded width n).utf8ByteSize ≤ 16 := by
  have hdigits : (Nat.toDigits 10 n).length ≤ 16 :=
    (Nat.length_toDigits_le_iff (by decide) (by decide)).mpr hn
  have hall : ∀ c ∈ List.replicate (width - (Nat.toDigits 10 n).length) '0' ++ Nat.toDigits 10 n,
      c.isDigit = true := by
    intro c hc
    rcases List.mem_append.mp hc with hzero | hdigit
    · rw [List.eq_of_mem_replicate hzero]
      rfl
    · exact (Text.spells_toDigits n).digits c hdigit
  rw [padded, Text.utf8ByteSize_digits hall, List.length_append, List.length_replicate]
  omega

/-- The last candidate that passes a test is not above a bound on all of them. -/
theorem foldl_last_le (p : Nat → Prop) [DecidablePred p] {l : List Nat} {start k : Nat}
    (hstart : start ≤ k) (hl : ∀ n ∈ l, n ≤ k) :
    l.foldl (fun best n => if p n then n else best) start ≤ k := by
  induction l generalizing start with
  | nil => exact hstart
  | cons n rest ih =>
      obtain ⟨hn, hrest⟩ := List.forall_mem_cons.mp hl
      refine ih ?_ hrest
      dsimp only
      split
      · exact hn
      · exact hstart

/-- No part of a date is much larger than the number of days before it. -/
theorem dateOfDays_le (days : Nat) :
    (dateOfDays days).1 ≤ days ∧ (dateOfDays days).2.1 ≤ 12 ∧ (dateOfDays days).2.2 ≤ days + 1 := by
  unfold dateOfDays
  dsimp only
  refine ⟨foldl_last_le _ (by omega) ?_, foldl_last_le _ (by omega) (by decide), by omega⟩
  simp only [List.mem_map, List.mem_range]
  rintro n ⟨i, hi, rfl⟩
  omega

/-- The time of a clock that counts seconds in 64 bits fits into a frame. -/
theorem rfc3339_fits {t : Stamp} (hseconds : t.seconds < 0x8000000000000000)
    (hnanos : t.nanos < 0x100000000) :
    t.rfc3339.utf8ByteSize ≤ Frame.maxFieldLength := by
  have hday : t.secondOfDay < 86400 := by
    rw [secondOfDay]
    omega
  have hmarks : "-".utf8ByteSize = 1 ∧ "T".utf8ByteSize = 1 ∧ ":".utf8ByteSize = 1 ∧
      ".".utf8ByteSize = 1 ∧ "Z".utf8ByteSize = 1 := by decide
  have hbounds := dateOfDays_le (t.seconds / 86400 + 719528).toNat
  rw [rfc3339]
  generalize dateOfDays (t.seconds / 86400 + 719528).toNat = date at hbounds ⊢
  obtain ⟨year, month, day⟩ := date
  dsimp only at hbounds
  have hyear := utf8ByteSize_padded_le 4 year (by decide) (by omega)
  have hmonth := utf8ByteSize_padded_le 2 month (by decide) (by omega)
  have hdate := utf8ByteSize_padded_le 2 day (by decide) (by omega)
  have hhour := utf8ByteSize_padded_le 2 (t.secondOfDay / 3600) (by decide) (by omega)
  have hminute := utf8ByteSize_padded_le 2 (t.secondOfDay / 60 % 60) (by decide) (by omega)
  have hsecond := utf8ByteSize_padded_le 2 (t.secondOfDay % 60) (by decide) (by omega)
  have hmilli := utf8ByteSize_padded_le 3 (t.nanos / 1000000) (by decide) (by omega)
  simp only [clockText, String.utf8ByteSize_append, Frame.maxFieldLength]
  omega

end Stamp

end Parley
