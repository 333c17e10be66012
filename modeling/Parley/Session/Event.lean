import Parley.Message
import Parley.Roster

/-!
# Session events

What a topic session reports: the acknowledged subscription, the roster after each change, a
departure, further backlog, and every message that is not part of the session's own protocol.
-/

namespace Parley

inductive SessionEvent where
  | subscribed
  /-- The roster after records were merged. -/
  | rosterUpdated (roster : Roster)
  | participantLeft (scid : String)
  /-- The server holds backlog beyond the pages loaded so far. -/
  | moreHistory
  | message (m : Message)
  deriving DecidableEq, Repr, Inhabited

end Parley
