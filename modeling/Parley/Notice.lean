/-!
# Notices

What a person should see: a reconnection in progress, its success, or the end of the connection. A
persistent notice stays until it is dismissed.
-/

namespace Parley

inductive NoticeKind where
  | success
  | warning
  | error
  deriving DecidableEq, Repr, Inhabited

def NoticeKind.title : NoticeKind → String
  | success => "Success"
  | warning => "Warning"
  | error => "Error"

structure Notice where
  kind : NoticeKind
  message : String
  persistent : Bool := false
  deriving DecidableEq, Repr, Inhabited

namespace Notice

def reconnecting : Notice := ⟨.warning, "Connection lost, attempting to reconnect...", false⟩

def reconnected : Notice := ⟨.success, "Reconnected!", false⟩

def connectionLost : Notice := ⟨.error, "Connection lost, please refresh the page.", true⟩

def failure (message : String) : Notice := ⟨.error, message, false⟩

@[simp] theorem reconnected_ne_reconnecting : reconnected ≠ reconnecting := by decide

@[simp] theorem connectionLost_ne_reconnecting : connectionLost ≠ reconnecting := by decide

@[simp] theorem connectionLost_ne_reconnected : connectionLost ≠ reconnected := by decide

end Notice

/-- What a client tells its user interface. -/
inductive ClientEvent where
  | connected (connectionId : String)
  | disconnected
  | notice (n : Notice)
  /-- The own profile should be fetched again. -/
  | profileRefresh
  deriving DecidableEq, Repr, Inhabited

end Parley
