import Nospoon.Js.Server

/-! The JavaScript client (`client.js`) as a machine. Connections are numbered in the order
they are made, timers are told apart by their delays. What an event is by itself, a
connection that opens or closes or a timer that has fired, is recorded before its handler
runs. An exception in a handler ends the process. -/
namespace Nospoon.Js

open Library

/-- A connection object with its decoder's buffer. -/
structure ClientConn where
  buffer : List UInt8 := []
  opened : Bool := false
  destroyed : Bool := false
  closed : Bool := false
  deriving DecidableEq

structure Client where
  fullTunnel : Bool
  connections : List ClientConn := []
  shuttingDown : Bool := false
  activeConnection : Option Conn := none
  /-- The interval last started, by its connection. -/
  keepaliveInterval : Option Conn := none
  retryDelay : Nat := 1000
  fullTunnelActive : Bool := false
  consecutiveFailures : Nat := 0
  /-- The delays of the reconnects still to come. -/
  timeouts : List Nat := []
  /-- The connections whose keepalive interval is not cleared. -/
  intervals : List Conn := []
  /-- An exception or `process.exit`. -/
  ended : Bool := false
  deriving DecidableEq

inductive ClientEffect where
  | connect (conn : Conn)
  | setTimeout (delay : Nat)
  | newDht
  | enableFullTunnel (serverHost : Option Text) (throws : Bool)
  | addHostExemption (serverHost : Option Text)
  | disableFullTunnel (throws : Bool)
  | tunWrite (packet : Packet)
  | streamWrite (conn : Conn) (bytes : List UInt8)
  | tunRelease
  | connectionEnd (conn : Conn)
  deriving DecidableEq

def initialRetryMs : Nat := 1000
def maxRetryMs : Nat := 30000
def maxFailuresBeforeRestart : Nat := 3

namespace Client

/-- The connection is there and meets `p`. -/
def has (s : Client) (conn : Conn) (p : ClientConn → Bool) : Bool := s.connections[conn]?.any p

def update (s : Client) (conn : Conn) (f : ClientConn → ClientConn) : Client :=
  { s with connections := s.connections.modify conn f }

def connect (s : Client) : Client × List ClientEffect :=
  ({ s with connections := s.connections ++ [{}],activeConnection := some s.connections.length },
    [.connect s.connections.length])

/-- An enable that throws ends the process in the handler. -/
def onOpen (s : Client) (conn : Conn) (serverHost : Option Text) (throws : Bool) : Client × List ClientEffect :=
  let opened := { s with
    retryDelay := initialRetryMs
    consecutiveFailures := 0
    keepaliveInterval := some conn
    intervals := conn :: s.intervals }
  if opened.fullTunnel then
    if ¬opened.fullTunnelActive then
      if throws then ({ opened with ended := true },[.enableFullTunnel serverHost true])
      else ({ opened with fullTunnelActive := true },[.enableFullTunnel serverHost false])
    else (opened,[.addHostExemption serverHost])
  else (opened,[])

def onData (s : Client) (conn : Conn) (data : List UInt8) : Client × List ClientEffect :=
  match s.connections[conn]? with
  | none => (s,[])
  | some c =>
    let pushed := push c.buffer data
    (s.update conn fun c => { c with buffer := pushed.1 },pushed.2.1.map .tunWrite)

def restartDht (s : Client) (throws : Bool) : Client × List ClientEffect :=
  if throws then ({ s with ended := true },[.disableFullTunnel true])
  else
    let fresh := { s with fullTunnelActive := false,retryDelay := initialRetryMs,consecutiveFailures := 0 }
    (fresh.connect.1,.disableFullTunnel false :: .newDht :: fresh.connect.2)

/-- The close handlers of `connect` and of `startKeepalive`. -/
def onClose (s : Client) (conn : Conn) (jitter : Nat) (throws : Bool) : Client × List ClientEffect :=
  let closed := { s with
    intervals := s.intervals.filter fun other => other ≠ conn
    activeConnection := none }
  if closed.shuttingDown then (closed,[])
  else
    let counted := { closed with consecutiveFailures := closed.consecutiveFailures + 1 }
    if counted.fullTunnelActive ∧ maxFailuresBeforeRestart ≤ counted.consecutiveFailures then counted.restartDht throws
    else
      let delay := counted.retryDelay + jitter
      ({ counted with timeouts := delay :: counted.timeouts,retryDelay := min (counted.retryDelay * 2) maxRetryMs },
        [.setTimeout delay])

def onTimeout (s : Client) : Client × List ClientEffect := if ¬s.shuttingDown then s.connect else (s,[])

/-- The interval of `startKeepalive`. -/
def onInterval (s : Client) (conn : Conn) : Client × List ClientEffect :=
  if s.has conn fun c => !c.destroyed then (s,[.streamWrite conn keepalive])
  else ({ s with intervals := s.intervals.filter fun other => other ≠ conn },[])

/-- `tun.on('data')`. -/
def onTunData (s : Client) (packet : Packet) : List ClientEffect :=
  match s.activeConnection with
  | none => []
  | some conn => if s.has conn fun c => !c.destroyed then [.streamWrite conn (encode packet)] else []

def shutdown (s : Client) (throws : Bool) : Client × List ClientEffect :=
  if s.shuttingDown then (s,[])
  else
    let stopped := { s with
      shuttingDown := true
      intervals := s.intervals.filter fun conn => s.keepaliveInterval ≠ some conn }
    let rest := .tunRelease :: s.activeConnection.toList.map .connectionEnd
    if stopped.fullTunnelActive then
      if throws then ({ stopped with ended := true },[.disableFullTunnel true])
      else (stopped,.disableFullTunnel false :: rest)
    else (stopped,rest)

end Client

inductive ClientEvent where
  /-- With the host of the raw stream, and whether an enable for it would throw. -/
  | opened (conn : Conn) (serverHost : Option Text) (throws : Bool)
  | data (conn : Conn) (chunk : List UInt8)
  | destroy (conn : Conn)
  /-- With the jitter drawn, and whether a disable would throw. -/
  | close (conn : Conn) (jitter : Nat) (throws : Bool)
  | timeout (delay : Nat)
  | interval (conn : Conn)
  | tunData (packet : Packet)
  | shutdown (throws : Bool)
  | exit

namespace Client

/-- The event itself: what it does to a connection, the timer that has fired, the end of
the process. -/
def occur (s : Client) : ClientEvent → Client
  | .opened conn _ _ => s.update conn fun c => { c with opened := true }
  | .destroy conn => s.update conn fun c => { c with destroyed := true }
  | .close conn _ _ => s.update conn fun c => { c with destroyed := true,closed := true }
  | .timeout delay => { s with timeouts := s.timeouts.erase delay }
  | .exit => { s with ended := true }
  | .data .. | .interval _ | .tunData _ | .shutdown _ => s

/-- The handler of the event. -/
def respond (s : Client) : ClientEvent → Client × List ClientEffect
  | .opened conn serverHost throws => s.onOpen conn serverHost throws
  | .data conn chunk => s.onData conn chunk
  | .close conn jitter throws => s.onClose conn jitter throws
  | .timeout _ => s.onTimeout
  | .interval conn => s.onInterval conn
  | .tunData packet => (s,s.onTunData packet)
  | .shutdown throws => s.shutdown throws
  | .destroy _ | .exit => (s,[])

def react (s : Client) (e : ClientEvent) : Client × List ClientEffect := (s.occur e).respond e

theorem react_opened (s : Client) (conn : Conn) (serverHost : Option Text) (throws : Bool) :
    s.react (.opened conn serverHost throws) = (s.update conn fun c => { c with opened := true }).onOpen conn serverHost throws := rfl

theorem react_data (s : Client) (conn : Conn) (chunk : List UInt8) : s.react (.data conn chunk) = s.onData conn chunk := rfl

theorem react_close (s : Client) (conn : Conn) (jitter : Nat) (throws : Bool) : s.react (.close conn jitter throws) =
    (s.update conn fun c => { c with destroyed := true,closed := true }).onClose conn jitter throws := rfl

theorem react_timeout (s : Client) (delay : Nat) :
    s.react (.timeout delay) = { s with timeouts := s.timeouts.erase delay }.onTimeout := rfl

theorem react_interval (s : Client) (conn : Conn) : s.react (.interval conn) = s.onInterval conn := rfl

theorem react_tunData (s : Client) (packet : Packet) : s.react (.tunData packet) = (s,s.onTunData packet) := rfl

theorem react_shutdown (s : Client) (throws : Bool) : s.react (.shutdown throws) = s.shutdown throws := rfl

/-- The environment: a connection opens at most once and closes once, nothing happens to
it after its close, and only `shutdown` makes the process exit. -/
def Possible (s : Client) : ClientEvent → Prop
  | .opened conn _ _ => s.has conn (fun c => !c.opened && !c.closed) = true
  | .data conn _ => s.has conn (fun c => c.opened && !c.closed) = true
  | .destroy conn => s.has conn (fun c => !c.closed) = true
  | .close conn jitter _ => s.has conn (fun c => !c.closed) = true ∧ jitter < 1000
  | .timeout delay => delay ∈ s.timeouts
  | .interval conn => conn ∈ s.intervals
  | .tunData _ | .shutdown _ => True
  | .exit => s.shuttingDown = true

instance decidablePossible (s : Client) : ∀ e, Decidable (s.Possible e)
  | .opened .. | .data .. | .destroy _ | .exit => inferInstanceAs (Decidable (_ = _))
  | .close .. => inferInstanceAs (Decidable (_ ∧ _))
  | .timeout delay => inferInstanceAs (Decidable (delay ∈ s.timeouts))
  | .interval conn => inferInstanceAs (Decidable (conn ∈ s.intervals))
  | .tunData _ | .shutdown _ => isTrue trivial

/-- `startClient`, once the device is there: the first connect. -/
def initial (fullTunnel : Bool) : Client := (connect { fullTunnel }).1

end Client

def client : Machine Client ClientEvent ClientEffect where
  enabled s e := s.ended = false ∧ s.Possible e
  next s e := (s.react e).1
  emits s e := (s.react e).2

instance decidableClient : ∀ s e, Decidable (client.enabled s e) :=
  fun s e => inferInstanceAs (Decidable (_ ∧ s.Possible e))

namespace Client

variable {s : Client} {conn : Conn}

theorem has_iff {p : ClientConn → Bool} : s.has conn p = true ↔ ∃ c, s.connections[conn]? = some c ∧ p c = true := by
  rw [has,Option.any_eq_true]

theorem lookup_update (s : Client) (conn other : Conn) (f : ClientConn → ClientConn) :
    (s.update conn f).connections[other]? = if conn = other then s.connections[other]?.map f else s.connections[other]? := by
  rw [update,List.getElem?_modify]
  split_ifs
  · rfl
  · simp

end Client

end Nospoon.Js
