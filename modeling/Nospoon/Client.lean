import Nospoon.Config
import Nospoon.Library.Machine

/-! The client's event handlers (`client.cpp`) as a machine. Its DHTs are told apart by
the generation current when they were built; a connect callback captured its own. The
duplex is only ever the one `ctx.duplex` owns, so it is present or absent. What an event is
by itself, a connect that is over, a timer that has fired or a stream that has closed, is
recorded before its handler runs. -/
namespace Nospoon

open Library

structure ClientCtx where
  config : Config
  dht : Bool := true
  dhtGeneration : Nat := 0
  duplex : Bool := false
  decoder : FrameDecoder := {}
  backoffMs : Nat := 1000
  failures : Nat := 0
  connected : Bool := false
  running : Bool := true
  fullTunnelActive : Bool := false
  /-- The delay of an armed timer. -/
  reconnectTimer : Option Nat := none
  /-- Generations of the connects whose callback is still to come. -/
  pending : List Nat := []
  /-- Whether the stream of the last duplex has closed. -/
  closed : Bool := false

/-- What a connect calls back with: an error code, or the server's host together with
what `enable_client_full_tunnel` would return for it. -/
inductive ConnectResult where
  | error (code : Int)
  | connected (serverIp : Text) (installs : Bool)

/-- What the client does to the world around it. -/
inductive Effect where
  | connect (generation : Nat)
  | armReconnect (ms : Nat)
  | restart (generation : Nat)
  | enableFullTunnel (serverIp : Text) (succeeded : Bool)
  | addHostExemption (serverIp : Text)
  | disableFullTunnel
  | tunWrite (pkt : Packet)
  | streamWrite (bytes : List UInt8)
  deriving DecidableEq

def maxFailuresBeforeRestart : Nat := 3

namespace ClientCtx

def doConnect (ctx : ClientCtx) : ClientCtx × List Effect :=
  if ¬ctx.running ∨ ¬ctx.dht then (ctx,[])
  else ({ ctx with pending := ctx.dhtGeneration :: ctx.pending },[.connect ctx.dhtGeneration])

def restartDht (ctx : ClientCtx) : ClientCtx × List Effect :=
  if ¬ctx.running then (ctx,[])
  else
    let rebuilt := { ctx with
      dhtGeneration := ctx.dhtGeneration + 1
      duplex := false
      decoder := ctx.decoder.reset
      connected := false
      dht := true
      failures := 0
      backoffMs := 1000 }
    let r := rebuilt.doConnect
    (r.1,.restart rebuilt.dhtGeneration :: r.2)

/-- The tunnel routes go before a restart, if they are installed. -/
def dropTunnel (ctx : ClientCtx) : ClientCtx × List Effect :=
  if ctx.fullTunnelActive then ({ ctx with fullTunnelActive := false },[.disableFullTunnel])
  else (ctx,[])

def scheduleReconnect (ctx : ClientCtx) : ClientCtx × List Effect :=
  if ¬ctx.running then (ctx,[])
  else
    let counted := { ctx with failures := ctx.failures + 1 }
    if maxFailuresBeforeRestart ≤ counted.failures then
      let dropped := counted.dropTunnel
      let r := dropped.1.restartDht
      (r.1,dropped.2 ++ r.2)
    else
      let backoffMs := min (counted.backoffMs * 2) 30000
      ({ counted with backoffMs,reconnectTimer := some backoffMs },[.armReconnect backoffMs])

/-- Routes are installed on the first connect; later ones refresh the exemption. -/
def installTunnel (ctx : ClientCtx) (serverIp : Text) (installs : Bool) : ClientCtx × List Effect :=
  if ctx.config.fullTunnel then
    if ctx.fullTunnelActive then (ctx,[.addHostExemption serverIp])
    else ({ ctx with fullTunnelActive := installs },[.enableFullTunnel serverIp installs])
  else (ctx,[])

/-- `on_connect_result`; a zero error code is a success. -/
def onConnectResult (ctx : ClientCtx) : ConnectResult → ClientCtx × List Effect
  | .error _ => ctx.scheduleReconnect
  | .connected serverIp installs =>
    let fresh := { ctx with backoffMs := 1000,failures := 0,connected := true,duplex := true,closed := false }
    fresh.installTunnel serverIp installs

/-- The callback given to `connect`: a result of an older generation is ignored. -/
def onConnectCallback (ctx : ClientCtx) (generation : Nat) (result : ConnectResult) :
    ClientCtx × List Effect :=
  if generation ≠ ctx.dhtGeneration then (ctx,[]) else ctx.onConnectResult result

def onReconnectTimer (ctx : ClientCtx) : ClientCtx × List Effect := ctx.doConnect

def onMessage (ctx : ClientCtx) (data : List UInt8) : ClientCtx × List Effect :=
  let fed := ctx.decoder.feed data
  ({ ctx with decoder := fed.decoder },fed.frames.map .tunWrite)

/-- The duplex goes last, after the reconnect has been scheduled. -/
def onClose (ctx : ClientCtx) : ClientCtx × List Effect :=
  let r := scheduleReconnect { ctx with connected := false,decoder := ctx.decoder.reset }
  ({ r.1 with duplex := false },r.2)

def onSignal (ctx : ClientCtx) : ClientCtx × List Effect := ({ ctx with running := false },[])

/-- `on_tun_packet`; whether the stream's own handshake is done is not the client's state. -/
def onTunPacket (ctx : ClientCtx) (established : Bool) (data : Packet) : ClientCtx × List Effect :=
  (ctx,if ctx.duplex ∧ established then [.streamWrite (frameEncode data)] else [])

end ClientCtx

inductive ClientEvent where
  | connectResult (generation : Nat) (result : ConnectResult)
  | reconnectTimer
  | message (data : List UInt8)
  | close
  | signal
  | tunPacket (established : Bool) (data : Packet)

/-- A duplex is there, and its stream is open. -/
def ClientCtx.live (ctx : ClientCtx) : Bool := ctx.duplex && !ctx.closed

/-- The environment: each connect calls back once, a timer fires only when armed, and
only a live duplex has callbacks. Handlers may still run after a signal, until the loop
looks at `running` again. -/
def ClientCtx.Enabled (ctx : ClientCtx) : ClientEvent → Prop
  | .connectResult generation _ => generation ∈ ctx.pending
  | .reconnectTimer => ctx.reconnectTimer ≠ none
  | .message _ => ctx.live = true
  | .close => ctx.live = true
  | .signal => True
  | .tunPacket .. => True

instance ClientCtx.decidableEnabled (ctx : ClientCtx) : ∀ e, Decidable (ctx.Enabled e)
  | .connectResult .. => inferInstanceAs (Decidable (_ ∈ _))
  | .reconnectTimer => inferInstanceAs (Decidable (_ ≠ _))
  | .message _ | .close => inferInstanceAs (Decidable (_ = _))
  | .signal | .tunPacket .. => isTrue trivial

/-- The event itself: the connect is over, the timer has fired, the stream has closed. -/
def ClientCtx.occur (ctx : ClientCtx) : ClientEvent → ClientCtx
  | .connectResult generation _ => { ctx with pending := ctx.pending.erase generation }
  | .reconnectTimer => { ctx with reconnectTimer := none }
  | .close => { ctx with closed := true }
  | .message _ | .signal | .tunPacket .. => ctx

/-- The handler of the event. -/
def ClientCtx.respond (ctx : ClientCtx) : ClientEvent → ClientCtx × List Effect
  | .connectResult generation result => ctx.onConnectCallback generation result
  | .reconnectTimer => ctx.onReconnectTimer
  | .message data => ctx.onMessage data
  | .close => ctx.onClose
  | .signal => ctx.onSignal
  | .tunPacket established data => ctx.onTunPacket established data

def ClientCtx.handle (ctx : ClientCtx) (e : ClientEvent) : ClientCtx × List Effect := (ctx.occur e).respond e

def client : Machine ClientCtx ClientEvent Effect :=
  ⟨ClientCtx.Enabled,fun ctx e => (ctx.handle e).1,fun ctx e => (ctx.handle e).2⟩

instance decidableClient : ∀ s e, Decidable (client.enabled s e) :=
  fun ctx e => inferInstanceAs (Decidable (ctx.Enabled e))

/-- The result of an older generation ends its connect and does nothing else. -/
theorem ClientCtx.handle_stale {ctx : ClientCtx} (stale : generation ≠ ctx.dhtGeneration) (result : ConnectResult) :
    ctx.handle (.connectResult generation result) = ({ ctx with pending := ctx.pending.erase generation },[]) := if_pos stale

theorem ClientCtx.handle_current (ctx : ClientCtx) (result : ConnectResult) :
    ctx.handle (.connectResult ctx.dhtGeneration result) =
      { ctx with pending := ctx.pending.erase ctx.dhtGeneration }.onConnectResult result := if_neg (not_not.mpr rfl)

/-- The state in which `run_client` enters its loop: the first connect is under way. -/
def ClientCtx.initial (config : Config) : ClientCtx := (doConnect { config }).1

end Nospoon
