import Nospoon.KillSwitch
import Nospoon.Js.Readers
import Nospoon.Network

/-! What the network needs of its clients: no C++ client ever has two streams, each
connection of a JavaScript client has a link of its own, and a decoder starts empty. -/
namespace Nospoon

open Library

/-! ### Decoders at the end of a link -/

theorem nextFrame_sized (h : nextFrame buf = some (some pkt,rest)) : Sized pkt := by
  unfold nextFrame at h
  split at h
  · dsimp only at h
    split_ifs at h with large zero short
    all_goals simp only [Option.some.injEq,Prod.mk.injEq,reduceCtorEq,false_and] at h
    obtain ⟨rfl,-⟩ := h
    rw [Sized,List.length_take,Nat.min_eq_left (Nat.not_lt.mp short)]
    exact ⟨Nat.pos_of_ne_zero zero,Nat.not_lt.mp large⟩
  · contradiction

/-- Whatever bytes are fed, the callback only sees packets a header can announce. -/
theorem feed_sized (d : FrameDecoder) (data : List UInt8) (member : pkt ∈ (d.feed data).frames) : Sized pkt := by
  unfold FrameDecoder.feed at member
  dsimp only at member
  split_ifs at member
  · simp at member
  · obtain ⟨-,items⟩ := frameReader.drain_induction (p := fun _ => True) (fun _ _ => trivial)
      (trivial : (fun _ => True) (d.buf ++ data))
    obtain ⟨mid,rest,-,cut⟩ := items pkt member
    exact nextFrame_sized cut

theorem feed_inFlight {more : List UInt8} {items : List Packet} (d : FrameDecoder) (chunk : List UInt8)
    (flight : frameCode.InFlight d.buf (chunk ++ more) items) (bound : chunk.length ≤ maxChunk) :
    ∃ rest, items = (d.feed chunk).frames ++ rest ∧ frameCode.InFlight (d.feed chunk).decoder.buf more rest := by
  obtain ⟨todo,-,waiting,-⟩ := id flight
  have short := waiting_length waiting
  rw [feed_fits d chunk (by simp only [maxBufferSize,maxFrameSize,maxChunk] at *; omega)]
  exact flight.deliver rfl

/-! ### The C++ client -/

namespace ClientCtx

variable {ctx : ClientCtx}

/-- A stream and a connect that could bring another never coexist, not even while the
client shuts down. -/
structure OneStream (ctx : ClientCtx) : Prop extends ClientInvariant ctx where
  single : ctx.attempts ≤ 1
  alone : ctx.duplex = true → ctx.attempts = 0

theorem ClientInvariant.oneStream (inv : ctx.ClientInvariant) (runs : ctx.running = true) : ctx.OneStream := by
  obtain ⟨w,waits⟩ := inv.exactlyOne runs
  refine ⟨inv,?_,fun there => ?_⟩
  · rw [waits.attempts]
    split_ifs <;> decide
  · rw [waits.attempts,waits.stream.mp (inv.live_iff.mpr there)]
    rfl

theorem installTunnel_pending (serverIp : Text) (installs : Bool) :
    (ctx.installTunnel serverIp installs).1.attempts = ctx.attempts := by
  unfold installTunnel; split_ifs <;> rfl

/-- A result ends its own attempt, whatever it brings, when the client is stopped. -/
theorem connectResult_oneStream (inv : ctx.OneStream) (generation : Nat) (stopped : ctx.running = false)
    (result : ConnectResult) :
    (ctx.handle (.connectResult generation result)).1.attempts ≤ 1 ∧
      ((ctx.handle (.connectResult generation result)).1.duplex = true →
        (ctx.handle (.connectResult generation result)).1.attempts = 0) := by
  have single := inv.single
  have fewer : (ctx.pending.erase generation).count ctx.dhtGeneration ≤ ctx.attempts := (List.erase_sublist ..).count_le _
  by_cases stale : generation ≠ ctx.dhtGeneration
  · rw [handle_stale stale]
    exact ⟨Nat.le_trans fewer single,fun live => Nat.le_zero.mp (inv.alone live ▸ fewer)⟩
  · obtain rfl : generation = ctx.dhtGeneration := not_not.mp stale
    rw [handle_current]
    have ended : (ctx.pending.erase ctx.dhtGeneration).count ctx.dhtGeneration = 0 := by
      rw [List.count_erase_self]
      exact Nat.sub_eq_zero_of_le single
    cases result with
    | error code =>
      rw [onConnectResult,scheduleReconnect,if_pos (by simp [stopped])]
      exact ⟨ended.le.trans (Nat.zero_le 1),fun _ => ended⟩
    | connected serverIp installs =>
      rw [onConnectResult,installTunnel_pending]
      exact ⟨ended.le.trans (Nat.zero_le 1),fun _ => ended⟩

theorem handle_oneStream (e : ClientEvent) (inv : ctx.OneStream) (enabled : ctx.Enabled e) :
    (ctx.handle e).1.OneStream := by
  have kept := handle_invariant ctx e inv.toClientInvariant enabled
  by_cases signal : e = .signal
  · subst signal
    exact ⟨kept,inv.single,inv.alone⟩
  · cases runs : ctx.running with
    | true => exact kept.oneStream ((handle_running e signal).trans runs)
    | false =>
      cases e with
      | connectResult generation result =>
        obtain ⟨single,alone⟩ := connectResult_oneStream inv generation runs result
        exact ⟨kept,single,alone⟩
      | reconnectTimer =>
        refine ⟨kept,?_,?_⟩ <;> rw [handle,respond,onReconnectTimer,doConnect,if_pos (by simp [occur,runs])]
        · exact inv.single
        · exact inv.alone
      | message data => exact ⟨kept,inv.single,inv.alone⟩
      | close =>
        have same : ctx.handle .close =
            ({ ctx with closed := true,connected := false,decoder := ctx.decoder.reset,duplex := false },[]) := by
          simp [handle,occur,respond,onClose,scheduleReconnect,runs]
        rw [same] at kept ⊢
        exact ⟨kept,inv.single,fun live => Bool.noConfusion live⟩
      | signal => exact absurd rfl signal
      | tunPacket established data => exact ⟨kept,inv.single,inv.alone⟩

theorem initial_oneStream (config : Config) : (initial config).OneStream :=
  ClientInvariant.oneStream (initial_invariant config) rfl

/-- Nothing is written, and a duplex that is still there keeps its decoder. -/
structure Silent (ctx : ClientCtx) (r : ClientCtx × List Effect) : Prop where
  bytes : r.2.flatMap Effect.bytes = []
  kept : r.1.duplex = true → ctx.duplex = true ∧ r.1.decoder = ctx.decoder

theorem doConnect_silent : ctx.Silent ctx.doConnect := by
  unfold doConnect
  split_ifs
  · exact ⟨rfl,fun live => ⟨live,rfl⟩⟩
  · exact ⟨rfl,fun live => ⟨live,rfl⟩⟩

/-- A restart has no duplex, whatever it started from. -/
theorem restartDht_silent (runs : ctx.running = true) (before : ClientCtx) : before.Silent ctx.restartDht := by
  rw [restartDht,if_neg (by simp [runs])]
  dsimp only
  refine ⟨doConnect_silent.bytes,fun live => ?_⟩
  exact absurd (doConnect_silent.kept live).1 Bool.false_ne_true

theorem scheduleReconnect_silent : ctx.Silent ctx.scheduleReconnect := by
  rcases ctx.scheduleReconnect_cases with ⟨-,eq⟩ | ⟨-,-,eq⟩ | ⟨runs,-,eq⟩
  · rw [eq]
    exact ⟨rfl,fun live => ⟨live,rfl⟩⟩
  · rw [eq]
    exact ⟨rfl,fun live => ⟨live,rfl⟩⟩
  · rw [eq]
    have restarted := restartDht_silent (dropTunnel_running.trans runs :
      (dropTunnel { ctx with failures := ctx.failures + 1 }).1.running = true) ctx
    refine ⟨?_,restarted.kept⟩
    rw [List.flatMap_append,restarted.bytes,List.append_nil,dropTunnel]
    split_ifs <;> rfl

/-- Quiet events hand no byte to either side. -/
theorem handle_silent (e : ClientEvent) (quiet : e.Quiet) : ctx.Silent (ctx.handle e) := by
  cases e with
  | connectResult generation result =>
    cases result with
    | error code =>
      by_cases stale : generation ≠ ctx.dhtGeneration
      · rw [handle_stale stale]
        exact ⟨rfl,fun live => ⟨live,rfl⟩⟩
      · obtain rfl : generation = ctx.dhtGeneration := not_not.mp stale
        rw [handle_current]
        have scheduled : Silent { ctx with pending := ctx.pending.erase ctx.dhtGeneration } _ := scheduleReconnect_silent
        exact ⟨scheduled.bytes,scheduled.kept⟩
    | connected => exact quiet.elim
  | reconnectTimer => exact ⟨doConnect_silent.bytes,doConnect_silent.kept⟩
  | close =>
    have scheduled : Silent { ctx with closed := true,connected := false,decoder := ctx.decoder.reset } _ :=
      scheduleReconnect_silent
    exact ⟨scheduled.bytes,fun live => absurd live Bool.false_ne_true⟩
  | signal => exact ⟨rfl,fun live => ⟨live,rfl⟩⟩
  | message | tunPacket => exact quiet.elim

/-- A client that is connected anew had no stream, so its decoder is empty. -/
theorem connected_member {ctx : ClientCtx} (one : ctx.OneStream) (generation : Nat) (serverIp : Text) (installs : Bool) :
    let ctx' := (ctx.handle (.connectResult generation (.connected serverIp installs))).1
    ctx'.decoder = ctx.decoder ∧ ctx'.duplex = (if generation = ctx.dhtGeneration then true else ctx.duplex) ∧
      (generation = ctx.dhtGeneration → generation ∈ ctx.pending → ctx.duplex = false ∧ ctx.decoder.buf = []) := by
  have fresh (ctx : ClientCtx) : (ctx.installTunnel serverIp installs).1.decoder = ctx.decoder ∧
      (ctx.installTunnel serverIp installs).1.duplex = ctx.duplex := by
    unfold installTunnel
    split_ifs <;> exact ⟨rfl,rfl⟩
  refine ⟨?_,?_,fun current inFlight => ?_⟩
  · by_cases stale : generation ≠ ctx.dhtGeneration
    · rw [handle_stale stale]
    · obtain rfl : generation = ctx.dhtGeneration := not_not.mp stale
      rw [handle_current]
      exact (fresh _).1
  · by_cases stale : generation ≠ ctx.dhtGeneration
    · rw [handle_stale stale,if_neg stale]
    · obtain rfl : generation = ctx.dhtGeneration := not_not.mp stale
      rw [handle_current,if_pos rfl]
      exact (fresh _).2
  · have alone : ctx.duplex = false := by
      by_contra live
      have none := one.alone (Bool.not_eq_false _ ▸ live)
      have some : 0 < ctx.attempts := List.count_pos_iff.mpr (current ▸ inFlight)
      omega
    exact ⟨alone,one.drained (live_of_none alone)⟩

end ClientCtx

structure ClientCtx.Linked (key : PublicKey) (links : List Link) (ctx : ClientCtx) (stream : Option Duplex) : Prop where
  one : ctx.OneStream
  live : ctx.duplex = stream.isSome
  attached : ∀ d, stream = some d → ∃ link, links[d]? = some link ∧ link.attached = true ∧ link.key = key

/-! ### The JavaScript client -/

namespace Js.Client

/-- A connection that is not closed was there before, with the same bytes in its decoder. -/
def Kept (cs cs' : List ClientConn) : Prop :=
  cs'.length = cs.length ∧ ∀ (conn : Conn) (c' : ClientConn), cs'[conn]? = some c' → c'.closed = false →
    ∃ c, cs[conn]? = some c ∧ c.closed = false ∧ c'.buffer = c.buffer

theorem kept_refl (cs : List ClientConn) : Kept cs cs := ⟨rfl,fun _ c found up => ⟨c,found,up,rfl⟩⟩

theorem kept_modify (cs : List ClientConn) (conn : Conn) {f : ClientConn → ClientConn}
    (keep : ∀ c, (f c).buffer = c.buffer ∧ ((f c).closed = false → c.closed = false)) : Kept cs (cs.modify conn f) := by
  refine ⟨by simp,fun conn' c' found up => ?_⟩
  obtain ⟨c,there,rfl⟩ := modify_eq_some found
  refine ⟨c,there,?_⟩
  split_ifs at up ⊢
  · exact ⟨(keep c).2 up,(keep c).1⟩
  · exact ⟨up,rfl⟩

/-- An effect that neither makes nor uses a connection. -/
def Idle : ClientEffect → Prop
  | .connect _ | .streamWrite .. => False
  | .setTimeout _ | .newDht | .enableFullTunnel .. | .addHostExemption _ | .disableFullTunnel _ | .tunWrite _ | .tunRelease |
    .connectionEnd _ => True

/-- The ways a handler can end, seen from the links. -/
inductive Reply (c : Client) (r : Client × List ClientEffect) : Prop where
  | idle (kept : Kept c.connections r.1.connections) (none : ∀ effect ∈ r.2, Idle effect)
  | dials (cs : List ClientConn) (before : List ClientEffect) (conn : Conn) (kept : Kept c.connections cs)
    (added : r.1.connections = cs ++ [({} : ClientConn)]) (effects : r.2 = before ++ [.connect conn]) (none : ∀ effect ∈ before, Idle effect)
  | beats (conn : Conn) (same : r.1.connections = c.connections) (effects : r.2 = [.streamWrite conn keepalive])

theorem connect_reply (c : Client) : c.Reply c.connect := .dials c.connections [] _ (kept_refl _) rfl rfl (by simp)

theorem onOpen_reply (c : Client) (conn : Conn) (serverHost : Option Text) (throws : Bool) :
    c.Reply (c.react (.opened conn serverHost throws)) := by
  have kept : Kept c.connections (c.connections.modify conn fun c => { c with opened := true }) :=
    kept_modify _ _ fun _ => ⟨rfl,id⟩
  simp only [react_opened,onOpen]
  split_ifs
  all_goals exact .idle kept (by simp [Idle])

theorem restartDht_reply {c c' : Client} (kept : Kept c.connections c'.connections) (throws : Bool) : c.Reply (c'.restartDht throws) := by
  unfold restartDht
  split_ifs
  · exact .idle kept (by simp [Idle])
  · exact .dials _ [.disableFullTunnel false,.newDht] _ kept rfl rfl (by simp [Idle])

theorem onClose_reply (c : Client) (conn : Conn) (jitter : Nat) (throws : Bool) :
    c.Reply (c.react (.close conn jitter throws)) := by
  have kept : Kept c.connections (c.connections.modify conn fun c => { c with destroyed := true,closed := true }) :=
    kept_modify _ _ fun _ => ⟨rfl,fun up => Bool.noConfusion up⟩
  simp only [react_close,onClose]
  split_ifs
  · exact .idle kept (by simp)
  · exact restartDht_reply kept throws
  · exact .idle kept (by simp [Idle])

theorem react_reply (c : Client) (e : ClientEvent) (quiet : e.Quiet) : c.Reply (c.react e) := by
  cases e with
  | opened conn serverHost throws => exact onOpen_reply c conn serverHost throws
  | destroy conn => exact .idle (kept_modify _ _ fun _ => ⟨rfl,id⟩) (by simp [react,respond])
  | close conn jitter throws => exact onClose_reply c conn jitter throws
  | timeout delay =>
    simp only [react_timeout,onTimeout]
    split_ifs
    · exact .idle (kept_refl _) (by simp)
    · exact .dials _ [] _ (kept_refl _) rfl rfl (by simp)
  | interval conn =>
    simp only [react_interval,onInterval]
    split_ifs
    · exact .beats conn rfl rfl
    · exact .idle (kept_refl _) (by simp)
  | shutdown throws =>
    simp only [react_shutdown,shutdown]
    split_ifs
    · exact .idle (kept_refl _) (by simp)
    · exact .idle (kept_refl _) (by simp [Idle])
    · refine .idle (kept_refl _) ?_
      simp [Idle]
    · refine .idle (kept_refl _) ?_
      simp [Idle]
  | exit => exact .idle (kept_refl _) (by simp [react,respond])
  | data | tunData => exact quiet.elim

/-- What an idle handler leaves undone at the links. -/
theorem wire_idle (key : PublicKey) (links : List Link) (streams : List Duplex) (before effects : List ClientEffect)
    (none : ∀ effect ∈ before, Idle effect) : wire key links streams (before ++ effects) = wire key links streams effects := by
  induction before with
  | nil => rfl
  | cons effect before ih =>
    have later := ih fun e member => none e (List.mem_cons_of_mem _ member)
    cases effect with
    | connect | streamWrite => exact (none _ List.mem_cons_self).elim
    | _ => exact later

theorem wire_silent (key : PublicKey) (links : List Link) (streams : List Duplex) {effects : List ClientEffect}
    (none : ∀ effect ∈ effects, Idle effect) : wire key links streams effects = (links,streams) := by
  have nothing := wire_idle key links streams effects [] none
  rw [List.append_nil] at nothing
  exact nothing

/-- Each connection has a link of this key, and no two share one. -/
structure Linked (key : PublicKey) (links : List Link) (c : Client) (streams : List Duplex) : Prop where
  length : streams.length = c.connections.length
  distinct : streams.Nodup
  attached : ∀ d ∈ streams, ∃ link, links[d]? = some link ∧ link.attached = true ∧ link.key = key

end Js.Client

/-! ### Both -/

namespace ClientProcess

def Linked (key : PublicKey) (links : List Link) : ClientProcess → Prop
  | .cpp ctx stream => ctx.Linked key links stream
  | .js c streams => c.Linked key links streams

/-- What the decoder of a link holds, as long as the client has an end of it. -/
def Buffers (d : Duplex) (buf : List UInt8) : ClientProcess → Prop
  | .cpp ctx stream => stream = some d ∧ ctx.decoder.buf = buf
  | .js c streams => ∃ (conn : Js.Conn) (c' : Js.ClientConn), streams[conn]? = some d ∧ c.connections[conn]? = some c' ∧
    c'.closed = false ∧ c'.buffer = buf

variable {key : PublicKey} {links links' : List Link} {p : ClientProcess} {d : Duplex}

theorem Linked.onward (linked : p.Linked key links) (onward : Onward links links') : p.Linked key links' := by
  have stays {d : Duplex} (met : ∃ link, links[d]? = some link ∧ link.attached = true ∧ link.key = key) :
      ∃ link, links'[d]? = some link ∧ link.attached = true ∧ link.key = key := by
    obtain ⟨link,found,attached,own⟩ := met
    obtain ⟨link',found',same,-,stays⟩ := onward d link found
    exact ⟨link',found',stays attached,same.trans own⟩
  cases p with
  | cpp ctx stream => exact ⟨linked.one,linked.live,fun d at_d => stays (linked.attached d at_d)⟩
  | js c streams => exact ⟨linked.length,linked.distinct,fun d member => stays (linked.attached d member)⟩

/-- The connection of a link is found where the link is kept. -/
theorem getElem?_of_idxOf? {streams : List Duplex} {conn : Js.Conn} (index : streams.idxOf? d = some conn) :
    streams[conn]? = some d := by
  obtain ⟨inside,same,-⟩ := List.idxOf?_eq_some_iff.mp index
  exact List.getElem?_eq_some_iff.mpr ⟨inside,same⟩

/-- Whoever hears a link has a decoder for it. -/
theorem hears_buffers (hears : p.Hears d) : ∃ buf, p.Buffers d buf := by
  cases p with
  | cpp ctx stream => exact ⟨_,hears,rfl⟩
  | js c streams =>
    obtain ⟨conn,index,-,up⟩ := hears
    obtain ⟨c',there,able⟩ := Js.Client.has_iff.mp up
    have stillUp : c'.closed = false := by simpa using (Bool.and_eq_true_iff.mp able).2
    exact ⟨_,conn,c',getElem?_of_idxOf? index,there,stillUp,rfl⟩

/-- A client reads links of its own key only. -/
theorem Linked.attached (linked : p.Linked key links) (held : p.Buffers d buf) :
    ∃ link, links[d]? = some link ∧ link.attached = true ∧ link.key = key := by
  cases p with
  | cpp ctx stream => exact ClientCtx.Linked.attached linked d held.1
  | js c streams =>
    obtain ⟨conn,-,at_conn,-⟩ := held
    exact Js.Client.Linked.attached linked d (List.mem_of_getElem? at_conn)

theorem start_linked (program : Program) (key : PublicKey) : program.start.Linked key [] := by
  cases program with
  | cpp config =>
    refine ⟨ClientCtx.initial_oneStream config,rfl,fun d stream => ?_⟩
    contradiction
  | js fullTunnel => exact ⟨rfl,List.nodup_nil,by simp⟩

end ClientProcess

end Nospoon
