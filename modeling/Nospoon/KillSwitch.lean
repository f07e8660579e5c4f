import Nospoon.Reconnect

/-! The kill switch. Once the tunnel's routes are installed they stay, so that nothing
leaks past a dead tunnel, until three failures in a row or the end of the program. The
history of a run records what the failure counter forgets. -/
namespace Nospoon

open Library

/-- What `schedule_reconnect` was called for. -/
inductive Loss where
  | stream
  | connect
  deriving DecidableEq, Repr

/-- What happens to a client, in order: successful connects, failures it recorded, signals,
the cleanup after the loop, and what it does. -/
inductive Moment where
  | connected
  | failed (loss : Loss)
  | signal
  | cleanup
  | did (effect : Effect)
  deriving DecidableEq

/-- The client together with whether the cleanup of `run_client` is behind it. -/
structure ClientLife where
  ctx : ClientCtx
  cleaned : Bool := false

inductive LifeEvent where
  | callback (e : ClientEvent)
  | cleanup

namespace ClientLife

/-- The cleanup comes once, when the loop has seen `running` cleared. The loop is drained
after it, so callbacks may still fire. -/
def Enabled (life : ClientLife) : LifeEvent → Prop
  | .callback e => life.ctx.Enabled e
  | .cleanup => life.ctx.running = false ∧ life.cleaned = false

instance decidableEnabled (life : ClientLife) : ∀ e, Decidable (life.Enabled e)
  | .callback e => inferInstanceAs (Decidable (life.ctx.Enabled e))
  | .cleanup => inferInstanceAs (Decidable (_ ∧ _))

/-- The end of `run_client`, as far as callbacks can tell: the routes go, then the stream,
and the timers are stopped. -/
def cleanup (ctx : ClientCtx) : ClientCtx × List Effect :=
  let dropped := ctx.dropTunnel
  ({ dropped.1 with duplex := false,reconnectTimer := none },dropped.2)

def next (life : ClientLife) : LifeEvent → ClientLife
  | .callback e => { life with ctx := (life.ctx.handle e).1 }
  | .cleanup => { ctx := (cleanup life.ctx).1,cleaned := true }

/-- What a callback is, before what it does: only a running client records a failure, and
only a result of the current generation is one. -/
def arrives (ctx : ClientCtx) : ClientEvent → List Moment
  | .connectResult generation result =>
    if generation ≠ ctx.dhtGeneration then []
    else match result with
    | .error _ => if ctx.running then [.failed .connect] else []
    | .connected .. => [.connected]
  | .close => if ctx.running then [.failed .stream] else []
  | .signal => [.signal]
  | .reconnectTimer | .message _ | .tunPacket .. => []

def moments (life : ClientLife) : LifeEvent → List Moment
  | .callback e => arrives life.ctx e ++ (life.ctx.handle e).2.map .did
  | .cleanup => .cleanup :: (cleanup life.ctx).2.map .did

end ClientLife

def clientLife : Machine ClientLife LifeEvent Moment :=
  ⟨ClientLife.Enabled,ClientLife.next,ClientLife.moments⟩

instance decidableClientLife : ∀ s e, Decidable (clientLife.enabled s e) :=
  fun life e => inferInstanceAs (Decidable (life.Enabled e))

/-! ### The property -/

/-- A successful enable and a disable say what is installed from then on. -/
def Moment.tracks (now : Bool) : Moment → Bool
  | .did (.enableFullTunnel _ true) => true
  | .did .disableFullTunnel => false
  | _ => now

/-- Whether the last of the successful enables and the disables was an enable. -/
def installed (past : List Moment) : Bool := past.foldl Moment.tracks false

def Moment.loss : Moment → Option Loss
  | .failed loss => some loss
  | _ => none

/-- The failures since the last successful connect. -/
def Since (past : List Moment) (losses : List Loss) : Prop :=
  ∃ front back, past = front ++ .connected :: back ∧ .connected ∉ back ∧ back.filterMap Moment.loss = losses

/-- What may stand before a disable: the third failure since the last connect, the loss of
the stream being the first, recorded just now; or the cleanup after a signal. -/
def Justified (before : List Moment) : Prop :=
  (Since before [.stream,.connect,.connect] ∧ before.getLast? = some (.failed .connect)) ∨
    (before.getLast? = some .cleanup ∧ .signal ∈ before)

structure KillSwitch (s : ClientLife × List Moment) : Prop where
  tracked : s.1.ctx.fullTunnelActive = installed s.2
  justified : ∀ before after, s.2 = before ++ .did .disableFullTunnel :: after → Justified before

/-! ### Histories -/

/-- Every disable of a longer history is an old one or one of the new moments. -/
theorem justified_append {past more : List Moment}
    (old : ∀ before after, past = before ++ .did .disableFullTunnel :: after → Justified before)
    (new : ∀ front back, more = front ++ .did .disableFullTunnel :: back → Justified (past ++ front)) :
    ∀ before after, past ++ more = before ++ .did .disableFullTunnel :: after → Justified before := by
  intro before after split
  rcases List.append_eq_append_iff.mp split with ⟨front,rfl,here⟩ | ⟨tail,rfl,here⟩
  · exact new front after here
  · cases tail with
    | nil =>
      have first := new [] after here.symm
      rwa [List.append_nil,List.append_nil] at first
    | cons m tail =>
      obtain ⟨rfl,-⟩ := List.cons.inj here
      exact old before tail rfl

theorem Since.append {past more : List Moment} {losses : List Loss} (since : Since past losses)
    (noConnect : .connected ∉ more) : Since (past ++ more) (losses ++ more.filterMap Moment.loss) := by
  obtain ⟨front,back,rfl,fresh,rfl⟩ := since
  refine ⟨front,back ++ more,by simp,?_,List.filterMap_append⟩
  simp [fresh,noConnect]

theorem Since.restart (past : List Moment) {more : List Moment} (noConnect : .connected ∉ more) :
    Since (past ++ .connected :: more) (more.filterMap Moment.loss) := ⟨past,more,rfl,noConnect,rfl⟩

section Effects

variable {effects : List Effect}

/-- Effects are no connects and no failures. -/
theorem did_connected : Moment.connected ∉ effects.map Moment.did := by simp

theorem did_loss : (effects.map Moment.did).filterMap Moment.loss = [] := by
  induction effects with
  | nil => rfl
  | cons e effects ih => exact ih

/-- Neither installs nor removes routes. -/
def Effect.quiet : Effect → Bool
  | .enableFullTunnel .. | .disableFullTunnel => false
  | _ => true

theorem did_quiet (quiet : ∀ e ∈ effects, e.quiet = true) (now : Bool) :
    (effects.map Moment.did).foldl Moment.tracks now = now := by
  induction effects with
  | nil => rfl
  | cons e effects ih =>
    rw [List.forall_mem_cons] at quiet
    have same : Moment.tracks now (.did e) = now := by
      cases e with
      | enableFullTunnel => exact absurd quiet.1 (by simp [Effect.quiet])
      | disableFullTunnel => exact absurd quiet.1 (by simp [Effect.quiet])
      | _ => rfl
    rw [List.map_cons,List.foldl_cons,same]
    exact ih quiet.2

theorem quiet_noDisable (quiet : ∀ e ∈ effects, e.quiet = true) : .disableFullTunnel ∉ effects :=
  fun member => absurd (quiet _ member) (by simp [Effect.quiet])

end Effects

/-! ### Handlers -/

namespace ClientCtx

variable {ctx : ClientCtx}

theorem doConnect_quiet (ctx : ClientCtx) : (∀ e ∈ ctx.doConnect.2, e.quiet = true) ∧
    ctx.doConnect.1.fullTunnelActive = ctx.fullTunnelActive := by
  unfold doConnect
  split_ifs
  · simp
  · simp [Effect.quiet]

theorem restartDht_quiet (ctx : ClientCtx) : (∀ e ∈ ctx.restartDht.2, e.quiet = true) ∧
    ctx.restartDht.1.fullTunnelActive = ctx.fullTunnelActive := by
  unfold restartDht
  split_ifs
  · have connect := doConnect_quiet { ctx with
      dhtGeneration := ctx.dhtGeneration + 1,duplex := false,decoder := ctx.decoder.reset,connected := false
      dht := true,failures := 0,backoffMs := 1000 }
    exact ⟨List.forall_mem_cons.mpr ⟨rfl,connect.1⟩,connect.2⟩
  · simp

theorem dropTunnel_active (active : ctx.fullTunnelActive = true) :
    ctx.dropTunnel = ({ ctx with fullTunnelActive := false },[.disableFullTunnel]) := if_pos active

theorem dropTunnel_inactive (inactive : ctx.fullTunnelActive = false) : ctx.dropTunnel = (ctx,[]) :=
  if_neg (by simp [inactive])

/-- What a recorded failure does with the routes: the third one drops them, if they are
there, and nothing else touches them. -/
theorem scheduleReconnect_tunnel (ctx : ClientCtx) (few : ctx.running = true → ctx.failures ≤ 2) :
    ∃ quiet, (∀ e ∈ quiet, e.quiet = true) ∧
      ((ctx.scheduleReconnect.2 = quiet ∧ ctx.scheduleReconnect.1.fullTunnelActive = ctx.fullTunnelActive ∧
          (ctx.running = true → ctx.fullTunnelActive = true →
            ctx.scheduleReconnect.1.failures = ctx.failures + 1)) ∨
        (ctx.scheduleReconnect.2 = .disableFullTunnel :: quiet ∧ ctx.scheduleReconnect.1.fullTunnelActive = false ∧
          ctx.running = true ∧ ctx.fullTunnelActive = true ∧ ctx.failures = 2)) := by
  rcases ctx.scheduleReconnect_cases with ⟨halted,eq⟩ | ⟨runs,-,eq⟩ | ⟨runs,third,eq⟩
  · rw [eq]
    exact ⟨[],by simp,.inl ⟨rfl,rfl,fun runs => absurd (halted.symm.trans runs) (by decide)⟩⟩
  · rw [eq]
    exact ⟨_,by simp [Effect.quiet],.inl ⟨rfl,rfl,fun _ _ => rfl⟩⟩
  · rw [eq]
    by_cases active : ctx.fullTunnelActive = true
    · obtain ⟨quiet,same⟩ := restartDht_quiet { ctx with failures := ctx.failures + 1,fullTunnelActive := false }
      have dropped : dropTunnel { ctx with failures := ctx.failures + 1 } =
          ({ ctx with failures := ctx.failures + 1,fullTunnelActive := false },[.disableFullTunnel]) :=
        dropTunnel_active active
      refine ⟨_,quiet,.inr ?_⟩
      dsimp only
      rw [dropped]
      exact ⟨rfl,same,runs,active,Nat.le_antisymm (few runs) third⟩
    · obtain ⟨quiet,same⟩ := restartDht_quiet { ctx with failures := ctx.failures + 1 }
      have none : dropTunnel { ctx with failures := ctx.failures + 1 } = ({ ctx with failures := ctx.failures + 1 },[]) :=
        dropTunnel_inactive (Bool.not_eq_true _ ▸ active)
      refine ⟨_,quiet,.inl ?_⟩
      dsimp only
      rw [none]
      exact ⟨rfl,same,fun _ up => absurd up active⟩

theorem doConnect_same (ctx : ClientCtx) : ctx.doConnect.1.running = ctx.running ∧
    ctx.doConnect.1.failures = ctx.failures ∧ ctx.doConnect.1.duplex = ctx.duplex := by
  unfold doConnect
  split_ifs
  · exact ⟨rfl,rfl,rfl⟩
  · exact ⟨rfl,rfl,rfl⟩

theorem installTunnel_tunnel (ctx : ClientCtx) (serverIp : Text) (installs : Bool) :
    .disableFullTunnel ∉ (ctx.installTunnel serverIp installs).2 ∧
    (ctx.installTunnel serverIp installs).1.fullTunnelActive =
      ((ctx.installTunnel serverIp installs).2.map Moment.did).foldl Moment.tracks ctx.fullTunnelActive ∧
    (ctx.installTunnel serverIp installs).1.failures = ctx.failures ∧
    (ctx.installTunnel serverIp installs).1.duplex = ctx.duplex ∧
    (ctx.installTunnel serverIp installs).1.running = ctx.running := by
  unfold installTunnel
  split_ifs with full active
  · exact ⟨by simp,by simp [Moment.tracks],rfl,rfl,rfl⟩
  · refine ⟨by simp,?_,rfl,rfl,rfl⟩
    cases installs with
    | true => rfl
    | false => simpa [Moment.tracks] using active
  · exact ⟨by simp,rfl,rfl,rfl,rfl⟩

end ClientCtx

/-! ### Steps -/

/-- The failures of a running client with routes, in order. -/
def lossOrder : List Loss := [.stream,.connect,.connect]

structure LifeInvariant (s : ClientLife × List Moment) : Prop extends KillSwitch s where
  stopped : s.1.ctx.running = false → .signal ∈ s.2
  reconnecting : s.1.ctx.running = true → s.1.ctx.ClientInvariant
  /-- The counter is the number of failures since the last connect, and it is zero only
  while the stream lives. -/
  counted : s.1.ctx.running = true → s.1.ctx.fullTunnelActive = true →
    Since s.2 (lossOrder.take s.1.ctx.failures) ∧ (s.1.ctx.failures = 0 → s.1.ctx.duplex = true)

section Steps

variable {life life' : ClientLife} {ctx : ClientCtx} {past more : List Moment}

/-- A step in which nothing happens to the routes, the counter or a running stream. -/
theorem quiet_step (inv : LifeInvariant (life,past)) (noConnect : .connected ∉ more)
    (noLoss : more.filterMap Moment.loss = []) (noDisable : .did .disableFullTunnel ∉ more)
    (tracks : more.foldl Moment.tracks (installed past) = installed past)
    (same : life'.ctx.fullTunnelActive = life.ctx.fullTunnelActive)
    (stopped : life'.ctx.running = false → .signal ∈ past ++ more)
    (reconnecting : life'.ctx.running = true → life'.ctx.ClientInvariant)
    (runs : life'.ctx.running = true → life.ctx.running = true ∧ life'.ctx.failures = life.ctx.failures ∧
      life'.ctx.duplex = life.ctx.duplex) : LifeInvariant (life',past ++ more) where
  tracked := by
    rw [installed,List.foldl_append,← installed,tracks,same]
    exact inv.tracked
  justified := justified_append inv.justified fun front back split => absurd (by simp [split]) noDisable
  stopped := stopped
  reconnecting := reconnecting
  counted running active := by
    obtain ⟨before,failures,duplex⟩ := runs running
    obtain ⟨since,stream⟩ := inv.counted before (same ▸ active)
    refine ⟨?_,fun zero => ?_⟩
    · have later := since.append noConnect
      rwa [noLoss,List.append_nil,← failures] at later
    · dsimp only at zero ⊢
      rw [duplex]
      exact stream (failures ▸ zero)

/-- A recorded failure: the first two are counted, the third drops the routes. -/
theorem failure_step (loss : Loss) (runs : ctx.running = true) (few : ctx.failures ≤ 2)
    (tracked : ctx.fullTunnelActive = installed past)
    (justified : ∀ before after, past = before ++ .did .disableFullTunnel :: after → Justified before)
    (inOrder : ctx.fullTunnelActive = true →
      Since past (lossOrder.take ctx.failures) ∧ lossOrder[ctx.failures]? = some loss) :
    let r := ctx.scheduleReconnect
    let past' := past ++ .failed loss :: r.2.map .did
    r.1.fullTunnelActive = installed past' ∧
      (∀ before after, past' = before ++ .did .disableFullTunnel :: after → Justified before) ∧
      (r.1.fullTunnelActive = true → Since past' (lossOrder.take r.1.failures) ∧ r.1.failures ≠ 0) := by
  have counted (active : ctx.fullTunnelActive = true) (more : List Moment) (noConnect : .connected ∉ more)
      (noLoss : more.filterMap Moment.loss = []) :
      Since (past ++ .failed loss :: more) (lossOrder.take (ctx.failures + 1)) := by
    obtain ⟨since,next⟩ := inOrder active
    have recorded : (Moment.failed loss :: more).filterMap Moment.loss = lossOrder[ctx.failures]?.toList := by
      rw [next]
      exact congrArg (loss :: ·) noLoss
    rw [List.take_add_one,← recorded]
    exact since.append (by simp [noConnect])
  obtain ⟨quiet,allQuiet,⟨effects,same,next⟩ | ⟨effects,dropped,-,active,third⟩⟩ :=
    ctx.scheduleReconnect_tunnel fun _ => few
  · dsimp only
    rw [effects,same]
    refine ⟨?_,justified_append justified fun front back split => ?_,fun active => ?_⟩
    · rw [installed,List.foldl_append,← installed,← tracked,List.foldl_cons]
      exact (did_quiet allQuiet _).symm
    · have member : .did .disableFullTunnel ∈ Moment.failed loss :: quiet.map .did := by simp [split]
      simp [quiet_noDisable allQuiet] at member
    · rw [next runs active]
      exact ⟨counted active _ did_connected did_loss,Nat.succ_ne_zero _⟩
  · dsimp only
    rw [effects,dropped]
    refine ⟨?_,justified_append justified fun front back split => ?_,nofun⟩
    · rw [installed,List.foldl_append,List.map_cons,List.foldl_cons,List.foldl_cons]
      exact (did_quiet allQuiet false).symm
    · -- the only disable stands right behind the failure
      have first : front = [.failed loss] := by
        rcases front with _ | ⟨m,_ | ⟨m',front⟩⟩
        · cases (List.cons.inj split).1
        · rw [(List.cons.inj split).1]
        · have later : .did .disableFullTunnel ∈ quiet.map Moment.did := by
            rw [(List.cons.inj (List.cons.inj split).2).2]
            simp
          simp [quiet_noDisable allQuiet] at later
      obtain ⟨-,last⟩ := inOrder active
      rw [third] at last
      obtain rfl : loss = .connect := (Option.some.inj last).symm
      have since := counted active [] List.not_mem_nil rfl
      rw [third] at since
      rw [first]
      exact .inl ⟨since,by simp⟩

/-- A callback that only does quiet things. -/
theorem quiet_effects (inv : LifeInvariant (life,past)) (effects : List Effect)
    (quiet : ∀ e ∈ effects, e.quiet = true)
    (same : life'.ctx.fullTunnelActive = life.ctx.fullTunnelActive)
    (running : life'.ctx.running = life.ctx.running)
    (reconnecting : life'.ctx.running = true → life'.ctx.ClientInvariant)
    (runs : life'.ctx.running = true → life'.ctx.failures = life.ctx.failures ∧
      life'.ctx.duplex = life.ctx.duplex) : LifeInvariant (life',past ++ effects.map .did) := by
  apply quiet_step inv did_connected did_loss
  · simpa using quiet_noDisable quiet
  · exact did_quiet quiet _
  · exact same
  · exact fun halted => List.mem_append_left _ (inv.stopped (running.symm.trans halted))
  · exact reconnecting
  · exact fun up => ⟨running.symm.trans up,runs up⟩

/-- A recorded failure, then whatever the callback still does to a stream. -/
theorem failed_callback (inv : LifeInvariant (life,past)) (ctx : ClientCtx) (loss : Loss) (runs : life.ctx.running = true)
    (called : ctx.running = true ∧ ctx.failures = life.ctx.failures ∧
      ctx.fullTunnelActive = life.ctx.fullTunnelActive)
    (next : life.ctx.fullTunnelActive = true → lossOrder[life.ctx.failures]? = some loss)
    (reached : life'.ctx.fullTunnelActive = ctx.scheduleReconnect.1.fullTunnelActive ∧
      life'.ctx.failures = ctx.scheduleReconnect.1.failures ∧ life'.ctx.running = true)
    (reconnecting : life'.ctx.ClientInvariant) :
    LifeInvariant (life',past ++ .failed loss :: ctx.scheduleReconnect.2.map .did) := by
  obtain ⟨running,failures,active⟩ := called
  have few : ctx.failures ≤ 2 := failures ▸ (inv.reconnecting runs).failures
  obtain ⟨tracked,justified,counted⟩ := failure_step loss running few (active.trans inv.tracked) inv.justified
    fun up => by
      rw [failures]
      exact ⟨(inv.counted runs (active ▸ up)).1,next (active ▸ up)⟩
  constructor
  · exact ⟨reached.1.trans tracked,justified⟩
  · exact fun halted => absurd (halted.symm.trans reached.2.2) (by decide)
  · exact fun _ => reconnecting
  · intro _ up
    obtain ⟨since,later⟩ := counted (reached.1 ▸ up)
    dsimp only
    rw [reached.2.1]
    exact ⟨since,fun zero => absurd zero later⟩

/-- A successful connect starts the count again. -/
theorem connected_callback (inv : LifeInvariant (life,past)) (ctx : ClientCtx) (serverIp : Text) (installs : Bool)
    (fresh : ctx.failures = 0 ∧ ctx.duplex = true ∧ ctx.running = life.ctx.running ∧
      ctx.fullTunnelActive = life.ctx.fullTunnelActive)
    (reached : life'.ctx = (ctx.installTunnel serverIp installs).1)
    (reconnecting : life'.ctx.running = true → life'.ctx.ClientInvariant) :
    LifeInvariant (life',past ++ .connected :: (ctx.installTunnel serverIp installs).2.map .did) := by
  obtain ⟨noDisable,tracks,failures,duplex,running⟩ := ctx.installTunnel_tunnel serverIp installs
  constructor
  · constructor
    · rw [installed,List.foldl_append,← installed,← inv.tracked,List.foldl_cons,reached,tracks,fresh.2.2.2]
      rfl
    · refine justified_append inv.justified fun front back split => ?_
      have member : .did .disableFullTunnel ∈
          Moment.connected :: (ctx.installTunnel serverIp installs).2.map .did := by simp [split]
      simp [noDisable] at member
  · intro halted
    apply List.mem_append_left
    apply inv.stopped
    rw [← fresh.2.2.1,← running,← reached]
    exact halted
  · exact reconnecting
  · intro _ _
    dsimp only
    rw [reached,failures,duplex,fresh.1]
    refine ⟨?_,fun _ => fresh.2.1⟩
    have noConnect : Moment.connected ∉ (ctx.installTunnel serverIp installs).2.map .did := did_connected
    have again := Since.restart past noConnect
    rw [did_loss] at again
    exact again

/-- A callback from what it does to the client and to the history. -/
theorem callback_eq {e : ClientEvent} {ctx' : ClientCtx} {effects : List Effect} {arrived : List Moment}
    (handled : life.ctx.handle e = (ctx',effects)) (arrives : ClientLife.arrives life.ctx e = arrived) :
    clientLife.withLog.next (life,past) (.callback e) =
      ({ life with ctx := ctx' },past ++ (arrived ++ effects.map .did)) := by
  simp [clientLife,Machine.withLog,ClientLife.next,ClientLife.moments,handled,arrives]

theorem connectCallback_life (inv : LifeInvariant (life,past)) (generation : Nat) (result : ConnectResult)
    (inFlight : generation ∈ life.ctx.pending)
    (reconnecting : life.ctx.running = true →
      (life.ctx.handle (.connectResult generation result)).1.ClientInvariant) :
    LifeInvariant (clientLife.withLog.next (life,past) (.callback (.connectResult generation result))) := by
  by_cases stale : generation ≠ life.ctx.dhtGeneration
  · have ignored := ClientCtx.handle_stale stale result
    rw [callback_eq ignored (if_pos stale)]
    rw [ignored] at reconnecting
    exact quiet_effects inv [] (by simp) rfl rfl reconnecting fun _ => ⟨rfl,rfl⟩
  · obtain rfl : generation = life.ctx.dhtGeneration := not_not.mp stale
    have handled := life.ctx.handle_current result
    cases result with
    | connected serverIp installs =>
      let fresh := { life.ctx with
        pending := life.ctx.pending.erase life.ctx.dhtGeneration,backoffMs := 1000,failures := 0,connected := true
        duplex := true,closed := false }
      have connected : life.ctx.handle (.connectResult life.ctx.dhtGeneration (.connected serverIp installs)) =
          fresh.installTunnel serverIp installs := handled
      rw [callback_eq connected (if_neg stale)]
      rw [connected] at reconnecting
      obtain ⟨-,-,-,-,running⟩ := fresh.installTunnel_tunnel serverIp installs
      exact connected_callback inv fresh serverIp installs ⟨rfl,rfl,rfl,rfl⟩ rfl
        fun up => reconnecting (running.symm.trans up)
    | error code =>
      cases runs : life.ctx.running with
      | false =>
        have halted : life.ctx.handle (.connectResult life.ctx.dhtGeneration (.error code)) =
            ({ life.ctx with pending := life.ctx.pending.erase life.ctx.dhtGeneration },[]) :=
          handled.trans (if_pos (by simp [runs]))
        have nothing : ClientLife.arrives life.ctx (.connectResult life.ctx.dhtGeneration (.error code)) = [] :=
          (if_neg stale).trans (if_neg (by simp [runs]))
        rw [callback_eq halted nothing]
        exact quiet_effects inv [] (by simp) rfl rfl (fun up => absurd (runs.symm.trans up) (by decide))
          fun _ => ⟨rfl,rfl⟩
      | true =>
        have failed : ClientLife.arrives life.ctx (.connectResult life.ctx.dhtGeneration (.error code)) =
            [.failed .connect] := (if_neg stale).trans (if_pos runs)
        rw [callback_eq handled failed]
        have held := inv.reconnecting runs
        apply failed_callback inv { life.ctx with pending := life.ctx.pending.erase life.ctx.dhtGeneration } .connect
          runs ⟨runs,rfl,rfl⟩
        · -- the client waits for this attempt, so its stream is gone and a failure is counted
          intro active
          have noStream : ¬life.ctx.duplex = true :=
            mt held.live_iff.mpr (by simpa using (ClientCtx.attempt_waits held inFlight runs).stream)
          have counted : life.ctx.failures ≠ 0 := fun zero => noStream ((inv.counted runs active).2 zero)
          have few : life.ctx.failures ≤ 2 := held.failures
          rcases (by omega : life.ctx.failures = 1 ∨ life.ctx.failures = 2) with one | two
          · rw [one]; rfl
          · rw [two]; rfl
        · exact ⟨rfl,rfl,(ClientCtx.scheduleReconnect_running _).trans runs⟩
        · rw [handled] at reconnecting
          exact reconnecting runs

theorem close_life (inv : LifeInvariant (life,past)) (live : life.ctx.live = true)
    (reconnecting : life.ctx.running = true → (life.ctx.handle .close).1.ClientInvariant) :
    LifeInvariant (clientLife.withLog.next (life,past) (.callback .close)) := by
  cases runs : life.ctx.running with
  | false =>
    have halted : life.ctx.handle .close =
        ({ life.ctx with closed := true,connected := false,decoder := life.ctx.decoder.reset,duplex := false },[]) := by
      simp [ClientCtx.handle,ClientCtx.occur,ClientCtx.respond,ClientCtx.onClose,ClientCtx.scheduleReconnect,runs]
    rw [callback_eq halted (if_neg (by simp [runs]))]
    exact quiet_effects inv [] (by simp) rfl rfl (fun up => absurd (runs.symm.trans up) (by decide))
      fun up => absurd (runs.symm.trans up) (by decide)
  | true =>
    have closed : life.ctx.handle .close = { life.ctx with closed := true }.onClose := rfl
    rw [callback_eq closed (if_pos runs)]
    apply failed_callback inv { life.ctx with closed := true,connected := false,decoder := life.ctx.decoder.reset } .stream
      runs ⟨runs,rfl,rfl⟩
    · intro _
      rw [(inv.reconnecting runs).healthy live]
      rfl
    · exact ⟨rfl,rfl,(ClientCtx.scheduleReconnect_running _).trans runs⟩
    · exact reconnecting runs

theorem callback_life (inv : LifeInvariant (life,past)) (e : ClientEvent) (enabled : life.ctx.Enabled e) :
    LifeInvariant (clientLife.withLog.next (life,past) (.callback e)) := by
  have reconnecting (runs : life.ctx.running = true) :=
    ClientCtx.handle_invariant life.ctx e (inv.reconnecting runs) enabled
  cases e with
  | connectResult generation result => exact connectCallback_life inv generation result enabled reconnecting
  | close => exact close_life inv enabled reconnecting
  | reconnectTimer =>
    have quiet := ClientCtx.doConnect_quiet { life.ctx with reconnectTimer := none }
    have same := ClientCtx.doConnect_same { life.ctx with reconnectTimer := none }
    have fired : life.ctx.handle .reconnectTimer = { life.ctx with reconnectTimer := none }.doConnect := rfl
    rw [callback_eq fired rfl]
    exact quiet_effects inv _ quiet.1 quiet.2 same.1 (fun up => reconnecting (same.1.symm.trans up)) fun _ => same.2
  | message data =>
    have fed : life.ctx.handle (.message data) = life.ctx.onMessage data := rfl
    rw [callback_eq fed rfl]
    exact quiet_effects inv _ (by simp [Effect.quiet]) rfl rfl reconnecting fun _ => ⟨rfl,rfl⟩
  | tunPacket established data =>
    have sent : life.ctx.handle (.tunPacket established data) = life.ctx.onTunPacket established data := rfl
    rw [callback_eq sent rfl]
    refine quiet_effects inv _ (fun e member => ?_) rfl rfl reconnecting fun _ => ⟨rfl,rfl⟩
    split_ifs at member
    · obtain rfl := List.mem_singleton.mp member
      rfl
    · exact absurd member List.not_mem_nil
  | signal =>
    have stopped : life.ctx.handle .signal = ({ life.ctx with running := false },[]) := rfl
    rw [callback_eq stopped rfl]
    exact quiet_step inv (by simp [ClientLife.arrives]) rfl (by simp [ClientLife.arrives]) rfl rfl
      (fun _ => by simp [ClientLife.arrives]) nofun nofun

theorem cleanup_life (inv : LifeInvariant (life,past)) (halted : life.ctx.running = false) :
    LifeInvariant (clientLife.withLog.next (life,past) .cleanup) := by
  have kept : life.ctx.dropTunnel.1.running = life.ctx.running := ClientCtx.dropTunnel_running
  have stays : (ClientLife.cleanup life.ctx).1.running = false := kept.trans halted
  have signalled := inv.stopped halted
  have tracked : life.ctx.fullTunnelActive = installed past := inv.tracked
  suffices KillSwitch ({ ctx := (ClientLife.cleanup life.ctx).1,cleaned := true },
      past ++ .cleanup :: (ClientLife.cleanup life.ctx).2.map .did) from
    ⟨this,fun _ => List.mem_append_left _ signalled,fun up => absurd (stays.symm.trans up) (by decide),
      fun up => absurd (stays.symm.trans up) (by decide)⟩
  cases active : life.ctx.fullTunnelActive with
  | true =>
    have dropped := ClientCtx.dropTunnel_active active
    simp only [ClientLife.cleanup,dropped]
    refine ⟨?_,justified_append inv.justified fun front back split => ?_⟩
    · simp [installed,Moment.tracks]
    · have first : front = [.cleanup] := by
        rcases front with _ | ⟨m,_ | ⟨m',front⟩⟩
        · cases (List.cons.inj split).1
        · rw [(List.cons.inj split).1]
        · simp at split
      rw [first]
      exact .inr ⟨by simp,List.mem_append_left _ signalled⟩
  | false =>
    have kept := ClientCtx.dropTunnel_inactive active
    simp only [ClientLife.cleanup,kept]
    refine ⟨?_,justified_append inv.justified fun front back split => ?_⟩
    · simpa [installed,Moment.tracks,active] using tracked
    · have member : .did .disableFullTunnel ∈ [Moment.cleanup] := split ▸ by simp
      simp at member

end Steps

theorem life_invariant (s : ClientLife × List Moment) (e : LifeEvent) (inv : LifeInvariant s)
    (enabled : clientLife.withLog.enabled s e) : LifeInvariant (clientLife.withLog.next s e) := by
  cases e with
  | callback e => exact callback_life inv e enabled
  | cleanup => exact cleanup_life inv enabled.1

theorem initial_life (config : Config) : LifeInvariant ({ ctx := .initial config },[]) := by
  have start : ClientCtx.initial config = { config,pending := [0] } := rfl
  refine ⟨⟨rfl,fun before after split => ?_⟩,fun halted => ?_,fun _ => ClientCtx.initial_invariant config,
    fun _ active => ?_⟩
  · exact absurd split (by simp)
  · exact absurd halted (by simp [start])
  · exact absurd active (by simp [start])

/-- In every run the routes are there exactly as the client thinks, and they go only with
the third failure in a row or with the cleanup after a signal. -/
theorem client_killSwitch (config : Config) (events : List LifeEvent)
    (admitted : clientLife.Admits { ctx := .initial config } events) :
    clientLife.withLog.Throughout KillSwitch ({ ctx := .initial config },[]) events :=
  Machine.throughout_of_invariant LifeInvariant life_invariant (fun _ inv => inv.toKillSwitch)
    (initial_life config) (Machine.withLog_admits.mpr admitted)

/-- A lost stream and two failed connects drop the routes; so does the end. -/
theorem client_killSwitch_drops : clientLife.withLog.Throughout KillSwitch
    ({ ctx := .initial { fullTunnel := true } },[])
    [.callback (.connectResult 0 (.connected "1.2.3.4".toList true)),.callback .close,.callback .reconnectTimer,
      .callback (.connectResult 0 (.error 5)),.callback .reconnectTimer,.callback (.connectResult 0 (.error 5)),
      .callback (.connectResult 1 (.connected "1.2.3.4".toList true)),.callback .signal,.cleanup] :=
  client_killSwitch { fullTunnel := true } _ (by decide +kernel)

end Nospoon
