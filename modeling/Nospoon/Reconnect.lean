import Nospoon.Client

/-! The client never gives up and never doubles up: while it runs, it waits for exactly
one thing, a connect of the current generation, the timer or its stream. -/
namespace Nospoon

open Library

namespace ClientCtx

/-- Connects of the current generation in flight. -/
def attempts (ctx : ClientCtx) : Nat := ctx.pending.count ctx.dhtGeneration

/-- What a running client waits for. -/
inductive Waiting where
  | attempt
  | timer
  | stream
  deriving DecidableEq

/-- The client waits for `w` and for nothing else. -/
structure WaitsFor (ctx : ClientCtx) (w : Waiting) : Prop where
  attempts : ctx.attempts = if w = .attempt then 1 else 0
  timer : ctx.reconnectTimer.isSome ↔ w = .timer
  stream : ctx.live = true ↔ w = .stream

/-- Between events a running client has one connect of the current generation in
flight, or its timer armed, or a live duplex, and only one of the three. No duplex is held
whose stream has closed. -/
structure Reconnecting (ctx : ClientCtx) : Prop where
  exactlyOne : ctx.running = true → ∃ w, ctx.WaitsFor w
  failures : ctx.failures ≤ 2
  healthy : ctx.live = true → ctx.failures = 0
  drained : ctx.live = false → ctx.decoder.buf = []
  held : ctx.duplex = true → ctx.closed = false

structure ClientInvariant (ctx : ClientCtx) : Prop extends Reconnecting ctx where
  dht : ctx.dht = true
  /-- No connect is of a generation to come. -/
  known : ∀ generation ∈ ctx.pending, generation ≤ ctx.dhtGeneration

/-- A client that runs, with neither timer nor stream nor attempt: every handler passes
through such a state on its way to the next thing to wait for. -/
structure Idle (ctx : ClientCtx) : Prop where
  dht : ctx.dht = true
  known : ∀ generation ∈ ctx.pending, generation ≤ ctx.dhtGeneration
  attempts : ctx.running = true → ctx.attempts = 0
  timer : ctx.running = true → ctx.reconnectTimer = none

variable {ctx : ClientCtx}

theorem live_of_none (none : ctx.duplex = false) : ctx.live = false := by
  rw [live,none,Bool.false_and]

theorem Reconnecting.live_iff (h : ctx.Reconnecting) : ctx.live = true ↔ ctx.duplex = true := by
  cases there : ctx.duplex with
  | false => simp [live,there]
  | true => simp [live,there,h.held there]

theorem doConnect_invariant (idle : ctx.Idle) (few : ctx.failures ≤ 2)
    (noStream : ctx.duplex = false) (drained : ctx.decoder.buf = []) :
    ctx.doConnect.1.ClientInvariant := by
  unfold doConnect
  split_ifs with stopped
  · have halted : ctx.running = false := by simpa [idle.dht] using stopped
    exact ⟨⟨by simp [halted],few,by simp [live,noStream],fun _ => drained,by simp [noStream]⟩,idle.dht,idle.known⟩
  · have runs : ctx.running = true := by simp_all
    refine ⟨⟨fun _ => ⟨.attempt,?_,?_,?_⟩,few,by simp [live,noStream],fun _ => drained,by simp [noStream]⟩,idle.dht,?_⟩
    · have none := idle.attempts runs
      simp only [ClientCtx.attempts] at none ⊢
      simp [none]
    · simp [idle.timer runs]
    · simp [live,noStream]
    · intro generation member
      rcases List.mem_cons.mp member with rfl | member
      · exact Nat.le_refl _
      · exact idle.known generation member

/-- A restart forgets the old generation, so what is in flight no longer counts. -/
theorem restartDht_invariant (idle : ctx.Idle) (runs : ctx.running = true) :
    ctx.restartDht.1.ClientInvariant := by
  rw [restartDht,if_neg (by simp [runs])]
  refine doConnect_invariant ⟨rfl,fun generation member => ?_,fun _ => ?_,idle.timer⟩ (Nat.zero_le _) rfl rfl
  · exact Nat.le_succ_of_le (idle.known generation member)
  · apply List.count_eq_zero.mpr
    intro member
    exact Nat.not_succ_le_self _ (idle.known _ member)

theorem dropTunnel_idle (idle : ctx.Idle) : ctx.dropTunnel.1.Idle := by
  unfold dropTunnel
  split_ifs
  · exact ⟨idle.dht,idle.known,idle.attempts,idle.timer⟩
  · exact idle

theorem doConnect_running (ctx : ClientCtx) : ctx.doConnect.1.running = ctx.running := by
  unfold doConnect; split_ifs <;> rfl

theorem restartDht_running (ctx : ClientCtx) : ctx.restartDht.1.running = ctx.running := by
  unfold restartDht
  split_ifs
  · exact doConnect_running _
  · rfl

theorem dropTunnel_running : ctx.dropTunnel.1.running = ctx.running := by
  unfold dropTunnel; split_ifs <;> rfl

theorem installTunnel_running (ctx : ClientCtx) (serverIp : Text) (installs : Bool) :
    (ctx.installTunnel serverIp installs).1.running = ctx.running := by
  unfold installTunnel; split_ifs <;> rfl

/-- Everything `schedule_reconnect` can do: nothing once stopped, else arm the timer with
the doubled delay, or restart on the third failure. -/
theorem scheduleReconnect_cases (ctx : ClientCtx) :
    (ctx.running = false ∧ ctx.scheduleReconnect = (ctx,[])) ∨
    (ctx.running = true ∧ ctx.failures < 2 ∧ ctx.scheduleReconnect =
      ({ ctx with
          failures := ctx.failures + 1
          backoffMs := min (ctx.backoffMs * 2) 30000
          reconnectTimer := some (min (ctx.backoffMs * 2) 30000) },
        [.armReconnect (min (ctx.backoffMs * 2) 30000)])) ∨
    (ctx.running = true ∧ 2 ≤ ctx.failures ∧ ctx.scheduleReconnect =
      let dropped := dropTunnel { ctx with failures := ctx.failures + 1 }
      (dropped.1.restartDht.1,dropped.2 ++ dropped.1.restartDht.2)) := by
  unfold scheduleReconnect
  cases runs : ctx.running with
  | false => exact .inl ⟨rfl,by simp⟩
  | true =>
    by_cases third : 2 ≤ ctx.failures
    · refine .inr (.inr ⟨rfl,third,?_⟩)
      simp [maxFailuresBeforeRestart,third]
    · refine .inr (.inl ⟨rfl,by omega,?_⟩)
      simp [maxFailuresBeforeRestart,third]

theorem scheduleReconnect_running (ctx : ClientCtx) : ctx.scheduleReconnect.1.running = ctx.running := by
  rcases ctx.scheduleReconnect_cases with ⟨-,eq⟩ | ⟨-,-,eq⟩ | ⟨-,-,eq⟩
  · rw [eq]
  · rw [eq]
  · rw [eq]
    exact (restartDht_running _).trans dropTunnel_running

/-- With nothing left to wait for, a failure arms the timer or restarts. -/
theorem scheduleReconnect_invariant (idle : ctx.Idle) (few : ctx.failures ≤ 2)
    (noStream : ctx.duplex = false) (drained : ctx.decoder.buf = []) :
    ctx.scheduleReconnect.1.ClientInvariant := by
  rcases ctx.scheduleReconnect_cases with ⟨halted,eq⟩ | ⟨runs,early,eq⟩ | ⟨runs,-,eq⟩
  · rw [eq]
    exact ⟨⟨by simp [halted],few,by simp [live,noStream],fun _ => drained,by simp [noStream]⟩,idle.dht,idle.known⟩
  · rw [eq]
    refine ⟨⟨fun _ => ⟨.timer,?_,?_,?_⟩,early,by simp [live,noStream],fun _ => drained,by simp [noStream]⟩,idle.dht,idle.known⟩
    · exact idle.attempts runs
    · simp
    · simp [live,noStream]
  · rw [eq]
    refine restartDht_invariant (dropTunnel_idle ?_) (dropTunnel_running.trans runs)
    exact ⟨idle.dht,idle.known,idle.attempts,idle.timer⟩

/-- The tunnel plays no part in reconnecting. -/
theorem installTunnel_invariant (inv : ctx.ClientInvariant) (serverIp : Text) (installs : Bool) :
    (ctx.installTunnel serverIp installs).1.ClientInvariant := by
  unfold installTunnel
  split_ifs
  · exact inv
  · exact ⟨⟨fun runs => (inv.exactlyOne runs).imp fun _ w => ⟨w.attempts,w.timer,w.stream⟩,inv.failures,
      inv.healthy,inv.drained,inv.held⟩,inv.dht,inv.known⟩
  · exact inv

/-- A running client with a current connect in flight waits for that. -/
theorem attempt_waits (inv : ctx.ClientInvariant) (inFlight : ctx.dhtGeneration ∈ ctx.pending)
    (runs : ctx.running = true) : ctx.WaitsFor .attempt := by
  obtain ⟨w,waits⟩ := inv.exactlyOne runs
  have positive : 0 < ctx.attempts := List.count_pos_iff.mpr inFlight
  have : w = .attempt := by
    by_contra other
    rw [waits.attempts,if_neg other] at positive
    exact absurd positive (Nat.lt_irrefl 0)
  exact this ▸ waits

/-- A result of the current generation ends the one attempt, a stale one changes nothing
that is waited for. -/
theorem connectCallback_invariant (inv : ctx.ClientInvariant) (inFlight : generation ∈ ctx.pending)
    (result : ConnectResult) : (ctx.handle (.connectResult generation result)).1.ClientInvariant := by
  have known (g : Nat) (member : g ∈ ctx.pending.erase generation) : g ≤ ctx.dhtGeneration :=
    inv.known g (List.mem_of_mem_erase member)
  by_cases stale : generation ≠ ctx.dhtGeneration
  · rw [handle_stale stale]
    refine ⟨⟨fun runs => ?_,inv.failures,inv.healthy,inv.drained,inv.held⟩,inv.dht,known⟩
    obtain ⟨w,waits⟩ := inv.exactlyOne runs
    refine ⟨w,?_,waits.timer,waits.stream⟩
    rw [← waits.attempts]
    exact List.count_erase_of_ne (Ne.symm stale)
  · obtain rfl : generation = ctx.dhtGeneration := not_not.mp stale
    rw [handle_current]
    have attempting (runs : ctx.running = true) := attempt_waits inv inFlight runs
    have ended (runs : ctx.running = true) : (ctx.pending.erase ctx.dhtGeneration).count ctx.dhtGeneration = 0 := by
      rw [List.count_erase_self]
      have one : ctx.pending.count ctx.dhtGeneration = 1 := (attempting runs).attempts
      omega
    cases result with
    | error code =>
      cases runs : ctx.running with
      | false =>
        rw [onConnectResult,scheduleReconnect,if_pos (by simp)]
        exact ⟨⟨by simp,inv.failures,inv.healthy,inv.drained,inv.held⟩,inv.dht,known⟩
      | true =>
        have noStream : ctx.live = false := by simpa using (attempting runs).stream
        have noDuplex : ctx.duplex = false := by simpa using mt inv.live_iff.mpr (by simp [noStream])
        have noTimer : ctx.reconnectTimer = none := by simpa using (attempting runs).timer
        exact scheduleReconnect_invariant ⟨inv.dht,known,fun _ => ended runs,fun _ => noTimer⟩ inv.failures noDuplex
          (inv.drained noStream)
    | connected serverIp installs =>
      apply installTunnel_invariant
      refine ⟨⟨fun runs => ⟨.stream,ended runs,?_,by simp [live]⟩,Nat.zero_le _,fun _ => rfl,by simp [live],fun _ => rfl⟩,
        inv.dht,known⟩
      simpa using (attempting runs).timer

theorem reconnectTimer_invariant (inv : ctx.ClientInvariant) (armed : ctx.reconnectTimer ≠ none) :
    (ctx.handle .reconnectTimer).1.ClientInvariant := by
  have timed (runs : ctx.running = true) : ctx.WaitsFor .timer := by
    obtain ⟨w,waits⟩ := inv.exactlyOne runs
    have := waits.timer.mp (Option.isSome_iff_ne_none.mpr armed)
    exact this ▸ waits
  cases runs : ctx.running with
  | false =>
    rw [handle,respond,onReconnectTimer,doConnect,if_pos (by simp [occur,runs])]
    exact ⟨⟨by simp [occur,runs],inv.failures,inv.healthy,inv.drained,inv.held⟩,inv.dht,inv.known⟩
  | true =>
    have noStream : ctx.live = false := by simpa using (timed runs).stream
    have noDuplex : ctx.duplex = false := by simpa using mt inv.live_iff.mpr (by simp [noStream])
    exact doConnect_invariant ⟨inv.dht,inv.known,fun _ => (timed runs).attempts,fun _ => rfl⟩
      inv.failures noDuplex (inv.drained noStream)

/-- A close counts the first failure, so it arms the timer and never restarts. -/
theorem close_invariant (inv : ctx.ClientInvariant) (open_ : ctx.live = true) :
    (ctx.handle .close).1.ClientInvariant := by
  have healthy := inv.healthy open_
  rcases scheduleReconnect_cases { ctx with closed := true,connected := false,decoder := ctx.decoder.reset } with
    ⟨halted,eq⟩ | ⟨runs,-,eq⟩ | ⟨-,late,-⟩
  · rw [handle,respond,onClose,occur,eq]
    exact ⟨⟨fun runs => absurd (halted.symm.trans runs) (by decide),inv.failures,by simp [live],fun _ => rfl,by simp⟩,
      inv.dht,inv.known⟩
  · rw [handle,respond,onClose,occur,eq]
    obtain ⟨w,waits⟩ := inv.exactlyOne runs
    obtain rfl := waits.stream.mp open_
    refine ⟨⟨fun _ => ⟨.timer,waits.attempts,by simp,by simp [live]⟩,?_,by simp [live],fun _ => rfl,by simp⟩,inv.dht,inv.known⟩
    exact Nat.succ_le_succ (healthy.le.trans (Nat.zero_le 1))
  · dsimp only at late
    omega

theorem handle_invariant (ctx : ClientCtx) (e : ClientEvent) (inv : ctx.ClientInvariant)
    (enabled : ctx.Enabled e) : (ctx.handle e).1.ClientInvariant := by
  cases e with
  | connectResult generation result => exact connectCallback_invariant inv enabled result
  | reconnectTimer => exact reconnectTimer_invariant inv enabled
  | message data =>
    refine ⟨⟨fun runs => (inv.exactlyOne runs).imp fun _ w => ⟨w.attempts,w.timer,w.stream⟩,inv.failures,
      inv.healthy,fun none => ?_,inv.held⟩,inv.dht,inv.known⟩
    exact absurd (enabled.symm.trans none) (by decide)
  | close => exact close_invariant inv enabled
  | signal =>
    exact ⟨⟨by simp [handle,respond,onSignal],inv.failures,inv.healthy,inv.drained,inv.held⟩,inv.dht,inv.known⟩
  | tunPacket => exact inv

/-- Only a signal stops the client. -/
theorem handle_running (e : ClientEvent) (other : e ≠ .signal) : (ctx.handle e).1.running = ctx.running := by
  cases e with
  | connectResult generation result =>
    by_cases stale : generation ≠ ctx.dhtGeneration
    · rw [handle_stale stale]
    · obtain rfl : generation = ctx.dhtGeneration := not_not.mp stale
      rw [handle_current]
      cases result with
      | error code => exact scheduleReconnect_running _
      | connected serverIp installs => exact installTunnel_running _ serverIp installs
  | reconnectTimer => exact doConnect_running _
  | message data => rfl
  | close => exact scheduleReconnect_running _
  | signal => exact absurd rfl other
  | tunPacket established data => rfl

theorem run_running (events : List ClientEvent) :
    (client.run ctx events).running = true ↔ ctx.running = true ∧ .signal ∉ events := by
  induction events generalizing ctx with
  | nil => simp
  | cons e events ih =>
    rw [Machine.run_cons,ih,List.mem_cons,not_or]
    by_cases signal : e = .signal
    · subst signal
      exact iff_of_false (fun runs => Bool.false_ne_true runs.1) fun none => none.2.1 rfl
    · rw [show (client.next ctx e).running = ctx.running from handle_running e signal]
      exact and_congr_right fun _ => (and_iff_right (Ne.symm signal)).symm

theorem initial_invariant (config : Config) : (initial config).ClientInvariant :=
  doConnect_invariant ⟨rfl,by simp,fun _ => rfl,fun _ => rfl⟩ (Nat.zero_le 2) rfl rfl

end ClientCtx

/-- In every run of the client's handlers, whatever the order of results, timers, closes
and signals, the client waits for exactly one thing as long as it runs, and it runs until a
signal. -/
theorem client_reconnecting (config : Config) (events : List ClientEvent)
    (admitted : client.Admits (.initial config) events) :
    client.Throughout ClientCtx.Reconnecting (.initial config) events ∧
    ∀ past, past <+: events → ((client.run (.initial config) past).running = true ↔ .signal ∉ past) := by
  constructor
  · exact Machine.throughout_of_invariant ClientCtx.ClientInvariant ClientCtx.handle_invariant
      (fun _ inv => inv.toReconnecting) (ClientCtx.initial_invariant config) admitted
  · intro past _
    exact (ClientCtx.run_running past).trans (and_iff_right rfl)

/-- Three failed connects restart the DHT; the fourth succeeds and its stream closes. -/
theorem client_reconnecting_restart :
    let events := [.connectResult 0 (.error 5),.reconnectTimer,.connectResult 0 (.error 5),.reconnectTimer,
      .connectResult 0 (.error 5),.connectResult 1 (.connected "1.2.3.4".toList true),
      .message [0,0],.close,.reconnectTimer,.signal]
    client.Throughout ClientCtx.Reconnecting (.initial {}) events ∧
    ∀ past, past <+: events → ((client.run (.initial {}) past).running = true ↔ .signal ∉ past) :=
  client_reconnecting {} _ (by decide +kernel)

end Nospoon
