import Nospoon.KillSwitch

/-! The delays of a streak of failures. They double from the first failure to the second, and
the third failure restarts the DHT at once and begins again: the cap is never reached. -/
namespace Nospoon

open Library

/-- The delay of the attempt that a failure leads to. A restart connects at once. -/
def delayOf : Effect → Option Nat
  | .armReconnect ms => some ms
  | .restart _ => some 0
  | _ => none

/-- A connect that succeeds and counts. -/
def Succeeds (ctx : ClientCtx) : ClientEvent → Prop
  | .connectResult generation (.connected ..) => generation = ctx.dhtGeneration
  | _ => False

instance decidableSucceeds (ctx : ClientCtx) : ∀ e, Decidable (Succeeds ctx e)
  | .connectResult generation (.connected ..) => inferInstanceAs (Decidable (generation = ctx.dhtGeneration))
  | .connectResult _ (.error _) | .reconnectTimer | .message _ | .close | .signal | .tunPacket .. => isFalse id

/-- The failures in a run of events: the lost streams and the failed connects, until a
signal. -/
def failuresIn (ctx : ClientCtx) : List ClientEvent → Nat
  | [] => 0
  | e :: events => ((ClientLife.arrives ctx e).filterMap Moment.loss).length + failuresIn (client.next ctx e) events

/-- The promised schedule for a number of failures in a row: each has its delay, each delay
is twice the one before, up to the cap, and `n` failures reach the cap. -/
structure BacksOff (n failures : Nat) (delays : List Nat) : Prop where
  each : delays.length = failures
  doubling : delays.IsChain fun before after => before ≤ after ∧ after = min (2 * before) 30000
  capped : n ≤ failures → 30000 ∈ delays

/-- The events `streak` follow on `before`, which ends with a successful connect or is
empty, and no connect among them succeeds. -/
structure Streak (config : Config) (before streak : List ClientEvent) : Prop where
  admitted : client.Admits (.initial config) (before ++ streak)
  start : before = [] ∨ ∃ front e, before = front ++ [e] ∧ Succeeds (client.run (.initial config) front) e
  unbroken : client.Along (fun ctx e => ¬Succeeds ctx e) (client.run (.initial config) before) streak

/-- The failures of a streak. -/
def streakFailures (config : Config) (before streak : List ClientEvent) : Nat :=
  failuresIn (client.run (.initial config) before) streak

/-- The delays before the attempts of a streak. -/
def delays (config : Config) (before streak : List ClientEvent) : List Nat :=
  (client.log (client.run (.initial config) before) streak).filterMap delayOf

/-! ### The pace -/

/-- The delay after the failure that comes on top of `f` failures. -/
def pace (f : Nat) : Nat := if f % 3 = 0 then 2000 else if f % 3 = 1 then 4000 else 0

namespace ClientCtx

/-- The state after `f` failures in a row. -/
structure Paced (ctx : ClientCtx) (f : Nat) : Prop where
  failures : ctx.failures = f % 3
  backoff : ctx.backoffMs = if f % 3 = 0 then 1000 else if f % 3 = 1 then 2000 else 4000

variable {ctx : ClientCtx} {f : Nat}

theorem doConnect_pace (ctx : ClientCtx) (paced : ctx.Paced f) : ctx.doConnect.1.Paced f ∧ ctx.doConnect.2.filterMap delayOf = [] := by
  unfold doConnect
  split_ifs
  · exact ⟨paced,rfl⟩
  · exact ⟨⟨paced.failures,paced.backoff⟩,rfl⟩

theorem restartDht_pace (ctx : ClientCtx) (runs : ctx.running = true) (round : f % 3 = 0) :
    ctx.restartDht.1.Paced f ∧ ctx.restartDht.2.filterMap delayOf = [0] := by
  rw [restartDht,if_neg (by simp [runs])]
  let restarted : ClientCtx := { ctx with
    dhtGeneration := ctx.dhtGeneration + 1
    duplex := false
    decoder := ctx.decoder.reset
    connected := false
    dht := true
    failures := 0
    backoffMs := 1000 }
  have anew : restarted.Paced f := ⟨round.symm,(if_pos round).symm⟩
  obtain ⟨paced,silent⟩ := doConnect_pace restarted anew
  exact ⟨paced,congrArg (0 :: ·) silent⟩

theorem dropTunnel_silent (ctx : ClientCtx) : ctx.dropTunnel.2.filterMap delayOf = [] := by
  unfold dropTunnel
  split_ifs <;> rfl

/-- A failure of a running client is one more, and has its delay. -/
theorem scheduleReconnect_pace (ctx : ClientCtx) (paced : ctx.Paced f) :
    ctx.scheduleReconnect.1.Paced (f + ctx.running.toNat) ∧
      ctx.scheduleReconnect.2.filterMap delayOf = (List.range' f ctx.running.toNat).map pace := by
  obtain ⟨failures,backoff⟩ := paced
  rcases ctx.scheduleReconnect_cases with ⟨halted,eq⟩ | ⟨runs,early,eq⟩ | ⟨runs,late,eq⟩
  · rw [eq,halted]
    exact ⟨⟨failures,backoff⟩,rfl⟩
  · have one : ctx.running.toNat = 1 := congrArg Bool.toNat runs
    rw [eq,one]
    have cases : f % 3 = 0 ∨ f % 3 = 1 := by omega
    rcases cases with first | second
    · have next : (f + 1) % 3 = 1 := by omega
      rw [first] at failures backoff
      refine ⟨⟨?_,?_⟩,?_⟩
      · simp [next,failures]
      · simp [next,backoff]
      · simp [delayOf,pace,first,backoff]
    · have next : (f + 1) % 3 = 2 := by omega
      rw [second] at failures backoff
      refine ⟨⟨?_,?_⟩,?_⟩
      · simp [next,failures]
      · simp [next,backoff]
      · simp [delayOf,pace,second,backoff]
  · have one : ctx.running.toNat = 1 := congrArg Bool.toNat runs
    rw [eq,one]
    have third : f % 3 = 2 := by omega
    have round : (f + 1) % 3 = 0 := by omega
    let counted : ClientCtx := { ctx with failures := ctx.failures + 1 }
    obtain ⟨restarted,delay⟩ := restartDht_pace counted.dropTunnel.1 (dropTunnel_running.trans runs) round
    refine ⟨restarted,?_⟩
    dsimp only
    rw [List.filterMap_append,dropTunnel_silent,delay]
    simp [pace,third]

/-- What an event that is no success does to the pace: its failures are counted, and each
has its delay. -/
theorem handle_pace (paced : ctx.Paced f) (e : ClientEvent) (fails : ¬Succeeds ctx e) :
    let lost := ((ClientLife.arrives ctx e).filterMap Moment.loss).length
    (ctx.handle e).1.Paced (f + lost) ∧ (ctx.handle e).2.filterMap delayOf = (List.range' f lost).map pace := by
  have silent {r : ClientCtx × List Effect} (same : r.1.Paced f ∧ r.2.filterMap delayOf = []) :
      r.1.Paced (f + 0) ∧ r.2.filterMap delayOf = (List.range' f 0).map pace := same
  cases e with
  | connectResult generation result =>
    by_cases stale : generation ≠ ctx.dhtGeneration
    · have none : ClientLife.arrives ctx (.connectResult generation result) = [] := if_pos stale
      rw [handle_stale stale,none]
      exact silent ⟨⟨paced.failures,paced.backoff⟩,rfl⟩
    · obtain rfl : generation = ctx.dhtGeneration := not_not.mp stale
      cases result with
      | error code =>
        have lost : ((ClientLife.arrives ctx (.connectResult ctx.dhtGeneration (.error code))).filterMap Moment.loss).length =
            ctx.running.toNat := by
          rw [ClientLife.arrives,if_neg stale]
          cases ctx.running <;> rfl
        rw [handle_current,lost]
        exact scheduleReconnect_pace { ctx with pending := ctx.pending.erase ctx.dhtGeneration } ⟨paced.failures,paced.backoff⟩
      | connected serverIp installs => exact absurd rfl fails
  | reconnectTimer => exact silent (doConnect_pace _ ⟨paced.failures,paced.backoff⟩)
  | message data =>
    refine silent ⟨⟨paced.failures,paced.backoff⟩,?_⟩
    rw [handle,respond,onMessage,List.filterMap_map]
    exact List.filterMap_eq_nil_iff.mpr fun _ _ => rfl
  | close =>
    have lost : ((ClientLife.arrives ctx .close).filterMap Moment.loss).length = ctx.running.toNat := by
      rw [ClientLife.arrives]
      cases ctx.running <;> rfl
    obtain ⟨next,delay⟩ := scheduleReconnect_pace { ctx with closed := true,connected := false,decoder := ctx.decoder.reset }
      ⟨paced.failures,paced.backoff⟩
    rw [lost]
    exact ⟨⟨next.failures,next.backoff⟩,delay⟩
  | signal => exact silent ⟨⟨paced.failures,paced.backoff⟩,rfl⟩
  | tunPacket established data =>
    refine silent ⟨⟨paced.failures,paced.backoff⟩,?_⟩
    rw [handle,respond,onTunPacket]
    dsimp only
    split_ifs <;> rfl

/-- A success begins a new streak. -/
theorem success_pace {e : ClientEvent} (succeeds : Succeeds ctx e) : (ctx.handle e).1.Paced 0 := by
  cases e with
  | connectResult generation result =>
    cases result with
    | error code => cases succeeds
    | connected serverIp installs =>
      obtain rfl : generation = ctx.dhtGeneration := succeeds
      rw [handle_current,onConnectResult]
      dsimp only
      unfold installTunnel
      split_ifs <;> exact ⟨rfl,rfl⟩
  | reconnectTimer | message | close | signal | tunPacket => cases succeeds

theorem initial_pace (config : Config) : (initial config).Paced 0 := (doConnect_pace _ ⟨rfl,rfl⟩).1

/-- The delays of a run without success, from the `f`th failure on. -/
theorem log_pace (paced : ctx.Paced f) (events : List ClientEvent)
    (unbroken : client.Along (fun ctx e => ¬Succeeds ctx e) ctx events) :
    (client.log ctx events).filterMap delayOf = (List.range' f (failuresIn ctx events)).map pace := by
  induction events generalizing ctx f with
  | nil => rfl
  | cons e events ih =>
    obtain ⟨fails,later⟩ := Machine.along_cons.mp unbroken
    obtain ⟨next,delay⟩ := handle_pace paced e fails
    have here : (client.emits ctx e).filterMap delayOf = _ := delay
    have rest : (client.log (client.next ctx e) events).filterMap delayOf = _ := ih next later
    rw [Machine.log_cons,List.filterMap_append,here,rest,failuresIn,← List.range'_append_1,List.map_append]

end ClientCtx

/-! ### Streaks -/

theorem pace_lt_cap (f : Nat) : pace f < 30000 := by
  unfold pace
  split_ifs <;> decide

/-- The first `n` delays keep the schedule as long as the third is not among them. -/
theorem backsOff_pace (n m : Nat) : BacksOff m n ((List.range' 0 n).map pace) ↔ n ≤ 2 ∧ n < m := by
  have length : ((List.range' 0 n).map pace).length = n := by simp
  have uncapped : 30000 ∉ (List.range' 0 n).map pace := by
    intro member
    obtain ⟨f,-,cap⟩ := List.mem_map.mp member
    exact absurd cap (pace_lt_cap f).ne
  constructor
  · rintro ⟨-,doubling,capped⟩
    refine ⟨?_,?_⟩
    · by_contra many
      obtain ⟨rest,rfl⟩ : ∃ rest, n = rest + 3 := ⟨n - 3,by omega⟩
      have third : pace 1 ≤ pace 2 := by
        have chain := doubling
        simp only [List.range'_succ,List.map_cons,List.isChain_cons_cons] at chain
        exact chain.2.1.1
      exact absurd third (by decide)
    · by_contra enough
      exact uncapped (capped (by omega))
  · rintro ⟨few,less⟩
    refine ⟨length,?_,fun enough => absurd enough (by omega)⟩
    interval_cases n <;> decide

/-- Every failure of a streak has its delay, and the streak keeps the schedule exactly if it
has at most two failures, and fewer than are to reach the cap. -/
theorem client_backsOff_iff (config : Config) (before streak : List ClientEvent) (run : Streak config before streak) (n : Nat) :
    delays config before streak = (List.range' 0 (streakFailures config before streak)).map pace ∧
    (BacksOff n (streakFailures config before streak) (delays config before streak) ↔
      streakFailures config before streak ≤ 2 ∧ streakFailures config before streak < n) := by
  have paced : (client.run (.initial config) before).Paced 0 := by
    rcases run.start with rfl | ⟨front,e,rfl,succeeds⟩
    · exact ClientCtx.initial_pace config
    · rw [Machine.run_append]
      exact ClientCtx.success_pace succeeds
  have listed : delays config before streak = (List.range' 0 (streakFailures config before streak)).map pace :=
    ClientCtx.log_pace paced streak run.unbroken
  refine ⟨listed,?_⟩
  rw [listed]
  exact backsOff_pace _ n

/-- A stream that breaks after the first connect, and one failed attempt. -/
theorem client_backsOff_twice :
    let before : List ClientEvent := [.connectResult 0 (.connected "1.2.3.4".toList true)]
    let streak : List ClientEvent := [.close,.reconnectTimer,.connectResult 0 (.error 5),.reconnectTimer]
    streakFailures {} before streak = 2 ∧ BacksOff 5 2 (delays {} before streak) := by
  have two : streakFailures {} [.connectResult 0 (.connected "1.2.3.4".toList true)]
    [.close,.reconnectTimer,.connectResult 0 (.error 5),.reconnectTimer] = 2 := by decide +kernel
  refine ⟨two,?_⟩
  have exact := (client_backsOff_iff {} [.connectResult 0 (.connected "1.2.3.4".toList true)]
    [.close,.reconnectTimer,.connectResult 0 (.error 5),.reconnectTimer]
    ⟨by decide +kernel,.inr ⟨[],_,rfl,by decide +kernel⟩,by decide +kernel⟩ 5).2
  rw [two] at exact
  exact exact.mpr (by decide)

/-- On the third failed attempt the client connects again at once. -/
theorem client_unpaced : ¬∃ n, ∀ config before streak, Streak config before streak →
    BacksOff n (streakFailures config before streak) (delays config before streak) := by
  rintro ⟨n,claim⟩
  have run : Streak {} [] [.connectResult 0 (.error 5),.reconnectTimer,.connectResult 0 (.error 5),.reconnectTimer,
      .connectResult 0 (.error 5)] := ⟨by decide +kernel,.inl rfl,by decide +kernel⟩
  have doubling := (claim _ _ _ run).doubling
  have listed : delays {} [] [.connectResult 0 (.error 5),.reconnectTimer,.connectResult 0 (.error 5),.reconnectTimer,
      .connectResult 0 (.error 5)] = [2000,4000,0] := by decide +kernel
  rw [listed] at doubling
  exact absurd doubling (by decide)

end Nospoon
