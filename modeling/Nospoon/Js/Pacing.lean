import Nospoon.Js.Client
import Nospoon.Library.Simulation

/-! How long the JavaScript client waits. The delays of a streak of failures double from a
second up to their cap; with the tunnel's routes installed the third failure restarts the
DHT at once, takes the routes away and begins again, and no later one does. -/
namespace Nospoon.Js

open Library

/-- How the client goes on after a failure: after a delay, or at once on a fresh DHT. -/
def retryOf : ClientEffect → Option (Option Nat)
  | .setTimeout delay => some (some delay)
  | .newDht => some none
  | _ => none

def retries (effects : List ClientEffect) : List (Option Nat) := effects.filterMap retryOf

/-- The jitter of a close. -/
def jitterOf : ClientEvent → Option Nat
  | .close _ jitter _ => some jitter
  | _ => none

def isShutdown : ClientEvent → Bool
  | .shutdown _ => true
  | _ => false

def isOpened : ClientEvent → Bool
  | .opened .. => true
  | _ => false

/-- A close at which taking the routes away would throw. -/
def failsToDisable : ClientEvent → Bool
  | .close _ _ throws => throws
  | _ => false

/-- The jitters of the closes that come before a shutdown. -/
def failures (events : List ClientEvent) : List Nat :=
  (events.takeWhile fun e => !isShutdown e).filterMap jitterOf

/-- The failures since the last restart, when the routes were installed at first. -/
def sinceRestart (installed : Bool) (f : Nat) : Nat := if installed ∧ 3 ≤ f then f - 3 else f

/-- The delay after a streak's `f`th failure, counted from zero, without its jitter. -/
def schedule (installed : Bool) (f : Nat) : Option Nat :=
  if installed ∧ f = 2 then none else some (min (1000 * 2 ^ sinceRestart installed f) 30000)

namespace Client

/-- The state after `f` failures in a row. -/
structure Paced (s : Client) (installed : Bool) (f : Nat) : Prop where
  failures : s.consecutiveFailures = sinceRestart installed f
  retryDelay : s.retryDelay = min (1000 * 2 ^ sinceRestart installed f) 30000
  active : s.fullTunnelActive = (installed && decide (f < 3))

variable {s : Client} {installed : Bool} {f : Nat}

theorem sinceRestart_succ (installed : Bool) (f : Nat) (goesOn : ¬(installed ∧ f = 2)) :
    sinceRestart installed (f + 1) = sinceRestart installed f + 1 := by
  unfold sinceRestart
  split_ifs <;> grind

theorem doubled (n : Nat) : min (min (1000 * 2 ^ n) 30000 * 2) maxRetryMs = min (1000 * 2 ^ (n + 1)) 30000 := by
  rw [maxRetryMs,Nat.pow_succ]
  omega

/-- A close counts as one more failure, and its delay is the scheduled one. -/
theorem onClose_pace (paced : s.Paced installed f) (runs : s.shuttingDown = false) (conn : Conn) (jitter : Nat) :
    (s.react (.close conn jitter false)).1.Paced installed (f + 1) ∧
      (s.react (.close conn jitter false)).1.shuttingDown = false ∧
      retries (s.react (.close conn jitter false)).2 = [(schedule installed f).map (· + jitter)] := by
  obtain ⟨failures,retryDelay,active⟩ := paced
  have going : ¬s.shuttingDown = true := by simp [runs]
  have reaches : (s.fullTunnelActive ∧ maxFailuresBeforeRestart ≤ s.consecutiveFailures + 1) ↔ (installed ∧ f = 2) := by
    rw [failures,active,maxFailuresBeforeRestart,sinceRestart]
    cases installed <;> grind
  by_cases restarts : installed ∧ f = 2
  · have eq : s.react (.close conn jitter false) = _ := (if_neg going).trans (if_pos (reaches.mpr restarts))
    obtain ⟨rfl,rfl⟩ := restarts
    rw [eq]
    exact ⟨⟨rfl,rfl,rfl⟩,runs,rfl⟩
  · have eq : s.react (.close conn jitter false) = _ := (if_neg going).trans (if_neg (mt reaches.mp restarts))
    have next := sinceRestart_succ installed f restarts
    rw [eq]
    refine ⟨⟨?_,?_,?_⟩,runs,?_⟩
    · rw [next]
      exact congrArg (· + 1) failures
    · rw [next,← doubled,← retryDelay]
      rfl
    · refine active.trans ?_
      cases installed
      · rfl
      · simp only [true_and] at restarts
        grind
    · rw [schedule,if_neg restarts,← retryDelay]
      rfl

/-- Only a close leads to a retry. -/
theorem react_noRetry (s : Client) (e : ClientEvent) (noClose : jitterOf e = none) : retries (s.react e).2 = [] := by
  cases e with
  | opened conn serverHost throws =>
    simp only [react_opened,onOpen]
    split_ifs <;> rfl
  | data conn chunk =>
    simp only [react_data,onData]
    split
    · rfl
    · rw [retries,List.filterMap_map]
      exact List.filterMap_eq_nil_iff.mpr fun _ _ => rfl
  | close conn jitter => contradiction
  | timeout delay =>
    simp only [react_timeout,onTimeout]
    split_ifs <;> rfl
  | interval conn =>
    simp only [react_interval,onInterval]
    split_ifs <;> rfl
  | tunData packet =>
    simp only [react_tunData,onTunData]
    split
    · rfl
    · split_ifs <;> rfl
  | shutdown throws =>
    have ends : retries (s.activeConnection.toList.map .connectionEnd) = [] := by
      rw [retries,List.filterMap_map]
      exact List.filterMap_eq_nil_iff.mpr fun _ _ => rfl
    simp only [react_shutdown,shutdown]
    split_ifs
    · rfl
    · rfl
    · exact ends
    · exact ends
  | destroy | exit => rfl

/-- What the other events leave alone. -/
theorem react_frame (s : Client) (e : ClientEvent) (noClose : jitterOf e = none) (noOpen : isOpened e = false) :
    (s.react e).1.consecutiveFailures = s.consecutiveFailures ∧ (s.react e).1.retryDelay = s.retryDelay ∧
      (s.react e).1.fullTunnelActive = s.fullTunnelActive ∧ (s.react e).1.shuttingDown = (s.shuttingDown || isShutdown e) := by
  have no : (s.shuttingDown || false) = s.shuttingDown := Bool.or_false _
  cases e with
  | opened => contradiction
  | close => contradiction
  | data conn chunk =>
    simp only [react_data,onData]
    split <;> exact ⟨rfl,rfl,rfl,no.symm⟩
  | timeout delay =>
    simp only [react_timeout,onTimeout]
    split_ifs <;> exact ⟨rfl,rfl,rfl,no.symm⟩
  | interval conn =>
    simp only [react_interval,onInterval]
    split_ifs <;> exact ⟨rfl,rfl,rfl,no.symm⟩
  | shutdown throws =>
    have stops : (s.shuttingDown || true) = true := Bool.or_true _
    simp only [react_shutdown,shutdown]
    split_ifs with stopping <;> refine ⟨rfl,rfl,rfl,?_⟩
    · exact stopping.trans stops.symm
    · exact stops.symm
    · exact stops.symm
    · exact stops.symm
  | destroy | exit | tunData => exact ⟨rfl,rfl,rfl,no.symm⟩

/-- Told to stop, the client retries no more. -/
theorem log_stopped (stopping : s.shuttingDown = true) (events : List ClientEvent) (unbroken : ∀ e ∈ events, isOpened e = false) :
    retries (client.log s events) = [] := by
  induction events generalizing s with
  | nil => rfl
  | cons e events ih =>
    obtain ⟨noOpen,later⟩ := List.forall_mem_cons.mp unbroken
    have now : (s.react e).1.shuttingDown = true ∧ retries (s.react e).2 = [] := by
      cases closes : jitterOf e with
      | none =>
        obtain ⟨-,-,-,still⟩ := react_frame s e closes noOpen
        exact ⟨by rw [still,stopping,Bool.true_or],react_noRetry s e closes⟩
      | some jitter =>
        cases e with
        | close conn jitter throws =>
          have eq : s.react (.close conn jitter throws) = _ := if_pos stopping
          rw [eq]
          exact ⟨stopping,rfl⟩
        | opened | data | destroy | timeout | interval | tunData | shutdown | exit => contradiction
    rw [Machine.log_cons,retries,List.filterMap_append]
    exact (congrArg (· ++ _) now.2).trans (ih now.1 later)

/-- The retries of a streak, from the `f`th failure on. -/
theorem log_pace (paced : s.Paced installed f) (runs : s.shuttingDown = false) (events : List ClientEvent)
    (unbroken : ∀ e ∈ events, isOpened e = false) (disables : ∀ e ∈ events, failsToDisable e = false) :
    retries (client.log s events) =
      (failures events).mapIdx fun i jitter => (schedule installed (f + i)).map (· + jitter) := by
  induction events generalizing s f with
  | nil => rfl
  | cons e events ih =>
    obtain ⟨noOpen,later⟩ := List.forall_mem_cons.mp unbroken
    obtain ⟨noThrow,smoothly⟩ := List.forall_mem_cons.mp disables
    have split : retries (client.log s (e :: events)) = retries (s.react e).2 ++ retries (client.log (s.react e).1 events) :=
      List.filterMap_append
    rw [split]
    cases closes : jitterOf e with
    | none =>
      obtain ⟨failed,waited,active,stops⟩ := react_frame s e closes noOpen
      have same : (s.react e).1.Paced installed f :=
        ⟨failed.trans paced.failures,waited.trans paced.retryDelay,active.trans paced.active⟩
      rw [react_noRetry s e closes,List.nil_append]
      cases stop : isShutdown e with
      | true =>
        have nothing : failures (e :: events) = [] := by simp [failures,stop]
        rw [nothing,log_stopped (by rw [stops,stop,Bool.or_true]) events later]
        rfl
      | false =>
        have rest : failures (e :: events) = failures events := by simp [failures,stop,closes]
        rw [rest]
        exact ih same (by rw [stops,stop,runs]; rfl) later smoothly
    | some jitter =>
      cases e with
      | close conn jitter' throws =>
        have whole : throws = false := noThrow
        subst whole
        obtain ⟨next,running,delay⟩ := onClose_pace paced runs conn jitter'
        have first : failures (.close conn jitter' false :: events) = jitter' :: failures events := rfl
        rw [first,List.mapIdx_cons]
        have onward := ih next running later smoothly
        rw [delay,onward]
        simp only [Nat.add_zero,List.singleton_append,Nat.add_assoc,Nat.add_comm 1]
      | opened | data | destroy | timeout | interval | tunData | shutdown | exit => contradiction

theorem paced_zero (failures : s.consecutiveFailures = 0) (retryDelay : s.retryDelay = initialRetryMs) :
    s.Paced s.fullTunnelActive 0 := by
  have none : sinceRestart s.fullTunnelActive 0 = 0 := by simp [sinceRestart]
  exact ⟨by rw [none,failures],by rw [none,retryDelay]; rfl,by simp⟩

/-- A streak starts at the beginning or with a connection that opens. -/
theorem start_pace (fullTunnel : Bool) (before : List ClientEvent) (start : ∀ e ∈ before.getLast?, isOpened e = true) :
    (client.run (initial fullTunnel) before).Paced (client.run (initial fullTunnel) before).fullTunnelActive 0 := by
  rcases List.eq_nil_or_concat before with rfl | ⟨front,e,rfl⟩
  · exact paced_zero rfl rfl
  · have opens : isOpened e = true := start e (by simp)
    cases e with
    | opened conn serverHost throws =>
      rw [List.concat_eq_append,Machine.run_append]
      change ((client.run (initial fullTunnel) front).react (.opened conn serverHost throws)).1.Paced
        ((client.run (initial fullTunnel) front).react (.opened conn serverHost throws)).1.fullTunnelActive 0
      rw [react_opened,onOpen]
      dsimp only
      split_ifs <;> exact paced_zero rfl rfl
    | data | destroy | close | timeout | interval | tunData | shutdown | exit => contradiction

end Client

/-- The retries of a streak are exactly those of the schedule, one for each failure before a
shutdown, each with its own jitter on top. -/
theorem client_schedule (fullTunnel : Bool) (before streak : List ClientEvent) (start : ∀ e ∈ before.getLast?, isOpened e = true)
    (running : (client.run (Client.initial fullTunnel) before).shuttingDown = false) (unbroken : ∀ e ∈ streak, isOpened e = false)
    (disables : ∀ e ∈ streak, failsToDisable e = false) :
    retries (client.log (client.run (Client.initial fullTunnel) before) streak) =
      (failures streak).mapIdx fun i jitter =>
        (schedule (client.run (Client.initial fullTunnel) before).fullTunnelActive i).map (· + jitter) := by
  have pace := Client.log_pace (Client.start_pace fullTunnel before start) running streak unbroken disables
  simpa only [Nat.zero_add] using pace

/-- A client whose routes are installed restarts on its third failure, and then waits for a
second again. -/
theorem client_schedule_restarts : retries (client.log
    (client.run (Client.initial true) [.opened 0 (some "1.2.3.4".toList) false])
    [.close 0 5 false,.timeout 1005,.close 1 6 false,.timeout 2006,.close 2 7 false,.close 3 8 false]) = [some 1005,some 2006,none,some 1008] :=
  (client_schedule true [.opened 0 (some "1.2.3.4".toList) false]
    [.close 0 5 false,.timeout 1005,.close 1 6 false,.timeout 2006,.close 2 7 false,.close 3 8 false] (by decide +kernel) (by decide +kernel)
    (by decide +kernel) (by decide +kernel)).trans (by decide +kernel)

end Nospoon.Js
