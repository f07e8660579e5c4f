import Nospoon.Js.Client
import Nospoon.Library.Simulation

/-! One attempt at a time. While it is not told to stop, the JavaScript client holds either
a connection or one timer for the next, whatever order its events come in. -/
namespace Nospoon.Js

open Library

namespace Client

/-- Connections and timers that lead on. -/
def prospects (s : Client) : Nat := s.activeConnection.toList.length + s.timeouts.length

/-- At most one connection is not closed, and it is the active one; its keepalive interval
is the only one, from its opening to its end. -/
structure OneAttempt (s : Client) : Prop where
  live : ∀ conn, (s.has conn fun c => !c.closed) = true ↔ s.activeConnection = some conn
  atMost : s.prospects ≤ 1
  persists : s.shuttingDown = false → s.ended = false → s.prospects = 1
  beats : ∀ conn ∈ s.intervals, s.activeConnection = some conn ∧ (s.has conn fun c => c.opened) = true
  single : s.intervals.Nodup
  kept : s.shuttingDown = false → ∀ conn, (s.has conn fun c => c.opened && !c.destroyed && !c.closed) = true →
    conn ∈ s.intervals

variable {s : Client} {conn : Conn}

theorem has_update (s : Client) (conn other : Conn) (f : ClientConn → ClientConn) (p : ClientConn → Bool) :
    (s.update conn f).has other p = s.has other fun c => if conn = other then p (f c) else p c := by
  unfold has
  rw [lookup_update]
  by_cases same : conn = other
  · simp only [same,↓reduceIte]
    cases s.connections[other]? <;> rfl
  · simp only [same,↓reduceIte]

/-- An update that keeps what `p` looks at. -/
theorem has_update_of_eq {f : ClientConn → ClientConn} {p : ClientConn → Bool} (same : ∀ c, p (f c) = p c) (other : Conn) :
    (s.update conn f).has other p = s.has other p := by
  rw [has_update]
  congr 1
  funext c
  split_ifs
  · exact same c
  · rfl

theorem has_connect (s : Client) (conn : Conn) (p : ClientConn → Bool) :
    s.connect.1.has conn p = if conn = s.connections.length then p {} else s.has conn p := by
  unfold has connect
  dsimp only
  rcases Nat.lt_trichotomy conn s.connections.length with before | new | beyond
  · rw [List.getElem?_append_left before,if_neg before.ne]
  · subst new
    rw [List.getElem?_concat_length,if_pos rfl,Option.any_some]
  · have past : s.connections[conn]? = none := List.getElem?_eq_none beyond.le
    have past' : (s.connections ++ [({} : ClientConn)])[conn]? = none :=
      List.getElem?_eq_none (by rw [List.length_append,List.length_singleton]; exact beyond)
    rw [past,past',if_neg beyond.ne',Option.any_none]

/-- A client between two attempts: nothing is live. -/
structure Between (s : Client) : Prop where
  closed : ∀ conn, (s.has conn fun c => !c.closed) = false
  active : s.activeConnection = none
  intervals : s.intervals = []

/-- What holds of live connections only holds of none. -/
theorem Between.none (between : s.Between) {p : ClientConn → Bool} (live : ∀ c, p c = true → c.closed = false) (conn : Conn) :
    s.has conn p = false := by
  rw [Bool.eq_false_iff]
  intro holds
  obtain ⟨c,found,meets⟩ := has_iff.mp holds
  have alive : (s.has conn fun c => !c.closed) = true := has_iff.mpr ⟨c,found,by simp [live c meets]⟩
  rw [between.closed conn] at alive
  contradiction

/-- Opened, and neither destroyed nor closed. -/
theorem opened_live (c : ClientConn) (holds : (c.opened && !c.destroyed && !c.closed) = true) : c.closed = false := by
  simp only [Bool.and_eq_true,Bool.not_eq_true'] at holds
  exact holds.2

theorem Between.oneAttempt (between : s.Between) (few : s.timeouts.length ≤ 1)
    (armed : s.shuttingDown = false → s.ended = false → s.timeouts.length = 1) : s.OneAttempt := by
  have waits : s.prospects = s.timeouts.length := by simp [prospects,between.active]
  refine ⟨fun conn => ?_,waits ▸ few,fun runs lives => waits.trans (armed runs lives),?_,?_,?_⟩
  · simp [between.closed conn,between.active]
  · simp [between.intervals]
  · simp [between.intervals]
  · intro _ conn alive
    rw [between.none opened_live] at alive
    contradiction

theorem connect_oneAttempt (between : s.Between) (unarmed : s.timeouts = []) : s.connect.1.OneAttempt := by
  refine ⟨fun conn => ?_,?_,fun _ _ => ?_,?_,?_,?_⟩
  · rw [has_connect]
    split_ifs with new
    · simp [connect,new]
    · simp [connect,between.closed conn]
      exact fun same => new same.symm
  · simp [prospects,connect,unarmed]
  · simp [prospects,connect,unarmed]
  · simp [connect,between.intervals]
  · simp [connect,between.intervals]
  · intro _ conn alive
    rw [has_connect] at alive
    split_ifs at alive with new
    · contradiction
    · rw [between.none opened_live] at alive
      contradiction

theorem initial_oneAttempt (fullTunnel : Bool) : (initial fullTunnel).OneAttempt :=
  connect_oneAttempt ⟨fun _ => rfl,rfl,rfl⟩ rfl

/-- The close of the active connection leaves nothing live. -/
theorem OneAttempt.closing (one : s.OneAttempt) (live : (s.has conn fun c => !c.closed) = true) (other : Conn) :
    ((s.update conn fun c => { c with destroyed := true,closed := true }).has other fun c => !c.closed) = false := by
  rw [has_update]
  by_cases same : conn = other
  · simp [same,has]
  · simp only [same,↓reduceIte]
    rw [Bool.eq_false_iff]
    intro alive
    have here := (one.live conn).mp live
    rw [(one.live other).mp alive] at here
    exact same (Option.some.inj here).symm

/-- With a live connection no timer is armed. -/
theorem OneAttempt.unarmed (one : s.OneAttempt) (active : s.activeConnection = some conn) : s.timeouts = [] := by
  have few := one.atMost
  rw [prospects,active] at few
  simpa using few

theorem OneAttempt.intervals_eq (one : s.OneAttempt) (active : s.activeConnection = some conn) :
    ∀ other ∈ s.intervals, other = conn := by
  intro other member
  have here := (one.beats other member).1
  rw [active] at here
  exact (Option.some.inj here).symm

/-- The active connection closed, before anything follows from it. -/
def closing (s : Client) (conn : Conn) : Client :=
  { s.update conn fun c => { c with destroyed := true,closed := true } with
    intervals := s.intervals.filter fun other => other ≠ conn
    activeConnection := none }

theorem closing_between (one : s.OneAttempt) (live : (s.has conn fun c => !c.closed) = true) : (s.closing conn).Between := by
  refine ⟨one.closing live,rfl,List.filter_eq_nil_iff.mpr fun other member => ?_⟩
  simp [one.intervals_eq ((one.live conn).mp live) other member]

theorem onClose_oneAttempt (one : s.OneAttempt) (live : (s.has conn fun c => !c.closed) = true) (jitter : Nat)
    (throws : Bool) : (s.react (.close conn jitter throws)).1.OneAttempt := by
  have between := closing_between one live
  have unarmed : (s.closing conn).timeouts = [] := one.unarmed ((one.live conn).mp live)
  change (if (s.closing conn).shuttingDown then _ else _ : Client × List ClientEffect).1.OneAttempt
  split_ifs with stopping restarts
  · apply between.oneAttempt
    · simp [unarmed]
    · simp [stopping]
  · rw [restartDht]
    split_ifs
    · refine Between.oneAttempt ?_ ?_ ?_
      · exact ⟨between.closed,between.active,between.intervals⟩
      · exact (congrArg List.length unarmed).le.trans (Nat.zero_le 1)
      · simp
    · exact connect_oneAttempt ⟨between.closed,between.active,between.intervals⟩ unarmed
  · have armed (delay : Nat) : (delay :: (s.closing conn).timeouts).length = 1 := by simp [unarmed]
    exact Between.oneAttempt ⟨between.closed,between.active,between.intervals⟩ (armed _).le fun _ _ => armed _

/-- A timer that was armed leaves nothing else to wait for. -/
theorem OneAttempt.timing (one : s.OneAttempt) {delay : Nat} (armed : delay ∈ s.timeouts) :
    s.Between ∧ s.timeouts = [delay] := by
  have few := one.atMost
  rw [prospects] at few
  have some : 0 < s.timeouts.length := List.length_pos_of_mem armed
  have idle : s.activeConnection = none := by
    cases active : s.activeConnection with
    | none => rfl
    | some conn =>
      rw [active,Option.toList_some,List.length_singleton] at few
      omega
  have single : s.timeouts.length = 1 := by omega
  obtain ⟨only,eq⟩ := List.length_eq_one_iff.mp single
  rw [eq,List.mem_singleton] at armed
  refine ⟨⟨fun conn => ?_,idle,?_⟩,armed ▸ eq⟩
  · rw [Bool.eq_false_iff]
    intro live
    have active := (one.live conn).mp live
    rw [idle] at active
    contradiction
  · apply List.eq_nil_iff_forall_not_mem.mpr
    intro conn member
    have active := (one.beats conn member).1
    rw [idle] at active
    contradiction

theorem onTimeout_oneAttempt (one : s.OneAttempt) {delay : Nat} (armed : delay ∈ s.timeouts) :
    (s.react (.timeout delay)).1.OneAttempt := by
  obtain ⟨between,eq⟩ := one.timing armed
  have fired : s.timeouts.erase delay = [] := by simp [eq]
  have after : Between { s with timeouts := s.timeouts.erase delay } :=
    ⟨between.closed,between.active,between.intervals⟩
  simp only [react_timeout,onTimeout]
  split_ifs with stopping
  · apply after.oneAttempt
    · simp [fired]
    · simp [stopping]
  · exact connect_oneAttempt after fired

/-- A state that differs in nothing the account looks at. -/
theorem OneAttempt.congr (one : s.OneAttempt) {s' : Client} (connections : s'.connections = s.connections)
    (active : s'.activeConnection = s.activeConnection) (timeouts : s'.timeouts = s.timeouts)
    (intervals : s'.intervals = s.intervals) (stopping : s'.shuttingDown = s.shuttingDown)
    (ended : s'.ended = false → s.ended = false) : s'.OneAttempt := by
  have same (conn : Conn) (p : ClientConn → Bool) : s'.has conn p = s.has conn p := by rw [has,has,connections]
  have waits : s'.prospects = s.prospects := by rw [prospects,prospects,active,timeouts]
  refine ⟨fun conn => ?_,waits ▸ one.atMost,fun runs lives => waits.trans (one.persists (stopping ▸ runs) (ended lives)),
    fun conn => ?_,
    intervals ▸ one.single,fun runs conn => ?_⟩
  · rw [same,active]
    exact one.live conn
  · rw [same,active,intervals]
    exact one.beats conn
  · rw [same,intervals]
    exact one.kept (stopping ▸ runs) conn

/-- An update of a connection that opens and closes none. -/
theorem OneAttempt.update (one : s.OneAttempt) {f : ClientConn → ClientConn} (opened : ∀ c, (f c).opened = c.opened)
    (closed : ∀ c, (f c).closed = c.closed) (destroyed : ∀ c, c.destroyed = true → (f c).destroyed = true) :
    (s.update conn f).OneAttempt := by
  refine ⟨fun other => ?_,one.atMost,one.persists,fun other member => ?_,one.single,fun runs other alive => ?_⟩
  · rw [has_update_of_eq fun c => by rw [closed]]
    exact one.live other
  · rw [has_update_of_eq opened]
    exact one.beats other member
  · apply one.kept runs other
    rw [has_update] at alive
    obtain ⟨c,found,meets⟩ := has_iff.mp alive
    refine has_iff.mpr ⟨c,found,?_⟩
    split_ifs at meets
    · have still : c.destroyed = false := by
        by_contra gone
        simp [destroyed c (Bool.of_not_eq_false gone)] at meets
      simp only [opened,closed,Bool.and_eq_true] at meets
      simp [meets,still]
    · exact meets

/-- A connection opens, whatever becomes of the tunnel. -/
theorem opened_oneAttempt (one : s.OneAttempt) (fresh : (s.has conn fun c => !c.opened && !c.closed) = true) :
    OneAttempt { s.update conn fun c => { c with opened := true } with
      retryDelay := initialRetryMs
      consecutiveFailures := 0
      keepaliveInterval := some conn
      intervals := conn :: s.intervals } := by
  obtain ⟨c,found,new⟩ := has_iff.mp fresh
  simp only [Bool.and_eq_true,Bool.not_eq_true'] at new
  have active : s.activeConnection = some conn := (one.live conn).mp (has_iff.mpr ⟨c,found,by simp [new]⟩)
  have unbeaten : conn ∉ s.intervals := by
    intro member
    obtain ⟨c',found',was⟩ := has_iff.mp (one.beats conn member).2
    rw [found] at found'
    cases found'
    rw [new.1] at was
    contradiction
  have grown (other : Conn) (p : ClientConn → Bool) :
      (s.update conn fun c => { c with opened := true }).has other p =
        s.has other fun c => if conn = other then p { c with opened := true } else p c := has_update s conn other _ p
  refine ⟨fun other => ?_,one.atMost,one.persists,fun other member => ?_,List.nodup_cons.mpr ⟨unbeaten,one.single⟩,
    fun runs other alive => ?_⟩
  · have same : (s.update conn fun c => { c with opened := true }).has other (fun c => !c.closed) =
        s.has other fun c => !c.closed := by
      simp only [grown,ite_self]
    exact (Bool.eq_iff_iff.mp same).trans (one.live other)
  · have here : other = conn := by
      rcases List.mem_cons.mp member with rfl | before
      · rfl
      · exact one.intervals_eq active other before
    subst here
    refine ⟨active,(grown other _).trans ?_⟩
    exact has_iff.mpr ⟨c,found,by simp⟩
  · by_cases here : conn = other
    · rw [here]
      exact List.mem_cons_self
    · apply List.mem_cons_of_mem
      apply one.kept runs other
      have alive' := (grown other _).symm.trans alive
      simpa only [here,↓reduceIte] using alive'

theorem onInterval_oneAttempt (one : s.OneAttempt) (member : conn ∈ s.intervals) : (s.onInterval conn).1.OneAttempt := by
  rw [onInterval]
  split_ifs with alive
  · exact one
  · refine ⟨one.live,one.atMost,one.persists,fun other kept => one.beats other (List.mem_of_mem_filter kept),
      one.single.filter _,fun runs other holds => ?_⟩
    refine List.mem_filter.mpr ⟨one.kept runs other holds,?_⟩
    rw [decide_eq_true_eq]
    rintro rfl
    obtain ⟨c,found,meets⟩ := has_iff.mp holds
    simp only [Bool.and_eq_true] at meets
    exact alive (has_iff.mpr ⟨c,found,meets.1.2⟩)

theorem shutdown_oneAttempt (one : s.OneAttempt) (throws : Bool) : (s.shutdown throws).1.OneAttempt := by
  by_cases stopping : s.shuttingDown
  · rw [shutdown,if_pos stopping]
    exact one
  · have stopped : OneAttempt { s with
        shuttingDown := true
        intervals := s.intervals.filter fun conn => s.keepaliveInterval ≠ some conn } :=
      ⟨one.live,one.atMost,fun runs => by contradiction,fun other kept => one.beats other (List.mem_of_mem_filter kept),
        one.single.filter _,fun runs => by contradiction⟩
    rw [shutdown,if_neg stopping]
    dsimp only
    split_ifs
    · exact stopped.congr rfl rfl rfl rfl rfl fun lives => by contradiction
    · exact stopped
    · exact stopped

theorem onOpen_oneAttempt (one : s.OneAttempt) (fresh : (s.has conn fun c => !c.opened && !c.closed) = true)
    (serverHost : Option Text) (throws : Bool) : (s.react (.opened conn serverHost throws)).1.OneAttempt := by
  have opened := opened_oneAttempt one fresh
  rw [react_opened,onOpen]
  dsimp only
  split_ifs
  · exact opened
  · exact opened.congr rfl rfl rfl rfl rfl fun lives => by contradiction
  · exact opened.congr rfl rfl rfl rfl rfl id
  · exact opened

theorem onData_oneAttempt (one : s.OneAttempt) (data : List UInt8) : (s.onData conn data).1.OneAttempt := by
  rw [onData]
  split
  · exact one
  · exact one.update (fun _ => rfl) (fun _ => rfl) fun _ gone => gone

theorem react_oneAttempt (one : s.OneAttempt) (e : ClientEvent) (possible : s.Possible e) : (s.react e).1.OneAttempt := by
  cases e with
  | opened conn serverHost throws => exact onOpen_oneAttempt one possible serverHost throws
  | data conn chunk => exact onData_oneAttempt one chunk
  | destroy conn => exact one.update (fun _ => rfl) (fun _ => rfl) fun _ _ => rfl
  | close conn jitter throws => exact onClose_oneAttempt one possible.1 jitter throws
  | timeout delay => exact onTimeout_oneAttempt one possible
  | interval conn => exact onInterval_oneAttempt one possible
  | tunData packet => exact one
  | shutdown throws => exact shutdown_oneAttempt one throws
  | exit => exact one.congr rfl rfl rfl rfl rfl fun lives => by contradiction

/-- What the client starts and writes in answer to an event: it connects only with nothing
else live, arms a timer only with nothing at all, neither of them once it is told to stop,
and writes only to the active connection. -/
structure Orderly (s : Client) (e : ClientEvent) : Prop where
  connects : ∀ conn, .connect conn ∈ (s.react e).2 → s.shuttingDown = false ∧
    ∀ other, ((s.react e).1.has other fun c => !c.closed) = true ↔ other = conn
  retries : ∀ delay, .setTimeout delay ∈ (s.react e).2 → s.shuttingDown = false ∧
    (s.react e).1.timeouts = [delay] ∧ ∀ other, ((s.react e).1.has other fun c => !c.closed) = false
  writes : ∀ conn bytes, .streamWrite conn bytes ∈ (s.react e).2 →
    s.activeConnection = some conn ∧ (s.has conn fun c => !c.destroyed) = true

/-- An answer that starts nothing. -/
theorem orderly_of_quiet {e : ClientEvent} (connects : ∀ conn, .connect conn ∉ (s.react e).2)
    (retries : ∀ delay, .setTimeout delay ∉ (s.react e).2)
    (writes : ∀ conn bytes, .streamWrite conn bytes ∈ (s.react e).2 →
      s.activeConnection = some conn ∧ (s.has conn fun c => !c.destroyed) = true) : s.Orderly e :=
  ⟨fun conn member => absurd member (connects conn),fun delay member => absurd member (retries delay),writes⟩

/-- An answer that at most writes to the active connection. -/
theorem orderly_of_write {e : ClientEvent} (answer : (s.react e).2 = [] ∨ ∃ conn bytes, (s.react e).2 = [.streamWrite conn bytes] ∧
    s.activeConnection = some conn ∧ (s.has conn fun c => !c.destroyed) = true) : s.Orderly e := by
  rcases answer with silent | ⟨conn,bytes,written,active,alive⟩
  · apply orderly_of_quiet <;> simp [silent]
  · refine orderly_of_quiet (by simp [written]) (by simp [written]) fun other data member => ?_
    rw [written,List.mem_singleton] at member
    injection member with same
    exact same ▸ ⟨active,alive⟩

/-- The connection just made is the only one that is live. -/
theorem connect_only (between : s.Between) (conn other : Conn) (made : .connect conn ∈ s.connect.2) :
    (s.connect.1.has other fun c => !c.closed) = true ↔ other = conn := by
  have same : conn = s.connections.length := by simpa [connect] using made
  rw [has_connect,same]
  by_cases new : other = s.connections.length
  · simp [new]
  · simp [new,between.closed other]

theorem onClose_orderly (one : s.OneAttempt) (live : (s.has conn fun c => !c.closed) = true) (jitter : Nat)
    (throws : Bool) : s.Orderly (.close conn jitter throws) := by
  have between := closing_between one live
  have unarmed : (s.closing conn).timeouts = [] := one.unarmed ((one.live conn).mp live)
  by_cases stopping : s.shuttingDown
  · have quiet : (s.react (.close conn jitter throws)).2 = [] := by
      rw [react_close,onClose]
      exact congrArg Prod.snd (if_pos stopping)
    apply orderly_of_quiet <;> simp [quiet]
  have runs : s.shuttingDown = false := by simpa using stopping
  by_cases restarts : s.fullTunnelActive ∧ maxFailuresBeforeRestart ≤ s.consecutiveFailures + 1
  · let counted : Client := { s.closing conn with consecutiveFailures := s.consecutiveFailures + 1 }
    let fresh : Client := { counted with fullTunnelActive := false,retryDelay := initialRetryMs,consecutiveFailures := 0 }
    have eq : s.react (.close conn jitter throws) = counted.restartDht throws := by
      rw [react_close,onClose]
      exact (if_neg stopping).trans (if_pos restarts)
    by_cases fails : throws
    · have failed : (s.react (.close conn jitter throws)).2 = [.disableFullTunnel true] := by
        rw [eq,restartDht,if_pos fails]
      apply orderly_of_quiet <;> simp [failed]
    have restarted : s.react (.close conn jitter throws) =
        (fresh.connect.1,.disableFullTunnel false :: .newDht :: fresh.connect.2) := eq.trans (if_neg fails)
    have idle : fresh.Between := ⟨between.closed,between.active,between.intervals⟩
    refine ⟨fun made member => ⟨runs,fun other => ?_⟩,fun delay member => ?_,fun made bytes member => ?_⟩
    · rw [restarted] at member ⊢
      simp only [List.mem_cons,reduceCtorEq,false_or] at member
      exact connect_only idle made other member
    · rw [restarted] at member
      simp [connect] at member
    · rw [restarted] at member
      simp [connect] at member
  · let delay := s.retryDelay + jitter
    let armed : Client := { s.closing conn with
      consecutiveFailures := s.consecutiveFailures + 1
      timeouts := delay :: (s.closing conn).timeouts
      retryDelay := min (s.retryDelay * 2) maxRetryMs }
    have eq : s.react (.close conn jitter throws) = (armed,[.setTimeout delay]) := by
      rw [react_close,onClose]
      exact (if_neg stopping).trans (if_neg restarts)
    refine ⟨fun made member => ?_,fun set member => ?_,fun made bytes member => ?_⟩
    · rw [eq] at member
      simp at member
    · rw [eq] at member ⊢
      have same : set = delay := by simpa using member
      exact ⟨runs,by simp [armed,unarmed,same],between.closed⟩
    · rw [eq] at member
      simp at member

theorem react_orderly (one : s.OneAttempt) (e : ClientEvent) (possible : s.Possible e) : s.Orderly e := by
  cases e with
  | opened conn serverHost throws =>
    apply orderly_of_quiet <;> simp only [react_opened,onOpen] <;> split_ifs <;> simp
  | data conn chunk =>
    apply orderly_of_quiet <;> simp only [react_data,onData] <;> split <;> simp
  | destroy conn => apply orderly_of_quiet <;> simp [react,respond]
  | close conn jitter throws => exact onClose_orderly one possible.1 jitter throws
  | timeout delay =>
    obtain ⟨between,eq⟩ := one.timing possible
    by_cases stopping : s.shuttingDown
    · have quiet : (s.react (.timeout delay)).2 = [] := by simp [react_timeout,onTimeout,stopping]
      apply orderly_of_quiet <;> simp [quiet]
    · let fired : Client := { s with timeouts := s.timeouts.erase delay }
      have idle : fired.Between := ⟨between.closed,between.active,between.intervals⟩
      have eq : s.react (.timeout delay) = fired.connect := if_pos stopping
      refine ⟨fun made member => ⟨by simpa using stopping,fun other => ?_⟩,fun delay member => ?_,fun made bytes member => ?_⟩
      · rw [eq] at member ⊢
        exact connect_only idle made other member
      · rw [eq] at member
        simp [connect] at member
      · rw [eq] at member
        simp [connect] at member
  | interval conn =>
    apply orderly_of_write
    rw [react_interval,onInterval]
    split_ifs with alive
    · exact .inr ⟨conn,keepalive,rfl,(one.beats conn possible).1,alive⟩
    · exact .inl rfl
  | tunData packet =>
    apply orderly_of_write
    simp only [react_tunData,onTunData]
    split
    · exact .inl rfl
    · rename_i conn active
      split_ifs with alive
      · exact .inr ⟨conn,encode packet,rfl,active,alive⟩
      · exact .inl rfl
  | shutdown throws =>
    apply orderly_of_quiet <;> simp only [react_shutdown,shutdown] <;> split_ifs <;> simp
  | exit => apply orderly_of_quiet <;> simp [react,respond]

end Client

/-- In every run the client has at most one attempt going, before a shutdown exactly one, and
acts on nothing but that. -/
theorem client_oneAttempt (fullTunnel : Bool) (events : List ClientEvent)
    (admitted : client.Admits (Client.initial fullTunnel) events) :
    client.Throughout Client.OneAttempt (Client.initial fullTunnel) events ∧
      client.Along Client.Orderly (Client.initial fullTunnel) events := by
  have step (s : Client) (e : ClientEvent) (one : s.OneAttempt) (enabled : client.enabled s e) : (client.next s e).OneAttempt :=
    Client.react_oneAttempt one e enabled.2
  constructor
  · exact Machine.throughout_of_invariant Client.OneAttempt step (fun _ one => one) (Client.initial_oneAttempt fullTunnel) admitted
  · exact Machine.along_of_invariant step (fun s e one enabled => Client.react_orderly one e enabled.2)
      (Client.initial_oneAttempt fullTunnel) admitted

/-- A connection that opens, fails and is retried, and a shutdown in the middle of the next one. -/
def reconnecting : List ClientEvent :=
  [.opened 0 (some "1.2.3.4".toList) false,.data 0 [0,0,0,1,69],.interval 0,.destroy 0,.interval 0,.close 0 17 false,
    .timeout 1017,.tunData [69],.shutdown false,.close 1 0 false,.exit]

theorem client_oneAttempt_reconnecting : client.Throughout Client.OneAttempt (Client.initial true) reconnecting ∧
    client.Along Client.Orderly (Client.initial true) reconnecting :=
  client_oneAttempt true reconnecting (by decide +kernel)

end Nospoon.Js
