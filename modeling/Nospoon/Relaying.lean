import Nospoon.NetworkServers
import Nospoon.NetworkClients

/-! With a peers map the network is a hub with spokes, whichever programs run on it. The two
byte streams of a link, with the decoder at the end of each, are the two queues of a spoke;
every event is a run of the hub that shows the same packets in the same order. -/
namespace Nospoon

open Library

def Network.ends (net : Network) : LinkEnds UInt8 :=
  ⟨fun d buf => net.server.Buffers d buf,fun d buf => ∃ key, (net.members key).Buffers d buf⟩

/-- A state of the network and one of the hub; link `d` is `ahead d`. -/
structure Follows (honest : PublicKey → Bool) (which : Implementation) (config : Config) (ahead : Nat → List Packet)
    (net : Network) (spokes : List (Spoke PublicKey Packet)) : Prop where
  server : net.server.Linked which config net.links
  clients : ∀ key, (net.members key).Linked key net.links
  wired : Wired frameCode honest net.ends ahead net.links spokes

/-- An event of the network is a run of the hub that shows the same. -/
def Answered (honest : PublicKey → Bool) (which : Implementation) (config : Config) (net : Network)
    (spokes : List (Spoke PublicKey Packet)) (e : NetworkEvent) : Prop :=
  ∃ es, (hub (which.addressing config)).Admits spokes es ∧ (hub (which.addressing config)).log spokes es = net.emits e ∧
    Follows honest which config level (net.next e) ((hub (which.addressing config)).run spokes es)

section Steps

variable {honest : PublicKey → Bool} {which : Implementation} {config : Config} {net : Network} {ahead : Nat → List Packet}
  {spokes : List (Spoke PublicKey Packet)} {key : PublicKey} {d : Duplex}

theorem answered_silent {e : NetworkEvent} (nothing : net.emits e = [])
    (follows : Follows honest which config level (net.next e) spokes) : Answered honest which config net spokes e :=
  ⟨[],trivial,nothing.symm,follows⟩

theorem answered_one {e : NetworkEvent} {event : Hub.Event PublicKey Packet}
    (enabled : Hub.Enabled (which.addressing config) spokes event) (shows : net.emits e = Hub.emits event)
    (follows : Follows honest which config level (net.next e) (Hub.next spokes event)) :
    Answered honest which config net spokes e := by
  refine ⟨[event],⟨enabled,trivial⟩,?_,follows⟩
  rw [shows]
  exact List.append_nil _

/-- Only the bytes on the links change. -/
theorem Follows.relinked (follows : Follows honest which config ahead net spokes) {links : List Link}
    {spokes' : List (Spoke PublicKey Packet)} (onward : Onward net.links links)
    (wired : Wired frameCode honest net.ends ahead links spokes') :
    Follows honest which config ahead { net with links } spokes' :=
  ⟨follows.server.onward onward,fun key => (follows.clients key).onward onward,wired⟩

/-! ### A member changes -/

theorem ends_update (net : Network) (key : PublicKey) (p : ClientProcess) (links : List Link)
    (down : (net.update key p links).ends.down d buf) : p.Buffers d buf ∨ ∃ other, other ≠ key ∧ (net.members other).Buffers d buf := by
  obtain ⟨other,held⟩ := down
  by_cases own : other = key
  · subst own
    exact .inl (by simpa [Network.update] using held)
  · exact .inr ⟨other,own,by simpa [Network.update,Function.update_of_ne own] using held⟩

/-- The new client has a decoder only where the old one had it, with the same bytes. -/
theorem within_update (links : List Link) {p : ClientProcess} (fewer : ∀ buf, p.Buffers d buf → (net.members key).Buffers d buf) :
    (net.update key p links).ends.Within net.ends d := by
  refine ⟨fun _ => id,fun buf down => ?_⟩
  rcases ends_update net key p links down with held | ⟨other,-,held⟩
  · exact ⟨key,fewer buf held⟩
  · exact ⟨other,held⟩

theorem Follows.update (follows : Follows honest which config ahead net spokes) {p : ClientProcess} {links : List Link}
    {spokes' : List (Spoke PublicKey Packet)} (onward : Onward net.links links) (linked : p.Linked key links)
    (wired : Wired frameCode honest (net.update key p links).ends ahead links spokes') :
    Follows honest which config ahead (net.update key p links) spokes' := by
  refine ⟨follows.server.onward onward,fun other => ?_,wired⟩
  by_cases own : other = key
  · subst own
    simpa [Network.update] using linked
  · simpa [Network.update,Function.update_of_ne own] using (follows.clients other).onward onward

/-- The client of a link's key is the only one with an end of it. -/
theorem Follows.owner (follows : Follows honest which config ahead net spokes) {link : Link} (at_d : net.links[d]? = some link)
    (held : (net.members key).Buffers d buf) : link.key = key := by
  obtain ⟨link',found,-,own⟩ := (follows.clients key).attached held
  obtain rfl : link = link' := Option.some.inj (at_d.symm.trans found)
  exact own

theorem Follows.cpp (follows : Follows honest which config ahead net spokes) {ctx : ClientCtx} {stream : Option Duplex}
    (member : net.members key = .cpp ctx stream) : ctx.Linked key net.links stream := by
  have linked := follows.clients key
  rw [member] at linked
  exact linked

theorem Follows.js (follows : Follows honest which config ahead net spokes) {c : Js.Client} {streams : List Duplex}
    (member : net.members key = .js c streams) : c.Linked key net.links streams := by
  have linked := follows.clients key
  rw [member] at linked
  exact linked

/-! ### The environment -/

theorem follows_initial (honest : PublicKey → Bool) (which : Implementation) (config : Config) (programs : PublicKey → Program) :
    Follows honest which config level (.initial which config programs) [] where
  server := ServerProcess.serve_linked which config []
  clients key := ClientProcess.start_linked (programs key) key
  wired := ⟨rfl,by simp [Network.initial]⟩

/-- Neither side has an end of a link that is yet to come up. -/
theorem Follows.beyond (follows : Follows honest which config ahead net spokes) :
    ∀ buf, ¬net.ends.up net.links.length buf ∧ ¬net.ends.down net.links.length buf := by
  have nowhere {p : Link → Prop} (h : ∃ link, net.links[net.links.length]? = some link ∧ p link) : False := by
    obtain ⟨link,found,-⟩ := h
    simp at found
  refine fun buf => ⟨fun up => ?_,fun ⟨key,held⟩ => nowhere ((follows.clients key).attached held)⟩
  have server := follows.server
  rcases h : net.server with ctx | s
  all_goals
    rw [Network.ends,h] at up
    rw [h] at server
  · obtain ⟨k,ps,stored,own,-⟩ := up
    obtain ⟨link,found,-⟩ := server.2.owned k ps stored
    exact nowhere (p := fun _ => True) ⟨link,own ▸ found,trivial⟩
  · obtain ⟨c,stored,-⟩ := up
    exact nowhere (server.2.owned _ c stored)

theorem answered_opened (follows : Follows honest which config level net spokes) (key : PublicKey) :
    Answered honest which config net spokes (.opened key) := by
  have joins : Hub.Enabled (which.addressing config) spokes (.join key) := trivial
  refine answered_one joins rfl (follows.relinked (.append _ _) ?_)
  refine follows.wired.join rfl ⟨rfl,rfl,rfl⟩ rfl (fun buf held => ?_) fun d _ => net.ends.within_refl d
  exact (held.elim (follows.beyond buf).1 (follows.beyond buf).2).elim

theorem answered_inject (follows : Follows honest which config level net spokes) (d : Duplex) (bytes : List UInt8)
    (enabled : net.Enabled honest (.inject d bytes)) : Answered honest which config net spokes (.inject d bytes) := by
  obtain ⟨owner,at_d,hostile⟩ := enabled
  refine answered_silent rfl (follows.relinked (.writeUp d bytes _) (follows.wired.inject d bytes fun link found => ?_))
  obtain rfl : owner = link := Option.some.inj (at_d.symm.trans found)
  exact hostile

/-! ### The server writes -/

theorem carry_onward (links : List Link) (outputs : List Output) : Onward links (carry links outputs) := by
  induction outputs generalizing links with
  | nil => exact .refl links
  | cons output rest ih =>
    cases output with
    | tunWrite => exact ih links
    | streamWrite d bytes => exact (Onward.writeDown d bytes links).trans (ih _)

theorem answered_serverKeepalive (follows : Follows honest which config level net spokes) (established : List Duplex) :
    Answered honest which config net spokes (.serverKeepalive established) := by
  refine answered_silent rfl (follows.relinked (carry_onward _ _) ?_)
  obtain ⟨ds,same⟩ := net.server.beat_keepalives established
  rw [same]
  clear same
  have wired := follows.wired
  generalize net.links = links at wired ⊢
  induction ds generalizing links with
  | nil => exact wired
  | cons d rest ih => exact ih _ (wired.idleDown d .keepalive rfl)

theorem answered_serverTun (follows : Follows honest which config level net spokes) (allow : which = .cpp → config.Allowlist)
    (data : Packet) (sized : Sized data) : Answered honest which config net spokes (.serverTun data) := by
  obtain ⟨target,addressed,outputs⟩ := follows.server.onTun allow data
  have enabled : Hub.Enabled (which.addressing config) spokes (.issue data target) :=
    fun e member => follows.wired.holds (addressed e member)
  refine answered_one enabled ?_ ?_
  · rw [Network.emits,outputs]
    cases target <;> rfl
  · rw [Network.next,outputs]
    cases target with
    | none => exact follows
    | some e =>
      exact follows.relinked (.writeDown e _ _) (follows.wired.put e none (.packet data sized) rfl)

/-! ### The server meets a link and leaves it -/

theorem answered_serverClose (follows : Follows honest which config level net spokes) (allow : which = .cpp → config.Allowlist)
    (d : Duplex) (reads : net.server.Reads d) : Answered honest which config net spokes (.serverClose d) := by
  obtain ⟨linked,keeps⟩ := follows.server.close allow reads
  refine answered_silent rfl ⟨linked,follows.clients,?_⟩
  exact follows.wired.within fun e => ⟨keeps e,fun _ => id⟩

theorem answered_serverDestroy (follows : Follows honest which config level net spokes) (d : Duplex)
    (destroys : net.server.Destroys d) : Answered honest which config net spokes (.serverDestroy d) := by
  obtain ⟨linked,keeps⟩ := follows.server.destroy destroys
  refine answered_silent rfl ⟨linked,follows.clients,?_⟩
  exact follows.wired.within fun e => ⟨keeps e,fun _ => id⟩

theorem answered_accepted (follows : Follows honest which config level net spokes) (allow : which = .cpp → config.Allowlist)
    (d : Duplex) (enabled : net.Enabled honest (.accepted d)) : Answered honest which config net spokes (.accepted d) := by
  obtain ⟨link,at_d,waiting,admits⟩ := enabled
  let clean := net.server.cleanStart link.key d
  let marked := net.links.modify d (Library.Link.accept clean)
  have next : net.next (.accepted d) = { net with server := net.server.accept link.key d,links := marked } := by
    rw [Network.next,Option.mem_def.mp at_d]
  have onward : Onward net.links marked := .modify (f := Library.Link.accept clean) d (fun _ => ⟨rfl,fun _ => rfl,id⟩) net.links
  have marked_d : marked[d]? = some (link.accept clean) := by
    simp [marked,Option.mem_def.mp at_d]
  have server : (net.server.accept (link.accept clean).key d).Linked which config marked :=
    (follows.server.onward onward).accept allow marked_d rfl admits
  obtain ⟨fresh,others⟩ := ServerProcess.accept_buffers admits
  -- the spoke stays as it is or loses its steadiness, and the two ways are one argument
  have meets (g : Spoke PublicKey Packet → Spoke PublicKey Packet)
      (same : ∀ spoke, (g spoke).key = spoke.key ∧ (g spoke).up = spoke.up ∧ (g spoke).down = spoke.down)
      (steady : ∀ spoke, spoke.steady = true → ((g spoke).steady = true ↔ honest link.key = true ∧ clean = true)) :
      Follows honest which config level (net.next (.accepted d)) (spokes.modify d g) := by
    rw [next]
    refine ⟨server,fun key => (follows.clients key).onward onward,?_⟩
    refine follows.wired.modify d (fun link' spoke found found' paired => ?_) fun e other => ⟨rfl,others e other,fun _ => id⟩
    obtain rfl : link = link' := Option.some.inj (at_d.symm.trans found)
    refine paired.accept waiting fresh (fun _ => id) (same spoke) (steady spoke ?_)
    exact paired.steady.mpr fun accepted => absurd (waiting.symm.trans accepted) Bool.false_ne_true
  by_cases faithful : honest link.key = true ∧ clean = true
  · refine answered_silent rfl ?_
    rw [← List.modify_id d spokes]
    exact meets id (fun _ => ⟨rfl,rfl,rfl⟩) fun spoke steady => iff_of_true steady faithful
  · have loosened : Hub.Enabled (which.addressing config) spokes (.loosen d) := trivial
    refine answered_one loosened rfl ?_
    exact meets Spoke.loosen (fun _ => ⟨rfl,rfl,rfl⟩) fun spoke _ => iff_of_false Bool.false_ne_true faithful

/-! ### The server reads -/

theorem carry_append (links : List Link) (outputs more : List Output) :
    carry links (outputs ++ more) = carry (carry links outputs) more := by
  induction outputs generalizing links with
  | nil => rfl
  | cons output outputs ih =>
    cases output with
    | tunWrite pkt => exact ih links
    | streamWrite e bytes => exact ih _

/-- What is written for the packets of a chunk, one packet after the other. -/
theorem carry_outputs (links : List Link) (frames : List Packet) (move : Packet → Hub.Move) :
    carry links (frames.flatMap fun pkt => outputs pkt (move pkt)) =
      frames.foldl (fun links pkt => (move pkt).carry (frameEncode pkt) links) links := by
  induction frames generalizing links with
  | nil => rfl
  | cons pkt frames ih =>
    rw [List.flatMap_cons,carry_append,List.foldl_cons,ih]
    congr 1
    cases move pkt <;> rfl

theorem outputs_seen (d : Duplex) (pkt : Packet) (move : Hub.Move) : (outputs pkt move).map (Output.seen d pkt) = move.seen d pkt := by
  cases move <;> rfl

theorem answered_up (follows : Follows honest which config level net spokes) (allow : which = .cpp → config.Allowlist)
    (d : Duplex) (n : Nat) (enabled : net.Enabled honest (.up d n)) : Answered honest which config net spokes (.up d n) := by
  obtain ⟨reads,bound⟩ := enabled
  obtain ⟨decoder,move,received⟩ := follows.server.receive allow reads (net.chunkUp d n)
  obtain ⟨link,at_d,accepted⟩ := received.accepted
  have chunk : net.chunkUp d n = link.up.take n := by
    rw [Network.chunkUp,at_d]
    rfl
  let after := { net with server := (net.server.receive d (net.chunkUp d n)).1,links := net.links.modify d (Library.Link.readUp n) }
  have fed : Wired frameCode honest after.ends (fun k => if k = d then (decoder.feed (net.chunkUp d n)).frames else [])
      after.links spokes := by
    refine follows.wired.relink d (fun link' spoke found _ paired => ?_) fun e other => ⟨if_neg other,received.others e other,fun _ => id⟩
    obtain rfl : link = link' := Option.some.inj (at_d.symm.trans found)
    rw [if_pos rfl]
    refine paired.readUp accepted received.held (fun faithful items flight => ?_) received.alone fun _ => id
    rw [chunk]
    rw [← List.take_append_drop n link.up] at flight
    apply feed_inFlight decoder _ flight
    rw [List.length_take]
    exact Nat.le_trans (Nat.min_le_left _ _) (bound link at_d faithful.1)
  have onward : Onward net.links after.links := .modify (f := Library.Link.readUp n) d (fun _ => ⟨rfl,id,id⟩) net.links
  obtain ⟨link',found',-,stays,-⟩ := onward d link at_d
  obtain ⟨es,can,shows,ends⟩ := fed.relays (g := which.addressing config) _ move frameEncode (if_pos rfl)
    (fun k other => if_neg other) ⟨link',found',stays accepted⟩ received.holds
    (fun pkt member => ⟨.packet pkt (feed_sized _ _ member),rfl,rfl⟩) fun pkt _ => (received.lawful pkt).onward onward
  refine ⟨es,can,?_,?_⟩
  · rw [shows,Network.emits,received.packets,List.flatMap_map]
    simp only [outputs_seen]
  · have links : (net.next (.up d n)).links =
        (decoder.feed (net.chunkUp d n)).frames.foldl (fun links pkt => (move pkt).carry (frameEncode pkt) links) after.links := by
      rw [← carry_outputs,Network.next,received.packets,List.flatMap_map]
    have written : Onward net.links (net.next (.up d n)).links := onward.trans (carry_onward _ _)
    refine ⟨received.linked.onward written,fun key => (follows.clients key).onward written,?_⟩
    rw [links]
    exact ends

/-! ### The C++ client -/

theorem lift_nothing (links : List Link) (stream : Option Duplex) {effects : List Effect} (nothing : effects.flatMap Effect.bytes = []) :
    lift links stream effects = links := by
  cases stream with
  | none => rfl
  | some d =>
    rw [lift,nothing]
    have same : (fun link : Link => link.writeUp []) = id := funext fun link => by simp [Library.Link.writeUp]
    rw [same,List.modify_id]

theorem update_same (net : Network) (key : PublicKey) (links : List Link) :
    net.update key (net.members key) links = { net with links } := by
  rw [Network.update,Function.update_eq_self]

/-- A handler that changes nothing in the client leaves the member as it is. -/
theorem handle_same {ctx : ClientCtx} {stream : Option Duplex} {e : ClientEvent} (member : net.members key = .cpp ctx stream)
    (live : ctx.duplex = stream.isSome) (same : (ctx.handle e).1 = ctx) :
    net.handle key e = { net with links := lift net.links stream (ctx.handle e).2 } := by
  have kept : (if ctx.duplex then stream else none) = stream := by
    cases stream with
    | none => simp
    | some d => simp [live]
  have handled : net.handle key e = net.update key (net.members key) (lift net.links stream (ctx.handle e).2) := by
    simp only [Network.handle,member,same,kept]
  rw [handled,update_same]

theorem answered_client (follows : Follows honest which config level net spokes) (key : PublicKey) (e : ClientEvent)
    (enabled : net.Enabled honest (.client key e)) : Answered honest which config net spokes (.client key e) := by
  obtain ⟨-,quiet,can⟩ := enabled
  rcases member : net.members key with ⟨ctx,stream⟩ | ⟨c,streams⟩
  · rw [member] at can
    have linked := follows.cpp member
    have silent : ctx.Silent _ := ClientCtx.handle_silent e quiet
    have still (after : (ctx.handle e).1.duplex = true) : stream.isSome = true := linked.live.symm.trans (silent.kept after).1
    have next : net.next (.client key e) =
        net.update key (.cpp (ctx.handle e).1 (if (ctx.handle e).1.duplex then stream else none)) net.links := by
      simp only [Network.next,Network.handle,member,lift_nothing net.links stream silent.bytes]
    refine answered_silent rfl ?_
    rw [next]
    refine follows.update (.refl _) ⟨ClientCtx.handle_oneStream e linked.one can,?_,fun d stream' => linked.attached d ?_⟩
      (follows.wired.within fun d => within_update net.links ?_)
    · by_cases after : (ctx.handle e).1.duplex = true
      · simp [after,still after]
      · simp [after]
    · split_ifs at stream'
      exact stream'
    · rintro buf ⟨stream',held⟩
      rw [member]
      split_ifs at stream' with after
      exact ⟨stream',(silent.kept after).2 ▸ held⟩
  · rw [member] at can
    exact can.elim

theorem answered_clientKeepalive (follows : Follows honest which config level net spokes) (key : PublicKey)
    (established : Bool) : Answered honest which config net spokes (.clientKeepalive key established) := by
  refine answered_silent rfl ?_
  rcases member : net.members key with ⟨ctx,stream⟩ | ⟨c,streams⟩
  · simp only [Network.next,member]
    by_cases beats : ctx.duplex = true ∧ established = true
    · rw [ClientCtx.keepaliveTick,if_pos beats]
      cases stream with
      | none => exact follows
      | some d => exact follows.relinked (.writeUp d _ _) (follows.wired.idleUp d .keepalive rfl)
    · rw [ClientCtx.keepaliveTick,if_neg beats,lift_nothing _ _ rfl]
      exact follows
  · simp only [Network.next,member]
    exact follows

theorem answered_cppTun (follows : Follows honest which config level net spokes) {ctx : ClientCtx} {stream : Option Duplex}
    (member : net.members key = .cpp ctx stream) (established : Bool) (data : Packet) (sized : Sized data) :
    Answered honest which config net spokes (.clientTun key established data) := by
  have linked := follows.cpp member
  have next : net.next (.clientTun key established data) =
      { net with links := lift net.links stream (ctx.onTunPacket established data).2 } := by
    simp only [Network.next,member]
    exact handle_same member linked.live rfl
  have shows : net.emits (.clientTun key established data) =
      stream.toList.flatMap fun d => (ctx.onTunPacket established data).2.map fun _ => .sent d data := by
    simp only [Network.emits,member]
  by_cases sends : ctx.duplex = true ∧ established = true
  · have effects : (ctx.onTunPacket established data).2 = [.streamWrite (frameEncode data)] := if_pos sends
    rw [effects] at next shows
    obtain ⟨d,rfl⟩ : ∃ d, stream = some d := Option.isSome_iff_exists.mp (linked.live ▸ sends.1)
    obtain ⟨link,at_d,-⟩ := linked.attached d rfl
    have enabled : Hub.Enabled (which.addressing config) spokes (.send d data) :=
      (follows.wired.length ▸ (List.getElem?_eq_some_iff.mp at_d).1 : d < spokes.length)
    have wrote : lift net.links (some d) [.streamWrite (frameEncode data)] =
        net.links.modify d fun link => link.writeUp (frameEncode data) := by
      simp only [lift,List.flatMap_singleton,Effect.bytes]
    refine answered_one enabled shows ?_
    rw [next,wrote]
    exact follows.relinked (.writeUp d _ _) (follows.wired.send d (.packet data sized) rfl)
  · have effects : (ctx.onTunPacket established data).2 = [] := if_neg sends
    rw [effects] at next shows
    refine answered_silent (by rw [shows]; cases stream <;> rfl) ?_
    rw [next,lift_nothing _ _ rfl]
    exact follows

theorem answered_connected (follows : Follows honest which config level net spokes) (d : Duplex) (generation : Nat)
    (serverIp : Text) (installs : Bool) (enabled : net.Enabled honest (.connected d generation serverIp installs)) :
    Answered honest which config net spokes (.connected d generation serverIp installs) := by
  obtain ⟨link,at_d,-,apart,can⟩ := enabled
  refine answered_silent rfl ?_
  rcases member : net.members link.key with ⟨ctx,stream⟩ | ⟨c,streams⟩
  · rw [member] at can
    have linked := follows.cpp member
    obtain ⟨decoder,duplex,fresh⟩ := ClientCtx.connected_member linked.one generation serverIp installs
    let ctx' := (ctx.handle (.connectResult generation (.connected serverIp installs))).1
    let stream' := if generation = ctx.dhtGeneration then some d else stream
    let marked := net.links.modify d Library.Link.attach
    have next : net.next (.connected d generation serverIp installs) = net.update link.key (.cpp ctx' stream') marked := by
      simp only [Network.next,Option.mem_def.mp at_d,member]
      rfl
    have onward : Onward net.links marked := .modify (f := Library.Link.attach) d (fun _ => ⟨rfl,id,fun _ => rfl⟩) net.links
    rw [next]
    refine follows.update onward ⟨ClientCtx.handle_oneStream _ linked.one can,?_,fun e at_e => ?_⟩ ?_
    · dsimp only [ctx',stream']
      rw [duplex]
      split_ifs
      · rfl
      · exact linked.live
    · by_cases current : generation = ctx.dhtGeneration
      · obtain rfl : d = e := Option.some.inj ((if_pos current).symm.trans at_e)
        exact ⟨link.attach,by simp [marked,Option.mem_def.mp at_d],rfl,rfl⟩
      · obtain ⟨link',found,attached,own⟩ := linked.attached e ((if_neg current).symm.trans at_e)
        obtain ⟨link'',found',same,-,stays⟩ := onward e link' found
        exact ⟨link'',found',stays attached,same.trans own⟩
    · -- a new stream has nothing buffered, since the client had none
      have ended (e : Duplex) (buf : List UInt8) (held : (ClientProcess.cpp ctx' stream').Buffers e buf) :
          (e = d ∧ buf = []) ∨ (net.members link.key).Buffers e buf := by
        obtain ⟨at_e,rfl⟩ := held
        by_cases current : generation = ctx.dhtGeneration
        · obtain rfl : d = e := Option.some.inj ((if_pos current).symm.trans at_e)
          exact .inl ⟨rfl,decoder ▸ (fresh current can).2⟩
        · rw [member]
          exact .inr ⟨(if_neg current).symm.trans at_e,congrArg FrameDecoder.buf decoder.symm⟩
      refine follows.wired.relink d (fun link' spoke found _ paired => ?_) fun e other =>
        ⟨rfl,within_update marked fun buf held => (ended e buf held).resolve_left fun here => other here.1⟩
      obtain rfl : link = link' := Option.some.inj (at_d.symm.trans found)
      refine paired.attach (fun _ => id) fun buf down => ?_
      rcases ends_update net link.key _ marked down with held | ⟨other,-,held⟩
      · rcases ended d buf held with ⟨-,rfl⟩ | before
        · exact .inl ⟨apart,rfl⟩
        · exact .inr ⟨link.key,before⟩
      · exact .inr ⟨other,held⟩
  · rw [member] at can
    exact can.elim

/-! ### The JavaScript client -/

/-- The connections of a client that only lost some have the decoders they had. -/
theorem kept_buffers {c c' : Js.Client} {streams : List Duplex} (kept : Js.Client.Kept c.connections c'.connections) (buf : List UInt8)
    (held : (ClientProcess.js c' streams).Buffers d buf) : (ClientProcess.js c streams).Buffers d buf := by
  obtain ⟨conn,after,at_conn,found,up,rfl⟩ := held
  obtain ⟨before,there,stillUp,same⟩ := kept.2 conn after found up
  exact ⟨conn,before,at_conn,there,stillUp,same.symm⟩

/-- A connect is a new link, whose connection starts with an empty decoder. -/
theorem Follows.dials (follows : Follows honest which config level net spokes) {c c' : Js.Client} {streams : List Duplex}
    (member : net.members key = .js c streams) {cs : List Js.ClientConn} (kept : Js.Client.Kept c.connections cs)
    (added : c'.connections = cs ++ [({} : Js.ClientConn)]) :
    Follows honest which config level
      (net.update key (.js c' (streams ++ [net.links.length])) (net.links ++ [{ key,attached := true }]))
      (Hub.next spokes (.join key)) := by
  have linked := follows.js member
  have onward : Onward net.links (net.links ++ [{ key,attached := true }]) := .append _ _
  have inside (e : Duplex) (at_conn : e ∈ streams) : e < net.links.length := by
    obtain ⟨link,found,-⟩ := linked.attached e at_conn
    exact (List.getElem?_eq_some_iff.mp found).1
  have new (e : Duplex) (buf : List UInt8) (held : (ClientProcess.js c' (streams ++ [net.links.length])).Buffers e buf) :
      (e = net.links.length ∧ buf = []) ∨ (net.members key).Buffers e buf := by
    obtain ⟨conn,after,at_conn,found,up,rfl⟩ := held
    rw [added] at found
    rcases Nat.lt_or_ge conn streams.length with old | last
    · rw [List.getElem?_append_left old] at at_conn
      rw [List.getElem?_append_left (kept.1.trans linked.length.symm ▸ old)] at found
      obtain ⟨before,there,stillUp,same⟩ := kept.2 conn after found up
      rw [member]
      exact .inr ⟨conn,before,at_conn,there,stillUp,same.symm⟩
    · rw [List.getElem?_append_right last,List.getElem?_singleton] at at_conn
      rw [List.getElem?_append_right (kept.1.trans linked.length.symm ▸ last),List.getElem?_singleton] at found
      split_ifs at at_conn found
      obtain rfl := Option.some.inj at_conn
      obtain rfl := Option.some.inj found
      exact .inl ⟨rfl,rfl⟩
  have before (e : Duplex) (old : e < net.links.length) :
      (net.update key (.js c' (streams ++ [net.links.length])) (net.links ++ [{ key,attached := true }])).ends.Within net.ends e :=
    within_update _ fun buf held => (new e buf held).resolve_left fun last => Nat.ne_of_lt old last.1
  refine follows.update onward ⟨?_,?_,fun e member => ?_⟩ (follows.wired.join rfl ⟨rfl,rfl,rfl⟩ rfl (fun buf held => ?_) before)
  · rw [added]
    simp [linked.length,kept.1]
  · refine List.nodup_append.mpr ⟨linked.distinct,List.nodup_singleton _,fun e old e' last => ?_⟩
    rw [List.mem_singleton.mp last]
    exact Nat.ne_of_lt (inside e old)
  · rcases List.mem_append.mp member with old | last
    · obtain ⟨link,found,attached,own⟩ := linked.attached e old
      obtain ⟨link',found',same,-,stays⟩ := onward e link found
      exact ⟨link',found',stays attached,same.trans own⟩
    · rw [List.mem_singleton.mp last]
      exact ⟨_,List.getElem?_concat_length,rfl,rfl⟩
  · rcases held with up | down
    · exact absurd up (follows.beyond buf).1
    · rcases ends_update net key _ _ down with held | ⟨other,-,held⟩
      · rcases new _ buf held with ⟨-,rfl⟩ | before
        · rfl
        · exact absurd ⟨key,before⟩ (follows.beyond buf).2
      · exact absurd ⟨other,held⟩ (follows.beyond buf).2

theorem Follows.react (follows : Follows honest which config level net spokes) {c : Js.Client} {streams : List Duplex}
    (member : net.members key = .js c streams) {r : Js.Client → Js.Client × List Js.ClientEffect} (reply : c.Reply (r c)) :
    ∃ es, (hub (which.addressing config)).Admits spokes es ∧ (hub (which.addressing config)).log spokes es = [] ∧
      Follows honest which config level (net.react key r) ((hub (which.addressing config)).run spokes es) := by
  have linked := follows.js member
  have reacted : net.react key r = net.update key (.js (r c).1 (Js.wire key net.links streams (r c).2).2)
      (Js.wire key net.links streams (r c).2).1 := by
    simp only [Network.react,member]
  rw [reacted]
  cases reply with
  | idle kept none =>
    rw [Js.Client.wire_silent key net.links streams none]
    refine ⟨[],trivial,rfl,follows.update (.refl _) ⟨linked.length.trans kept.1.symm,linked.distinct,linked.attached⟩ ?_⟩
    refine follows.wired.within fun d => within_update net.links fun buf held => ?_
    rw [member]
    exact kept_buffers kept buf held
  | dials cs before conn kept added effects none =>
    have wired : Js.wire key net.links streams (r c).2 =
        (net.links ++ [{ key,attached := true }],streams ++ [net.links.length]) := by
      rw [effects,Js.Client.wire_idle key net.links streams before _ none]
      rfl
    have joins : Hub.Enabled (which.addressing config) spokes (.join key) := trivial
    rw [wired]
    exact ⟨[.join key],⟨joins,trivial⟩,rfl,follows.dials member kept added⟩
  | beats conn same effects =>
    have kept : Js.Client.Kept c.connections (r c).1.connections := same ▸ Js.Client.kept_refl _
    have linked' : (r c).1.Linked key net.links streams := ⟨linked.length.trans (congrArg List.length same.symm),linked.distinct,linked.attached⟩
    have fewer (links : List Link) (d : Duplex) : (net.update key (.js (r c).1 streams) links).ends.Within net.ends d :=
      within_update links fun buf held => by rw [member]; exact kept_buffers kept buf held
    rw [effects]
    cases at_conn : streams[conn]? with
    | none =>
      simp only [Js.wire,at_conn]
      exact ⟨[],trivial,rfl,follows.update (.refl _) linked' (follows.wired.within (fewer net.links))⟩
    | some d =>
      simp only [Js.wire,at_conn]
      have linked'' : (ClientProcess.js (r c).1 streams).Linked key net.links := linked'
      exact ⟨[],trivial,rfl,follows.update (.writeUp d _ _) (linked''.onward (.writeUp d _ _))
        ((follows.wired.idleUp d .keepalive rfl).within (fewer _))⟩

theorem answered_started (follows : Follows honest which config level net spokes) (key : PublicKey)
    (enabled : net.Enabled honest (.started key)) : Answered honest which config net spokes (.started key) := by
  rcases member : net.members key with ⟨ctx,stream⟩ | ⟨c,streams⟩
  · have fresh := enabled.2
    rw [member] at fresh
    exact fresh.elim
  · exact follows.react member (Js.Client.connect_reply c)

theorem answered_script (follows : Follows honest which config level net spokes) (key : PublicKey) (e : Js.ClientEvent)
    (enabled : net.Enabled honest (.script key e)) : Answered honest which config net spokes (.script key e) := by
  obtain ⟨-,quiet,can⟩ := enabled
  rcases member : net.members key with ⟨ctx,stream⟩ | ⟨c,streams⟩
  · rw [member] at can
    exact can.elim
  · exact follows.react member (Js.Client.react_reply c e quiet)

/-- A packet goes to the link of the connection that is active. -/
theorem answered_jsTun (follows : Follows honest which config level net spokes) {c : Js.Client} {streams : List Duplex}
    (member : net.members key = .js c streams) (established : Bool) (data : Packet) (sized : Sized data) :
    Answered honest which config net spokes (.clientTun key established data) := by
  have linked := follows.js member
  have next (links : List Link) (wired : Js.wire key net.links streams (c.onTunData data) = (links,streams)) :
      net.next (.clientTun key established data) = { net with links } := by
    rw [← update_same net key links,member]
    simp only [Network.next,Network.react,Js.Client.react_tunData,member,wired]
  have shows : net.emits (.clientTun key established data) = (c.onTunData data).flatMap (Js.ClientEffect.sent streams data) := by
    simp only [Network.emits,member]
  have dropped (nothing : c.onTunData data = []) : Answered honest which config net spokes (.clientTun key established data) := by
    refine answered_silent (by rw [shows,nothing]; rfl) ?_
    rw [next net.links (by rw [nothing]; rfl)]
    exact follows
  cases active : c.activeConnection with
  | none => exact dropped (by simp only [Js.Client.onTunData,active])
  | some conn =>
    by_cases up : c.has conn (fun c => !c.destroyed) = true
    · have effects : c.onTunData data = [.streamWrite conn (frameEncode data)] := by
        simp only [Js.Client.onTunData,active,up,↓reduceIte,Js.encode_eq]
      obtain ⟨c',there,-⟩ := Js.Client.has_iff.mp up
      have inside : conn < streams.length := linked.length ▸ (List.getElem?_eq_some_iff.mp there).1
      have at_conn : streams[conn]? = some streams[conn] := List.getElem?_eq_getElem inside
      obtain ⟨link,at_d,-⟩ := linked.attached _ (List.mem_of_getElem? at_conn)
      have enabled : Hub.Enabled (which.addressing config) spokes (.send streams[conn] data) :=
        (follows.wired.length ▸ (List.getElem?_eq_some_iff.mp at_d).1 : streams[conn] < spokes.length)
      refine answered_one enabled ?_ ?_
      · rw [shows,effects,List.flatMap_singleton,Js.ClientEffect.sent,at_conn]
        rfl
      · rw [next (net.links.modify streams[conn] fun link => link.writeUp (frameEncode data))
          (by rw [effects]; simp only [Js.wire,at_conn])]
        exact follows.relinked (.writeUp _ _ _) (follows.wired.send _ (.packet data sized) rfl)
    · exact dropped (by simp only [Js.Client.onTunData,active,up,Bool.false_eq_true,↓reduceIte])

/-! ### The clients read -/

theorem chunkDown_found {link : Link} (at_d : net.links[d]? = some link) (n : Nat) : net.chunkDown d n = link.down.take n := by
  rw [Network.chunkDown,at_d]
  rfl

/-- The client of link `d` is handed a chunk and becomes `p`. -/
theorem Follows.heard (follows : Follows honest which config level net spokes) {link : Link} (at_d : net.links[d]? = some link)
    (n : Nat) (bound : n ≤ maxChunk) {p : ClientProcess} {decoder : FrameDecoder}
    (held : (net.members link.key).Buffers d decoder.buf) (linked : p.Linked link.key net.links)
    (here : ∀ buf, p.Buffers d buf → buf = (decoder.feed (link.down.take n)).decoder.buf)
    (elsewhere : ∀ e, e ≠ d → ∀ buf, p.Buffers e buf → (net.members link.key).Buffers e buf) :
    ∃ es, (hub (which.addressing config)).Admits spokes es ∧
      (hub (which.addressing config)).log spokes es = (decoder.feed (link.down.take n)).frames.map (.arrived d) ∧
      Follows honest which config level (net.update link.key p (net.links.modify d (Library.Link.readDown n)))
        ((hub (which.addressing config)).run spokes es) := by
  obtain ⟨link',at_d',attached,-⟩ := (follows.clients link.key).attached held
  obtain rfl : link = link' := Option.some.inj (at_d.symm.trans at_d')
  obtain ⟨spoke,found,paired⟩ := follows.wired.spoke at_d
  obtain ⟨rest,queue,flight⟩ : ∃ rest, spoke.down.map Prod.snd = (decoder.feed (link.down.take n)).frames ++ rest ∧
      frameCode.InFlight (decoder.feed (link.down.take n)).decoder.buf (link.down.drop n) rest := by
    apply feed_inFlight
    · rw [List.take_append_drop]
      exact paired.down _ (.inr ⟨link.key,held⟩)
    · rw [List.length_take]
      exact Nat.le_trans (Nat.min_le_left _ _) bound
  obtain ⟨can,shows,ends⟩ := Hub.run_arrives (which.addressing config) d _ found queue
  have onward : Onward net.links (net.links.modify d (Library.Link.readDown n)) :=
    .modify (f := Library.Link.readDown n) d (fun _ => ⟨rfl,id,id⟩) net.links
  refine ⟨_,can,shows,?_⟩
  rw [ends]
  refine follows.update onward (linked.onward onward) ?_
  refine follows.wired.modify d (fun link' spoke' found₁ found₁' paired => ?_) fun e other =>
    ⟨rfl,within_update _ (elsewhere e other)⟩
  obtain rfl : link = link' := Option.some.inj (at_d.symm.trans found₁)
  obtain rfl : spoke = spoke' := Option.some.inj (found.symm.trans found₁')
  refine paired.readDown attached queue flight (fun _ => id) fun buf down => ?_
  rcases ends_update net link.key _ _ down with now | ⟨key',other,now⟩
  · exact here buf now
  · exact absurd (follows.owner at_d now).symm other

theorem answered_cppDown (follows : Follows honest which config level net spokes) {link : Link} (at_d : net.links[d]? = some link)
    (n : Nat) (bound : n ≤ maxChunk) {ctx : ClientCtx} (member : net.members link.key = .cpp ctx (some d)) :
    Answered honest which config net spokes (.down d n) := by
  have linked := follows.cpp member
  have live : ctx.duplex = true := linked.live
  have chunk : net.chunkDown d n = link.down.take n := chunkDown_found at_d n
  let fed := ctx.decoder.feed (link.down.take n)
  have handled : ctx.handle (.message (link.down.take n)) = ({ ctx with decoder := fed.decoder },fed.frames.map Effect.tunWrite) := rfl
  have nothing : (fed.frames.map Effect.tunWrite).flatMap Effect.bytes = [] := by
    rw [List.flatMap_map]
    exact List.flatMap_eq_nil_iff.mpr fun _ _ => rfl
  have next : net.next (.down d n) =
      net.update link.key (.cpp { ctx with decoder := fed.decoder } (some d)) (net.links.modify d (Library.Link.readDown n)) := by
    simp only [Network.next,at_d,Network.hear,Network.handle,member,chunk,handled,live,↓reduceIte,lift_nothing _ _ nothing]
    rfl
  have shows : net.emits (.down d n) = fed.frames.map (.arrived d) := by
    simp only [Network.emits,at_d,member,chunk,handled,List.flatMap_map]
    exact List.map_eq_flatMap.symm
  have one : ClientCtx.OneStream { ctx with decoder := fed.decoder } :=
    ClientCtx.handle_oneStream (.message (link.down.take n)) linked.one (linked.one.live_iff.mpr live)
  have linked' : (ClientProcess.cpp { ctx with decoder := fed.decoder } (some d)).Linked link.key net.links :=
    ⟨one,live,linked.attached⟩
  have held : (net.members link.key).Buffers d ctx.decoder.buf := by
    rw [member]
    exact ⟨rfl,rfl⟩
  rw [Answered,shows,next]
  refine follows.heard at_d n bound held linked' (fun buf now => now.2.symm) fun e other buf now => ?_
  exact absurd (Option.some.inj now.1).symm other

theorem answered_jsDown (follows : Follows honest which config level net spokes) {link : Link} (at_d : net.links[d]? = some link)
    (n : Nat) (bound : n ≤ maxChunk) {c : Js.Client} {streams : List Duplex} (member : net.members link.key = .js c streams)
    (index : streams.idxOf? d = some conn) (up : c.has conn (fun c => c.opened && !c.closed) = true) :
    Answered honest which config net spokes (.down d n) := by
  have linked := follows.js member
  obtain ⟨c',there,able⟩ := Js.Client.has_iff.mp up
  have stillUp : c'.closed = false := by simpa using (Bool.and_eq_true_iff.mp able).2
  have at_conn' : streams[conn]? = some d := ClientProcess.getElem?_of_idxOf? index
  obtain ⟨inside,at_conn⟩ := List.getElem?_eq_some_iff.mp at_conn'
  have chunk : net.chunkDown d n = link.down.take n := chunkDown_found at_d n
  let fed := FrameDecoder.feed ⟨c'.buffer⟩ (link.down.take n)
  let after := c.update conn fun c => { c with buffer := fed.decoder.buf }
  have handled : c.react (.data conn (link.down.take n)) = (after,fed.frames.map .tunWrite) := by
    simp only [Js.Client.react_data,Js.Client.onData,there,Js.push_eq]
    rfl
  have idle : ∀ effect ∈ fed.frames.map Js.ClientEffect.tunWrite, Js.Client.Idle effect := by
    simp [Js.Client.Idle]
  have wired : Js.wire link.key net.links streams (fed.frames.map .tunWrite) = (net.links,streams) :=
    Js.Client.wire_silent link.key net.links streams idle
  have next : net.next (.down d n) = net.update link.key (.js after streams) (net.links.modify d (Library.Link.readDown n)) := by
    simp only [Network.next,at_d,Network.hear,Network.react,member,index,chunk,handled,wired]
    rfl
  have shows : net.emits (.down d n) = fed.frames.map (.arrived d) := by
    simp only [Network.emits,at_d,member,index,chunk,handled,Option.toList_some,List.flatMap_singleton,List.flatMap_map]
    exact List.map_eq_flatMap.symm
  have linked' : (ClientProcess.js after streams).Linked link.key net.links :=
    ⟨linked.length.trans (by simp [after,Js.Client.update]),linked.distinct,linked.attached⟩
  have held : (net.members link.key).Buffers d (FrameDecoder.mk c'.buffer).buf := by
    rw [member]
    exact ⟨conn,c',at_conn',there,stillUp,rfl⟩
  have found (other : Js.Conn) : after.connections[other]? =
      if conn = other then c.connections[other]?.map fun c => { c with buffer := fed.decoder.buf } else c.connections[other]? :=
    Js.Client.lookup_update c conn other _
  rw [Answered,shows,next]
  refine follows.heard at_d n bound held linked' (fun buf now => ?_) fun e other buf now => ?_
  all_goals obtain ⟨conn',c'',at_conn'',there'',up'',rfl⟩ := now
  all_goals rw [found] at there''
  · have same : conn' = conn := by
      have inside' := (List.getElem?_eq_some_iff.mp at_conn'').1
      exact (linked.distinct.getElem_inj_iff).mp ((List.getElem?_eq_some_iff.mp at_conn'').2.trans at_conn.symm)
    rw [if_pos same.symm,same,there] at there''
    obtain rfl := Option.some.inj there''
    rfl
  · have apart : conn ≠ conn' := by
      rintro rfl
      exact other (Option.some.inj (at_conn''.symm.trans at_conn'))
    rw [if_neg apart] at there''
    rw [member]
    exact ⟨conn',c'',at_conn'',there'',up'',rfl⟩

theorem network_answered (follows : Follows honest which config level net spokes) (allow : which = .cpp → config.Allowlist)
    (e : NetworkEvent) (enabled : net.Enabled honest e) : Answered honest which config net spokes e := by
  cases e with
  | opened key => exact answered_opened follows key
  | accepted d => exact answered_accepted follows allow d enabled
  | connected d generation serverIp installs => exact answered_connected follows d generation serverIp installs enabled
  | client key e => exact answered_client follows key e enabled
  | started key => exact answered_started follows key enabled
  | script key e => exact answered_script follows key e enabled
  | clientTun key established data =>
    rcases member : net.members key with ⟨ctx,stream⟩ | ⟨c,streams⟩
    · exact answered_cppTun follows member established data enabled.2.2
    · exact answered_jsTun follows member established data enabled.2.2
  | clientKeepalive key established => exact answered_clientKeepalive follows key established
  | up d n => exact answered_up follows allow d n enabled
  | down d n =>
    obtain ⟨⟨link,at_d,hears⟩,bound⟩ := enabled
    rcases member : net.members link.key with ⟨ctx,stream⟩ | ⟨c,streams⟩
    · rw [member] at hears
      exact answered_cppDown follows at_d n bound (hears ▸ member)
    · rw [member] at hears
      obtain ⟨conn,index,-,up⟩ := hears
      exact answered_jsDown follows at_d n bound member index up
  | serverTun data => exact answered_serverTun follows allow data enabled
  | serverKeepalive established => exact answered_serverKeepalive follows established
  | serverClose d => exact answered_serverClose follows allow d enabled
  | serverDestroy d => exact answered_serverDestroy follows d enabled
  | inject d bytes => exact answered_inject follows d bytes enabled

/-- The network is a hub with spokes, event by event. -/
theorem network_simulates (honest : PublicKey → Bool) (allow : which = .cpp → config.Allowlist) :
    (network honest).Simulates (hub (which.addressing config)) (Follows honest which config level) :=
  fun _ _ e follows enabled => network_answered follows allow e enabled

end Steps

end Nospoon
