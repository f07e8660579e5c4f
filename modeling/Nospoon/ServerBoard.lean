import Nospoon.Library.Switchboard
import Nospoon.Server

/-! The server as a switchboard. Its two maps are read as slots and routes, every
event handler as attaching and detaching, and the frames of one message as a list of
callbacks of which at most one attaches. Both modes rest on these lemmas. -/
namespace Nospoon

open Library

/-- An unknown address is the empty string. -/
def known (ip : Text) : Option Text := if ip = [] then none else some ip

@[simp] theorem known_nil : known [] = none := rfl
theorem known_of_ne (h : ip ≠ []) : known ip = some ip := if_neg h
theorem known_eq_some : known ip = some a ↔ ip = a ∧ a ≠ [] := by
  unfold known
  split_ifs with h
  · simp only [false_iff,not_and,not_not]
    exact fun same => same ▸ h
  · constructor
    · rintro ⟨⟩; exact ⟨rfl,h⟩
    · rintro ⟨rfl,-⟩; rfl

namespace ServerCtx

/-- Decoders and captured keys play no part in switching. -/
def board (ctx : ServerCtx) : Switchboard Text Duplex Text where
  slots k := (ctx.peers.lookup k).map fun ps => (ps.duplex,known ps.assignedIp)
  routes ip := ctx.routes.lookup ip

variable {ctx : ServerCtx} {k key : Text} {d duplex : Duplex} {ps : PeerState}

theorem slot_eq_some : ctx.board.slots k = some (d,held) ↔
    ∃ ps, ctx.peers.lookup k = some ps ∧ ps.duplex = d ∧ known ps.assignedIp = held := by
  simp [board,Option.map_eq_some_iff]

theorem slot_of_peer (h : ctx.peers.lookup k = some ps) :
    ctx.board.slots k = some (ps.duplex,known ps.assignedIp) := slot_eq_some.mpr ⟨ps,h,rfl,rfl⟩

theorem ownerOf_some (h : ctx.ownerOf d = some k) :
    ∃ ps, ctx.peers.lookup k = some ps ∧ ps.duplex = d := by
  simp only [ownerOf,Option.map_eq_some_iff] at h
  obtain ⟨⟨key,ps⟩,found,rfl⟩ := h
  refine ⟨ps,AList.mem_lookup_iff.mpr (List.mem_of_find?_eq_some found),?_⟩
  simpa using List.find?_some found

theorem ownerOf_none : ctx.ownerOf d = none ↔
    ∀ k ps, ctx.peers.lookup k = some ps → ps.duplex ≠ d := by
  simp only [ownerOf,Option.map_eq_none_iff,List.find?_eq_none]
  constructor
  · intro h k ps stored same
    exact h ⟨k,ps⟩ (AList.mem_lookup_iff.mp stored) (by simp [same])
  · rintro h ⟨k,ps⟩ member same
    exact h k ps (AList.mem_lookup_iff.mpr member) (by simpa using same)

/-- Storing a peer and routing to it when its address is known is attaching. -/
theorem board_store (ctx : ServerCtx) (key : Text) (ps : PeerState) (routes : RoutingTable)
    (h : ∀ ip, routes.lookup ip = (ctx.board.attach key ps.duplex (known ps.assignedIp)).routes ip) :
    (ServerCtx.board { ctx with routes, peers := ctx.peers.insert key ps }) =
      ctx.board.attach key ps.duplex (known ps.assignedIp) := by
  refine Switchboard.ext (funext fun k => ?_) (funext h)
  by_cases same : k = key
  · subst same; simp [board,Switchboard.attach]
  · simp [board,Switchboard.attach,same,AList.lookup_insert_ne]

theorem board_setup (ctx : ServerCtx) (remotePk : PublicKey) (duplex : Duplex) :
    (ctx.setupPeerStream remotePk duplex).board =
      ctx.board.attach (bytesToHex remotePk.toList) duplex
        (known ((ctx.config.peers.lookup (bytesToHex remotePk.toList)).getD [])) := by
  apply board_store ctx _ ⟨duplex,_,_,_⟩
  intro ip
  simp only [known,Switchboard.attach]
  split_ifs with empty
  · rfl
  · simp [RoutingTable.lookup_add,board,Function.update_apply]

theorem board_close (ctx : ServerCtx) (pkHex : Text) :
    (ctx.onClose pkHex).board = ctx.board.detach pkHex := by
  unfold onClose
  cases stored : ctx.peers.lookup pkHex with
  | none =>
    refine Switchboard.ext (funext fun k => ?_) ?_
    · by_cases same : k = pkHex
      · subst same; simp [board,Switchboard.detach,stored]
      · simp [Switchboard.detach,same]
    · simp [board,Switchboard.detach,stored]
  | some ps =>
    refine Switchboard.ext (funext fun k => ?_) (funext fun ip => ?_)
    · by_cases same : k = pkHex
      · subst same; simp [board,Switchboard.detach]
      · simp [board,Switchboard.detach,same,AList.lookup_erase_ne]
    · simp only [board,Switchboard.detach,stored,Option.map_some,known]
      split_ifs with empty
      · rfl
      · simp [RoutingTable.lookup_remove,Function.update_apply]

/-- Replacing a peer's decoder changes nothing that is switched. -/
theorem board_decoder (h : ctx.peers.lookup key = some ps) (decoder : FrameDecoder) :
    (ctx.storeDecoder key ps decoder).board = ctx.board := by
  refine Switchboard.ext (funext fun k => ?_) rfl
  by_cases same : k = key
  · subst same; simp [board,storeDecoder,h]
  · simp [board,storeDecoder,AList.lookup_insert_ne same]

/-- The sender's address as the callback learns it. -/
def learned (ctx : ServerCtx) (key : Text) (ps : PeerState) (duplex : Duplex) (src : Text) :
    ServerCtx :=
  { ctx with
    routes := ctx.routes.add src duplex
    peers := ctx.peers.insert key { ps with assignedIp := src } }

/-- Learning attaches the sender's own stream again, now with its address. -/
theorem board_learned (ctx : ServerCtx) (key : Text) (ps : PeerState) (src : Text)
    (readable : src ≠ []) :
    (ctx.learned key ps ps.duplex src).board = ctx.board.attach key ps.duplex (some src) := by
  rw [← known_of_ne readable]
  apply board_store ctx key { ps with assignedIp := src }
  intro ip
  simp [known_of_ne readable,Switchboard.attach,RoutingTable.lookup_add,board,Function.update_apply]

/-! ### Streams belong to one entry -/

theorem setup_distinct (distinct : ctx.board.Distinct) (remotePk : PublicKey)
    (fresh : ctx.ownerOf duplex = none) : (ctx.setupPeerStream remotePk duplex).board.Distinct := by
  rw [board_setup]
  apply Switchboard.attach_distinct distinct
  intro k' held _ slot
  obtain ⟨ps,stored,same,-⟩ := slot_eq_some.mp slot
  exact ownerOf_none.mp fresh k' ps stored same

theorem learned_distinct (distinct : ctx.board.Distinct) (stored : ctx.peers.lookup key = some ps)
    (readable : src ≠ []) : (ctx.learned key ps ps.duplex src).board.Distinct := by
  rw [board_learned ctx key ps src readable]
  refine Switchboard.attach_distinct distinct fun k' held other slot => other ?_
  exact distinct k' key ps.duplex _ _ slot (slot_of_peer stored)

theorem close_distinct (distinct : ctx.board.Distinct) (key : Text) :
    (ctx.onClose key).board.Distinct := by
  rw [board_close]
  exact Switchboard.detach_distinct distinct

/-! ### Frames -/

theorem forward_cases (ctx : ServerCtx) (pkt : Packet) :
    (∃ target, ctx.routes.lookup (readDestIp pkt) = some target ∧ readDestIp pkt ≠ [] ∧
      ctx.forward pkt = [sendFramed target pkt]) ∨
    ((readDestIp pkt = [] ∨ ctx.routes.lookup (readDestIp pkt) = none) ∧
      ctx.forward pkt = [.tunWrite pkt]) := by
  unfold forward
  by_cases empty : readDestIp pkt = []
  · exact .inr ⟨.inl empty,by simp [empty]⟩
  · cases found : ctx.routes.lookup (readDestIp pkt) with
    | none => exact .inr ⟨.inr rfl,by simp [empty,found]⟩
    | some target => exact .inl ⟨target,rfl,empty,by simp [empty,found]⟩

theorem forward_ne_nil (ctx : ServerCtx) (pkt : Packet) : ctx.forward pkt ≠ [] := by
  rcases ctx.forward_cases pkt with ⟨target,-,-,out⟩ | ⟨-,out⟩ <;> simp [out]

/-- A frame the callback returns on without an output. -/
def Dropped (ps : PeerState) (pkt : Packet) : Prop :=
  (ps.assignedIp ≠ [] ∧ readSrcIp pkt ≠ ps.assignedIp) ∨
    (ps.assignedIp = [] ∧ readSrcIp pkt ≠ [] ∧ "fe80:".toList <+: readSrcIp pkt)

/-- A frame from which the callback learns its sender's address. -/
def Learns (ctx : ServerCtx) (ps : PeerState) (pkt : Packet) : Prop :=
  ps.assignedIp = [] ∧ readSrcIp pkt ≠ [] ∧ ¬"fe80:".toList <+: readSrcIp pkt ∧
    ctx.routes.lookup (readSrcIp pkt) = none

/-- Everything the callback can do with one frame. -/
theorem onFrame_cases (ctx : ServerCtx) (key : Text) (ps : PeerState) (duplex : Duplex)
    (pkt : Packet) :
    (Dropped ps pkt ∧ ctx.onFrame key ps duplex pkt = (ctx,[])) ∨
    (¬Dropped ps pkt ∧ ¬ctx.Learns ps pkt ∧ ctx.onFrame key ps duplex pkt = (ctx,ctx.forward pkt)) ∨
    (ctx.Learns ps pkt ∧ ctx.onFrame key ps duplex pkt =
      (ctx.learned key ps duplex (readSrcIp pkt),
        (ctx.learned key ps duplex (readSrcIp pkt)).forward pkt)) := by
  by_cases assigned : ps.assignedIp = []
  · by_cases unreadable : readSrcIp pkt = []
    · exact .inr (.inl ⟨by simp [Dropped,assigned,unreadable],by simp [Learns,unreadable],
        by simp [onFrame,assigned,unreadable]⟩)
    · by_cases linkLocal : "fe80:".toList <+: readSrcIp pkt
      · exact .inl ⟨.inr ⟨assigned,unreadable,linkLocal⟩,
          by simp only [onFrame,assigned,unreadable,linkLocal,ne_eq,not_true_eq_false,not_false_eq_true,↓reduceIte]⟩
      · by_cases free : ctx.routes.lookup (readSrcIp pkt) = none
        · refine .inr (.inr ⟨⟨assigned,unreadable,linkLocal,free⟩,?_⟩)
          simp only [onFrame,assigned,unreadable,linkLocal,free,ne_eq,not_true_eq_false,not_false_eq_true,
            ↓reduceIte,learned]
        · refine .inr (.inl ⟨?_,fun learns => free learns.2.2.2,?_⟩)
          · rintro (⟨has,-⟩ | ⟨-,-,link⟩)
            · exact has assigned
            · exact linkLocal link
          · simp only [onFrame,assigned,unreadable,linkLocal,free,ne_eq,not_true_eq_false,not_false_eq_true,
              ↓reduceIte]
  · by_cases spoofed : readSrcIp pkt = ps.assignedIp
    · refine .inr (.inl ⟨?_,fun learns => assigned learns.1,by simp [onFrame,assigned,spoofed]⟩)
      rintro (⟨-,differs⟩ | ⟨none,-⟩)
      · exact differs spoofed
      · exact assigned none
    · exact .inl ⟨.inl ⟨assigned,spoofed⟩,by simp [onFrame,assigned,spoofed]⟩

theorem onFrame_peer (duplex : Duplex) (stored : ctx.peers.lookup key = some ps) (pkt : Packet) :
    ∃ ps', (ctx.onFrame key ps duplex pkt).1.peers.lookup key = some ps' ∧
      ps'.duplex = ps.duplex ∧ ps'.decoder = ps.decoder := by
  rcases ctx.onFrame_cases key ps duplex pkt with ⟨-,eq⟩ | ⟨-,-,eq⟩ | ⟨-,eq⟩
  · rw [eq]; exact ⟨ps,stored,rfl,rfl⟩
  · rw [eq]; exact ⟨ps,stored,rfl,rfl⟩
  · rw [eq]; exact ⟨_,AList.lookup_insert _,rfl,rfl⟩

/-! ### Rules -/

/-- What every frame preserves and does holds of all frames of a message. -/
theorem onFrames_rule (inv : ServerCtx → Prop) (good : Handled → Prop)
    (step : ∀ ctx ps pkt, inv ctx → ctx.peers.lookup key = some ps → ps.duplex = duplex →
      inv (ctx.onFrame key ps duplex pkt).1 ∧
      good ⟨ctx,key,duplex,pkt,(ctx.onFrame key ps duplex pkt).1,(ctx.onFrame key ps duplex pkt).2⟩)
    (frames : List Packet) (start : inv ctx)
    (stored : ctx.peers.lookup key = some ps) (same : ps.duplex = duplex) :
    inv (ctx.onFrames key duplex frames).1 ∧ ∀ h ∈ (ctx.onFrames key duplex frames).2, good h := by
  induction frames generalizing ctx ps with
  | nil => exact ⟨start,by simp [onFrames]⟩
  | cons pkt rest ih =>
    obtain ⟨kept,handled⟩ := step ctx ps pkt start stored same
    obtain ⟨ps',stored',same',-⟩ := onFrame_peer duplex stored pkt
    obtain ⟨later,all⟩ := ih kept stored' (same'.trans same)
    simp only [onFrames,stored]
    refine ⟨later,fun h member => ?_⟩
    rcases List.mem_cons.mp member with rfl | member
    · exact handled
    · exact all h member

/-- A message stores the fed decoder in its owner's entry and then handles the frames. -/
theorem onMessage_owner (stored : ctx.peers.lookup key = some ps)
    (owner : ctx.ownerOf duplex = some key) (data : List UInt8) :
    ctx.onMessage duplex data =
      (ctx.storeDecoder key ps (ps.decoder.feed data).decoder).onFrames key duplex
        (ps.decoder.feed data).frames := by
  simp [onMessage,owner,stored]

section Rules

variable (inv : ServerCtx → Prop) (good : Handled → Prop)
  (store : ∀ ctx key ps decoder, inv ctx → ctx.peers.lookup key = some ps →
    inv (ctx.storeDecoder key ps decoder))
  (frame : ∀ ctx key ps pkt, inv ctx → ctx.peers.lookup key = some ps →
    inv (ctx.onFrame key ps ps.duplex pkt).1 ∧
    good ⟨ctx,key,ps.duplex,pkt,(ctx.onFrame key ps ps.duplex pkt).1,
      (ctx.onFrame key ps ps.duplex pkt).2⟩)

include store frame

theorem onMessage_rule (start : inv ctx) (duplex : Duplex) (data : List UInt8) :
    inv (ctx.onMessage duplex data).1 ∧ ∀ h ∈ (ctx.onMessage duplex data).2, good h := by
  cases owner : ctx.ownerOf duplex with
  | none => exact ⟨by simpa [onMessage,owner] using start,by simp [onMessage,owner]⟩
  | some key =>
    obtain ⟨ps,stored,same⟩ := ownerOf_some owner
    rw [onMessage_owner stored owner]
    refine onFrames_rule inv good ?_ _ (store ctx key ps _ start stored) (AList.lookup_insert _) same
    rintro ctx ps pkt kept stored rfl
    exact frame ctx key ps pkt kept stored

/-- The events of the server reduce to four steps: a connection, a decoder stored, a
frame handled and a close. -/
theorem next_rule
    (connect : ∀ ctx remotePk duplex, inv ctx → ctx.firewall remotePk = false →
      ctx.ownerOf duplex = none → inv (ctx.setupPeerStream remotePk duplex))
    (close : ∀ ctx key ps, inv ctx → ctx.peers.lookup key = some ps → inv (ctx.onClose key))
    (ctx : ServerCtx) (e : Event) (start : inv ctx) (enabled : ctx.Enabled e) :
    inv (ctx.next e) := by
  cases e with
  | connection remotePk duplex => exact connect ctx remotePk duplex start enabled.1 enabled.2
  | message duplex data => exact (onMessage_rule inv good store frame start duplex data).1
  | close duplex =>
    simp only [next]
    cases owner : ctx.ownerOf duplex with
    | none => exact start
    | some key =>
      obtain ⟨ps,stored,-⟩ := ownerOf_some owner
      exact close ctx key ps start stored
  | tunPacket data => exact start

theorem emits_rule (start : inv ctx) (e : Event) (h : Handled) (member : .frame h ∈ ctx.emits e) :
    good h := by
  cases e with
  | message duplex data =>
    simp only [emits,List.mem_cons,reduceCtorEq,false_or,List.mem_map,Record.frame.injEq,
      exists_eq_right] at member
    exact (onMessage_rule inv good store frame start duplex data).2 h member
  | connection | close => simp [emits] at member
  | tunPacket data => simp [emits] at member

end Rules

end ServerCtx

end Nospoon
