import Nospoon.ServerBoard

/-! One stream after another under the same key. A peer's decoder outlives the duplex
it decodes when a new connection replaces it, so a stream is decoded from scratch only
when nothing was left in the buffer. -/
namespace Nospoon

open Library

theorem feedAll_append (d : FrameDecoder) (chunks more : List (List UInt8)) :
    (d.feedAll (chunks ++ more)).decoder = ((d.feedAll chunks).decoder.feedAll more).decoder ∧
    (d.feedAll (chunks ++ more)).frames =
      (d.feedAll chunks).frames ++ ((d.feedAll chunks).decoder.feedAll more).frames := by
  induction chunks generalizing d with
  | nil => exact ⟨rfl,rfl⟩
  | cons chunk chunks ih =>
    obtain ⟨decoder,frames⟩ := ih (d.feed chunk).decoder
    simp only [List.cons_append,FrameDecoder.feedAll,decoder,frames,List.append_assoc,and_self]

/-- A stream since it was opened: the chunks received on it and the frames handed to
the callback. -/
structure Stream where
  chunks : List (List UInt8)
  frames : List Packet

/-- One record as the stream `d` sees it. -/
def Stream.record (d : Duplex) (s : Stream) : Record → Stream
  | .opened d' => if d' = d then ⟨[],[]⟩ else s
  | .received d' data => if d' = d then { s with chunks := s.chunks ++ [data] } else s
  | .frame h => if h.duplex = d then { s with frames := s.frames ++ [h.pkt] } else s
  | .tun .. => s

def streamOf (d : Duplex) (past : List Record) : Stream := past.foldl (Stream.record d) ⟨[],[]⟩

theorem streamOf_append (past now : List Record) :
    streamOf d (past ++ now) = now.foldl (Stream.record d) (streamOf d past) := List.foldl_append

/-- The frames and the buffer are those of a fresh decoder on the stream's own bytes. -/
structure Stream.FromScratch (s : Stream) (decoder : FrameDecoder) : Prop where
  frames : s.frames = (FrameDecoder.feedAll {} s.chunks).frames
  buffer : decoder = (FrameDecoder.feedAll {} s.chunks).decoder

/-- Every connected stream has been decoded from scratch so far. -/
def StreamsFromScratch (s : ServerCtx × List Record) : Prop :=
  ∀ k ps, s.1.peers.lookup k = some ps → (streamOf ps.duplex s.2).FromScratch ps.decoder

theorem fromScratch_opened (decoder : FrameDecoder) :
    (Stream.mk [] []).FromScratch decoder ↔ decoder.buf = [] := by
  constructor
  · intro scratch
    rw [scratch.buffer]
    rfl
  · intro empty
    exact ⟨rfl,by cases decoder; cases empty; rfl⟩

theorem Stream.FromScratch.feed {s : Stream} {decoder : FrameDecoder} (scratch : s.FromScratch decoder)
    (data : List UInt8) :
    (Stream.mk (s.chunks ++ [data]) (s.frames ++ (decoder.feed data).frames)).FromScratch
      (decoder.feed data).decoder := by
  obtain ⟨decoder',frames⟩ := feedAll_append {} s.chunks [data]
  constructor
  · rw [frames,← scratch.buffer,← scratch.frames]
    simp only [FrameDecoder.feedAll,List.append_nil]
  · rw [decoder',← scratch.buffer]
    rfl

/-- Handled frames append to their own stream and to no other. -/
theorem foldl_frames (handled : List Handled) (s : Stream) (from_d : ∀ h ∈ handled, h.duplex = duplex) :
    (handled.map Record.frame).foldl (Stream.record d) s =
      if duplex = d then { s with frames := s.frames ++ handled.map Handled.pkt } else s := by
  induction handled generalizing s with
  | nil => simp
  | cons h handled ih =>
    have here := from_d h List.mem_cons_self
    rw [List.map_cons,List.foldl_cons,ih _ fun h' member => from_d h' (List.mem_cons_of_mem _ member)]
    by_cases own : duplex = d <;> simp [Stream.record,here,own]

namespace ServerCtx

variable {ctx : ServerCtx}

/-- What an entry says of its stream, without the address. -/
def streams (ctx : ServerCtx) (k : Text) : Option (Duplex × FrameDecoder) :=
  (ctx.peers.lookup k).map fun ps => (ps.duplex,ps.decoder)

theorem streams_eq_some : ctx.streams k = some (d,decoder) ↔
    ∃ ps, ctx.peers.lookup k = some ps ∧ ps.duplex = d ∧ ps.decoder = decoder := by
  simp [streams,Option.map_eq_some_iff]

theorem lookup_storeDecoder (ctx : ServerCtx) (key : Text) (ps : PeerState) (decoder : FrameDecoder) :
    (ctx.storeDecoder key ps decoder).peers.lookup key = some { ps with decoder } :=
  AList.lookup_insert _

theorem onFrame_streams (stored : ctx.peers.lookup key = some ps) (duplex : Duplex) (pkt : Packet) :
    (ctx.onFrame key ps duplex pkt).1.streams = ctx.streams := by
  rcases ctx.onFrame_cases key ps duplex pkt with ⟨-,eq⟩ | ⟨-,-,eq⟩ | ⟨-,eq⟩
  · rw [eq]
  · rw [eq]
  · rw [eq]
    funext k
    by_cases here : k = key
    · subst here; simp [streams,learned,stored]
    · simp [streams,learned,AList.lookup_insert_ne here]

/-- The callback sees every frame of the feed, and leaves streams and decoders alone. -/
theorem onFrames_streams (stored : ctx.peers.lookup key = some ps) (duplex : Duplex)
    (frames : List Packet) :
    (ctx.onFrames key duplex frames).1.streams = ctx.streams ∧
    (ctx.onFrames key duplex frames).2.map Handled.pkt = frames ∧
    ∀ h ∈ (ctx.onFrames key duplex frames).2, h.duplex = duplex := by
  induction frames generalizing ctx ps with
  | nil => exact ⟨rfl,rfl,by simp [onFrames]⟩
  | cons pkt rest ih =>
    obtain ⟨ps',stored',-⟩ := onFrame_peer duplex stored pkt
    obtain ⟨same,pkts,own⟩ := ih stored'
    simp only [onFrames,stored,List.map_cons,pkts,List.mem_cons,forall_eq_or_imp,true_and]
    exact ⟨same.trans (onFrame_streams stored duplex pkt),own⟩

theorem frame_distinct (distinct : ctx.board.Distinct) (stored : ctx.peers.lookup key = some ps)
    (pkt : Packet) : (ctx.onFrame key ps ps.duplex pkt).1.board.Distinct := by
  rcases ctx.onFrame_cases key ps ps.duplex pkt with ⟨-,eq⟩ | ⟨-,-,eq⟩ | ⟨⟨-,readable,-⟩,eq⟩
  · rw [eq]; exact distinct
  · rw [eq]; exact distinct
  · rw [eq]; exact learned_distinct distinct stored readable

theorem next_distinct (ctx : ServerCtx) (e : Event) (distinct : ctx.board.Distinct)
    (enabled : ctx.Enabled e) : (ctx.next e).board.Distinct :=
  next_rule (fun ctx => ctx.board.Distinct) (fun _ => True)
    (fun _ _ _ decoder distinct stored => by rw [board_decoder stored]; exact distinct)
    (fun _ _ _ pkt distinct stored => ⟨frame_distinct distinct stored pkt,trivial⟩)
    (fun _ remotePk _ distinct _ fresh => setup_distinct distinct remotePk fresh)
    (fun _ key _ distinct _ => close_distinct distinct key) ctx e distinct enabled

/-- A connection arrives when its key has no entry, or an entry whose decoder has
nothing buffered. -/
def ReplacesDrained (ctx : ServerCtx) : Event → Prop
  | .connection remotePk _ =>
    ∀ ps ∈ ctx.peers.lookup (bytesToHex remotePk.toList), ps.decoder.buf = []
  | .message .. | .close .. | .tunPacket .. => True

instance (ctx : ServerCtx) : ∀ e, Decidable (ctx.ReplacesDrained e)
  | .connection .. => inferInstanceAs (Decidable (∀ ps ∈ _, _))
  | .message .. | .close .. | .tunPacket .. => isTrue trivial

end ServerCtx

open ServerCtx

/-- The new stream starts with the decoder of the entry it replaces. -/
theorem connection_scratch_iff {ctx : ServerCtx} (scratch : StreamsFromScratch (ctx,past))
    (remotePk : PublicKey) (fresh : ctx.ownerOf duplex = none) :
    StreamsFromScratch (ctx.setupPeerStream remotePk duplex,past ++ [.opened duplex]) ↔
      ctx.ReplacesDrained (.connection remotePk duplex) := by
  have opened (d : Duplex) : streamOf d (past ++ [.opened duplex]) =
      if duplex = d then ⟨[],[]⟩ else streamOf d past := streamOf_append _ _
  have fromDecoder : ((ctx.peers.lookup (bytesToHex remotePk.toList)).map PeerState.decoder).getD {} =
      ⟨[]⟩ ↔ ctx.ReplacesDrained (.connection remotePk duplex) := by
    cases stored : ctx.peers.lookup (bytesToHex remotePk.toList) with
    | none => simp [ReplacesDrained,stored]
    | some ps =>
      simp only [ReplacesDrained,stored,Option.map_some,Option.getD_some,Option.mem_def,
        Option.some.injEq,forall_eq']
      cases ps.decoder
      simp
  rw [← fromDecoder]
  constructor
  · intro later
    have own := later (bytesToHex remotePk.toList) _ (AList.lookup_insert _)
    rw [opened,if_pos rfl,fromScratch_opened] at own
    exact congrArg FrameDecoder.mk own
  · intro empty k ps stored
    rw [opened]
    by_cases here : k = bytesToHex remotePk.toList
    · subst here
      simp only [setupPeerStream,AList.lookup_insert,Option.some.injEq] at stored
      subst stored
      rw [if_pos rfl,fromScratch_opened,empty]
    · simp only [setupPeerStream,AList.lookup_insert_ne here] at stored
      rw [if_neg (Ne.symm (ownerOf_none.mp fresh k ps stored))]
      exact scratch k ps stored

theorem message_scratch {ctx : ServerCtx} (distinct : ctx.board.Distinct)
    (scratch : StreamsFromScratch (ctx,past)) (owned : ctx.ownerOf duplex ≠ none) (data : List UInt8) :
    StreamsFromScratch ((ctx.onMessage duplex data).1,
      past ++ (.received duplex data :: (ctx.onMessage duplex data).2.map .frame)) := by
  obtain ⟨key,owner⟩ := Option.ne_none_iff_exists'.mp owned
  obtain ⟨ps,stored,rfl⟩ := ownerOf_some owner
  rw [onMessage_owner stored owner]
  obtain ⟨same,pkts,own⟩ := onFrames_streams
    (lookup_storeDecoder ctx key ps (ps.decoder.feed data).decoder) ps.duplex
    (ps.decoder.feed data).frames
  intro k ps' stored'
  obtain ⟨ps'',stored'',sameDuplex,sameDecoder⟩ :=
    streams_eq_some.mp (same ▸ streams_eq_some.mpr ⟨ps',stored',rfl,rfl⟩)
  rw [streamOf_append,List.foldl_cons,foldl_frames _ _ own,pkts,← sameDuplex,← sameDecoder]
  by_cases here : k = key
  · subst here
    simp only [storeDecoder,AList.lookup_insert,Option.some.injEq] at stored''
    subst stored''
    simp only [Stream.record,↓reduceIte]
    exact (scratch k ps stored).feed data
  · simp only [storeDecoder,AList.lookup_insert_ne here] at stored''
    have other : ps.duplex ≠ ps''.duplex := fun h =>
      here (distinct k key ps''.duplex _ _ (slot_of_peer stored'') (h ▸ slot_of_peer stored))
    simp only [Stream.record,if_neg other]
    exact scratch k ps'' stored''

theorem close_scratch {ctx : ServerCtx} (scratch : StreamsFromScratch (ctx,past)) (key : Text) :
    StreamsFromScratch (ctx.onClose key,past) := by
  intro k ps stored
  unfold onClose at stored
  split at stored
  · exact scratch k ps stored
  · by_cases here : k = key
    · subst here; simp at stored
    · rw [AList.lookup_erase_ne here] at stored
      exact scratch k ps stored

theorem next_scratch_iff (s : ServerCtx × List Record) (e : Event) (distinct : s.1.board.Distinct)
    (scratch : StreamsFromScratch s) (enabled : s.1.Enabled e) :
    StreamsFromScratch (server.withLog.next s e) ↔ s.1.ReplacesDrained e := by
  obtain ⟨ctx,past⟩ := s
  cases e with
  | connection remotePk duplex => exact connection_scratch_iff scratch remotePk enabled.2
  | message duplex data => exact iff_of_true (message_scratch distinct scratch enabled data) trivial
  | close duplex =>
    refine iff_of_true ?_ trivial
    rw [Machine.withLog]
    simp only [server,next,emits,List.append_nil]
    split
    · exact scratch
    · exact close_scratch scratch _
  | tunPacket data =>
    refine iff_of_true (fun k ps stored => ?_) trivial
    have same := streamOf_append (d := ps.duplex) past [.tun ctx data (ctx.onTunPacket data)]
    exact same ▸ scratch k ps stored

/-- In every run, in either mode, all streams are decoded from scratch exactly when no
connection replaces a stream that has a partial frame buffered. -/
theorem streams_fromScratch_iff (config : Config) (events : List Event)
    (admitted : server.Admits (.initial config) events) :
    server.withLog.Throughout StreamsFromScratch (.initial config,[]) events ↔
      server.withLog.Along (fun s => s.1.ReplacesDrained) (.initial config,[]) events :=
  Machine.throughout_iff_along (fun s => s.1.board.Distinct)
    (fun s e distinct _ enabled => next_distinct s.1 e distinct enabled)
    (fun s e distinct scratch enabled => next_scratch_iff s e distinct scratch enabled)
    (by intro k k' d held held' h; simp [board,initial] at h)
    (by intro k ps h; simp [initial] at h)
    (Machine.withLog_admits.mpr admitted)

/-- The two bytes of a header in the buffer go with the close; the next stream of the
same key starts clean. -/
theorem streams_fromScratch_orderly :
    server.withLog.Throughout StreamsFromScratch (.initial {},[])
      [.connection (Vector.replicate 32 1) 0,.message 0 [0,0],.close 0,
        .connection (Vector.replicate 32 1) 1,.message 1 (frameEncode [69,0])] :=
  (streams_fromScratch_iff {} _ (by decide +kernel)).mpr (by decide +kernel)

/-- Without the close they are prefixed to the new stream, and its first packet is lost. -/
theorem streams_fromScratch_leftover :
    ¬∀ (config : Config) (events : List Event), server.Admits (.initial config) events →
      server.withLog.Throughout StreamsFromScratch (.initial config,[]) events := by
  intro claim
  have scratch := (claim {} [.connection (Vector.replicate 32 1) 0,.message 0 [0,0],
    .connection (Vector.replicate 32 1) 1,.message 1 (frameEncode [69,0])] (by decide +kernel)).last
  obtain ⟨key,owner⟩ := Option.ne_none_iff_exists'.mp
    (by decide +kernel : (server.withLog.run (.initial {},[]) [.connection (Vector.replicate 32 1) 0,
      .message 0 [0,0],.connection (Vector.replicate 32 1) 1,
      .message 1 (frameEncode [69,0])]).1.ownerOf 1 ≠ none)
  obtain ⟨ps,stored,same⟩ := ownerOf_some owner
  have lost := (scratch key ps stored).frames
  rw [same] at lost
  exact absurd lost (by decide +kernel)

end Nospoon
