import Nospoon.Library.Streaming
import Mathlib.Data.Nat.Bitwise
import Mathlib.Tactic

/-! Length-prefixed framing over an encrypted stream (`framing.hpp`): four bytes of
big-endian length, then the payload; a zero length is a keepalive. -/
namespace Nospoon

open Library

abbrev Packet := List UInt8

/-- The four length bytes in front of a payload of `len` bytes. -/
def frameHeader (len : Nat) : List UInt8 :=
  [UInt8.ofNat (len >>> 24 &&& 0xFF),UInt8.ofNat (len >>> 16 &&& 0xFF),
    UInt8.ofNat (len >>> 8 &&& 0xFF),UInt8.ofNat (len &&& 0xFF)]

def frameEncode (data : Packet) : List UInt8 := frameHeader data.length ++ data

def frameKeepalive : List UInt8 := [0,0,0,0]

def maxFrameSize : Nat := 65535
def maxBufferSize : Nat := 256 * 1024

/-- The header read back: `uint32_t`, so no shift below loses a bit. -/
def frameLen (b0 b1 b2 b3 : UInt8) : Nat :=
  b0.toNat <<< 24 ||| b1.toNat <<< 16 ||| b2.toNat <<< 8 ||| b3.toNat

/-- One round of the loop in `FrameDecoder::feed`. Clearing the buffer and returning
is consuming all of it, since the loop ends on an empty buffer. -/
def nextFrame : List UInt8 → Option (Option Packet × List UInt8)
  | b0 :: b1 :: b2 :: b3 :: payload =>
    let len := frameLen b0 b1 b2 b3
    if maxFrameSize < len then some (none,[])
    else if len = 0 then some (none,payload)
    else if payload.length < len then none
    else some (some (payload.take len),payload.drop len)
  | _ => none

theorem nextFrame_progress (h : nextFrame buf = some (item,rest)) : rest.length < buf.length := by
  unfold nextFrame at h
  split at h
  · dsimp only at h
    split_ifs at h
    all_goals
      obtain ⟨rfl,rfl⟩ := Prod.mk.inj (Option.some.inj h)
      simp only [List.length_cons,List.length_nil,List.length_drop]
      omega
  · contradiction

def frameReader : Reader UInt8 Packet := ⟨nextFrame,nextFrame_progress⟩

structure FrameDecoder where
  buf : List UInt8 := []
  deriving DecidableEq, Repr

/-- What one call of `feed` does: the frames handed to `on_frame`, in order, and
whether `on_overflow` ran. -/
structure Fed where
  decoder : FrameDecoder
  frames : List Packet
  overflow : Bool
  deriving DecidableEq, Repr

def FrameDecoder.feed (d : FrameDecoder) (data : List UInt8) : Fed :=
  let buf := d.buf ++ data
  if maxBufferSize < buf.length then ⟨⟨[]⟩,[],true⟩
  else ⟨⟨(frameReader.drain buf).2⟩,(frameReader.drain buf).1,false⟩

def FrameDecoder.reset (_ : FrameDecoder) : FrameDecoder := ⟨[]⟩

/-- A stream fed chunk by chunk: all frames in order, and the number of overflows. -/
structure Decoded where
  decoder : FrameDecoder
  frames : List Packet
  overflows : Nat
  deriving DecidableEq, Repr

def FrameDecoder.feedAll (d : FrameDecoder) : List (List UInt8) → Decoded
  | [] => ⟨d,[],0⟩
  | chunk :: chunks =>
    let fed := d.feed chunk
    let later := fed.decoder.feedAll chunks
    ⟨later.decoder,fed.frames ++ later.frames,(if fed.overflow then 1 else 0) + later.overflows⟩

/-- The shifted bytes do not overlap, so the disjunction is a sum. -/
theorem frameLen_eq (b0 b1 b2 b3 : UInt8) :
    frameLen b0 b1 b2 b3 =
      2 ^ 24 * b0.toNat + 2 ^ 16 * b1.toNat + 2 ^ 8 * b2.toNat + b3.toNat := by
  have h1 := b1.toNat_lt
  have h2 := b2.toNat_lt
  have h3 := b3.toNat_lt
  have high : b0.toNat <<< 24 ||| b1.toNat <<< 16 = (b0.toNat <<< 8 + b1.toNat) <<< 16 := by
    rw [Nat.shiftLeft_add_eq_or_of_lt (by omega),Nat.shiftLeft_or_distrib,← Nat.shiftLeft_add]
  have upper (x : Nat) : x <<< 16 ||| b2.toNat <<< 8 = (x <<< 8 + b2.toNat) <<< 8 := by
    rw [Nat.shiftLeft_add_eq_or_of_lt (by omega),Nat.shiftLeft_or_distrib,← Nat.shiftLeft_add]
  rw [frameLen,high,upper,← Nat.shiftLeft_add_eq_or_of_lt (by omega)]
  simp only [Nat.shiftLeft_eq]
  omega

theorem headerByte_toNat (n : Nat) : (UInt8.ofNat (n &&& 0xFF)).toNat = n % 256 := by
  rw [UInt8.toNat_ofNat',show (0xFF : Nat) = 2 ^ 8 - 1 from rfl,Nat.and_two_pow_sub_one_eq_mod]
  omega

/-- A header announces the length it was built from, below the 32-bit limit. -/
theorem frameLen_header (len : Nat) (bound : len < 2 ^ 32) :
    frameLen (UInt8.ofNat (len >>> 24 &&& 0xFF)) (UInt8.ofNat (len >>> 16 &&& 0xFF))
      (UInt8.ofNat (len >>> 8 &&& 0xFF)) (UInt8.ofNat (len &&& 0xFF)) = len := by
  rw [frameLen_eq]
  simp only [headerByte_toNat,Nat.shiftRight_eq_div_pow]
  omega

/-- What a sender puts on the stream: packets of a size the decoder admits, with
keepalives anywhere between them. -/
inductive Frame where
  | keepalive
  | packet (data : Packet) (sized : 1 ≤ data.length ∧ data.length ≤ maxFrameSize)

def Frame.wire : Frame → List UInt8
  | .keepalive => frameKeepalive
  | .packet data _ => frameEncode data

def Frame.payload : Frame → Option Packet
  | .keepalive => none
  | .packet data _ => some data

theorem nextFrame_short (buf : List UInt8) (h : buf.length < 4) : nextFrame buf = none := by
  match buf, h with
  | [], _ | [_], _ | [_,_], _ | [_,_,_], _ => rfl

theorem nextFrame_keepalive (more : List UInt8) :
    nextFrame (frameKeepalive ++ more) = some (none,more) := rfl

/-- On a packet's own header the reader cuts the payload out as soon as it is all there. -/
theorem nextFrame_header (data : Packet) (sized : 1 ≤ data.length ∧ data.length ≤ maxFrameSize)
    (more : List UInt8) : nextFrame (frameHeader data.length ++ more) =
      if more.length < data.length then none
      else some (some (more.take data.length),more.drop data.length) := by
  obtain ⟨low,high⟩ := sized
  have fits : data.length < 2 ^ 32 := by unfold maxFrameSize at high; omega
  have announced := frameLen_header data.length fits
  simp only [frameHeader,List.cons_append,List.nil_append,nextFrame,announced]
  rw [if_neg (by omega),if_neg (by omega)]

theorem nextFrame_whole (frame : Frame) (more : List UInt8) :
    nextFrame (frame.wire ++ more) = some (frame.payload,more) := by
  cases frame with
  | keepalive => exact nextFrame_keepalive more
  | packet data sized =>
    rw [Frame.wire,frameEncode,List.append_assoc,nextFrame_header data sized]
    simp [Frame.payload]

theorem Frame.wire_length (frame : Frame) :
    4 ≤ frame.wire.length ∧ frame.wire.length ≤ maxFrameSize + 4 := by
  cases frame with
  | keepalive => decide
  | packet data sized =>
    simp only [wire,frameEncode,frameHeader,List.length_append,List.length_cons,List.length_nil]
    omega

theorem nextFrame_waits (frame : Frame) (front : List UInt8) (inside : front <+: frame.wire)
    (proper : front ≠ frame.wire) : nextFrame front = none := by
  have shorter : front.length < frame.wire.length := by
    rcases Nat.lt_or_eq_of_le inside.length_le with h | h
    · exact h
    · exact absurd (inside.eq_of_length h) proper
  cases frame with
  | keepalive => exact nextFrame_short front shorter
  | packet data sized =>
    by_cases header : front.length < 4
    · exact nextFrame_short front header
    · obtain ⟨more,rfl⟩ : frameHeader data.length <+: front :=
        List.prefix_of_prefix_length_le (List.prefix_append _ _) inside (by
          simp only [frameHeader,List.length_cons,List.length_nil]; omega)
      simp only [Frame.wire,frameEncode,List.length_append] at shorter
      rw [nextFrame_header data sized,if_pos (by omega)]

/-- The framing of `framing.hpp` is a self-delimiting code for its own decoder. -/
def frameCode : Code frameReader Frame where
  enc := Frame.wire
  value := Frame.payload
  whole := nextFrame_whole
  short := nextFrame_waits

/-- A tail that waits inside a stream of frames is shorter than any frame. -/
theorem waiting_length {todo : List Frame} {tail : List UInt8}
    (waiting : frameCode.Waiting todo tail) : tail.length ≤ maxFrameSize + 3 := by
  obtain ⟨inside,waits⟩ := waiting
  cases todo with
  | nil => simp [List.prefix_nil.mp inside]
  | cons frame todo =>
    by_contra long
    have whole : frame.wire <+: tail :=
      List.prefix_of_prefix_length_le (List.prefix_append _ _) inside (by
        have := frame.wire_length; omega)
    obtain ⟨more,rfl⟩ := whole
    have cut := nextFrame_whole frame more
    rw [show nextFrame (frame.wire ++ more) = none from waits] at cut
    contradiction

theorem feed_fits (d : FrameDecoder) (data : List UInt8)
    (fits : d.buf.length + data.length ≤ maxBufferSize) :
    d.feed data = ⟨⟨(frameReader.drain (d.buf ++ data)).2⟩,(frameReader.drain (d.buf ++ data)).1,false⟩ := by
  rw [FrameDecoder.feed,if_neg (by rw [List.length_append]; omega)]

/-- From a waiting buffer, chunks that make up the rest of the stream yield the rest
of the packets. The buffer invariant is `Code.Waiting`. -/
theorem feedAll_waiting (chunks : List (List UInt8)) (todo : List Frame) (tail : List UInt8)
    (waiting : frameCode.Waiting todo tail) (rest : tail ++ chunks.flatten = frameCode.wire todo)
    (sized : ∀ chunk ∈ chunks, chunk.length ≤ maxBufferSize - (maxFrameSize + 3)) :
    FrameDecoder.feedAll ⟨tail⟩ chunks = ⟨⟨[]⟩,frameCode.values todo,0⟩ := by
  induction chunks generalizing todo tail with
  | nil =>
    rw [List.flatten_nil,List.append_nil] at rest
    cases todo with
    | nil => rw [Code.wire_nil] at rest; rw [rest]; rfl
    | cons frame todo =>
      have waits := waiting.2
      rw [rest,Code.wire_cons] at waits
      have cut := frameCode.whole frame (frameCode.wire todo)
      rw [waits] at cut
      contradiction
  | cons chunk chunks ih =>
    have bound := waiting_length waiting
    have short := sized chunk List.mem_cons_self
    rw [List.flatten_cons,← List.append_assoc] at rest
    obtain ⟨past,later,left,split,front,drained,waits⟩ :=
      frameCode.drain_waiting (rest ▸ List.prefix_append _ _ : tail ++ chunk <+: _) rfl
    subst split
    rw [front,Code.wire_append,List.append_assoc] at rest
    have tailRest := List.append_cancel_left rest
    have fed := feed_fits ⟨tail⟩ chunk (by simp only [maxBufferSize,maxFrameSize] at *; omega)
    rw [drained] at fed
    rw [FrameDecoder.feedAll,fed]
    simp only [ih later left waits tailRest (fun c h => sized c (List.mem_cons_of_mem _ h)),
      Code.values_append,Bool.false_eq_true,↓reduceIte,Nat.add_zero]

/-- A sender's frames survive any chunking whose chunks leave room for the largest
waiting tail: every packet arrives, unchanged and in order, nothing overflows and
nothing is left in the buffer. -/
theorem feedAll_roundtrip (frames : List Frame) (chunks : List (List UInt8))
    (split : chunks.flatten = (frames.map Frame.wire).flatten)
    (sized : ∀ chunk ∈ chunks, chunk.length ≤ 196606) :
    FrameDecoder.feedAll {} chunks = ⟨⟨[]⟩,frames.filterMap Frame.payload,0⟩ :=
  feedAll_waiting chunks frames [] ⟨List.nil_prefix,rfl⟩
    (by rw [List.nil_append,split,← List.flatMap_def]; rfl) sized

theorem feedAll_roundtrip_split_header :
    FrameDecoder.feedAll {} [[0,0],[0,1,7,0,0],[0,0],[0,0,0,2,5],[6]] =
      ⟨⟨[]⟩,[[7],[5,6]],0⟩ :=
  feedAll_roundtrip [.packet [7] (by decide),.keepalive,.packet [5,6] (by decide)]
    _ (by decide) (by decide)

end Nospoon
