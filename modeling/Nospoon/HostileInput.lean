import Nospoon.Framing

/-! The decoder on any bytes at all. Whatever a peer sends, what waits in the buffer is
less than one frame, and a corrupt length or an overflow leaves nothing behind. -/
namespace Nospoon

open Library

/-- A header that is not complete yet, or one of a frame that is not. -/
def Incomplete (buf : List UInt8) : Prop :=
  buf.length < 4 ∨ ∃ b0 b1 b2 b3 payload, buf = b0 :: b1 :: b2 :: b3 :: payload ∧
    1 ≤ frameLen b0 b1 b2 b3 ∧ frameLen b0 b1 b2 b3 ≤ maxFrameSize ∧ payload.length < frameLen b0 b1 b2 b3

/-- The header at the front announces more than a frame may hold. -/
def Oversized (buf : List UInt8) : Prop :=
  ∃ b0 b1 b2 b3 payload, buf = b0 :: b1 :: b2 :: b3 :: payload ∧ maxFrameSize < frameLen b0 b1 b2 b3

/-- A feed that gives the stream up: it overflows, or its loop comes to an oversized header. -/
def FrameDecoder.GivesUp (d : FrameDecoder) (data : List UInt8) : Prop :=
  (d.feed data).overflow = true ∨ ∃ rest, frameReader.Reaches (d.buf ++ data) rest ∧ Oversized rest

theorem nextFrame_eq_none : nextFrame buf = none ↔ Incomplete buf := by
  unfold Incomplete
  rcases buf with _ | ⟨b0,_ | ⟨b1,_ | ⟨b2,_ | ⟨b3,payload⟩⟩⟩⟩
  · simp [nextFrame]
  · simp [nextFrame]
  · simp [nextFrame]
  · simp [nextFrame]
  · have full : ¬(b0 :: b1 :: b2 :: b3 :: payload).length < 4 := by simp
    simp only [nextFrame,List.cons.injEq,full,false_or]
    split_ifs with hostile keepalive short
    · simp only [false_iff]
      rintro ⟨_,_,_,_,_,⟨rfl,rfl,rfl,rfl,rfl⟩,-,fits,-⟩
      omega
    · simp only [false_iff]
      rintro ⟨_,_,_,_,_,⟨rfl,rfl,rfl,rfl,rfl⟩,positive,-⟩
      omega
    · simp only [true_iff]
      exact ⟨b0,b1,b2,b3,payload,⟨rfl,rfl,rfl,rfl,rfl⟩,by omega,by omega,short⟩
    · simp only [false_iff]
      rintro ⟨_,_,_,_,_,⟨rfl,rfl,rfl,rfl,rfl⟩,-,-,inside⟩
      exact short inside

theorem nextFrame_item (h : nextFrame buf = some (some frame,rest)) :
    1 ≤ frame.length ∧ frame.length ≤ maxFrameSize := by
  unfold nextFrame at h
  split at h
  · dsimp only at h
    split_ifs at h with hostile keepalive short
    · simp at h
    · simp at h
    · obtain ⟨cut,-⟩ := Prod.mk.inj (Option.some.inj h)
      rw [← Option.some.inj cut,List.length_take]
      omega
  · contradiction

theorem nextFrame_oversized (oversized : Oversized buf) : nextFrame buf = some (none,[]) := by
  obtain ⟨b0,b1,b2,b3,payload,rfl,hostile⟩ := oversized
  exact if_pos hostile

theorem Incomplete.length_le (incomplete : Incomplete buf) : buf.length ≤ maxFrameSize + 3 := by
  rcases incomplete with header | ⟨b0,b1,b2,b3,payload,rfl,-,fits,short⟩
  · omega
  · simp only [List.length_cons]
    omega

/-! ### One feed -/

namespace FrameDecoder

/-- What one feed does, in terms of its loop. -/
theorem feed_cases (d : FrameDecoder) (data : List UInt8) :
    (maxBufferSize < (d.buf ++ data).length ∧ d.feed data = ⟨⟨[]⟩,[],true⟩) ∨
      ((d.buf ++ data).length ≤ maxBufferSize ∧
        d.feed data = ⟨⟨(frameReader.drain (d.buf ++ data)).2⟩,(frameReader.drain (d.buf ++ data)).1,false⟩) := by
  by_cases full : maxBufferSize < (d.buf ++ data).length
  · exact .inl ⟨full,if_pos full⟩
  · exact .inr ⟨Nat.le_of_not_lt full,if_neg full⟩

/-- Where the loop ends, it waits; and each of its frames comes from a round. -/
theorem feed_loop (buf : List UInt8) : Incomplete (frameReader.drain buf).2 ∧
    ∀ frame ∈ (frameReader.drain buf).1, 1 ≤ frame.length ∧ frame.length ≤ maxFrameSize := by
  obtain ⟨⟨-,waits⟩,items⟩ := frameReader.drain_induction (fun _ _ => trivial) (trivial : (fun _ => True) buf)
  refine ⟨nextFrame_eq_none.mp waits,fun frame member => ?_⟩
  obtain ⟨mid,rest,-,cut⟩ := items frame member
  exact nextFrame_item cut

theorem feed_incomplete (d : FrameDecoder) (data : List UInt8) : Incomplete (d.feed data).decoder.buf := by
  rcases d.feed_cases data with ⟨-,fed⟩ | ⟨-,fed⟩
  · rw [fed]
    exact .inl (by simp)
  · rw [fed]
    exact (feed_loop _).1

theorem feed_sized (d : FrameDecoder) (data : List UInt8) :
    ∀ frame ∈ (d.feed data).frames, 1 ≤ frame.length ∧ frame.length ≤ maxFrameSize := by
  rcases d.feed_cases data with ⟨-,fed⟩ | ⟨-,fed⟩
  · rw [fed]
    simp
  · rw [fed]
    exact (feed_loop _).2

theorem feed_overflow (d : FrameDecoder) (data : List UInt8) (waiting : Incomplete d.buf)
    (overflow : (d.feed data).overflow = true) : 196606 < data.length := by
  have bound := waiting.length_le
  rcases d.feed_cases data with ⟨full,-⟩ | ⟨-,fed⟩
  · rw [List.length_append] at full
    simp only [maxBufferSize,maxFrameSize] at full bound
    omega
  · rw [fed] at overflow
    contradiction

theorem feed_givesUp (d : FrameDecoder) (data : List UInt8) (gives : d.GivesUp data) :
    (d.feed data).decoder = {} := by
  rcases d.feed_cases data with ⟨-,fed⟩ | ⟨-,fed⟩
  · rw [fed]
  · rcases gives with overflow | ⟨rest,come,oversized⟩
    · rw [fed] at overflow
      contradiction
    · have cleared : (frameReader.drain rest).2 = [] := by
        rw [frameReader.drain_next (nextFrame_oversized oversized)]
        rfl
      rw [fed,← come.drain,cleared]

/-! ### Any number of feeds -/

theorem feedAll_incomplete (d : FrameDecoder) (chunks : List (List UInt8)) (waiting : Incomplete d.buf) :
    Incomplete (d.feedAll chunks).decoder.buf := by
  induction chunks generalizing d with
  | nil => exact waiting
  | cons chunk chunks ih => exact ih _ (d.feed_incomplete chunk)

/-- After any chunks, one more: less than a frame is kept, only sized frames come out, it
takes a large chunk to overflow, and where the stream is given up nothing is remembered. -/
theorem feed_hostile (chunks : List (List UInt8)) (chunk : List UInt8) :
    Incomplete ((feedAll {} chunks).decoder.feed chunk).decoder.buf ∧
    ((feedAll {} chunks).decoder.feed chunk).decoder.buf.length ≤ 65538 ∧
    (∀ frame ∈ ((feedAll {} chunks).decoder.feed chunk).frames, 1 ≤ frame.length ∧ frame.length ≤ 65535) ∧
    (((feedAll {} chunks).decoder.feed chunk).overflow = true → 196606 < chunk.length) ∧
    ((feedAll {} chunks).decoder.GivesUp chunk → ∀ later,
      ((feedAll {} chunks).decoder.feed chunk).decoder.feedAll later = feedAll {} later) := by
  have waiting : Incomplete (feedAll {} chunks).decoder.buf := feedAll_incomplete {} chunks (.inl (by simp))
  have left := feed_incomplete (feedAll {} chunks).decoder chunk
  refine ⟨left,left.length_le,feed_sized _ chunk,feed_overflow _ chunk waiting,fun gives later => ?_⟩
  rw [feed_givesUp _ chunk gives]

end FrameDecoder

end Nospoon
