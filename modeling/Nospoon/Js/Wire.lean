import Nospoon.Routing

/-! The JavaScript framing and header parsers (`framing.js`, `routing.js`), kept apart
from the C++ ones they resemble. -/
namespace Nospoon.Js

open Library

def writeUInt32BE (value : Nat) : List UInt8 :=
  [UInt8.ofNat (value / 2 ^ 24),UInt8.ofNat (value / 2 ^ 16),UInt8.ofNat (value / 2 ^ 8),
    UInt8.ofNat value]

def readUInt32BE (b0 b1 b2 b3 : UInt8) : Nat :=
  2 ^ 24 * b0.toNat + 2 ^ 16 * b1.toNat + 2 ^ 8 * b2.toNat + b3.toNat

def encode (packet : Packet) : List UInt8 := writeUInt32BE packet.length ++ packet

/-- `KEEPALIVE`. -/
def keepalive : List UInt8 := List.replicate 4 0

def maxBufferSize : Nat := 256 * 1024

/-- One round of the loop in `push`: an oversized length clears the buffer, which also
ends the loop. -/
def nextPacket : List UInt8 → Option (Option Packet × List UInt8)
  | b0 :: b1 :: b2 :: b3 :: payload =>
    let len := readUInt32BE b0 b1 b2 b3
    if 65535 < len then some (none,[])
    else if payload.length < len then none
    else some (if 0 < len then some (payload.take len) else none,payload.drop len)
  | _ => none

theorem nextPacket_progress (h : nextPacket buf = some (item,rest)) : rest.length < buf.length := by
  unfold nextPacket at h
  split at h
  · dsimp only at h
    split_ifs at h
    all_goals
      obtain ⟨rfl,rfl⟩ := Prod.mk.inj (Option.some.inj h)
      simp only [List.length_cons,List.length_nil,List.length_drop]
      omega
  · contradiction

def packetReader : Reader UInt8 Packet := ⟨nextPacket,nextPacket_progress⟩

/-- The closure of `createDecoder` on one chunk: the new buffer, the packets handed to
`onPacket`, and whether `onOverflow` ran. -/
def push (buffer chunk : List UInt8) : List UInt8 × List Packet × Bool :=
  let buffer := buffer ++ chunk
  if maxBufferSize < buffer.length then ([],[],true)
  else ((packetReader.drain buffer).2,(packetReader.drain buffer).1,false)

/-- A stream pushed chunk by chunk into one decoder: what is left in its buffer, every
packet handed to `onPacket`, and the number of calls of `onOverflow`. -/
structure Pushed where
  buffer : List UInt8
  packets : List Packet
  overflows : Nat
  deriving DecidableEq, Repr

def pushAll (buffer : List UInt8) : List (List UInt8) → Pushed
  | [] => ⟨buffer,[],0⟩
  | chunk :: chunks =>
    let pushed := push buffer chunk
    let later := pushAll pushed.1 chunks
    ⟨later.buffer,pushed.2.1 ++ later.packets,(if pushed.2.2 then 1 else 0) + later.overflows⟩

def join (groups : List Text) : Text := [':'].intercalate groups

/-- The loop over `groups` is the one of `format_ipv6`; only the joining differs. -/
def formatIpv6 (packet : Packet) (offset : Nat) : Text :=
  let words := ipv6Groups packet offset
  let groups := words.map (Nat.toDigits 16)
  let z := zeroRuns 0 words {}
  if 1 < z.bestLen then
    let bestStart := z.bestStart.getD 0
    let before := groups.take bestStart
    let after := groups.drop (bestStart + z.bestLen)
    let mid : Text := if bestStart = 0 ∨ bestStart + z.bestLen = 8 then [':'] else []
    join before ++ [':',':'] ++ mid ++ join after
  else join groups

/-- `null` is `none`; the IPv4 template prints the same four decimals as `%u.%u.%u.%u`. -/
def readIp (v4 v6 : Nat) : Packet → Option Text
  | [] => none
  | first :: rest =>
    let packet := first :: rest
    let version := (first >>> 4) &&& 0x0f
    if version = 4 ∧ 20 ≤ packet.length then some (formatIpv4 packet v4)
    else if version = 6 ∧ 40 ≤ packet.length then some (formatIpv6 packet v6)
    else none

def readDestinationIp : Packet → Option Text := readIp 16 24
def readSourceIp : Packet → Option Text := readIp 12 8

theorem formatIpv6_ne_nil (packet : Packet) (offset : Nat) : formatIpv6 packet offset ≠ [] := by
  simp only [formatIpv6]
  split_ifs
  · simp
  · simp
  · simp [join,ipv6Groups,List.range_succ,List.intercalate]

/-- An address that was read is a truthy string. -/
theorem readSourceIp_ne_nil (h : readSourceIp packet = some ip) : ip ≠ [] := by
  unfold readSourceIp readIp at h
  split at h
  · contradiction
  · dsimp only at h
    split_ifs at h
    · rw [← Option.some.inj h]; exact formatIpv4_ne_nil _ _
    · rw [← Option.some.inj h]; exact formatIpv6_ne_nil _ _

/-! ### One wire protocol -/

/-- The length read back by `readUInt32BE` is the one the shifts of `feed` build. -/
theorem readUInt32BE_eq (b0 b1 b2 b3 : UInt8) : readUInt32BE b0 b1 b2 b3 = frameLen b0 b1 b2 b3 :=
  (frameLen_eq b0 b1 b2 b3).symm

/-- A round of either loop does the same: a zero length is the keepalive branch of one
and an empty slice that is not handed on in the other. -/
theorem nextPacket_eq (buf : List UInt8) : nextPacket buf = nextFrame buf := by
  rcases buf with _ | ⟨b0,_ | ⟨b1,_ | ⟨b2,_ | ⟨b3,payload⟩⟩⟩⟩
  · rfl
  · rfl
  · rfl
  · rfl
  · simp only [nextPacket,nextFrame,readUInt32BE_eq,maxFrameSize]
    by_cases hostile : 65535 < frameLen b0 b1 b2 b3
    · simp only [hostile,↓reduceIte]
    · simp only [hostile,↓reduceIte]
      by_cases keepalive : frameLen b0 b1 b2 b3 = 0
      · simp [keepalive]
      · have positive : 0 < frameLen b0 b1 b2 b3 := Nat.pos_of_ne_zero keepalive
        simp only [keepalive,positive,↓reduceIte]

theorem push_eq (buffer chunk : List UInt8) :
    push buffer chunk =
      ((FrameDecoder.feed ⟨buffer⟩ chunk).decoder.buf,(FrameDecoder.feed ⟨buffer⟩ chunk).frames,
        (FrameDecoder.feed ⟨buffer⟩ chunk).overflow) := by
  have drained : packetReader.drain (buffer ++ chunk) = frameReader.drain (buffer ++ chunk) :=
    Reader.drain_congr nextPacket_eq _
  simp only [push,FrameDecoder.feed,maxBufferSize,Nospoon.maxBufferSize,drained]
  by_cases full : 256 * 1024 < (buffer ++ chunk).length
  · simp only [full,↓reduceIte]
  · simp only [full,↓reduceIte]

theorem pushAll_eq (buffer : List UInt8) (chunks : List (List UInt8)) :
    pushAll buffer chunks =
      ⟨(FrameDecoder.feedAll ⟨buffer⟩ chunks).decoder.buf,(FrameDecoder.feedAll ⟨buffer⟩ chunks).frames,
        (FrameDecoder.feedAll ⟨buffer⟩ chunks).overflows⟩ := by
  induction chunks generalizing buffer with
  | nil => rfl
  | cons chunk chunks ih =>
    simp only [pushAll,FrameDecoder.feedAll,push_eq,ih]

/-- Two fresh decoders that see the same chunks have, after each of them, handed on the
same packets, overflowed as often and kept the same bytes. -/
theorem decoders_agree (chunks : List (List UInt8)) (n : Nat) :
    (FrameDecoder.feedAll {} (chunks.take n)).frames = (pushAll [] (chunks.take n)).packets ∧
    (FrameDecoder.feedAll {} (chunks.take n)).overflows = (pushAll [] (chunks.take n)).overflows ∧
    (FrameDecoder.feedAll {} (chunks.take n)).decoder.buf = (pushAll [] (chunks.take n)).buffer := by
  rw [pushAll_eq]
  exact ⟨rfl,rfl,rfl⟩

end Nospoon.Js
