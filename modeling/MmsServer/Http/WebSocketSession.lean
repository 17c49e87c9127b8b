import MmsServer.Http.WebSocketFrame

namespace MmsServer.Http.WebSocketSession

open Lib.ByteReader Lib.Checked Lib.CheckedReading WebSocketFrame

/-- A packet, and the place in the buffer from which it was decoded. -/
structure Decoded where
  start : ℕ
  packet : WebSocketPacket

/-- The loop of `process_recv_buffer`. The length shrinks, and every packet is decoded from the
start of the buffer. -/
def recvLoop (recvBuf : Bytes) (len : ℕ) : Outcome (ℤ × List Decoded) :=
  match decode (recvBuf.take len) with
  | .ok (packet, rest) =>
    let consumed := len - rest.length
    if 0 < consumed ∧ consumed < len then do
      let (total, packets) ← recvLoop recvBuf (len - consumed)
      return (consumed + total, ⟨0, packet⟩ :: packets)
    else return (consumed, [⟨0, packet⟩])
  | .err code => return (code, [])
  | .fault f => .fault f
termination_by len
decreasing_by omega

/-- The bytes that are consumed, and what is decoded in turn. -/
def processRecvBuffer (recvBuf : Bytes) : Outcome (ℤ × List Decoded) :=
  recvLoop recvBuf recvBuf.length

def moveBuffer (recvBuf : Bytes) (consumed : ℤ) : Bytes := recvBuf.drop consumed.toNat

structure Frame where
  bytes : Bytes
  packet : WebSocketPacket
  complete : decode bytes = .ok (packet, [])

structure Incomplete where
  bytes : Bytes
  incomplete : decode bytes = .err 0

def buffer (frames : List Frame) (rest : Incomplete) : Bytes :=
  frames.flatMap Frame.bytes ++ rest.bytes

/-- The frames, one behind the other from the place `start` on. -/
def decodedFrom : ℕ → List Frame → List Decoded
  | _, [] => []
  | start, f :: frames => ⟨start, f.packet⟩ :: decodedFrom (start + f.bytes.length) frames

/-- Each frame is decoded once, where it lies and in order, and its bytes are consumed. -/
def ConsumesFrames (frames : List Frame) (rest : Incomplete) : Prop :=
  ∃ consumed, processRecvBuffer (buffer frames rest) = .ok (consumed, decodedFrom 0 frames) ∧
    consumed = (frames.map fun f ↦ f.bytes.length).sum ∧
    moveBuffer (buffer frames rest) consumed = rest.bytes

/-- There is no frame, or only one, and less than its length behind it. -/
def AtMostOne (rest : Incomplete) : List Frame → Prop
  | [] => True
  | [f] => rest.bytes.length < f.bytes.length
  | _ => False

section Loop

variable {f : Frame} {tail : Bytes}

theorem Frame.gives (f : Frame) : Gives decode f.bytes f.packet := by
  obtain ⟨hd, hbytes, hgives, -⟩ := framed_decode.ends _ _ _ f.complete
  rw [List.append_nil] at hbytes
  exact hbytes ▸ hgives

/-- A part of a frame is incomplete. -/
theorem Frame.prefix_incomplete (f : Frame) {n : ℕ} (h : n < f.bytes.length) :
    decode (f.bytes.take n) = .err 0 := by
  obtain ⟨hd, hbytes, -, hshort⟩ := framed_decode.ends _ _ _ f.complete
  rw [List.append_nil] at hbytes
  exact hbytes ▸ hshort n (hbytes ▸ h)

theorem Frame.length_pos (f : Frame) : 0 < f.bytes.length := by
  apply List.length_pos_iff.mpr
  intro h
  have hc := f.complete
  rw [h] at hc
  cases hc

theorem recvLoop_short {len : ℕ} (h : len < f.bytes.length) :
    recvLoop (f.bytes ++ tail) len = .ok (0, []) := by
  rw [recvLoop, List.take_append_of_le_length h.le, f.prefix_incomplete h]
  rfl

/-- The first frame is decoded from whatever length is left. -/
theorem recvLoop_first {len : ℕ} (hlen : len ≤ (f.bytes ++ tail).length) :
    recvLoop (f.bytes ++ tail) len = .ok ((len / f.bytes.length * f.bytes.length : ℕ),
      List.replicate (len / f.bytes.length) ⟨0, f.packet⟩) := by
  have hpos := f.length_pos
  induction len using Nat.strong_induction_on with
  | h len ih =>
    by_cases hshort : len < f.bytes.length
    · rw [recvLoop_short hshort, Nat.div_eq_of_lt hshort]
      simp
    · rw [Nat.not_lt] at hshort
      have htake : (f.bytes ++ tail).take len = f.bytes ++ tail.take (len - f.bytes.length) := by
        rw [List.take_append, List.take_of_length_le hshort]
      have hrest : (tail.take (len - f.bytes.length)).length = len - f.bytes.length := by
        rw [List.length_append] at hlen
        rw [List.length_take]
        omega
      have hdiv : len / f.bytes.length = (len - f.bytes.length) / f.bytes.length + 1 :=
        Nat.div_eq_sub_div hpos hshort
      rw [recvLoop, htake, f.gives]
      simp only [hrest, show len - (len - f.bytes.length) = f.bytes.length by omega]
      by_cases hlast : f.bytes.length < len
      · rw [if_pos ⟨hpos, hlast⟩, ih _ (by omega) (by omega), hdiv, Nat.add_mul,
          List.replicate_succ]
        simp only [Outcome.ok_bind, Outcome.pure_eq, Outcome.ok.injEq, Prod.mk.injEq, and_true]
        rw [Nat.one_mul, Nat.cast_add, add_comm]
      · have heq : len = f.bytes.length := by omega
        rw [if_neg fun h ↦ hlast h.2, hdiv, heq, Nat.sub_self, Nat.zero_div]
        simp

end Loop

section Frames

variable {frames : List Frame} {rest : Incomplete}

theorem length_flatMap_bytes (frames : List Frame) :
    (frames.flatMap Frame.bytes).length = (frames.map fun f ↦ f.bytes.length).sum := by
  rw [List.length_flatMap]

theorem process_nil (rest : Incomplete) : processRecvBuffer (buffer [] rest) = .ok (0, []) := by
  have hbuf : buffer [] rest = rest.bytes := rfl
  rw [processRecvBuffer, hbuf, recvLoop, List.take_length, rest.incomplete]
  rfl

theorem process_cons (f : Frame) (fs : List Frame) (rest : Incomplete) :
    processRecvBuffer (buffer (f :: fs) rest) =
      .ok (((buffer (f :: fs) rest).length / f.bytes.length * f.bytes.length : ℕ),
        List.replicate ((buffer (f :: fs) rest).length / f.bytes.length) ⟨0, f.packet⟩) := by
  have hbuf : buffer (f :: fs) rest = f.bytes ++ buffer fs rest := by
    rw [buffer, List.flatMap_cons, List.append_assoc]
    rfl
  rw [processRecvBuffer, hbuf, recvLoop_first le_rfl]

/-- The buffer starts at the rest once the frames are consumed. -/
theorem move_frames (frames : List Frame) (rest : Incomplete) : moveBuffer (buffer frames rest)
    ((frames.map fun f ↦ f.bytes.length).sum : ℕ) = rest.bytes := by
  rw [moveBuffer, Int.toNat_natCast, buffer]
  exact List.drop_left' (length_flatMap_bytes frames)

theorem length_decodedFrom (start : ℕ) (frames : List Frame) :
    (decodedFrom start frames).length = frames.length := by
  induction frames generalizing start with
  | nil => rfl
  | cons f frames ih => rw [decodedFrom, List.length_cons, ih, List.length_cons]

/-- The second frame does not lie at the start of the buffer. -/
theorem replicate_ne_decodedFrom {f g : Frame} {fs : List Frame} {n : ℕ} {packet : WebSocketPacket} :
    List.replicate n (⟨0, packet⟩ : Decoded) ≠ decodedFrom 0 (f :: g :: fs) := by
  intro h
  have hpos := f.length_pos
  have hmem : (⟨0 + f.bytes.length, g.packet⟩ : Decoded) ∈ decodedFrom 0 (f :: g :: fs) :=
    List.mem_cons_of_mem _ (List.mem_cons_self ..)
  rw [← h] at hmem
  have hstart := congrArg Decoded.start (List.eq_of_mem_replicate hmem)
  simp only [Nat.zero_add] at hstart
  omega

theorem consumesFrames_iff (frames : List Frame) (rest : Incomplete) :
    ConsumesFrames frames rest ↔ AtMostOne rest frames := by
  cases frames with
  | nil => exact iff_of_true ⟨0, process_nil rest, rfl, move_frames [] rest⟩ trivial
  | cons f fs =>
    have hpos := f.length_pos
    have hlen : (buffer (f :: fs) rest).length =
        ((f :: fs).map fun g ↦ g.bytes.length).sum + rest.bytes.length := by
      rw [buffer, List.length_append, length_flatMap_bytes]
    rw [ConsumesFrames, process_cons]
    cases fs with
    | nil =>
      have hcount : (buffer [f] rest).length / f.bytes.length = rest.bytes.length / f.bytes.length + 1 := by
        rw [hlen, List.map_singleton, List.sum_singleton, Nat.add_comm, Nat.add_div_right _ hpos]
      rw [hcount]
      constructor
      · rintro ⟨consumed, hproc, -⟩
        rw [Outcome.ok.injEq, Prod.mk.injEq] at hproc
        have hone := congrArg List.length hproc.2
        rw [List.length_replicate, length_decodedFrom, List.length_singleton] at hone
        exact (Nat.div_eq_zero_iff_lt hpos).mp (by omega)
      · intro hshort
        rw [Nat.div_eq_of_lt hshort, Nat.zero_add, Nat.one_mul]
        exact ⟨_, rfl, rfl, move_frames [f] rest⟩
    | cons g fs =>
      refine iff_of_false ?_ id
      rintro ⟨consumed, hproc, -⟩
      rw [Outcome.ok.injEq, Prod.mk.injEq] at hproc
      exact replicate_ne_decodedFrom hproc.2

def oneByte (b : UInt8) : Frame where
  bytes := [0x81, 1, b]
  packet := ⟨true, .text, none, [b]⟩
  complete := gives_decode ⟨true, .text, none, [b]⟩ (by decide : 1 < 2 ^ 31) []

/-- Of two frames the first one is decoded twice. -/
theorem secondFrame_missed : ¬ ConsumesFrames [oneByte 0x61, oneByte 0x62] ⟨[], rfl⟩ := by
  rw [ConsumesFrames, process_cons]
  rintro ⟨consumed, hproc, -⟩
  rw [Outcome.ok.injEq, Prod.mk.injEq] at hproc
  exact replicate_ne_decodedFrom hproc.2

end Frames

end MmsServer.Http.WebSocketSession
