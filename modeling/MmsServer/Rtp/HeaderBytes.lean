import MmsServer.Lib.CheckedReading
import MmsServer.Lib.CheckedWriting
import MmsServer.Lib.PackedByte
import MmsServer.Rtp.Header

namespace MmsServer.Rtp.HeaderBytes

open Lib.ByteReader Lib.Checked Lib.ByteLayout Lib.CheckedReading Lib.CheckedWriting
  Lib.PackedByte Header

/-- The data of the extension is copied and not consumed. -/
def RtpHeaderExtention.decode : CheckedReader RtpHeaderExtention := do
  let profile ← getBE 2 (-1)
  let length ← getBE 2 (-2)
  let headerExtension ← peekBytes (length * 4) (-3)
  return { profile, length, headerExtension }

namespace RtpHeader

def decodeExtention (extension : ℕ) : CheckedReader (Option RtpHeaderExtention) :=
  if extension = 1 then some <$> Lib.CheckedReading.orReturn (-5) RtpHeaderExtention.decode
  else pure none

def decode : CheckedReader RtpHeader := do
  let tmpv1 ← getBE 1 (-1)
  let tmpv2 ← getBE 1 (-2)
  let seqnum ← getBE 2 (-3)
  let timestamp ← getBE 4 (-4)
  let ssrc ← getBE 4 (-4)
  let csrcs ← many (getBE 4 (-5)) (tmpv1 % 16)
  let rtpHeaderExtention ← decodeExtention (tmpv1 / 16 % 2)
  return {
    csrc := tmpv1 % 16, extension := tmpv1 / 16 % 2, padding := tmpv1 / 32 % 2
    version := tmpv1 / 64 % 4, marker := tmpv2 / 128 % 2, pt := tmpv2 % 128
    seqnum, timestamp, ssrc, csrcs, rtpHeaderExtention }

def decodeCount (data : Bytes) : Outcome (ℕ × RtpHeader) := do
  let (h, rest) ← decode data
  return (data.length - rest.length, h)

variable (h : RtpHeader)

def firstByte : UInt8 :=
  UInt8.ofNat (h.version <<< 6 ||| h.padding <<< 5 ||| h.extension <<< 4 ||| h.csrc)

def secondByte : UInt8 := UInt8.ofNat (h.marker <<< 7 ||| h.pt)

def encode : CheckedWriter Unit := do
  putBytes [firstByte h] (-1)
  putBytes [secondByte h] (-2)
  putBytes (putBE 2 h.seqnum) (-3)
  putBytes (putBE 4 h.timestamp) (-4)
  putBytes (putBE 4 h.ssrc) (-4)
  forFirst (room 4 (-5)) (fun c ↦ putBytes (putBE 4 c) (-5)) h.csrc h.csrcs

end RtpHeader

section Erase

theorem erase_many {α : Type} (r : CheckedReader α) (n : ℕ) :
    erase (many r n) = Layout.readMany (erase r) n := by
  induction n with
  | zero => rfl
  | succ n ih => simp only [many, Layout.readMany, erase_bind, erase_pure, ih]

theorem erase_extention :
    erase RtpHeaderExtention.decode = Header.RtpHeaderExtention.decode := by
  simp only [RtpHeaderExtention.decode, Header.RtpHeaderExtention.decode, erase_bind, erase_getBE]
  congr! 4 with profile length
  funext data
  by_cases hlen : data.length < length * 4
  · simp [erase_apply, ← erase_bind, Lib.CheckedReading.bind_apply, peekBytes, need, hlen]
  · simp [erase_apply, ← erase_bind, Lib.CheckedReading.bind_apply, peekBytes, need, hlen]
    rfl

/-- Without its codes the decoder is the one of the depacketizers. -/
theorem erase_decode : erase RtpHeader.decode = Header.RtpHeader.decode := by
  simp only [RtpHeader.decode, Header.RtpHeader.decode, erase_bind, erase_pure, erase_getBE,
    erase_many, RtpHeader.decodeExtention, erase_ite, erase_map, erase_orReturn, erase_extention]
  congr! 12 with tmpv1 tmpv2 seqnum timestamp ssrc csrcs
  split
  · rfl
  · rfl

end Erase

structure WireExtension where
  profile : UInt16
  words : List UInt32
  words_lt : words.length < 2 ^ 16

structure WirePacket where
  version : Fin 4
  padding : Fin 2
  marker : Fin 2
  pt : Fin 128
  seqnum : UInt16
  timestamp : UInt32
  ssrc : UInt32
  csrcs : List UInt32
  csrcs_le : csrcs.length ≤ 15
  extension : Option WireExtension
  payload : Bytes

namespace WirePacket

def words (ws : List UInt32) : Bytes := ws.flatMap fun w ↦ putBE 4 w.toNat

variable (p : WirePacket)

def firstByte : ℕ :=
  64 * p.version + 32 * p.padding + 16 * p.extension.isSome.toNat + p.csrcs.length

def extensionBytes : Bytes :=
  match p.extension with
  | none => []
  | some e => putBE 2 e.profile.toNat ++ (putBE 2 e.words.length ++ words e.words)

def bytes : Bytes :=
  putBE 1 p.firstByte ++ (putBE 1 (128 * p.marker + p.pt) ++ (putBE 2 p.seqnum.toNat ++
    (putBE 4 p.timestamp.toNat ++ (putBE 4 p.ssrc.toNat ++ (words p.csrcs ++
      (p.extensionBytes ++ p.payload))))))

def extensionWords : List UInt32 := (p.extension.map WireExtension.words).getD []

def headerLength : ℕ :=
  match p.extension with
  | none => 12 + 4 * p.csrcs.length
  | some e => 12 + 4 * p.csrcs.length + 4 + 4 * e.words.length

theorem words_length (ws : List UInt32) : (words ws).length = 4 * ws.length := by
  induction ws with
  | nil => rfl
  | cons w ws ih =>
    rw [words, List.flatMap_cons, List.length_append, putBE_length, List.length_cons]
    change 4 + (words ws).length = _
    omega

theorem bytes_length : p.bytes.length = p.headerLength + p.payload.length := by
  rw [headerLength]
  cases he : p.extension with
  | none =>
    simp only [bytes, extensionBytes, he, List.length_append, putBE_length, words_length,
      List.length_nil]
    omega
  | some e =>
    simp only [bytes, extensionBytes, he, List.length_append, putBE_length, words_length]
    omega

theorem firstByte_fields : p.firstByte < 256 ∧ p.firstByte % 16 = p.csrcs.length ∧
    p.firstByte / 16 % 2 = p.extension.isSome.toNat := by
  have hv := p.version.isLt
  have hp := p.padding.isLt
  have hc := p.csrcs_le
  have hx := p.extension.isSome.toNat_le
  rw [firstByte]
  omega

theorem csrcs_gives : Gives (many (getBE 4 (-5)) (p.firstByte % 16)) (words p.csrcs)
    (p.csrcs.map UInt32.toNat) := by
  rw [p.firstByte_fields.2.1]
  exact Gives.many fun w _ ↦ gives_getBE w.toNat_lt (-5)

theorem extention_decode (e : WireExtension) (rest : Bytes) :
    RtpHeaderExtention.decode (putBE 2 e.profile.toNat ++ (putBE 2 e.words.length ++
      (words e.words ++ rest))) =
      .ok (⟨e.profile.toNat, e.words.length, words e.words⟩, words e.words ++ rest) := by
  have hlen : (words e.words).length = e.words.length * 4 := by
    rw [words_length, Nat.mul_comm]
  have hroom : ¬ (words e.words ++ rest).length < e.words.length * 4 := by
    rw [List.length_append]
    omega
  rw [RtpHeaderExtention.decode, (gives_getBE e.profile.toNat_lt (-1)).bind_apply,
    (gives_getBE e.words_lt (-2)).bind_apply]
  simp only [peekBytes, Lib.CheckedReading.bind_apply, need, hroom, if_false, Outcome.ok_bind,
    List.take_left' hlen]
  rfl

theorem decodeExtention_decode (e : WireExtension) (rest : Bytes) :
    RtpHeader.decodeExtention (some e).isSome.toNat (putBE 2 e.profile.toNat ++
      (putBE 2 e.words.length ++ (words e.words ++ rest))) =
      .ok (some ⟨e.profile.toNat, e.words.length, words e.words⟩, words e.words ++ rest) := by
  simp only [RtpHeader.decodeExtention, Option.isSome_some, Bool.toNat_true, if_true, Functor.map,
    StateT.map, Lib.CheckedReading.orReturn, extention_decode]
  rfl

/-- What the decoder leaves of a packet: the words of the extension are still there. -/
theorem decode_bytes :
    ∃ h, RtpHeader.decode p.bytes = .ok (h, words p.extensionWords ++ p.payload) := by
  obtain ⟨hfirst, hcc, hx⟩ := p.firstByte_fields
  have hsecond : 128 * p.marker.val + p.pt.val < 256 := by
    have hm := p.marker.isLt
    have hp := p.pt.isLt
    omega
  rw [RtpHeader.decode, bytes, (gives_getBE hfirst (-1)).bind_apply,
    (gives_getBE hsecond (-2)).bind_apply, (gives_getBE p.seqnum.toNat_lt (-3)).bind_apply,
    (gives_getBE p.timestamp.toNat_lt (-4)).bind_apply,
    (gives_getBE p.ssrc.toNat_lt (-4)).bind_apply, p.csrcs_gives.bind_apply, hx]
  cases he : p.extension with
  | none =>
    simp only [extensionBytes, extensionWords, he]
    exact ⟨_, rfl⟩
  | some e =>
    simp only [extensionBytes, extensionWords, he, List.append_assoc]
    rw [Lib.CheckedReading.bind_apply, decodeExtention_decode]
    exact ⟨_, rfl⟩

def Located : Prop := ∃ h, RtpHeader.decodeCount p.bytes = .ok (p.headerLength, h)

theorem located_iff : p.Located ↔ p.extensionWords = [] := by
  obtain ⟨h, hdecode⟩ := p.decode_bytes
  have hcount : RtpHeader.decodeCount p.bytes =
      .ok (p.headerLength - 4 * p.extensionWords.length, h) := by
    rw [RtpHeader.decodeCount, hdecode, Outcome.ok_bind]
    change Outcome.ok (p.bytes.length - (words p.extensionWords ++ p.payload).length, h) = _
    rw [bytes_length, List.length_append, words_length, Nat.add_comm p.headerLength,
      Nat.add_comm (4 * _), Nat.add_sub_add_left]
  have hle : 4 * p.extensionWords.length ≤ p.headerLength := by
    rw [headerLength, extensionWords]
    cases p.extension with
    | none => exact Nat.zero_le _
    | some e =>
      simp only [Option.map_some, Option.getD_some]
      omega
  have hpos : 0 < p.headerLength := by
    rw [headerLength]
    cases p.extension with
    | none => exact Nat.add_pos_left (by decide) _
    | some e =>
      dsimp only
      omega
  rw [Located, hcount]
  constructor
  · rintro ⟨h', heq⟩
    simp only [Outcome.ok.injEq, Prod.mk.injEq] at heq
    exact List.eq_nil_of_length_eq_zero (by omega)
  · intro hnil
    rw [hnil]
    exact ⟨h, rfl⟩

end WirePacket

section Buffers

theorem extention_inBounds : InBounds RtpHeaderExtention.decode :=
  (inBounds_getBE _ _).bind fun _ ↦ (inBounds_getBE _ _).bind fun _ ↦
    (inBounds_peekBytes _ _).bind fun _ ↦ .pure _

theorem decode_inBounds : InBounds RtpHeader.decode :=
  (inBounds_getBE _ _).bind fun _ ↦ (inBounds_getBE _ _).bind fun _ ↦
    (inBounds_getBE _ _).bind fun _ ↦ (inBounds_getBE _ _).bind fun _ ↦
    (inBounds_getBE _ _).bind fun _ ↦ ((inBounds_getBE _ _).many _).bind fun _ ↦
    (InBounds.ite ((extention_inBounds.orReturn _).map some) (.pure none)).bind fun _ ↦ .pure _

theorem firstByte_join {v : ℕ} (hv : v < 256) (hx : v / 16 % 2 = 0) :
    UInt8.ofNat ((v / 64 % 4) <<< 6 ||| (v / 32 % 2) <<< 5 ||| 0 <<< 4 ||| v % 16) =
      UInt8.ofNat v := by
  have h : ∀ i : Fin 256, i.val / 16 % 2 = 0 → UInt8.ofNat ((i.val / 64 % 4) <<< 6 |||
      (i.val / 32 % 2) <<< 5 ||| 0 <<< 4 ||| i.val % 16) = UInt8.ofNat i.val := by decide +kernel
  exact h ⟨v, hv⟩ hx

theorem secondByte_join {v : ℕ} (hv : v < 256) :
    UInt8.ofNat ((v / 128 % 2) <<< 7 ||| v % 128) = UInt8.ofNat v := by
  have h : ∀ i : Fin 256, UInt8.ofNat ((i.val / 128 % 2) <<< 7 ||| i.val % 128) =
      UInt8.ofNat i.val := by decide +kernel
  exact h ⟨v, hv⟩

def headBytes (h : RtpHeader) : Bytes :=
  [RtpHeader.firstByte h] ++ ([RtpHeader.secondByte h] ++ (putBE 2 h.seqnum ++
    (putBE 4 h.timestamp ++ (putBE 4 h.ssrc ++ h.csrcs.flatMap (putBE 4)))))

theorem encode_puts {h : RtpHeader} (hc : h.csrc = h.csrcs.length) :
    Puts (RtpHeader.encode h) (headBytes h) () := by
  have hcsrcs : Puts (forFirst (room 4 (-5)) (fun c ↦ putBytes (putBE 4 c) (-5)) h.csrc h.csrcs)
      (h.csrcs.flatMap (putBE 4)) () := by
    rw [hc]
    refine Puts.forFirst _ _ fun c _ ↦ Puts.behind_room (puts_putBytes _ _) ?_ _
    rw [putBE_length]
  exact (puts_putBytes _ _).bind <| (puts_putBytes _ _).bind <| (puts_putBytes _ _).bind <|
    (puts_putBytes _ _).bind <| (puts_putBytes _ _).bind hcsrcs

theorem decode_inv {data rest : Bytes} {h : RtpHeader}
    (hd : RtpHeader.decode data = .ok (h, rest)) (hx : h.extension = 0) :
    h.csrc = h.csrcs.length ∧ data = headBytes h ++ rest := by
  obtain ⟨tmpv1, m₁, h₁, hd⟩ := bind_eq_ok.mp hd
  obtain ⟨tmpv2, m₂, h₂, hd⟩ := bind_eq_ok.mp hd
  obtain ⟨seqnum, m₃, h₃, hd⟩ := bind_eq_ok.mp hd
  obtain ⟨timestamp, m₄, h₄, hd⟩ := bind_eq_ok.mp hd
  obtain ⟨ssrc, m₅, h₅, hd⟩ := bind_eq_ok.mp hd
  obtain ⟨csrcs, m₆, h₆, hd⟩ := bind_eq_ok.mp hd
  obtain ⟨ext, m₇, h₇, hd⟩ := bind_eq_ok.mp hd
  obtain ⟨rfl, rfl⟩ := pure_eq_ok.mp hd
  dsimp only at hx
  rw [hx, RtpHeader.decodeExtention, if_neg (by decide)] at h₇
  obtain ⟨rfl, rfl⟩ := pure_eq_ok.mp h₇
  have hinv : Inverts (getBE 4 (-5)) (putBE 4) := fun _ _ _ h ↦ (getBE_eq_ok h).1
  obtain ⟨hd₁, hlt₁⟩ := getBE_eq_ok h₁
  obtain ⟨hd₂, hlt₂⟩ := getBE_eq_ok h₂
  refine ⟨(many_length h₆).symm, ?_⟩
  rw [hd₁, hd₂, (getBE_eq_ok h₃).1, (getBE_eq_ok h₄).1, (getBE_eq_ok h₅).1,
    hinv.many _ _ _ _ h₆]
  simp only [headBytes, RtpHeader.firstByte, RtpHeader.secondByte, hx, firstByte_join hlt₁ hx,
    secondByte_join hlt₂, putBE, Nat.pow_zero, Nat.div_one, List.append_assoc]

/-- A header without extension is written as it was read. -/
def Reencodes (data : Bytes) : Prop :=
  ∀ n h, RtpHeader.decodeCount data = .ok (n, h) → h.extension = 0 →
    ∀ buf : Bytes, n ≤ buf.length →
      runWriter (RtpHeader.encode h) buf = .ok (n, data.take n ++ buf.drop n, ())

theorem reencodes (data : Bytes) : Reencodes data := by
  intro n h hcount hx buf hbuf
  obtain ⟨⟨h', rest⟩, hd, heq⟩ := Outcome.bind_eq_ok.mp hcount
  simp only [Outcome.pure_eq, Outcome.ok.injEq, Prod.mk.injEq] at heq
  obtain ⟨rfl, rfl⟩ := heq
  obtain ⟨hc, hdata⟩ := decode_inv hd hx
  have hn : data.length - rest.length = (headBytes h').length := by
    rw [hdata, List.length_append, Nat.add_sub_cancel]
  rw [hn] at hbuf ⊢
  rw [(encode_puts hc).run buf hbuf, hdata, List.take_left]

end Buffers

/-- The decoder finds the payload of a packet if and only if the packet has no words in an
extension. It reads inside of every buffer, and what it reads of a header without extension is
written as it was. -/
theorem rtpHeader_decode_iff (p : WirePacket) (data : Bytes) :
    (p.Located ↔ p.extensionWords = []) ∧ (∀ f, RtpHeader.decode data ≠ .fault f) ∧
      Reencodes data :=
  ⟨p.located_iff, decode_inBounds data, reencodes data⟩

theorem version_lt : 2 < 4 := by decide

def oneWord : WirePacket where
  version := ⟨2, version_lt⟩
  padding := 0
  marker := 1
  pt := 96
  seqnum := 1
  timestamp := 2
  ssrc := 3
  csrcs := []
  csrcs_le := by decide
  extension := some { profile := 0xBEDE, words := [0x10AA0000], words_lt := by decide }
  payload := [0x41, 0x9a]

/-- The word of the extension is taken for payload. -/
theorem oneWord_not_located : ¬ oneWord.Located := by
  rw [WirePacket.located_iff]
  exact List.cons_ne_nil _ _

end MmsServer.Rtp.HeaderBytes
