import MmsServer.Base.Crc32
import MmsServer.Ts.Continuity

namespace MmsServer.Ts.Tables

open Lib.ByteReader Lib.Crc Base.Crc32 Packetizer RtmpBridge Continuity

section Iso13818

/-- A section with the long header, without its last section number. -/
structure PsiSection where
  tableId : ℕ
  tableIdExtension : ℕ
  body : Bytes
deriving DecidableEq

/-- The section at the front of a buffer. Its bytes are divided by the generator, and
nothing must remain. -/
def PsiSection.read (data : Bytes) : Option PsiSection :=
  let sectionLength := fromBE ((data.drop 1).take 2) % 2 ^ 12
  let bytes := data.take (3 + sectionLength)
  if data.length < 3 + sectionLength ∨ sectionLength < 9 ∨ (data.getD 1 0).toNat / 128 = 0 ∨
      remainder generator 0xffffffff (bytes.flatMap bitsMsb) ≠ 0 then none
  else some
    { tableId := (data.getD 0 0).toNat
      tableIdExtension := fromBE ((data.drop 3).take 2)
      body := (bytes.drop 8).take (sectionLength - 9) }

/-- The section that starts in a packet, behind the pointer field. -/
def sectionOf (packet : Bytes) : Option PsiSection :=
  if payloadUnitStartIndicator packet then
    match payloadOf packet with
    | [] => none
    | pointerField :: payload => PsiSection.read (payload.drop pointerField.toNat)
  else none

def programs : Bytes → List (ℕ × ℕ)
  | n₁ :: n₂ :: p₁ :: p₂ :: rest => (fromBE [n₁, n₂], fromBE [p₁, p₂] % 2 ^ 13) :: programs rest
  | _ => []

def readPat (packet : Bytes) : Option (List (ℕ × ℕ)) :=
  match sectionOf packet with
  | some s => if s.tableId = 0 then some (programs s.body) else none
  | none => none

structure EsInfo where
  streamType : ℕ
  elementaryPid : ℕ
deriving DecidableEq

/-- Every stream takes at least five bytes. -/
def esInfos : ℕ → Bytes → List EsInfo
  | fuel + 1, t :: p₁ :: p₂ :: l₁ :: l₂ :: rest =>
    ⟨t.toNat, fromBE [p₁, p₂] % 2 ^ 13⟩ :: esInfos fuel (rest.drop (fromBE [l₁, l₂] % 2 ^ 12))
  | _, _ => []

structure ProgramMap where
  programNumber : ℕ
  pcrPid : ℕ
  streams : List EsInfo
deriving DecidableEq

def readPmt (packet : Bytes) : Option ProgramMap :=
  match sectionOf packet with
  | some ⟨2, programNumber, p₁ :: p₂ :: l₁ :: l₂ :: rest⟩ => some
    { programNumber
      pcrPid := fromBE [p₁, p₂] % 2 ^ 13
      streams := esInfos rest.length (rest.drop (fromBE [l₁, l₂] % 2 ^ 12)) }
  | _ => none

end Iso13818

/-- The type of the stream is not initialized before a codec is set. -/
def videoType (unset : UInt8) : Option VideoCodec → UInt8
  | some .avc => 0x1b
  | some .hevc => 0x24
  | none => unset

def audioType (unset : UInt8) : Option AudioCodec → UInt8
  | some (.aac _) => 0x0f
  | some .mp3 => 0x04
  | none => unset

def videoPidOf (codec : Option VideoCodec) : BitVec 16 := (codec.map VideoCodec.pid).getD (-1)

def audioPidOf (codec : Option AudioCodec) : BitVec 16 := (codec.map fun _ ↦ audioPid).getD (-1)

/-- The syntax indicator and the two reserved bits in front of the length. -/
def sectionLengthBytes (sectionLen : ℕ) : Bytes :=
  putBE 2 (sectionLen &&& 0x0fff ||| 1 <<< 15 ||| 3 <<< 12)

/-- A version number of 0 in a table that is in force, and the section numbers. -/
def versionBytes : Bytes := [0xc1, 0, 0]

def tablePacket (pid : BitVec 16) (psi : Bytes) : Bytes :=
  let written := tsHeader pid true false 0 ++ [0] ++ psi ++ putBE 4 (calcMpegTsCrc32 psi).toNat
  written ++ List.replicate (188 - written.length) 0xff

def patSection : Bytes :=
  0x00 :: sectionLengthBytes (5 + 4 + 4) ++ putBE 2 0x0001 ++ versionBytes ++
    putBE 4 (pmtPid.toNat &&& 0x1fff ||| 7 <<< 13 ||| 1 <<< 16)

def createPat : Bytes := tablePacket patPid patSection

def pidBytes (pid : BitVec 16) : Bytes := putBE 2 (pid.toNat &&& 0x1fff ||| 7 <<< 13)

def streamBytes (streamType : UInt8) (pid : BitVec 16) : Bytes :=
  streamType :: pidBytes pid ++ putBE 2 (0xf <<< 12)

def streamsBytes (unset : UInt8) (s : Bridge) : Bytes :=
  (if s.hasAudio then streamBytes (audioType unset s.audioCodec) (audioPidOf s.audioCodec) else []) ++
    if s.hasVideo then streamBytes (videoType unset s.videoCodec) (videoPidOf s.videoCodec) else []

def pmtSection (unset : UInt8) (s : Bridge) : Bytes :=
  0x02 :: sectionLengthBytes
      (5 + 4 + 4 + (if s.hasVideo then 5 else 0) + if s.hasAudio then 5 else 0) ++
    putBE 2 1 ++ versionBytes ++ pidBytes s.pcrPid ++ putBE 2 (0xf <<< 12) ++ streamsBytes unset s

def createPmt (unset : UInt8) (s : Bridge) : Bytes := tablePacket pmtPid (pmtSection unset s)

def streamsOf (unset : UInt8) (s : Bridge) : List EsInfo :=
  (if s.hasAudio then
    [⟨(audioType unset s.audioCodec).toNat, (audioPidOf s.audioCodec).toNat % 2 ^ 13⟩] else []) ++
  if s.hasVideo then
    [⟨(videoType unset s.videoCodec).toNat, (videoPidOf s.videoCodec).toNat % 2 ^ 13⟩] else []

section Read

theorem sectionLengthBytes_eq : ∀ sectionLen < 32,
    sectionLengthBytes sectionLen = [0xb0, UInt8.ofNat sectionLen] := by decide

def psiSection (tableId e₁ e₂ : UInt8) (body : Bytes) : Bytes :=
  tableId :: sectionLengthBytes (9 + body.length) ++ [e₁, e₂] ++ versionBytes ++ body

theorem psiSection_length (tableId e₁ e₂ : UInt8) {body : Bytes} (hb : body.length < 23) :
    (psiSection tableId e₁ e₂ body).length = 8 + body.length := by
  rw [psiSection, sectionLengthBytes_eq _ (by omega)]
  simp only [versionBytes, List.length_append, List.length_cons, List.length_nil]

variable (tableId e₁ e₂ : UInt8) {body : Bytes} (hb : body.length < 23) (fill : Bytes)
include hb

/-- The length of a section reaches up to the end of its checksum. -/
theorem take_section :
    (psiSection tableId e₁ e₂ body ++ putBE 4 (calcMpegTsCrc32 (psiSection tableId e₁ e₂ body)).toNat ++
      fill).take (3 + (9 + body.length)) =
    psiSection tableId e₁ e₂ body ++ putBE 4 (calcMpegTsCrc32 (psiSection tableId e₁ e₂ body)).toNat := by
  apply List.take_left'
  rw [List.length_append, putBE_length, psiSection_length tableId e₁ e₂ hb]
  omega

theorem read_section :
    PsiSection.read (psiSection tableId e₁ e₂ body ++
      putBE 4 (calcMpegTsCrc32 (psiSection tableId e₁ e₂ body)).toNat ++ fill) =
    some ⟨tableId.toNat, fromBE [e₁, e₂], body⟩ := by
  obtain ⟨crc, hcrc⟩ : ∃ crc, crc = putBE 4 (calcMpegTsCrc32 (psiSection tableId e₁ e₂ body)).toNat :=
    ⟨_, rfl⟩
  have hcrcLen : crc.length = 4 := by rw [hcrc, putBE_length]
  have hsec : psiSection tableId e₁ e₂ body ++ crc ++ fill =
      tableId :: 0xb0 :: UInt8.ofNat (9 + body.length) :: e₁ :: e₂ :: 0xc1 :: 0 :: 0 ::
        (body ++ crc ++ fill) := by
    rw [psiSection, sectionLengthBytes_eq _ (by omega)]
    simp [versionBytes]
  have hlen : fromBE (((psiSection tableId e₁ e₂ body ++ crc ++ fill).drop 1).take 2) % 2 ^ 12 =
      9 + body.length := by
    rw [hsec]
    change (0xb0 * 256 ^ 1 + ((UInt8.ofNat (9 + body.length)).toNat * 256 ^ 0 + 0)) % 2 ^ 12 = _
    rw [UInt8.toNat_ofNat']
    omega
  have htake : (psiSection tableId e₁ e₂ body ++ crc ++ fill).take (3 + (9 + body.length)) =
      psiSection tableId e₁ e₂ body ++ crc := by
    rw [hcrc]
    exact take_section tableId e₁ e₂ hb fill
  have hzero : remainder generator 0xffffffff ((psiSection tableId e₁ e₂ body ++ crc).flatMap bitsMsb) =
      0 := by
    rw [hcrc]
    exact remainder_checksum _
  have hbody : ((psiSection tableId e₁ e₂ body ++ crc).drop 8).take (9 + body.length - 9) = body := by
    rw [psiSection, sectionLengthBytes_eq _ (by omega), Nat.add_sub_cancel_left]
    exact List.take_left
  rw [← hcrc, PsiSection.read]
  simp only [hlen, htake, hzero, hbody]
  rw [if_neg, hsec]
  · rfl
  · have hl := congrArg List.length hsec
    simp only [List.length_cons, List.length_append] at hl
    simp only [hsec, List.length_cons, List.length_append, ne_eq, not_true_eq_false, or_false]
    change ¬ (_ ∨ _ ∨ (0xb0 : ℕ) / 128 = 0)
    omega

end Read

section Packet

theorem tablePacket_start {pid : BitVec 16} (hpid : pid.toNat < 2 ^ 13) (psi : Bytes) :
    payloadUnitStartIndicator (tablePacket pid psi) = true ∧
      ∃ fill, payloadOf (tablePacket pid psi) =
        0 :: (psi ++ putBE 4 (calcMpegTsCrc32 psi).toNat ++ fill) := by
  obtain ⟨b₁, b₂, b₃, hh, hstart, hcontrol⟩ := tsHeader_spec hpid true false 0
  obtain ⟨fill, hfill⟩ : ∃ fill, tablePacket pid psi = tsHeader pid true false 0 ++ [0] ++ psi ++
      putBE 4 (calcMpegTsCrc32 psi).toNat ++ fill := ⟨_, rfl⟩
  rw [hh] at hfill
  have hc : adaptationFieldControl (tablePacket pid psi) = 1 := by
    rw [hfill]
    exact hcontrol
  refine ⟨by rw [hfill]; exact hstart, fill, ?_⟩
  rw [payloadOf, hc, hfill]
  rfl

theorem sectionOf_tablePacket {pid : BitVec 16} (hpid : pid.toNat < 2 ^ 13) (tableId e₁ e₂ : UInt8)
    {body : Bytes} (hb : body.length < 23) :
    sectionOf (tablePacket pid (psiSection tableId e₁ e₂ body)) =
      some ⟨tableId.toNat, fromBE [e₁, e₂], body⟩ := by
  obtain ⟨hstart, fill, hpay⟩ := tablePacket_start hpid (psiSection tableId e₁ e₂ body)
  rw [sectionOf, if_pos hstart, hpay]
  exact read_section tableId e₁ e₂ hb fill

theorem tablePacket_length (pid : BitVec 16) (tableId e₁ e₂ : UInt8) {body : Bytes}
    (hb : body.length < 23) : (tablePacket pid (psiSection tableId e₁ e₂ body)).length = 188 := by
  have hh : (tsHeader pid true false 0).length = 4 := rfl
  rw [tablePacket]
  simp only [List.length_append, List.length_replicate, hh, putBE_length,
    psiSection_length tableId e₁ e₂ hb, List.length_singleton]
  omega

end Packet

def pmtBody (unset : UInt8) (s : Bridge) : Bytes :=
  pidBytes s.pcrPid ++ putBE 2 (0xf <<< 12) ++ streamsBytes unset s

theorem streamBytes_length (t : UInt8) (pid : BitVec 16) : (streamBytes t pid).length = 5 := rfl

theorem pmtBody_length (unset : UInt8) (s : Bridge) : (pmtBody unset s).length =
    4 + (if s.hasVideo then 5 else 0) + if s.hasAudio then 5 else 0 := by
  simp only [pmtBody, streamsBytes, List.length_append, pidBytes, putBE_length]
  cases s.hasVideo <;> cases s.hasAudio <;> simp [streamBytes_length]

theorem pmtSection_eq (unset : UInt8) (s : Bridge) :
    pmtSection unset s = psiSection 2 0 1 (pmtBody unset s) := by
  have hlen : 5 + 4 + 4 + (if s.hasVideo then 5 else 0) + (if s.hasAudio then 5 else 0) =
      9 + (pmtBody unset s).length := by
    rw [pmtBody_length]
    omega
  rw [pmtSection, hlen]
  simp only [psiSection, pmtBody, List.append_assoc, List.cons_append]
  rfl

theorem patSection_eq : patSection = psiSection 0 0 1 [0, 1, 0xf0, 1] := by decide

/-- The three bits in front of a PID are reserved. -/
theorem pidBytes_spec (pid : BitVec 16) :
    ∃ b₁ b₂, pidBytes pid = [b₁, b₂] ∧ fromBE [b₁, b₂] % 2 ^ 13 = pid.toNat % 2 ^ 13 := by
  refine ⟨_, _, rfl, ?_⟩
  have hand : pid.toNat &&& 0x1fff = pid.toNat % 2 ^ 13 := Nat.and_two_pow_sub_one_eq_mod _ 13
  have hor : pid.toNat % 2 ^ 13 ||| 7 <<< 13 = pid.toNat % 2 ^ 13 + 7 * 2 ^ 13 := by
    rw [Nat.or_comm, Nat.add_comm, Nat.mul_comm]
    exact (Nat.two_pow_add_eq_or_of_lt (Nat.mod_lt _ (Nat.two_pow_pos 13)) 7).symm
  change fromBE (putBE 2 (pid.toNat &&& 0x1fff ||| 7 <<< 13)) % 2 ^ 13 = _
  rw [fromBE_putBE, hand, hor]
  omega

theorem esInfos_cons (fuel : ℕ) (t : UInt8) (pid : BitVec 16) (rest : Bytes) :
    esInfos (fuel + 1) (streamBytes t pid ++ rest) =
      ⟨t.toNat, pid.toNat % 2 ^ 13⟩ :: esInfos fuel rest := by
  obtain ⟨b₁, b₂, hb, hv⟩ := pidBytes_spec pid
  rw [streamBytes, hb, ← hv]
  rfl

theorem esInfos_nil (fuel : ℕ) : esInfos fuel [] = [] := by cases fuel <;> rfl

theorem esInfos_streamsBytes (unset : UInt8) (s : Bridge) :
    esInfos (streamsBytes unset s).length (streamsBytes unset s) = streamsOf unset s := by
  have hone (t : UInt8) (pid : BitVec 16) (n : ℕ) :
      esInfos (n + 1) (streamBytes t pid) = [⟨t.toNat, pid.toNat % 2 ^ 13⟩] := by
    have h := esInfos_cons n t pid []
    rwa [List.append_nil, esInfos_nil] at h
  rw [streamsBytes, streamsOf]
  cases s.hasAudio <;> cases s.hasVideo <;>
    simp [hone, esInfos_cons, esInfos_nil, streamBytes_length]

theorem readPat_createPat : readPat createPat = some [(1, pmtPid.toNat)] := by
  rw [readPat, createPat, patSection_eq, sectionOf_tablePacket (by decide) _ _ _ (by decide)]
  decide

theorem readPmt_createPmt (unset : UInt8) (s : Bridge) : readPmt (createPmt unset s) =
    some ⟨1, s.pcrPid.toNat % 2 ^ 13, streamsOf unset s⟩ := by
  have hb := pmtBody_length unset s
  obtain ⟨b₁, b₂, hpid, hv⟩ := pidBytes_spec s.pcrPid
  have hbody : pmtBody unset s = b₁ :: b₂ :: 0xf0 :: 0 :: streamsBytes unset s := by
    rw [pmtBody, hpid]
    rfl
  have hlt : (pmtBody unset s).length < 23 := by
    rw [hb]
    split <;> split <;> omega
  rw [readPmt, createPmt, pmtSection_eq, sectionOf_tablePacket (by decide) _ _ _ hlt, hbody]
  change some (ProgramMap.mk (fromBE [0, 1]) (fromBE [b₁, b₂] % 2 ^ 13)
    (esInfos (streamsBytes unset s).length (streamsBytes unset s))) = _
  rw [hv, esInfos_streamsBytes]
  rfl

theorem tables_length (unset : UInt8) (s : Bridge) :
    createPat.length = 188 ∧ (createPmt unset s).length = 188 := by
  have hb := pmtBody_length unset s
  refine ⟨?_, ?_⟩
  · rw [createPat, patSection_eq]
    exact tablePacket_length patPid 0 0 1 (by decide)
  · rw [createPmt, pmtSection_eq]
    apply tablePacket_length
    rw [hb]
    split <;> split <;> omega

section Errors

/-- The bytes that the checksum of a section covers, the section being at the front
of the payload. -/
def sectionBytes (packet : Bytes) : Bytes :=
  (packet.drop 5).take (3 + fromBE (((packet.drop 5).drop 1).take 2) % 2 ^ 12)

theorem getD_of_take {bs bs' : Bytes} {n i : ℕ} (h : bs'.take n = bs.take n) (hi : i < n) :
    bs'.getD i 0 = bs.getD i 0 := by
  have hget (l : Bytes) : (l.take n)[i]? = l[i]? := List.getElem?_take_of_lt hi
  rw [List.getD_eq_getElem?_getD, ← hget, h, hget, ← List.getD_eq_getElem?_getD]

/-- A section that is damaged behind its length is not taken. -/
theorem burst_rejected {packet packet' : Bytes} (h8 : packet'.take 8 = packet.take 8)
    (hc : adaptationFieldControl packet = 1) (hp : packet.getD 4 0 = 0)
    (hzero : remainder generator 0xffffffff ((sectionBytes packet).flatMap bitsMsb) = 0)
    (hburst : BurstError 32 ((sectionBytes packet).flatMap bitsMsb)
      ((sectionBytes packet').flatMap bitsMsb)) : sectionOf packet' = none := by
  have hne := burst_detected (c := 0xffffffff) generator_low hburst
  rw [hzero] at hne
  have hc' : adaptationFieldControl packet' = 1 := by
    rw [adaptationFieldControl, getD_of_take h8 (by decide)]
    exact hc
  rw [← getD_of_take h8 (by decide)] at hp
  have hpayload : payloadOf packet' = packet'.drop 4 := by
    rw [payloadOf, hc']
    rfl
  rw [sectionOf, hpayload]
  split
  · split
    · rfl
    · rename_i pointerField payload hpay
      have h5 : packet'.drop 5 = payload := by rw [← List.drop_drop (i := 1) (j := 4), hpay]; rfl
      have hptr : pointerField = 0 := by
        rw [← hp, List.getD_eq_getElem?_getD, show (4 : ℕ) = 4 + 0 from rfl, ← List.getElem?_drop,
          hpay]
        rfl
      subst hptr
      change PsiSection.read payload = none
      rw [PsiSection.read, if_pos]
      refine .inr (.inr (.inr ?_))
      rw [← h5]
      exact hne.symm
  · rfl

theorem tablePacket_burst {pid : BitVec 16} (hpid : pid.toNat < 2 ^ 13) (tableId e₁ e₂ : UInt8)
    {body : Bytes} (hb : body.length < 23) {packet' : Bytes}
    (h8 : packet'.take 8 = (tablePacket pid (psiSection tableId e₁ e₂ body)).take 8)
    (hburst : BurstError 32
      ((sectionBytes (tablePacket pid (psiSection tableId e₁ e₂ body))).flatMap bitsMsb)
      ((sectionBytes packet').flatMap bitsMsb)) : sectionOf packet' = none := by
  obtain ⟨b₁, b₂, b₃, hh, hstart, hcontrol⟩ := tsHeader_spec hpid true false 0
  obtain ⟨psi, hpsi⟩ : ∃ psi, psi = psiSection tableId e₁ e₂ body := ⟨_, rfl⟩
  obtain ⟨fill, hfill⟩ : ∃ fill, tablePacket pid psi = tsHeader pid true false 0 ++ [0] ++ psi ++
      putBE 4 (calcMpegTsCrc32 psi).toNat ++ fill := ⟨_, rfl⟩
  rw [hh] at hfill
  have h5 : (tablePacket pid psi).drop 5 = psi ++ putBE 4 (calcMpegTsCrc32 psi).toNat ++ fill := by
    rw [hfill]
    rfl
  have hlen : fromBE (((psi ++ putBE 4 (calcMpegTsCrc32 psi).toNat ++ fill).drop 1).take 2) % 2 ^ 12 =
      9 + body.length := by
    rw [hpsi, psiSection, sectionLengthBytes_eq _ (by omega)]
    change (0xb0 * 256 ^ 1 + ((UInt8.ofNat (9 + body.length)).toNat * 256 ^ 0 + 0)) % 2 ^ 12 = _
    rw [UInt8.toNat_ofNat']
    omega
  have hbytes : sectionBytes (tablePacket pid psi) = psi ++ putBE 4 (calcMpegTsCrc32 psi).toNat := by
    rw [sectionBytes, h5, hlen, hpsi]
    exact take_section tableId e₁ e₂ hb fill
  rw [← hpsi] at h8 hburst
  apply burst_rejected h8 _ _ _ hburst
  · rw [hfill]
    exact hcontrol
  · rw [hfill]
    rfl
  · rw [hbytes]
    exact remainder_checksum psi

end Errors

/-- Whatever the state of the bridge, the two tables fill a packet each and are read
back as the one program with the streams that the bridge has announced, and a
receiver drops a table that is damaged within 32 consecutive bits behind its length. -/
theorem tables_readable (unset : UInt8) (s : Bridge) :
    createPat.length = 188 ∧ (createPmt unset s).length = 188 ∧
      readPat createPat = some [(1, pmtPid.toNat)] ∧
      readPmt (createPmt unset s) = some ⟨1, s.pcrPid.toNat % 2 ^ 13, streamsOf unset s⟩ ∧
      ∀ packet ∈ [createPat, createPmt unset s], ∀ packet' : Bytes,
        packet'.take 8 = packet.take 8 →
        BurstError 32 ((sectionBytes packet).flatMap bitsMsb)
          ((sectionBytes packet').flatMap bitsMsb) →
        sectionOf packet' = none := by
  obtain ⟨hpat, hpmt⟩ := tables_length unset s
  refine ⟨hpat, hpmt, readPat_createPat, readPmt_createPmt unset s, ?_⟩
  intro packet hmem packet' h8 hburst
  rw [List.mem_cons, List.mem_singleton] at hmem
  rcases hmem with rfl | rfl
  · rw [createPat, patSection_eq] at h8 hburst
    exact tablePacket_burst (by decide) 0 0 1 (by decide) h8 hburst
  · rw [createPmt, pmtSection_eq] at h8 hburst
    refine tablePacket_burst (by decide) 2 0 1 ?_ h8 hburst
    rw [pmtBody_length]
    split <;> split <;> omega

end MmsServer.Ts.Tables
