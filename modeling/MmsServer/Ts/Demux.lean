import MmsServer.Ts.AacStream
import MmsServer.Ts.AudioPackets
import MmsServer.Ts.Tables

namespace MmsServer.Ts.Demux

open Lib.ByteReader Lib.Checked Rtmp.FlvTag Rtp.AacBridge Segment SegmentReaders Packetizer
  AudioPackets RtmpBridge Continuity Tables AacStream

section Iso13818

/-- What a receiver knows about a stream: where the program map is, what it says, and
the PES packets of every PID, the last of which may still grow. -/
structure Receiver where
  pmtPid : Option ℕ := none
  streams : List EsInfo := []
  pes : ℕ → List Bytes := fun _ ↦ []

def Receiver.lists (d : Receiver) (pid : ℕ) : Bool := d.streams.any fun es ↦ es.elementaryPid == pid

def extendLast (units : List Bytes) (payload : Bytes) : List Bytes :=
  match units.getLast? with
  | none => []
  | some unit => units.dropLast ++ [unit ++ payload]

/-- A packet of a PID that the program map does not list is dropped. -/
def Receiver.packet (d : Receiver) (packet : Bytes) : Receiver :=
  let pid := pidOf packet
  if pid = 0 then
    match readPat packet with
    | some ((_, pmtPid) :: _) => { d with pmtPid := some pmtPid }
    | _ => d
  else if d.pmtPid = some pid then
    match readPmt packet with
    | some map => { d with streams := map.streams }
    | none => d
  else if d.lists pid then
    { d with
      pes := Function.update d.pes pid (if payloadUnitStartIndicator packet
        then d.pes pid ++ [payloadOf packet]
        else extendLast (d.pes pid) (payloadOf packet)) }
  else d

def demux (packets : List Bytes) : Receiver := packets.foldl Receiver.packet {}

/-- The packets of a PES packet. -/
structure IsUnit (pid : ℕ) (pes : Bytes) (writes : List TsWrite) : Prop where
  pid_eq : ∀ w ∈ writes, pidOf w.bytes = pid
  start : ∃ w rest, writes = w :: rest ∧ payloadUnitStartIndicator w.bytes = true ∧
    ∀ w ∈ rest, payloadUnitStartIndicator w.bytes = false
  payload : (writes.map fun w ↦ payloadOf w.bytes).flatten = pes
  count : writes.length ≤ pes.length

end Iso13818

section Receive

theorem extendLast_append (units : List Bytes) (unit payload : Bytes) :
    extendLast (units ++ [unit]) payload = units ++ [unit ++ payload] := by
  rw [extendLast, List.getLast?_concat]
  simp only [List.dropLast_concat]

variable {d : Receiver} {pid : ℕ}

theorem packet_dropped (hpid : pid ≠ 0) (hpmt : d.pmtPid ≠ some pid) (hl : d.lists pid = false)
    {packet : Bytes} (hp : pidOf packet = pid) : d.packet packet = d := by
  simp only [Receiver.packet, hp, if_neg hpid, if_neg hpmt, hl, Bool.false_eq_true, if_false]

theorem packet_taken (hpid : pid ≠ 0) (hpmt : d.pmtPid ≠ some pid) (hl : d.lists pid = true)
    {packet : Bytes} (hp : pidOf packet = pid) : d.packet packet =
      { d with
        pes := Function.update d.pes pid (if payloadUnitStartIndicator packet
          then d.pes pid ++ [payloadOf packet]
          else extendLast (d.pes pid) (payloadOf packet)) } := by
  simp only [Receiver.packet, hp, if_neg hpid, if_neg hpmt, hl, if_true]

/-- The packets behind the first one of a PES packet complete it. -/
theorem rest_taken (hpid : pid ≠ 0) (hpmt : d.pmtPid ≠ some pid) (hl : d.lists pid = true)
    (writes : List TsWrite) (hp : ∀ w ∈ writes, pidOf w.bytes = pid)
    (hs : ∀ w ∈ writes, payloadUnitStartIndicator w.bytes = false) (units : List Bytes)
    (unit : Bytes) :
    (writes.map TsWrite.bytes).foldl Receiver.packet
      { d with pes := Function.update d.pes pid (units ++ [unit]) } =
    { d with
      pes := Function.update d.pes pid
        (units ++ [unit ++ (writes.map fun w ↦ payloadOf w.bytes).flatten]) } := by
  induction writes generalizing unit with
  | nil => simp
  | cons w writes ih =>
    obtain ⟨hw, hrest⟩ := List.forall_mem_cons.mp hp
    obtain ⟨hws, hsrest⟩ := List.forall_mem_cons.mp hs
    have hstep := packet_taken
      (d := ⟨d.pmtPid, d.streams, Function.update d.pes pid (units ++ [unit])⟩) hpid hpmt hl hw
    rw [List.map_cons, List.foldl_cons, hstep, hws]
    simp only [Bool.false_eq_true, if_false, Function.update_self, Function.update_idem,
      extendLast_append]
    rw [ih hrest hsrest, List.map_cons, List.flatten_cons, List.append_assoc]

theorem unit_taken (hpid : pid ≠ 0) (hpmt : d.pmtPid ≠ some pid) (hl : d.lists pid = true)
    {pes : Bytes} {writes : List TsWrite} (h : IsUnit pid pes writes) :
    (writes.map TsWrite.bytes).foldl Receiver.packet d =
      { d with pes := Function.update d.pes pid (d.pes pid ++ [pes]) } := by
  obtain ⟨w, rest, rfl, hstart, hrest⟩ := h.start
  obtain ⟨hw, hp⟩ := List.forall_mem_cons.mp h.pid_eq
  rw [List.map_cons, List.foldl_cons, packet_taken hpid hpmt hl hw, hstart, if_pos rfl,
    rest_taken hpid hpmt hl rest hp hrest, ← h.payload]
  rfl

theorem packets_dropped (hpid : pid ≠ 0) (hpmt : d.pmtPid ≠ some pid) (hl : d.lists pid = false)
    (writes : List TsWrite) (hp : ∀ w ∈ writes, pidOf w.bytes = pid) :
    (writes.map TsWrite.bytes).foldl Receiver.packet d = d := by
  induction writes with
  | nil => rfl
  | cons w writes ih =>
    obtain ⟨hw, hrest⟩ := List.forall_mem_cons.mp hp
    rw [List.map_cons, List.foldl_cons, packet_dropped hpid hpmt hl hw, ih hrest]

theorem pidOf_append {header : Bytes} (h : 3 ≤ header.length) (rest : Bytes) :
    pidOf (header ++ rest) = pidOf header := by
  rw [pidOf, pidOf, List.drop_append_of_le_length (by omega), List.take_append_of_le_length]
  rw [List.length_drop]
  omega

theorem pidOf_tablePacket {pid : BitVec 16} (hpid : pid.toNat < 2 ^ 13) (psi : Bytes) :
    pidOf (tablePacket pid psi) = pid.toNat := by
  have hlen : (tsHeader pid true false 0).length = 4 := rfl
  simp only [tablePacket, List.append_assoc]
  rw [pidOf_append (by omega), (tsHeader_fields hpid true false 0).1]

theorem tables_taken (d : Receiver) (unset : UInt8) (s : Bridge) :
    [createPat, createPmt unset s].foldl Receiver.packet d =
      { d with pmtPid := some pmtPid.toNat, streams := streamsOf unset s } := by
  have hpat : d.packet createPat = { d with pmtPid := some pmtPid.toNat } := by
    simp only [Receiver.packet, readPat_createPat]
    rw [createPat, pidOf_tablePacket (by decide)]
    rfl
  have hpid : pidOf (createPmt unset s) = pmtPid.toNat := pidOf_tablePacket (by decide) _
  have hne : pmtPid.toNat ≠ 0 := by decide
  rw [List.foldl_cons, hpat, List.foldl_cons, List.foldl_nil]
  simp only [Receiver.packet, readPmt_createPmt, hpid, if_neg hne, if_true]

end Receive

/-- The packets that a message adds to its segment. Nothing that the tables say changes
while the message that opens the segment is processed. -/
def Emitted.packets (unset : UInt8) (s' : Bridge) (e : Emitted) : List Bytes :=
  (if e.tables = [] then [] else [createPat, createPmt unset s']) ++ e.writes.map TsWrite.bytes

def Bridge.tsPackets (unset : UInt8) (s : Bridge) : List Message → Outcome (List Bytes)
  | [] => .ok []
  | m :: ms => do
    let (s', _, e) ← s.process m
    let packets ← Bridge.tsPackets unset s' ms
    return Emitted.packets unset s' e ++ packets

def Message.pid : Message → Option ℕ
  | .metadata _ => none
  | .video _ => some 0x100
  | .audio _ => some 0x101

def pesOn (pid : ℕ) (ms : List Message) (es : List Emitted) : List Bytes :=
  (ms.zip es).filterMap fun p ↦ if Message.pid p.1 = some pid then p.2.pes else none

section Packets

variable {pid : BitVec 16}

theorem packetLoop_headers {pcr : Option (BitVec 64)} {pesLen fuel left : ℕ} {segs : List Bytes}
    {seg : TsSegment} {counter : UInt8} {r : PacketRun}
    (h : packetLoop pid pcr pesLen fuel left segs seg counter = some r) :
    ∀ w ∈ r.writes, w.header.length = 4 := by
  induction fuel generalizing left segs seg counter r with
  | zero =>
    rw [packetLoop] at h
    split at h
    · cases h
      exact List.forall_mem_nil _
    · cases h
  | succ fuel ih =>
    rw [packetLoop] at h
    split at h
    · cases h
      exact List.forall_mem_nil _
    · simp only at h
      split at h
      · cases h
      · obtain ⟨r', hr', rfl⟩ := Option.map_eq_some_iff.mp h
        exact List.forall_mem_cons.mpr ⟨rfl, ih hr'⟩

theorem packetLoop_count {pcr : Option (BitVec 64)} {pesLen fuel left : ℕ} {segs : List Bytes}
    {seg : TsSegment} {counter : UInt8} {r : PacketRun}
    (h : packetLoop pid pcr pesLen fuel left segs seg counter = some r) : r.writes.length ≤ fuel := by
  induction fuel generalizing left segs seg counter r with
  | zero =>
    rw [packetLoop] at h
    split at h
    · cases h
      exact le_rfl
    · cases h
  | succ fuel ih =>
    rw [packetLoop] at h
    split at h
    · cases h
      exact Nat.zero_le _
    · simp only at h
      split at h
      · cases h
      · obtain ⟨r', hr', rfl⟩ := Option.map_eq_some_iff.mp h
        exact Nat.succ_le_succ (ih hr')

theorem packetLoop_length (hpid : pid.toNat < 2 ^ 13) {pcr : Option (BitVec 64)} {segs : List Bytes}
    {seg : TsSegment} {counter : UInt8} {r : PacketRun} (hpcr : pcr = none ∨ 184 ≤ segs.flatten.length)
    (h : packetLoop pid pcr segs.flatten.length segs.flatten.length segs.flatten.length segs seg
      counter = some r) : ∀ w ∈ r.writes, w.bytes.length = 188 := by
  obtain ⟨r', hr', -, hwell, -⟩ :=
    packetLoop_spec hpid hpcr segs.flatten.length segs seg counter le_rfl le_rfl
  obtain rfl : r = r' := Option.some.inj (h.symm.trans hr')
  intro w hw
  obtain ⟨i, hi⟩ := List.mem_iff_getElem?.mp hw
  exact (hwell i w hi).length

/-- The packets that the loop makes of a PES packet are those that a receiver puts
together again. -/
theorem packetLoop_isUnit (hpid : pid.toNat < 2 ^ 13) {pcr : Option (BitVec 64)} {segs : List Bytes}
    {seg : TsSegment} {counter : UInt8} {r : PacketRun} (hpos : 0 < segs.flatten.length)
    (hpcr : pcr = none ∨ 184 ≤ segs.flatten.length)
    (h : packetLoop pid pcr segs.flatten.length segs.flatten.length segs.flatten.length segs seg
      counter = some r) : IsUnit pid.toNat segs.flatten r.writes := by
  obtain ⟨r', hr', -, hwell, hpay⟩ :=
    packetLoop_spec hpid hpcr segs.flatten.length segs seg counter le_rfl le_rfl
  obtain rfl : r = r' := Option.some.inj (h.symm.trans hr')
  refine ⟨?_, ?_, hpay, packetLoop_count h⟩
  · intro w hw
    have hlen := packetLoop_headers h w hw
    rw [TsWrite.bytes, List.append_assoc, pidOf_append (by omega)]
    exact (packetLoop_carries hpid h).pid_eq w.header (List.mem_map_of_mem hw)
  · cases hws : r.writes with
    | nil =>
      rw [hws] at hpay
      rw [← hpay] at hpos
      exact absurd hpos (Nat.lt_irrefl 0)
    | cons w rest =>
      refine ⟨w, rest, rfl, ?_, ?_⟩
      · have hstart := (hwell 0 w (by rw [hws]; rfl)).start
        rwa [beq_self_eq_true, beq_self_eq_true, Bool.and_true] at hstart
      · intro w' hw'
        obtain ⟨i, hi⟩ := List.mem_iff_getElem?.mp hw'
        have hstart := (hwell (i + 1) w' (by rw [hws]; exact hi)).start
        rwa [beq_eq_false_iff_ne.mpr (Nat.succ_ne_zero i), Bool.false_and] at hstart

end Packets

section Step

structure Keeps (s s' : Bridge) : Prop where
  hasVideo : s'.hasVideo = s.hasVideo
  hasAudio : s'.hasAudio = s.hasAudio
  pcrPid : s'.pcrPid = s.pcrPid
  videoCodec : s.videoCodec ≠ none → s'.videoCodec ≠ none
  audioCodec : s.audioCodec ≠ none → s'.audioCodec ≠ none

theorem Keeps.refl (s : Bridge) : Keeps s s := ⟨rfl, rfl, rfl, id, id⟩

theorem Keeps.trans {s t u : Bridge} (h : Keeps s t) (h' : Keeps t u) : Keeps s u where
  hasVideo := h'.hasVideo.trans h.hasVideo
  hasAudio := h'.hasAudio.trans h.hasAudio
  pcrPid := h'.pcrPid.trans h.pcrPid
  videoCodec := fun hv ↦ h'.videoCodec (h.videoCodec hv)
  audioCodec := fun ha ↦ h'.audioCodec (h.audioCodec ha)

/-- The parts of the audio that waits are as long as the bridge believes, and none of
them is in a slot that will be used again for the same PES packet. -/
structure Buffered (s : Bridge) : Prop where
  slots : s.adtsHeaders.length = adtsReserved
  segs : ∃ rest, s.audioBuf.audioPesSegs = .bytes [] :: rest ∧
    s.audioBuf.audioPesLen = (rest.map (View.read s.adtsHeaders)).flatten.length ∧
    ∀ i, View.adts i ∈ rest → i < s.adtsHeaderIndex

theorem Buffered.fresh : Buffered {} :=
  ⟨List.length_replicate, [], rfl, rfl, nofun⟩

theorem Buffered.keep {s s' : Bridge} (h : Buffered s) (hbuf : s'.audioBuf = s.audioBuf)
    (hheaders : s'.adtsHeaders = s.adtsHeaders) (hindex : s'.adtsHeaderIndex = s.adtsHeaderIndex) :
    Buffered s' := by
  obtain ⟨hslots, hsegs⟩ := h
  rw [← hbuf, ← hheaders, ← hindex] at hsegs
  exact ⟨hheaders ▸ hslots, hsegs⟩

/-- Where the packets of a message go: behind those of the segment that it finds, or
behind the tables of a new one. -/
inductive Placed (s s' : Bridge) (e : Emitted) : Prop
  | idle (tables : e.tables = []) (writes : e.writes = [])
      (seg : s'.currSeg = none ∨ s'.currSeg = s.currSeg) : Placed s s' e
  | written (seg seg' : TsSegment)
      (found : e.tables = [] ∧ s.currSeg = some seg ∨
        e.tables ≠ [] ∧ seg = Bridge.newSegment.allocTsPacket.2.allocTsPacket.2)
      (slots : allocTsPackets e.writes.length seg = (e.writes.map TsWrite.slot, seg'))
      (length : ∀ w ∈ e.writes, w.bytes.length = 188) (curr : s'.currSeg = some seg') : Placed s s' e

/-- What a message of a stream writes: tables where it opens a segment, and the packets
of a PES packet in a segment that is open. -/
structure Sends (pid : ℕ) (s s' : Bridge) (e : Emitted) : Prop where
  keeps : Keeps s s'
  buffered : Buffered s'
  tables : e.tables = [] → (s'.currSeg ≠ none → s.currSeg ≠ none) ∧ (e.writes ≠ [] → s.currSeg ≠ none)
  packets : e.pes = none ∧ e.writes = [] ∨ ∃ pes, e.pes = some pes ∧ IsUnit pid pes e.writes
  placed : Placed s s' e

theorem ne_none_of_kept {s s' : Bridge} (h : s'.currSeg = none ∨ s'.currSeg = s.currSeg)
    (hs : s'.currSeg ≠ none) : s.currSeg ≠ none := by
  rcases h with h | h
  · exact absurd h hs
  · rwa [← h]

theorem Sends.quiet {pid : ℕ} {s s' : Bridge} (hk : Keeps s s') (hb : Buffered s')
    (hseg : s'.currSeg = none ∨ s'.currSeg = s.currSeg) : Sends pid s s' {} :=
  ⟨hk, hb, fun _ ↦ ⟨ne_none_of_kept hseg, fun h ↦ absurd rfl h⟩, .inl ⟨rfl, rfl⟩, .idle rfl rfl hseg⟩

theorem Placed.of_kept {s t s' : Bridge} {e : Emitted} (h : Placed t s' e)
    (hseg : t.currSeg = none ∨ t.currSeg = s.currSeg) : Placed s s' e := by
  cases h with
  | idle ht hw hs =>
    apply Placed.idle ht hw
    rcases hs with hs | hs
    · exact .inl hs
    · rwa [hs]
  | written seg seg' hfound hslots hlen hcurr =>
    refine .written seg seg' ?_ hslots hlen hcurr
    rcases hfound with ⟨ht, hfound⟩ | hfound
    · rw [hfound] at hseg
      rcases hseg with hseg | hseg
      · cases hseg
      · exact .inl ⟨ht, hseg.symm⟩
    · exact .inr hfound

theorem Sends.of_reaped {pid : ℕ} {s t s' : Bridge} {e : Emitted} (h : Sends pid t s' e)
    (hk : Keeps s t) (hseg : t.currSeg = none ∨ t.currSeg = s.currSeg) : Sends pid s s' e :=
  { keeps := hk.trans h.keeps
    buffered := h.buffered
    tables := fun ht ↦ ⟨fun hs ↦ ne_none_of_kept hseg ((h.tables ht).1 hs),
      fun hw ↦ ne_none_of_kept hseg ((h.tables ht).2 hw)⟩
    packets := h.packets
    placed := h.placed.of_kept hseg }

theorem reap_keeps (s : Bridge) (canReap : Bool) (hb : Buffered s) : Keeps s (s.reap canReap) ∧
    Buffered (s.reap canReap) ∧
    ((s.reap canReap).currSeg = none ∨ (s.reap canReap).currSeg = s.currSeg) := by
  unfold Bridge.reap
  split
  · exact ⟨⟨rfl, rfl, rfl, id, id⟩, hb.keep rfl rfl rfl, .inl rfl⟩
  · exact ⟨.refl s, hb, .inr rfl⟩

/-- A segment that is open is written to without new tables. -/
theorem openSegment_open {s : Bridge} (h : s.openSegment.2 = []) : s.currSeg ≠ none := by
  rcases openSegment_tables s with ⟨-, hs⟩ | ⟨-, ht⟩
  · exact hs
  · rw [ht] at h
    cases h

theorem openSegment_found (s : Bridge) : s.openSegment.2 = [] ∧ s.currSeg = some s.openSegment.1 ∨
    s.openSegment.2 ≠ [] ∧ s.openSegment.1 = Bridge.newSegment.allocTsPacket.2.allocTsPacket.2 := by
  unfold Bridge.openSegment
  cases hseg : s.currSeg with
  | some seg => exact .inl ⟨rfl, rfl⟩
  | none => exact .inr ⟨List.cons_ne_nil _ _, rfl⟩

/-- A key frame fills its first packet when that has to hold a PCR. -/
def FillsPacket (s : Bridge) : Message → Prop
  | .metadata _ => False
  | .video m => ∀ segs, m.videoPesSegs = some segs → 0 < segs.flatten.length ∧
      (m.isKey = true → s.pcrPid = 0x100 → 184 ≤ segs.flatten.length)
  | .audio _ => True

theorem processVideoPes_sends {s s' : Bridge} {codec : VideoCodec} {m : VideoMessage} {b : Bool}
    {e : Emitted} (hb : Buffered s) (hfills : FillsPacket s (.video m))
    (h : s.processVideoPes codec m = .ok (s', b, e)) : Sends 0x100 s s' e := by
  unfold Bridge.processVideoPes at h
  simp only at h
  split at h
  · cases h
    exact ⟨⟨rfl, rfl, rfl, id, id⟩, hb.keep rfl rfl rfl,
      fun ht ↦ ⟨fun _ ↦ openSegment_open ht, fun hw ↦ absurd rfl hw⟩, .inl ⟨rfl, rfl⟩,
      .written _ _ (openSegment_found s) rfl (List.forall_mem_nil _) rfl⟩
  · rename_i segs hsegs
    split at h
    · cases h
    · rename_i r hr
      cases h
      obtain ⟨r', hr', rfl⟩ := Option.map_eq_some_iff.mp hr
      obtain ⟨hpos, hkey⟩ := hfills segs hsegs
      have hpid : codec.pid = 0x100 := by cases codec <;> rfl
      have hpcr : (if s.pcrPid = codec.pid ∧ m.isKey then some m.dts else none) = none ∨
          184 ≤ segs.flatten.length := by
        by_cases hc : s.pcrPid = codec.pid ∧ m.isKey
        · exact .inr (hkey hc.2 (hc.1.trans hpid))
        · exact .inl (if_neg hc)
      have hunit := packetLoop_isUnit (pid_lt codec) hpos hpcr hr'
      rw [hpid] at hunit
      exact ⟨⟨rfl, rfl, rfl, id, id⟩, hb.keep rfl rfl rfl,
        fun ht ↦ ⟨fun _ ↦ openSegment_open ht, fun _ ↦ openSegment_open ht⟩,
        .inr ⟨segs.flatten, rfl, hunit⟩,
        .written _ _ (openSegment_found s) (packetLoop_slots _ _ _ _ _ hr')
          (packetLoop_length (pid_lt codec) hpcr hr') rfl⟩

theorem flushAudio_sends {s s' : Bridge} {t : ℤ} {i : ℕ} {b : Bool} {e : Emitted}
    (hb : Buffered s) (h : s.flushAudio t i = .ok (s', b, e)) : Sends 0x101 s s' e := by
  obtain ⟨rest, hsegs, hlen, -⟩ := hb.segs
  obtain ⟨header, hheader⟩ : ∃ header, header = audioPesHeader s.audioBuf.audioPesLen t := ⟨_, rfl⟩
  have h14 : header.length = 14 := by rw [hheader, audioPesHeader_length]
  obtain ⟨segs, hs⟩ : ∃ segs, segs = (s.audioBuf.audioPesSegs.set 0 (.bytes header)).map
    (View.read s.adtsHeaders) := ⟨_, rfl⟩
  have hflat : segs.flatten.length = s.audioBuf.audioPesLen + header.length := by
    rw [hs, hsegs, hlen, List.set_cons_zero, List.map_cons, List.flatten_cons, List.length_append,
      Nat.add_comm]
    rfl
  unfold Bridge.flushAudio at h
  simp only [← hheader, ← hs] at h
  split at h
  · cases h
  · rename_i r hr
    cases h
    rw [← hflat] at hr
    have hunit := packetLoop_isUnit (by decide) (by omega) (.inl rfl) hr
    exact ⟨⟨rfl, rfl, rfl, id, id⟩, ⟨hb.slots, [], rfl, rfl, nofun⟩,
      fun ht ↦ ⟨fun _ ↦ openSegment_open ht, fun _ ↦ openSegment_open ht⟩,
      .inr ⟨segs.flatten, rfl, hunit⟩,
      .written _ _ (openSegment_found s) (packetLoop_slots _ _ _ _ _ hr)
        (packetLoop_length (by decide) (.inl rfl) hr) rfl⟩

theorem processVideo_sends {s s' : Bridge} {m : VideoMessage} {b : Bool} {e : Emitted}
    (codec : VideoCodec) (hb : Buffered s) (hfills : FillsPacket s (.video m))
    (h : (match codec with
      | .avc => s.processH264Packet m
      | .hevc => s.processH265Packet m) = .ok (s', b, e)) : Sends 0x100 s s' e := by
  have hquiet : Sends 0x100 s s {} := .quiet (.refl s) hb (.inr rfl)
  obtain ⟨hk, hbr, hseg⟩ := reap_keeps s m.canReap hb
  have hfr : FillsPacket (s.reap m.canReap) (.video m) := by
    intro segs hsegs
    rw [hk.pcrPid]
    exact hfills segs hsegs
  cases codec with
  | avc =>
    simp only [Bridge.processH264Packet] at h
    split at h
    · cases h
      exact hquiet
    · split at h
      · cases h
        exact hquiet
      · exact (processVideoPes_sends hbr hfr h).of_reaped hk hseg
  | hevc =>
    simp only [Bridge.processH265Packet] at h
    split at h
    · cases h
      exact hquiet
    · split at h
      · cases h
        exact hquiet
      · split at h
        · cases h
          exact hquiet
        · exact (processVideoPes_sends hbr hfr h).of_reaped hk hseg

theorem onVideoPacket_sends {s s' : Bridge} {m : VideoMessage} {b : Bool} {e : Emitted}
    (hb : Buffered s) (hfills : FillsPacket s (.video m)) (h : s.onVideoPacket m = .ok (s', b, e)) :
    Sends 0x100 s s' e := by
  unfold Bridge.onVideoPacket at h
  cases hv : s.videoCodec with
  | some codec =>
    simp only [hv] at h
    apply processVideo_sends codec hb hfills
    cases codec <;> exact h
  | none =>
    simp only [hv] at h
    cases hc : codecOf m.codecId with
    | none =>
      rw [hc] at h
      cases h
      exact .quiet (.refl s) hb (.inr rfl)
    | some codec =>
      rw [hc, Option.map_some] at h
      have hset : Sends 0x100 (s.setVideoCodec codec) s' e := by
        apply processVideo_sends (s := s.setVideoCodec codec) codec (hb.keep rfl rfl rfl) hfills
        cases codec <;> exact h
      exact hset.of_reaped ⟨rfl, rfl, rfl, fun _ ↦ nofun, id⟩ (.inr rfl)

theorem bufferFrame_buffered {s : Bridge} (hb : Buffered s) (hidx : s.adtsHeaderIndex < adtsReserved)
    (header frame : Bytes) (timestamp : ℤ) (h7 : header.length = 7) :
    Buffered (s.bufferFrame header frame timestamp) := by
  obtain ⟨hslots, rest, hsegs, hlen, hindex⟩ := hb
  have hread : ∀ v ∈ rest, View.read (s.adtsHeaders.set s.adtsHeaderIndex header) v =
      View.read s.adtsHeaders v := by
    intro v hv
    cases v with
    | bytes bs => rfl
    | adts i =>
      have hi := hindex i hv
      rw [View.read, View.read, List.getD_eq_getElem?_getD, List.getElem?_set_ne (by omega),
        ← List.getD_eq_getElem?_getD]
  have hself : View.read (s.adtsHeaders.set s.adtsHeaderIndex header) (.adts s.adtsHeaderIndex) =
      header := by
    rw [View.read, List.getD_eq_getElem?_getD, List.getElem?_set_self (by rw [hslots]; exact hidx)]
    rfl
  refine ⟨(List.length_set ..).trans hslots, rest ++ [.adts s.adtsHeaderIndex, .bytes frame], ?_, ?_, ?_⟩
  · change s.audioBuf.audioPesSegs ++ _ = _
    rw [hsegs]
    rfl
  · change s.audioBuf.audioPesLen + (7 + frame.length) =
      ((rest ++ [View.adts s.adtsHeaderIndex, .bytes frame]).map
        (View.read (s.adtsHeaders.set s.adtsHeaderIndex header))).flatten.length
    rw [List.map_append, List.map_congr_left hread, List.flatten_append, List.length_append, ← hlen,
      List.map_cons, hself, List.flatten_cons, List.length_append, h7]
    simp only [List.map_cons, List.map_nil, View.read, List.flatten_cons, List.flatten_nil,
      List.append_nil]
  · intro i hi
    change i < s.adtsHeaderIndex + 1
    rcases List.mem_append.mp hi with hi | hi
    · exact Nat.lt_succ_of_lt (hindex i hi)
    · rcases List.mem_cons.mp hi with hi | hi
      · cases hi
        exact Nat.lt_succ_self _
      · cases List.mem_singleton.mp hi

theorem processAacFrame_sends {s s' : Bridge} {config : Option AudioSpecificConfig} {frame : Bytes}
    {m : AudioMessage} {b : Bool} {e : Emitted} (hb : Buffered s)
    (h : s.processAacFrame config frame m = .ok (s', b, e)) : Sends 0x101 s s' e := by
  obtain ⟨hk, hbr, hseg⟩ := reap_keeps s m.canReap hb
  have hquiet : Sends 0x101 s (s.reap m.canReap) {} := .quiet hk hbr hseg
  simp only [Bridge.processAacFrame] at h
  split at h
  · cases h
    exact .quiet (.refl s) hb (.inr rfl)
  · cases config with
    | none => cases h
    | some config =>
      simp only at h
      split at h
      · cases h
        exact hquiet
      · rename_i profile _
        split at h
        · cases h
        · rename_i hidx
          have hbuf := bufferFrame_buffered hbr (Nat.not_le.mp hidx)
            (adtsHeader profile config (7 + frame.length)) frame m.timestamp.toInt rfl
          have hsame : Keeps (s.reap m.canReap) ((s.reap m.canReap).bufferFrame
              (adtsHeader profile config (7 + frame.length)) frame m.timestamp.toInt) :=
            ⟨rfl, rfl, rfl, id, id⟩
          split at h
          · cases h
            exact (Sends.quiet hsame hbuf (.inr rfl)).of_reaped hk hseg
          · exact ((flushAudio_sends hbuf h).of_reaped hsame (.inr rfl)).of_reaped hk hseg

theorem processMp3Packet_sends {s s' : Bridge} {m : AudioMessage} {b : Bool} {e : Emitted}
    (hb : Buffered s) (h : s.processMp3Packet m = .ok (s', b, e)) : Sends 0x101 s s' e := by
  obtain ⟨hk, hbr, hseg⟩ := reap_keeps s m.canReap hb
  simp only [Bridge.processMp3Packet] at h
  split at h
  · cases h
    exact .quiet (.refl s) hb (.inr rfl)
  · rename_i consumed _
    obtain ⟨hslots, rest, hsegs, hlen, hindex⟩ := hbr
    refine (flushAudio_sends ?_ h).of_reaped
      ⟨hk.hasVideo, hk.hasAudio, hk.pcrPid, hk.videoCodec, hk.audioCodec⟩ hseg
    refine ⟨hslots, rest ++ [.bytes (m.payload.drop consumed)], ?_, ?_, ?_⟩
    · change (s.reap m.canReap).audioBuf.audioPesSegs ++ _ = _
      rw [hsegs]
      rfl
    · change (s.reap m.canReap).audioBuf.audioPesLen + _ = _
      rw [hlen, List.map_append, List.flatten_append, List.length_append]
      simp [View.read]
    · intro i hi
      rcases List.mem_append.mp hi with hi | hi
      · exact hindex i hi
      · cases List.mem_singleton.mp hi

theorem onAudioPacket_sends {s s' : Bridge} {m : AudioMessage} {b : Bool} {e : Emitted}
    (hb : Buffered s) (h : s.onAudioPacket m = .ok (s', b, e)) : Sends 0x101 s s' e := by
  have hquiet : Sends 0x101 s s {} := .quiet (.refl s) hb (.inr rfl)
  unfold Bridge.onAudioPacket at h
  split at h
  · cases h
    exact hquiet
  · unfold Bridge.processAacPacket at h
    split at h
    · cases h
      exact hquiet
    · split at h
      · simp only at h
        split at h
        · cases h
          exact .quiet ⟨rfl, rfl, rfl, id, fun _ ↦ nofun⟩ (hb.keep rfl rfl rfl) (.inr rfl)
        · cases h
          exact .quiet ⟨rfl, rfl, rfl, id, id⟩ (hb.keep rfl rfl rfl) (.inr rfl)
        · cases h
      · exact processAacFrame_sends hb h
  · exact processMp3Packet_sends hb h

end Step

section Run

structure Knows (d : Receiver) (s : Bridge) : Prop where
  pmtPid_eq : d.pmtPid = some pmtPid.toNat
  video : d.lists 0x100 = s.hasVideo
  audio : d.lists 0x101 = s.hasAudio

def Serves (d : Receiver) (s : Bridge) : Prop := s.currSeg ≠ none → Knows d s

theorem Knows.keep {d : Receiver} {s s' : Bridge} (h : Knows d s) (hk : Keeps s s') : Knows d s' :=
  ⟨h.pmtPid_eq, h.video.trans hk.hasVideo.symm, h.audio.trans hk.hasAudio.symm⟩

structure Announced (s : Bridge) : Prop where
  video : s.hasVideo = true → s.videoCodec ≠ none
  audio : s.hasAudio = true → s.audioCodec ≠ none

theorem Announced.keep {s s' : Bridge} (h : Announced s) (hk : Keeps s s') : Announced s' :=
  ⟨fun hv ↦ hk.videoCodec (h.video (hk.hasVideo ▸ hv)),
    fun ha ↦ hk.audioCodec (h.audio (hk.hasAudio ▸ ha))⟩

theorem videoPidOf_some {codec : Option VideoCodec} (h : codec ≠ none) :
    (videoPidOf codec).toNat % 2 ^ 13 = 0x100 := by
  obtain ⟨codec, rfl⟩ := Option.ne_none_iff_exists'.mp h
  cases codec <;> rfl

theorem audioPidOf_some {codec : Option AudioCodec} (h : codec ≠ none) :
    (audioPidOf codec).toNat % 2 ^ 13 = 0x101 := by
  obtain ⟨codec, rfl⟩ := Option.ne_none_iff_exists'.mp h
  rfl

/-- The program map lists the PIDs on which the packets are sent. -/
theorem lists_streamsOf {s : Bridge} (h : Announced s) {d : Receiver} {unset : UInt8}
    (hd : d.streams = streamsOf unset s) (pid : ℕ) :
    d.lists pid = (s.hasAudio && (0x101 == pid) || s.hasVideo && (0x100 == pid)) := by
  have hany (b : Bool) (es : EsInfo) : (if b then [es] else []).any (·.elementaryPid == pid) =
      (b && (es.elementaryPid == pid)) := by
    cases b
    · rfl
    · simp
  have hpid {b : Bool} {p q : ℕ} (hpq : b = true → p = q) : (b && (p == pid)) = (b && (q == pid)) := by
    cases b
    · rfl
    · rw [hpq rfl]
  rw [Receiver.lists, hd, streamsOf, List.any_append, hany, hany,
    hpid fun ha ↦ audioPidOf_some (h.audio ha), hpid fun hv ↦ videoPidOf_some (h.video hv)]

/-- The tables say which streams there are, and leave the PES packets as they are. -/
theorem tables_received {s : Bridge} (h : Announced s) (d : Receiver) (unset : UInt8) :
    ∃ d', [createPat, createPmt unset s].foldl Receiver.packet d = d' ∧ Knows d' s ∧ d'.pes = d.pes := by
  obtain ⟨d', hd'⟩ : ∃ d' : Receiver, d' = ⟨some pmtPid.toNat, streamsOf unset s, d.pes⟩ := ⟨_, rfl⟩
  have hstreams : d'.streams = streamsOf unset s := by rw [hd']
  refine ⟨d', by rw [tables_taken, hd'], ⟨by rw [hd'], ?_, ?_⟩, by rw [hd']⟩
  · rw [lists_streamsOf h hstreams]
    simp
  · rw [lists_streamsOf h hstreams]
    simp

/-- The PES packets of a PID reach a receiver that is told about it. -/
def Listed (s : Bridge) (pid : ℕ) : Prop :=
  pid = 0x100 ∧ s.hasVideo = true ∨ pid = 0x101 ∧ s.hasAudio = true

instance (s : Bridge) (pid : ℕ) : Decidable (Listed s pid) := inferInstanceAs (Decidable (_ ∨ _))

/-- The packets of a PES packet: the receiver gets it if its PID is listed. -/
theorem unit_received {pid : ℕ} (hpid : pid = 0x100 ∨ pid = 0x101) {pes : Bytes}
    {writes : List TsWrite} (h : IsUnit pid pes writes) {s : Bridge} {d : Receiver} (hd : Knows d s) :
    ∃ d', (writes.map TsWrite.bytes).foldl Receiver.packet d = d' ∧ Knows d' s ∧
      ∀ q, d'.pes q = d.pes q ++ if q = pid ∧ Listed s q then [pes] else [] := by
  have h0 : pid ≠ 0 := by rcases hpid with rfl | rfl <;> decide
  have hne : d.pmtPid ≠ some pid := by
    rw [hd.pmtPid_eq]
    rcases hpid with rfl | rfl <;> decide
  have hlists : d.lists pid = decide (Listed s pid) := by
    rcases hpid with rfl | rfl
    · rw [hd.video]
      simp [Listed]
    · rw [hd.audio]
      simp [Listed]
  by_cases hl : Listed s pid
  · rw [decide_eq_true hl] at hlists
    refine ⟨_, unit_taken h0 hne hlists h, ⟨hd.pmtPid_eq, hd.video, hd.audio⟩, fun q ↦ ?_⟩
    by_cases hq : q = pid
    · subst hq
      rw [if_pos ⟨rfl, hl⟩]
      exact Function.update_self ..
    · rw [if_neg fun hc ↦ hq hc.1, List.append_nil]
      exact Function.update_of_ne hq ..
  · rw [decide_eq_false hl] at hlists
    refine ⟨_, packets_dropped h0 hne hlists _ h.pid_eq, hd, fun q ↦ ?_⟩
    have hno : ¬ (q = pid ∧ Listed s q) := fun hc ↦ hl (hc.1 ▸ hc.2)
    rw [if_neg hno, List.append_nil]

/-- One message: the receiver gets its PES packet, behind those it has. -/
theorem sends_received {pid : ℕ} {s s' : Bridge} {e : Emitted} (hpid : pid = 0x100 ∨ pid = 0x101)
    (h : Sends pid s s' e) (ha : Announced s) {d : Receiver} (hd : Serves d s) (unset : UInt8) :
    ∃ d', (Emitted.packets unset s' e).foldl Receiver.packet d = d' ∧ Serves d' s' ∧
      ∀ q, d'.pes q = d.pes q ++ if q = pid ∧ Listed s q then e.pes.toList else [] := by
  obtain ⟨d₁, hd₁, hpes₁, hserves, hknown⟩ : ∃ d₁ : Receiver,
      (if e.tables = [] then [] else [createPat, createPmt unset s']).foldl Receiver.packet d = d₁ ∧
      d₁.pes = d.pes ∧ Serves d₁ s' ∧ (e.writes ≠ [] → Knows d₁ s') := by
    by_cases ht : e.tables = []
    · rw [if_pos ht]
      exact ⟨d, rfl, rfl, fun hs ↦ (hd ((h.tables ht).1 hs)).keep h.keeps,
        fun hw ↦ (hd ((h.tables ht).2 hw)).keep h.keeps⟩
    · obtain ⟨d₁, hd₁, hknows, hpes⟩ := tables_received (ha.keep h.keeps) d unset
      rw [if_neg ht]
      exact ⟨d₁, hd₁, hpes, fun _ ↦ hknows, fun _ ↦ hknows⟩
  rw [Emitted.packets, List.foldl_append, hd₁]
  rcases h.packets with ⟨hpes, hw⟩ | ⟨pes, hpes, hunit⟩
  · refine ⟨d₁, by rw [hw]; rfl, hserves, fun q ↦ ?_⟩
    rw [hpes₁, hpes, Option.toList_none, ite_self, List.append_nil]
  · have hw : e.writes ≠ [] := by
      obtain ⟨w, rest, hw, -⟩ := hunit.start
      rw [hw]
      exact List.cons_ne_nil w rest
    obtain ⟨d₂, hd₂, hknows, hpes₂⟩ := unit_received hpid hunit (hknown hw)
    refine ⟨d₂, hd₂, fun _ ↦ hknows, fun q ↦ ?_⟩
    have hlisted : Listed s' q = Listed s q := by rw [Listed, Listed, h.keeps.hasVideo, h.keeps.hasAudio]
    simp only [hpes₂ q, hlisted, hpes₁, hpes, Option.toList_some]

theorem process_sends {s s' : Bridge} {m : Message} {b : Bool} {e : Emitted} (hb : Buffered s)
    (hfills : FillsPacket s m) (h : s.process m = .ok (s', b, e)) :
    ∃ pid, Message.pid m = some pid ∧ (pid = 0x100 ∨ pid = 0x101) ∧ Sends pid s s' e := by
  cases m with
  | metadata m => exact hfills.elim
  | video m => exact ⟨0x100, rfl, .inl rfl, onVideoPacket_sends hb hfills h⟩
  | audio m => exact ⟨0x101, rfl, .inr rfl, onAudioPacket_sends hb h⟩

theorem run_received (unset : UInt8) {ms : List Message} {s s' : Bridge} {es : List Emitted}
    (hb : Buffered s) (ha : Announced s) {d : Receiver} (hd : Serves d s)
    (hfills : ∀ m ∈ ms, FillsPacket s m) (h : s.run ms = .ok (s', es)) :
    ∃ packets, Bridge.tsPackets unset s ms = .ok packets ∧
      ∀ pid, (packets.foldl Receiver.packet d).pes pid =
        d.pes pid ++ if Listed s pid then pesOn pid ms es else [] := by
  induction ms generalizing s es d with
  | nil =>
    cases h
    refine ⟨[], rfl, fun pid ↦ ?_⟩
    rw [pesOn, List.zip_nil_left, List.filterMap_nil, ite_self, List.append_nil]
    rfl
  | cons m ms ih =>
    obtain ⟨⟨s₁, b, e⟩, hstep, h⟩ := Outcome.bind_eq_ok.mp h
    obtain ⟨⟨s₂, es'⟩, hrest, h⟩ := Outcome.bind_eq_ok.mp h
    cases h
    obtain ⟨hm, hms⟩ := List.forall_mem_cons.mp hfills
    obtain ⟨pid, hmpid, hpid, hsends⟩ := process_sends hb hm hstep
    obtain ⟨d₁, hd₁, hserves, hpes⟩ := sends_received hpid hsends ha hd unset
    have hk := hsends.keeps
    have hfills₁ : ∀ m ∈ ms, FillsPacket s₁ m := by
      intro m' hm'
      have hf := hms m' hm'
      cases m' with
      | metadata _ => exact hf
      | video m' =>
        intro segs hsegs
        rw [hk.pcrPid]
        exact hf segs hsegs
      | audio _ => trivial
    obtain ⟨packets, hpackets, hreceived⟩ := ih hsends.buffered (ha.keep hk) hserves hfills₁ hrest
    refine ⟨Emitted.packets unset s₁ e ++ packets, ?_, ?_⟩
    · rw [Bridge.tsPackets, hstep, Outcome.ok_bind]
      simp only [hpackets, Outcome.ok_bind, Outcome.pure_eq]
    · intro q
      have hlisted : Listed s₁ q = Listed s q := by rw [Listed, Listed, hk.hasVideo, hk.hasAudio]
      rw [List.foldl_append, hd₁, hreceived, hpes]
      simp only [hlisted, pesOn, List.zip_cons_cons, List.filterMap_cons, hmpid, Option.some.injEq]
      by_cases hl : Listed s q
      · rw [if_pos hl, if_pos hl, List.append_assoc]
        congr 1
        by_cases hq : q = pid
        · rw [if_pos ⟨hq, hl⟩, if_pos hq.symm]
          cases e.pes <;> rfl
        · rw [if_neg fun hc ↦ hq hc.1, if_neg fun hc ↦ hq hc.symm]
          rfl
      · rw [if_neg hl, if_neg hl, if_neg fun hc ↦ hl hc.2, List.append_nil]

end Run

section Reached

theorem setPcrPid_buffered {s : Bridge} (h : Buffered s) : Buffered s.setPcrPid := by
  unfold Bridge.setPcrPid
  split
  · exact h.keep rfl rfl rfl
  · split
    · exact h.keep rfl rfl rfl
    · exact h

theorem setAudio_buffered {s : Bridge} (h : Buffered s) (audioCodecId : Option SoundFormat) :
    Buffered (s.setAudio audioCodecId).1 := by
  unfold Bridge.setAudio
  split
  · exact setPcrPid_buffered h
  · exact setPcrPid_buffered (h.keep rfl rfl rfl)
  · exact setPcrPid_buffered (h.keep rfl rfl rfl)
  · exact h

theorem onMetadata_buffered {s : Bridge} (h : Buffered s) (m : Option Metadata) :
    Buffered (s.onMetadata m).1 := by
  unfold Bridge.onMetadata
  cases m with
  | none => exact h
  | some m =>
    have hset : Buffered
        { s with hasVideo := m.videoCodecId.isSome, hasAudio := m.audioCodecId.isSome } :=
      h.keep rfl rfl rfl
    simp only
    split
    · exact hset
    · apply setAudio_buffered
      exact hset.keep rfl rfl rfl
    · exact setAudio_buffered hset _

theorem process_buffered {s s' : Bridge} {m : Message} {b : Bool} {e : Emitted} (hb : Buffered s)
    (h : s.process m = .ok (s', b, e)) : Buffered s' := by
  cases m with
  | metadata m =>
    cases h
    exact onMetadata_buffered hb m
  | video m =>
    obtain ⟨t, _, _, ht, hk⟩ := onVideoPacket_keepsAudio s m
    cases ht.symm.trans h
    exact hb.keep hk.buf hk.headers hk.index
  | audio m => exact (onAudioPacket_sends hb h).buffered

theorem run_buffered {ms : List Message} {s s' : Bridge} {es : List Emitted} (hb : Buffered s)
    (h : s.run ms = .ok (s', es)) : Buffered s' := by
  induction ms generalizing s es with
  | nil =>
    cases h
    exact hb
  | cons m ms ih =>
    obtain ⟨⟨s₁, b, e⟩, hstep, h⟩ := Outcome.bind_eq_ok.mp h
    obtain ⟨⟨s₂, es'⟩, hrest, h⟩ := Outcome.bind_eq_ok.mp h
    cases h
    exact ih (process_buffered hb hstep) hrest

end Reached

/-- A receiver that starts with a new segment of any bridge gets, without loss and in
order, the PES packets of the streams that the bridge has announced, whatever segments
the messages are cut into; it gets nothing on any other PID. -/
theorem demux_complete (unset : UInt8) (before : List Message) (s : Bridge) (es₀ : List Emitted)
    (hbefore : Bridge.run {} before = .ok (s, es₀)) (hseg : s.currSeg = none) (ha : Announced s)
    (ms : List Message) (hfills : ∀ m ∈ ms, FillsPacket s m) (s' : Bridge) (es : List Emitted)
    (hrun : s.run ms = .ok (s', es)) :
    ∃ packets, Bridge.tsPackets unset s ms = .ok packets ∧
      ∀ pid, (demux packets).pes pid = if Listed s pid then pesOn pid ms es else [] := by
  have hserves : Serves {} s := fun h ↦ absurd hseg h
  obtain ⟨packets, hpackets, hpes⟩ :=
    run_received unset (run_buffered Buffered.fresh hbefore) ha hserves hfills hrun
  exact ⟨packets, hpackets, fun pid ↦ (hpes pid).trans (List.nil_append _)⟩

/-- Two frames in a segment each. -/
theorem demux_complete_twoFrames : ∃ s es packets,
    Bridge.run {} [videoOnly] = .ok (s, [{}]) ∧
      s.run [shortVideo false, shortVideo true] = .ok es ∧
      Bridge.tsPackets 0 s [shortVideo false, shortVideo true] = .ok packets ∧
      packets.length = 6 ∧
      ∀ pid, (demux packets).pes pid = if Listed s pid
        then pesOn pid [shortVideo false, shortVideo true] es.2 else [] := by
  have hannounced : Announced (Bridge.onMetadata {} (some ⟨some .avc, none⟩)).1 := ⟨nofun, nofun⟩
  have hfills : ∀ m ∈ [shortVideo false, shortVideo true],
      FillsPacket (Bridge.onMetadata {} (some ⟨some .avc, none⟩)).1 m := by
    intro m hm
    rcases List.mem_cons.mp hm with rfl | hm
    · intro segs hsegs
      cases hsegs
      exact ⟨by decide, nofun⟩
    · cases List.mem_singleton.mp hm
      intro segs hsegs
      cases hsegs
      exact ⟨by decide, nofun⟩
  obtain ⟨packets, hpackets, hpes⟩ := demux_complete 0 [videoOnly] _ [{}] rfl rfl hannounced
    [shortVideo false, shortVideo true] hfills _ _ rfl
  refine ⟨_, _, packets, rfl, rfl, hpackets, ?_, hpes⟩
  cases hpackets
  decide +kernel

end MmsServer.Ts.Demux
