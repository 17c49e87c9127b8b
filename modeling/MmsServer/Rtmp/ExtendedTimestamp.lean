import MmsServer.Rtmp.ChunkRoundTrip

namespace MmsServer.Rtmp.ExtendedTimestamp

open Function Lib.ByteReader Lib.Incremental Define ChunkReceiver ChunkSender ChunkRoundTrip

variable {σ : Type} {n : BitVec 32} {m : RtmpMessage}

section Rule

def needsExtension (m : RtmpMessage) : Bool := 0xffffff ≤ m.timestamp.toInt

def ruleExtension (m : RtmpMessage) : Bytes :=
  if needsExtension m then putBE 4 m.timestamp.toNat else []

def ruleHeader (m : RtmpMessage) : Bytes :=
  putBE 3 (if needsExtension m then 0xffffff else m.timestamp.toNat) ++ putBE 3 m.usingData.length ++
    [m.messageTypeId] ++ putBE 4 m.messageStreamId.toNat ++ ruleExtension m

/-- The type-3 chunks of a message from `pos` on. Each repeats the extended
timestamp, if the message has one. -/
def continuation (size : ℕ) (m : RtmpMessage) : ℕ → ℕ → Bytes
  | 0, _ => []
  | chunks + 1, pos =>
    basicHeader .type3 m.chunkStreamId ++ ruleExtension m ++ (m.usingData.drop pos).take size ++
      continuation size m chunks (pos + size)

def ruleMessage (n : BitVec 32) (m : RtmpMessage) : Bytes :=
  basicHeader .type0 m.chunkStreamId ++ ruleHeader m ++ m.usingData.take n.toInt.toNat ++
    continuation n.toInt.toNat m (chunkCount n m.usingData.length - 1) n.toInt.toNat

theorem ruleHeader_eq (m : RtmpMessage) : ruleHeader m = messageHeader .type0 none m := by
  simp only [ruleHeader, ruleExtension, messageHeader, timeField, extension, needsExtension,
    decide_eq_true_eq]

theorem nextChunk_idem (m : RtmpMessage) :
    nextChunk (some (nextChunk none m)) m = nextChunk none m := by
  simp [nextChunk]

theorem chooseFmt_again (m : RtmpMessage) : chooseFmt (some (nextChunk none m)) m = .type3 := by
  rw [chooseFmt_type3]
  exact ⟨rfl, rfl, rfl, (BitVec.sub_self _).symm⟩

theorem messageHeader_again (m : RtmpMessage) :
    messageHeader .type3 (some (nextChunk none m)) m = [] := by
  simp [messageHeader, extension, wireDelta_continue]

theorem continuation_eq (hn : 0 < n.toInt) (he : ruleExtension m = []) (free pos : ℕ)
    (streams : SendStreams) (hs : streams m.chunkStreamId = some (nextChunk none m))
    (hfree : free = chunkCount n (m.usingData.length - pos)) :
    (sendMessage n m free (m.usingData.length - pos : ℕ) pos streams).bytes =
      continuation n.toInt.toNat m free pos := by
  induction free generalizing pos streams with
  | zero =>
    rcases Nat.eq_zero_or_pos (m.usingData.length - pos) with h | h
    · rw [h, sendMessage_done m 0 pos streams (by omega)]
      rfl
    · rw [chunkCount_step hn h] at hfree
      omega
  | succ free ih =>
    rcases Nat.eq_zero_or_pos (m.usingData.length - pos) with h | h
    · rw [h, chunkCount_zero] at hfree
      omega
    · have hc := chunkCount_step hn h
      rw [sendMessage_step m free pos streams (by omega)]
      simp only [hs, chooseFmt_again, messageHeader_again, nextChunk_idem, continuation, he]
      rcases Nat.lt_or_ge n.toInt.toNat (m.usingData.length - pos) with hlt | hge
      · have hsize : min n.toInt (m.usingData.length - pos : ℕ) = (n.toInt.toNat : ℤ) := by omega
        have hleft : ((m.usingData.length - pos : ℕ) : ℤ) - (n.toInt.toNat : ℤ) =
            (m.usingData.length - (pos + n.toInt.toNat) : ℕ) := by omega
        rw [hsize, hleft, Int.toNat_natCast, ih (pos + n.toInt.toNat) _ (update_self ..)
          (by rw [← Nat.sub_sub]; rw [Nat.min_eq_left hlt.le] at hc; omega)]
      · have hzero : free = 0 := by
          rw [Nat.min_eq_right hge, Nat.sub_self, chunkCount_zero] at hc
          omega
        subst hzero
        rw [sendMessage_done m 0 _ _ (by omega), List.take_of_length_le (by rw [List.length_drop]; omega),
          List.take_of_length_le (by rw [List.length_drop]; omega)]
        rfl

/-- Without extended timestamps on type-3 chunks the rule agrees with the sender
at its first message. -/
theorem ruleMessage_eq (hn : 0 < n.toInt) (hpos : 0 < m.usingData.length)
    (h : needsExtension m = true → (m.usingData.length : ℤ) ≤ n.toInt) :
    ruleMessage n m =
      (sendMessage n m (chunkCount n m.usingData.length) m.usingData.length 0 fun _ ↦ none).bytes := by
  have hc := chunkCount_step hn hpos
  rw [hc, sendMessage_step m _ 0 _ (by omega), ruleMessage, hc, Nat.add_sub_cancel]
  simp only [chooseFmt, ruleHeader_eq, List.drop_zero]
  rcases Nat.lt_or_ge n.toInt.toNat m.usingData.length with hlt | hge
  · have he : ruleExtension m = [] := by
      rw [ruleExtension, if_neg (fun ht ↦ by have := h ht; omega)]
    have hsize : min n.toInt m.usingData.length = (n.toInt.toNat : ℤ) := by omega
    have hleft : ((m.usingData.length : ℕ) : ℤ) - (n.toInt.toNat : ℤ) =
        (m.usingData.length - n.toInt.toNat : ℕ) := by omega
    rw [hsize, hleft, Int.toNat_natCast, Nat.zero_add, Nat.min_eq_left hlt.le,
      continuation_eq hn he _ n.toInt.toNat _ (update_self ..) rfl]
  · rw [Nat.min_eq_right hge, Nat.sub_self, chunkCount_zero, sendMessage_done m 0 _ _ (by omega),
      List.take_of_length_le (by omega), List.take_of_length_le (by omega)]
    rfl

end Rule

section Receive

def content (m : RtmpMessage) : (Bytes × UInt8 × BitVec 32 × ℕ) × BitVec 32 := (frame m, m.timestamp)

/-- A message on the chunk stream `c`, with a timestamp that is not negative and a
payload below a mebibyte. -/
structure Encodable (c : ℕ) (m : RtmpMessage) : Prop where
  csid : m.chunkStreamId = c
  csid_low : 2 ≤ c
  csid_high : c ≤ 65599
  length_pos : 0 < m.usingData.length
  length_lt : m.usingData.length < 2 ^ 20
  timestamp : 0 ≤ m.timestamp.toInt

variable {c : ℕ}

theorem Encodable.sendable (h : Encodable c m) : Sendable m where
  csid_low := by rw [h.csid]; exact h.csid_low
  csid_high := by rw [h.csid]; exact h.csid_high
  length_pos := h.length_pos
  length_lt := by have hl := h.length_lt; omega

/-- The receiver gets the messages that keep clear of extended type-3 chunks,
and is then ready for what follows. -/
theorem run_rule (record : σ → RtmpMessage → σ) (hn : 0 < n.toInt) (msgs : List RtmpMessage)
    (hm : ∀ m ∈ msgs, Encodable c m)
    (hfit : ∀ m ∈ msgs, needsExtension m = true → (m.usingData.length : ℤ) ≤ n.toInt) (s : RecvState)
    (app : σ) (hs : s.inChunkSize = n) (hidle : (s.recvChunkStreams c).bind RtmpChunk.rtmpMessage = none) :
    ∃ s' app', s'.inChunkSize = n ∧ (s'.recvChunkStreams c).bind RtmpChunk.rtmpMessage = none ∧
      ∀ rest, run (recvStep (accepting record)) (s, app) (msgs.flatMap (ruleMessage n) ++ rest) =
        (run (recvStep (accepting record)) (s', app') rest).emit
          (msgs.map fun m ↦ delivered m m.timestamp) := by
  induction msgs generalizing s app with
  | nil => exact ⟨s, app, hs, hidle, fun rest ↦ (emit_nil _).symm⟩
  | cons m msgs ih =>
    have hem := hm m (List.mem_cons_self ..)
    have hok := (sendMessage_ok_iff hn m (chunkCount n m.usingData.length) m.usingData.length 0
      (fun _ ↦ none)).1.mpr le_rfl
    subst hs
    obtain ⟨hdr, -, hrun⟩ := run_message record hem.sendable (chunkCount s.inChunkSize m.usingData.length)
      s app hn (fun _ ↦ none) hem.length_pos
      (ready_type0 hem.sendable hem.timestamp (by rw [hem.csid]; exact hidle) rfl) hok
    obtain ⟨s', app', hs', hidle', hrest⟩ := ih (fun m' h' ↦ hm m' (List.mem_cons_of_mem m h'))
      (fun m' h' ↦ hfit m' (List.mem_cons_of_mem m h')) (settle s m.chunkStreamId hdr)
      (record app (delivered m m.timestamp)) rfl (by rw [hem.csid, settle_self]; rfl)
    refine ⟨s', app', hs', hidle', fun rest ↦ ?_⟩
    have hr := hrun (msgs.flatMap (ruleMessage s.inChunkSize) ++ rest)
    rw [Nat.sub_zero, ← ruleMessage_eq hn hem.length_pos (hfit m (List.mem_cons_self ..))] at hr
    rw [List.flatMap_cons, List.append_assoc, hr, hrest, emit_emit]
    rfl

/-- The partial message of chunk stream `c` has the byte `b` at index `i`. -/
def Holds (c i : ℕ) (b : UInt8) (s : RecvState) : Prop :=
  ∃ hdr msg, s.recvChunkStreams c = some ⟨hdr, some msg⟩ ∧ msg.usingData[i]? = some b

/-- If the first message that comes is one of chunk stream `c`, it has that byte. -/
def Shows (c i : ℕ) (b : UInt8) (out : List RtmpMessage) : Prop :=
  ∀ m ∈ out.head?, m.chunkStreamId = c → m.usingData[i]? = some b

theorem finishChunk_accepting (record : σ → RtmpMessage → σ) (s : RecvState) (app : σ) (csid : ℕ)
    (hdr : ChunkMessageHeader) (msg : RtmpMessage) (pos : ℕ) :
    (∃ e, finishChunk (accepting record) s app csid hdr msg pos = .stop e []) ∨
    (∃ app', finishChunk (accepting record) s app csid hdr msg pos =
      .take pos (settle s csid hdr, app') [msg.fill csid hdr]) ∨
    finishChunk (accepting record) s app csid hdr msg pos =
      .take pos (s.install csid hdr msg, app) [] := by
  unfold finishChunk
  split
  · refine Or.inr (Or.inl ⟨record app (msg.fill csid hdr), ?_⟩)
    simp only [accepting, dropMessage_install]
  · split
    · exact Or.inl ⟨_, rfl⟩
    · exact Or.inr (Or.inr rfl)

/-- What a chunk does to the partial message: nothing yet, or its payload goes
behind what there is. -/
theorem receivePayload_accepting (record : σ → RtmpMessage → σ) (s : RecvState) (app : σ) (csid : ℕ)
    (hdr : ChunkMessageHeader) (msg : Option RtmpMessage) (pos : ℕ) (bs : Bytes) :
    (∃ e, receivePayload (accepting record) s app csid hdr msg pos bs = .stop e []) ∨
    receivePayload (accepting record) s app csid hdr msg pos bs =
      .more (s.install csid hdr (target hdr msg), app) ∨
    ∃ msg' k, msg'.usingData = (target hdr msg).usingData ++
        bs.take (chunkPayloadSize s hdr (target hdr msg)).toNat ∧
      ((∃ app', receivePayload (accepting record) s app csid hdr msg pos bs =
          .take k (settle s csid hdr, app') [msg'.fill csid hdr]) ∨
        receivePayload (accepting record) s app csid hdr msg pos bs =
          .take k (s.install csid hdr msg', app) []) := by
  unfold receivePayload
  dsimp only
  split
  · exact Or.inl ⟨_, rfl⟩
  · split
    · exact Or.inr (Or.inl rfl)
    · split
      · rename_i hs
        have hfit : (bs.take (chunkPayloadSize s hdr (target hdr msg)).toNat).length ≤
            (target hdr msg).unuse :=
          (List.length_take_le _ _).trans (by omega)
        rcases finishChunk_accepting record s app csid hdr
          { target hdr msg with toPacket := (target hdr msg).append _ hfit }
          (pos + (chunkPayloadSize s hdr (target hdr msg)).toNat) with he | ht | ht
        · exact Or.inl he
        · exact Or.inr (Or.inr ⟨_, _, rfl, Or.inl ht⟩)
        · exact Or.inr (Or.inr ⟨_, _, rfl, Or.inr ht⟩)
      · exact Or.inl ⟨_, rfl⟩

/-- A byte that has gone into the partial message stays there until the message
is delivered. -/
theorem recvStep_holds {i : ℕ} {b : UInt8} (record : σ → RtmpMessage → σ) {s : RecvState}
    (h : Holds c i b s) (app : σ) (buf : Bytes) :
    (∃ e, recvStep (accepting record) (s, app) buf = .stop e []) ∨
    (∃ t, recvStep (accepting record) (s, app) buf = .more t) ∨
    (∃ k t app', recvStep (accepting record) (s, app) buf = .take k (t, app') [] ∧ Holds c i b t) ∨
    ∃ k t msg, recvStep (accepting record) (s, app) buf = .take k t [msg] ∧ Shows c i b [msg] := by
  obtain ⟨hdr₀, msg₀, hc, hb₀⟩ := h
  have hgrow (ext : Bytes) : (msg₀.usingData ++ ext)[i]? = some b := by
    have hlt := (List.getElem?_eq_some_iff.mp hb₀).1
    rw [List.getElem?_append_left hlt, hb₀]
  unfold recvStep
  cases hb : readBasicHeader buf with
  | none => exact Or.inr (Or.inl ⟨_, rfl⟩)
  | some r =>
    obtain ⟨⟨fmt, csid⟩, bs⟩ := r
    simp only
    cases hm : readMessageHeader fmt (s.recvChunkStreams csid)
        ((s.recvChunkStreams csid).bind RtmpChunk.rtmpMessage).isNone {} bs with
    | more => exact Or.inr (Or.inl ⟨_, rfl⟩)
    | fail code => exact Or.inl ⟨_, rfl⟩
    | ok hdr bs' =>
      simp only
      rcases receivePayload_accepting record s app csid hdr
          ((s.recvChunkStreams csid).bind RtmpChunk.rtmpMessage) (buf.length - bs'.length) bs'
        with he | hmore | ⟨msg', k, hmsg, htake⟩
      · exact Or.inl he
      · exact Or.inr (Or.inl ⟨_, hmore⟩)
      · by_cases hcs : csid = c
        · subst hcs
          have hb' : msg'.usingData[i]? = some b := by
            rw [hmsg, hc]
            exact hgrow _
          rcases htake with ⟨app', ht⟩ | ht
          · refine Or.inr (Or.inr (Or.inr ⟨_, _, _, ht, ?_⟩))
            rintro m ⟨⟩ -
            exact hb'
          · exact Or.inr (Or.inr (Or.inl ⟨_, _, _, ht, hdr, msg', install_self .., hb'⟩))
        · rcases htake with ⟨app', ht⟩ | ht
          · refine Or.inr (Or.inr (Or.inr ⟨_, _, _, ht, ?_⟩))
            rintro m ⟨⟩ hcm
            exact absurd hcm hcs
          · refine Or.inr (Or.inr (Or.inl ⟨_, _, _, ht, hdr₀, msg₀, ?_, hb₀⟩))
            rw [install_of_ne s (Ne.symm hcs)]
            exact hc

theorem run_holds {i : ℕ} {b : UInt8} (record : σ → RtmpMessage → σ) {s : RecvState}
    (h : Holds c i b s) (app : σ) (buf : Bytes) :
    Shows c i b (run (recvStep (accepting record)) (s, app) buf).out := by
  have hcons := (recvStep_lawful (accepting record)).consumes
  induction hl : buf.length using Nat.strongRecOn generalizing s app buf with
  | ind len ih =>
    subst hl
    rcases recvStep_holds record h app buf with ⟨e, he⟩ | ⟨t, ht⟩ | ⟨k, t, app', ht, hh⟩ | ⟨k, t, msg, ht, hs⟩
    · rw [run_stop he]
      rintro m ⟨⟩
    · rw [run_more ht]
      rintro m ⟨⟩
    · obtain ⟨hk, hle⟩ := hcons _ _ _ _ _ ht
      rw [run_take hcons ht, emit_nil]
      exact ih _ (by rw [List.length_drop]; omega) hh app' (buf.drop k) rfl
    · rw [run_take hcons ht, emit_out]
      rintro m ⟨⟩
      exact hs _ rfl

/-- The receiver takes the extended timestamp of a type-3 chunk for payload. -/
theorem run_extended_chunk (record : σ → RtmpMessage → σ) (hem : Encodable c m) {pos : ℕ}
    (hpos : pos < m.usingData.length) {s : RecvState} (hn : 0 < s.inChunkSize.toInt)
    {hdr : ChunkMessageHeader} {clock : BitVec 32} (hd : Describes hdr m clock)
    (hs : s.recvChunkStreams c = some ⟨hdr, some (partialMessage m pos)⟩) (app : σ) (b : UInt8)
    (bs : Bytes) :
    Shows c pos b (run (recvStep (accepting record)) (s, app) (basicHeader .type3 c ++ b :: bs)).out := by
  have hcons := (recvStep_lawful (accepting record)).consumes
  have hb := basicHeader_yields .type3 hem.csid_low hem.csid_high []
  rw [List.append_nil] at hb
  have hm : readMessageHeader .type3 (s.recvChunkStreams c)
      ((s.recvChunkStreams c).bind RtmpChunk.rtmpMessage).isNone {} [] = .ok hdr [] := by
    rw [hs]
    rfl
  have hstep := recvStep_of_header (accepting record) (s, app) hb hm (b :: bs)
  simp only [hs, Option.bind_some, List.nil_append, List.length_nil, Nat.sub_zero] at hstep
  have htarget : target hdr (some (partialMessage m pos)) = partialMessage m pos := rfl
  have hlen := partialMessage_length hpos.le
  have hsize : 0 < (chunkPayloadSize s hdr (partialMessage m pos)).toNat := by
    rw [chunkPayloadSize, hd.length, messageLength_toInt hem.sendable, hlen]
    omega
  rcases receivePayload_accepting record s app c hdr (some (partialMessage m pos))
      (basicHeader .type3 c).length (b :: bs) with ⟨e, he⟩ | hmore | ⟨msg', k, hmsg, htake⟩
  · rw [run_stop (hstep.trans he)]
    rintro m' ⟨⟩
  · rw [run_more (hstep.trans hmore)]
    rintro m' ⟨⟩
  · have hb' : msg'.usingData[pos]? = some b := by
      obtain ⟨k', hk'⟩ := Nat.exists_eq_succ_of_ne_zero hsize.ne'
      rw [hmsg, htarget, List.getElem?_append_right hlen.le, hlen, Nat.sub_self, hk']
      rfl
    rcases htake with ⟨app', ht⟩ | ht
    · rw [run_take hcons (hstep.trans ht), emit_out]
      rintro m' ⟨⟩ -
      exact hb'
    · rw [run_take hcons (hstep.trans ht), emit_nil]
      exact run_holds record ⟨hdr, msg', install_self .., hb'⟩ app _

theorem run_spoiled (record : σ → RtmpMessage → σ) (hn : 0 < n.toInt) (hem : Encodable c m)
    (hlong : n.toInt < m.usingData.length) {b : UInt8} {ext : Bytes} (hext : ruleExtension m = b :: ext)
    (s : RecvState) (app : σ) (hs : s.inChunkSize = n)
    (hidle : (s.recvChunkStreams c).bind RtmpChunk.rtmpMessage = none) (rest : Bytes) :
    Shows c n.toInt.toNat b
      (run (recvStep (accepting record)) (s, app) (ruleMessage n m ++ rest)).out := by
  have hcons := (recvStep_lawful (accepting record)).consumes
  have hcsid := hem.csid
  subst hs hcsid
  have hready : Ready none _ m 0 m.timestamp := ready_type0 hem.sendable hem.timestamp hidle rfl
  have hsize : s.inChunkSize.toInt.toNat = min s.inChunkSize.toInt.toNat (m.usingData.length - 0) := by
    omega
  obtain ⟨hdr, hd, hstep⟩ := recvStep_chunk record s app hem.sendable hn hready hem.length_pos hsize
  rw [Nat.zero_add] at hstep
  have hlt : s.inChunkSize.toInt.toNat < m.usingData.length := by omega
  have hchunks : ∃ k, chunkCount s.inChunkSize m.usingData.length - 1 = k + 1 := by
    refine ⟨chunkCount s.inChunkSize m.usingData.length - 2, ?_⟩
    rw [chunkCount_step hn (by omega), chunkCount_step hn (by omega)]
    omega
  obtain ⟨k, hk⟩ := hchunks
  have hbytes : ruleMessage s.inChunkSize m ++ rest =
      chunkBytes none m 0 s.inChunkSize.toInt.toNat ++ (basicHeader .type3 m.chunkStreamId ++
        b :: (ext ++ (m.usingData.drop s.inChunkSize.toInt.toNat).take s.inChunkSize.toInt.toNat ++
        continuation s.inChunkSize.toInt.toNat m k (s.inChunkSize.toInt.toNat + s.inChunkSize.toInt.toNat) ++
        rest)) := by
    rw [ruleMessage, hk, continuation, hext, ruleHeader_eq, chunkBytes]
    simp only [chooseFmt, List.drop_zero, List.append_assoc, List.cons_append]
  rw [hbytes, run_item hcons ((hstep _).trans (finishChunk_incomplete record s app hem.sendable hd _ hlt)),
    emit_nil]
  exact run_extended_chunk record hem hlt
    (s := s.install m.chunkStreamId hdr (partialMessage m s.inChunkSize.toInt.toNat)) hn hd
    (install_self ..) app b _

def Delivers (n : BitVec 32) (record : σ → RtmpMessage → σ) (app : σ) (msgs : List RtmpMessage) : Prop :=
  ∃ p received, run (processRecvBuffer (accepting record)) ({ inChunkSize := n }, app)
      (msgs.flatMap (ruleMessage n)) = .wait p [] received ∧
    received.map content = msgs.map content

def shape (m : RtmpMessage) : ℕ × UInt8 × BitVec 32 × BitVec 32 × ℕ :=
  (m.chunkStreamId, m.messageTypeId, m.messageStreamId, m.timestamp, m.usingData.length)

def FitsOneChunk (n : BitVec 32) (m : RtmpMessage) : Prop :=
  needsExtension m = true → (m.usingData.length : ℤ) ≤ n.toInt

theorem shape_eq {m m' : RtmpMessage} (h : shape m' = shape m) :
    m'.chunkStreamId = m.chunkStreamId ∧ m'.timestamp = m.timestamp ∧
      m'.usingData.length = m.usingData.length := by
  simp only [shape, Prod.mk.injEq] at h
  exact ⟨h.1, h.2.2.2.1, h.2.2.2.2⟩

theorem Encodable.of_shape {m' : RtmpMessage} (hem : Encodable c m) (h : shape m' = shape m) :
    Encodable c m' := by
  obtain ⟨hc, ht, hl⟩ := shape_eq h
  exact ⟨hc.trans hem.csid, hem.csid_low, hem.csid_high, hl ▸ hem.length_pos, hl ▸ hem.length_lt,
    ht ▸ hem.timestamp⟩

theorem fitsOneChunk_shape {m' : RtmpMessage} (h : shape m' = shape m) :
    FitsOneChunk n m' ↔ FitsOneChunk n m := by
  obtain ⟨-, ht, hl⟩ := shape_eq h
  rw [FitsOneChunk, FitsOneChunk, needsExtension, needsExtension, ht, hl]

theorem mem_of_shapes {msgs msgs' : List RtmpMessage} (h : msgs'.map shape = msgs.map shape)
    {m' : RtmpMessage} (hm' : m' ∈ msgs') : ∃ m ∈ msgs, shape m' = shape m := by
  have hmem := List.mem_map_of_mem (f := shape) hm'
  rw [h] at hmem
  obtain ⟨m, hm, he⟩ := List.mem_map.mp hmem
  exact ⟨m, hm, he.symm⟩

theorem delivers_of_fits (record : σ → RtmpMessage → σ) (app : σ) (hn : 0 < n.toInt)
    {msgs : List RtmpMessage} (hm : ∀ m ∈ msgs, Encodable c m) (hfit : ∀ m ∈ msgs, FitsOneChunk n m) :
    Delivers n record app msgs := by
  obtain ⟨s, app', -, -, hrun⟩ := run_rule record hn msgs hm hfit { inChunkSize := n } app rfl rfl
  have hrun := hrun []
  rw [List.append_nil] at hrun
  obtain ⟨p, hp⟩ := process_wait (p := ({ inChunkSize := n }, app)) hrun
  refine ⟨p, _, hp, ?_⟩
  rw [List.append_nil, List.map_map]
  exact List.map_congr_left fun m _ ↦ rfl

def painted (b : UInt8) (m : RtmpMessage) : RtmpMessage where
  dataBytes := m.usingData.length
  usingData := List.replicate m.usingData.length b
  fits := by rw [List.length_replicate]
  messageTypeId := m.messageTypeId
  timestamp := m.timestamp
  messageStreamId := m.messageStreamId
  chunkStreamId := m.chunkStreamId

theorem shape_painted (b : UInt8) (m : RtmpMessage) : shape (painted b m) = shape m := by
  simp only [shape, painted, List.length_replicate]

theorem painted_ne (b : UInt8) (m : RtmpMessage) (i : ℕ) :
    (painted (b + 1) m).usingData[i]? ≠ some b := by
  simp only [painted, List.getElem?_replicate]
  split
  · intro h
    have hb := congrArg UInt8.toNat (Option.some_inj.mp h)
    have hlt := b.toNat_lt
    rw [UInt8.toNat_add] at hb
    simp only [UInt8.toNat_one] at hb
    omega
  · exact fun h ↦ by cases h

theorem ruleExtension_cons (h : needsExtension m = true) : ∃ b ext, ruleExtension m = b :: ext := by
  rw [ruleExtension, if_pos h]
  exact ⟨_, _, rfl⟩

/-- A message in several chunks with an extended timestamp, whose bytes are not
the first byte of that timestamp, is not delivered. -/
theorem not_delivers (record : σ → RtmpMessage → σ) (app : σ) (hn : 0 < n.toInt)
    {pre post : List RtmpMessage} (hpre : ∀ m ∈ pre, Encodable c m) (hfit : ∀ m ∈ pre, FitsOneChunk n m)
    (hem : Encodable c m) (hlong : n.toInt < m.usingData.length) {b : UInt8} {ext : Bytes}
    (hext : ruleExtension m = b :: ext) (hb : m.usingData[n.toInt.toNat]? ≠ some b) :
    ¬ Delivers n record app (pre ++ m :: post) := by
  rintro ⟨p, received, hrun, hcontent⟩
  obtain ⟨s, app', hs, hidle, hpre'⟩ := run_rule record hn pre hpre hfit { inChunkSize := n } app rfl rfl
  have hshow := run_spoiled record hn hem hlong hext s app' hs hidle (post.flatMap (ruleMessage n))
  have hmap := run_mapState forgetCache (process_forgetCache (accepting record))
    ({ inChunkSize := n }, app) ((pre ++ m :: post).flatMap (ruleMessage n))
  rw [hrun, List.flatMap_append, List.flatMap_cons] at hmap
  have hout : received = (pre.map fun m ↦ delivered m m.timestamp) ++
      (run (recvStep (accepting record)) (s, app')
        (ruleMessage n m ++ post.flatMap (ruleMessage n))).out :=
    (congrArg Result.out (hmap.trans (hpre' _))).trans (emit_out ..)
  rw [hout, List.map_append, List.map_append, List.map_cons, List.map_map] at hcontent
  obtain ⟨-, htail⟩ := List.append_inj hcontent (by rw [List.length_map, List.length_map])
  cases hr : (run (recvStep (accepting record)) (s, app')
      (ruleMessage n m ++ post.flatMap (ruleMessage n))).out with
  | nil =>
    rw [hr] at htail
    cases htail
  | cons m₁ out =>
    rw [hr] at htail hshow
    have hm₁ : content m₁ = content m := (List.cons.inj htail).1
    simp only [content, frame, Prod.mk.injEq] at hm₁
    have hbyte := hshow m₁ rfl (hm₁.1.2.2.2.trans hem.csid)
    rw [hm₁.1.1] at hbyte
    exact hb hbyte

/-- The receiver decodes every list of messages of given shapes exactly if the
ones with an extended timestamp have one chunk each. -/
theorem delivers_iff (record : σ → RtmpMessage → σ) (app : σ) (hn : 0 < n.toInt)
    {msgs : List RtmpMessage} (hm : ∀ m ∈ msgs, Encodable c m) :
    (∀ msgs', msgs'.map shape = msgs.map shape → Delivers n record app msgs') ↔
      ∀ m ∈ msgs, FitsOneChunk n m := by
  constructor
  · intro h
    cases hfind : msgs.find? (fun m ↦ needsExtension m && decide (n.toInt < m.usingData.length)) with
    | none =>
      intro m hmem hext
      have hno := List.find?_eq_none.mp hfind m hmem
      simp only [hext, Bool.true_and, decide_eq_true_eq] at hno
      omega
    | some m =>
      exfalso
      obtain ⟨hbad, pre, post, rfl, hpre⟩ := List.find?_eq_some_iff_append.mp hfind
      simp only [Bool.and_eq_true, decide_eq_true_eq] at hbad
      obtain ⟨b, ext, hext⟩ := ruleExtension_cons hbad.1
      -- any other byte at the place of the extended timestamp will do
      have hshape : shape (painted (b + 1) m) = shape m := shape_painted (b + 1) m
      have hem := (hm m (by simp)).of_shape hshape
      have hdel : Delivers n record app (pre ++ painted (b + 1) m :: post) :=
        h _ (by simp [hshape])
      refine not_delivers (c := c) record app hn (fun m' hm' ↦ hm m' (by simp [hm']))
        (fun m' hm' hext' ↦ ?_) hem ?_ hext ?_ hdel
      · have hno := hpre m' hm'
        simp only [hext', Bool.true_and, Bool.not_eq_true', decide_eq_false_iff_not] at hno
        omega
      · exact (shape_eq hshape).2.2 ▸ hbad.2
      · exact painted_ne b m n.toInt.toNat
  · intro hfit msgs' hs
    refine delivers_of_fits record app hn (c := c) (fun m' hm' ↦ ?_) fun m' hm' ↦ ?_
    · obtain ⟨m, hmem, hshape⟩ := mem_of_shapes hs hm'
      exact (hm m hmem).of_shape hshape
    · obtain ⟨m, hmem, hshape⟩ := mem_of_shapes hs hm'
      exact (fitsOneChunk_shape hshape).mpr (hfit m hmem)

end Receive

section Send

/-- A chunk of the sender: the record it finds, its message and where in it the
payload starts. -/
structure SentChunk where
  prev : Option SendChunk
  message : RtmpMessage
  pos : ℕ

def SentChunk.fmt (k : SentChunk) : ChunkFmt := chooseFmt k.prev k.message

def SentChunk.bytes (size : ℕ) (k : SentChunk) : Bytes := chunkBytes k.prev k.message k.pos size

def messageSent (size : ℕ) (m : RtmpMessage) : ℕ → ℕ → Option SendChunk → List SentChunk
  | 0, _, _ => []
  | chunks + 1, pos, prev =>
    ⟨prev, m, pos⟩ :: messageSent size m chunks (pos + size) (some (nextChunk prev m))

def sentChunks (n : BitVec 32) : Option SendChunk → List RtmpMessage → List SentChunk
  | _, [] => []
  | prev, m :: ms =>
    messageSent n.toInt.toNat m (chunkCount n m.usingData.length) 0 prev ++
      sentChunks n (some (lastChunk n m.usingData.length prev m)) ms

/-- A type-3 chunk has an extended timestamp if and only if its message needs one. -/
def PresenceRule (k : SentChunk) : Prop :=
  k.fmt = .type3 → (messageHeader .type3 k.prev k.message ≠ [] ↔ needsExtension k.message = true)

def SenderObeys (n : BitVec 32) (msgs : List RtmpMessage) : Prop :=
  ∀ s bytes, sendRtmpMessages { outChunkSize := n } msgs = (s, some bytes) →
    bytes = (sentChunks n none msgs).flatMap (SentChunk.bytes n.toInt.toNat) ∧
      ∀ k ∈ sentChunks n none msgs, PresenceRule k

variable {c : ℕ}

theorem sendMessage_sent (hn : 0 < n.toInt) (m : RtmpMessage) (free pos : ℕ) (streams : SendStreams)
    (hok : (sendMessage n m free (m.usingData.length - pos : ℕ) pos streams).ok = true) :
    (sendMessage n m free (m.usingData.length - pos : ℕ) pos streams).bytes =
      (messageSent n.toInt.toNat m (chunkCount n (m.usingData.length - pos)) pos
        (streams m.chunkStreamId)).flatMap (SentChunk.bytes n.toInt.toNat) := by
  induction free generalizing pos streams with
  | zero =>
    rcases Nat.eq_zero_or_pos (m.usingData.length - pos) with h | h
    · rw [h, sendMessage_done m 0 pos streams (by omega), chunkCount_zero]
      rfl
    · rw [sendMessage, if_neg (by omega)] at hok
      cases hok
  | succ free ih =>
    rcases Nat.eq_zero_or_pos (m.usingData.length - pos) with h | h
    · rw [h, sendMessage_done m _ pos streams (by omega), chunkCount_zero]
      rfl
    · rw [sendMessage_step m free pos streams (by omega)] at hok ⊢
      rw [chunkCount_step hn h, messageSent, List.flatMap_cons]
      simp only [SentChunk.bytes, chunkBytes] at hok ⊢
      rcases Nat.lt_or_ge n.toInt.toNat (m.usingData.length - pos) with hlt | hge
      · have hsize : min n.toInt (m.usingData.length - pos : ℕ) = (n.toInt.toNat : ℤ) := by omega
        have hleft : ((m.usingData.length - pos : ℕ) : ℤ) - (n.toInt.toNat : ℤ) =
            (m.usingData.length - (pos + n.toInt.toNat) : ℕ) := by omega
        rw [hsize, hleft, Int.toNat_natCast] at hok ⊢
        rw [ih (pos + n.toInt.toNat) _ hok, update_self, Nat.min_eq_left hlt.le, Nat.sub_sub]
      · rw [sendMessage_done m free _ _ (by omega), Nat.min_eq_right hge, Nat.sub_self, chunkCount_zero,
          List.take_of_length_le (by rw [List.length_drop]; omega),
          List.take_of_length_le (by rw [List.length_drop]; omega)]
        rfl

theorem sendMessages_sent (hn : 0 < n.toInt) (msgs : List RtmpMessage) (hm : ∀ m ∈ msgs, Encodable c m)
    (free : ℕ) (streams : SendStreams) (hok : (sendMessages n msgs free streams).ok = true) :
    (sendMessages n msgs free streams).bytes =
      (sentChunks n (streams c) msgs).flatMap (SentChunk.bytes n.toInt.toNat) := by
  induction msgs generalizing free streams with
  | nil => rfl
  | cons m msgs ih =>
    have hem := hm m (List.mem_cons_self ..)
    have hcsid := hem.csid
    subst hcsid
    rw [sendMessages] at hok ⊢
    cases hmok : (sendMessage n m free m.usingData.length 0 streams).ok with
    | false =>
      rw [if_neg (by rw [hmok]; exact Bool.false_ne_true), hmok] at hok
      cases hok
    | true =>
      simp only [hmok, if_true] at hok ⊢
      have hpos := hem.length_pos
      rw [ih (fun m' h' ↦ hm m' (List.mem_cons_of_mem m h')) _ _ hok, sentChunks, List.flatMap_append,
        sendMessage_streams m free 0 streams (by omega) hmok, update_self]
      have hsent := sendMessage_sent hn m free 0 streams hmok
      rw [Nat.sub_zero] at hsent
      rw [hsent]

/-- `m` looks like the message `p` before it and is as far from it as the record
of `p` says, so that the sender starts it with a type-3 header. -/
def StartsWithType3 (n : BitVec 32) (p : RtmpMessage) (step : BitVec 32) (m : RtmpMessage) : Prop :=
  p.messageStreamId = m.messageStreamId ∧ p.messageTypeId = m.messageTypeId ∧
    p.usingData.length = m.usingData.length ∧
    (if (p.usingData.length : ℤ) ≤ n.toInt then step else 0) = m.timestamp - p.timestamp

/-- Where a message starts with a type-3 header, its distance from the message
before it needs an extended field exactly if its timestamp does. -/
def StartRule (n : BitVec 32) : Option (RtmpMessage × BitVec 32) → List RtmpMessage → Prop
  | _, [] => True
  | last, m :: ms =>
    (∀ p step, last = some (p, step) → StartsWithType3 n p step m →
      (0xffffff ≤ (m.timestamp - p.timestamp).toNat ↔ needsExtension m = true)) ∧
    StartRule n (some (m, stepFrom last m)) ms

theorem type3_header_ne_nil (prev : Option SendChunk) (m : RtmpMessage) :
    messageHeader .type3 prev m ≠ [] ↔ 0xffffff ≤ (wireDelta prev m).toNat := by
  simp only [messageHeader, extension]
  split
  · rename_i h
    exact ⟨fun _ ↦ h, fun _ he ↦ by cases he⟩
  · rename_i h
    simp [h]

theorem first_chunk_rule {last : Option (RtmpMessage × BitVec 32)} {prev : Option SendChunk}
    (hr : Recorded n last prev) (hm : Sendable m) (pos : ℕ) :
    PresenceRule ⟨prev, m, pos⟩ ↔
      ∀ p step, last = some (p, step) → StartsWithType3 n p step m →
        (0xffffff ≤ (m.timestamp - p.timestamp).toNat ↔ needsExtension m = true) := by
  unfold PresenceRule SentChunk.fmt
  simp only [type3_header_ne_nil]
  cases hr with
  | idle => exact ⟨fun _ p step h ↦ (by cases h), fun _ h ↦ (by cases h)⟩
  | @after p step q hq hp =>
    rw [starts_type3_iff hq hp hm]
    have hw : wireDelta (some q) m = m.timestamp - p.timestamp := by
      simp only [wireDelta, Option.elim_some, hq.message]
    rw [hw]
    constructor
    · rintro h p' step' ⟨⟩ hs
      exact h hs
    · intro h hs
      exact h p step rfl hs

theorem further_chunk_rule (hm : needsExtension m = false) (size chunks pos : ℕ) (prev : Option SendChunk) :
    ∀ k ∈ messageSent size m chunks pos (some (nextChunk prev m)), PresenceRule k := by
  induction chunks generalizing pos prev with
  | zero => exact fun k hk ↦ (by cases hk)
  | succ chunks ih =>
    intro k hk
    rw [messageSent] at hk
    rcases List.mem_cons.mp hk with rfl | hk
    · intro _
      rw [type3_header_ne_nil, wireDelta_continue, hm]
      decide
    · exact ih _ _ k hk

/-- Once every extended timestamp is in a message of one chunk, only the starts
of messages can break the rule. -/
theorem presenceRule_iff (hn : 0 < n.toInt) (msgs : List RtmpMessage) (hm : ∀ m ∈ msgs, Encodable c m)
    (hfit : ∀ m ∈ msgs, FitsOneChunk n m) {last : Option (RtmpMessage × BitVec 32)}
    {prev : Option SendChunk} (hr : Recorded n last prev) :
    (∀ k ∈ sentChunks n prev msgs, PresenceRule k) ↔ StartRule n last msgs := by
  induction msgs generalizing last prev with
  | nil => exact ⟨fun _ ↦ trivial, fun _ k hk ↦ (by cases hk)⟩
  | cons m msgs ih =>
    have hem := hm m (List.mem_cons_self ..)
    have hfm := hfit m (List.mem_cons_self ..)
    have hpos := hem.length_pos
    have hrest := ih (fun m' h' ↦ hm m' (List.mem_cons_of_mem m h'))
      (fun m' h' ↦ hfit m' (List.mem_cons_of_mem m h')) (.after (lastChunk_remembers hr m) hem.sendable)
    have hfurther : ∀ k ∈ messageSent n.toInt.toNat m
        (chunkCount n (m.usingData.length - min n.toInt.toNat m.usingData.length)) (0 + n.toInt.toNat)
        (some (nextChunk prev m)), PresenceRule k := by
      rcases Nat.lt_or_ge n.toInt.toNat m.usingData.length with hlt | hge
      · refine further_chunk_rule ?_ _ _ _ _
        cases hx : needsExtension m with
        | false => rfl
        | true =>
          have hle := hfm hx
          omega
      · rw [Nat.min_eq_right hge, Nat.sub_self, chunkCount_zero]
        exact fun k hk ↦ (by cases hk)
    rw [sentChunks, StartRule, ← hrest, ← first_chunk_rule hr hem.sendable 0, chunkCount_step hn hpos,
      messageSent, List.cons_append, List.forall_mem_cons, List.forall_mem_append]
    exact ⟨fun h ↦ ⟨h.1, h.2.2⟩, fun h ↦ ⟨h.1, hfurther, h.2⟩⟩

theorem sendRtmpMessages_ok {msgs : List RtmpMessage}
    (hok : (sendMessages n msgs 200 fun _ ↦ none).ok = true) :
    sendRtmpMessages { outChunkSize := n } msgs =
      (⟨n, (sendMessages n msgs 200 fun _ ↦ none).streams⟩,
        some (sendMessages n msgs 200 fun _ ↦ none).bytes) := by
  simp only [sendRtmpMessages, hok, if_true]

theorem senderObeys_iff (hn : 0 < n.toInt) {msgs : List RtmpMessage} (hm : ∀ m ∈ msgs, Encodable c m)
    (hfit : ∀ m ∈ msgs, FitsOneChunk n m) :
    SenderObeys n msgs ↔ (callChunks n msgs ≤ 200 → StartRule n none msgs) := by
  have hok := sendMessages_ok_iff hn msgs 200 (fun _ ↦ none)
  have hsent := sendMessages_sent hn msgs hm 200 (fun _ ↦ none)
  rw [← hok, ← presenceRule_iff hn msgs hm hfit .idle]
  constructor
  · intro h hgo
    exact (h _ _ (sendRtmpMessages_ok hgo)).2
  · intro h s bytes hs
    simp only [sendRtmpMessages, Prod.mk.injEq] at hs
    split at hs
    · rename_i hgo
      rw [← Option.some_inj.mp hs.2]
      exact ⟨hsent hgo, h hgo⟩
    · cases hs.2

end Send

section Exact

variable {c : ℕ}

/-- Both sides agree with the rule exactly if every message with an extended
timestamp has one chunk, and the messages that the sender starts with a type-3
header need the extension for their distance when they need it for their time. -/
theorem extended_timestamps_iff (record : σ → RtmpMessage → σ) (app : σ) (hn : 0 < n.toInt)
    (msgs : List RtmpMessage) (hm : ∀ m ∈ msgs, Encodable c m) :
    ((∀ msgs', msgs'.map shape = msgs.map shape → Delivers n record app msgs') ∧ SenderObeys n msgs) ↔
      (∀ m ∈ msgs, FitsOneChunk n m) ∧ (callChunks n msgs ≤ 200 → StartRule n none msgs) := by
  rw [delivers_iff record app hn hm]
  exact and_congr_right fun hfit ↦ senderObeys_iff hn hm hfit

def lateMessage (len : ℕ) : RtmpMessage where
  dataBytes := len
  usingData := List.replicate len 7
  fits := by rw [List.length_replicate]
  messageTypeId := 9
  timestamp := 0x1000000
  messageStreamId := 1
  chunkStreamId := 6

theorem lateMessage_encodable {len : ℕ} (hpos : 0 < len) (hlt : len < 2 ^ 20) :
    Encodable 6 (lateMessage len) where
  csid := rfl
  csid_low := by decide
  csid_high := by decide
  length_pos := by rwa [lateMessage, List.length_replicate]
  length_lt := by rwa [lateMessage, List.length_replicate]
  timestamp := show 0 ≤ (0x1000000 : BitVec 32).toInt by decide

theorem extended_timestamps_one_chunk :
    ((∀ msgs', msgs'.map shape = [lateMessage 2].map shape → Delivers 128 (fun k _ ↦ k + 1) 0 msgs') ∧
        SenderObeys 128 [lateMessage 2]) ↔
      (∀ m ∈ [lateMessage 2], FitsOneChunk 128 m) ∧
        (callChunks 128 [lateMessage 2] ≤ 200 → StartRule 128 none [lateMessage 2]) :=
  extended_timestamps_iff _ 0 (by decide) _
    (List.forall_mem_singleton.mpr (lateMessage_encodable (by decide) (by decide)))

/-- The receiver takes the extended timestamp of the second chunk for payload,
and the sender does not write it. -/
theorem extended_timestamps_two_chunks :
    Encodable 6 (lateMessage 130) ∧
    ¬ Delivers 128 (fun k _ ↦ k + 1) 0 [lateMessage 130] ∧ ¬ SenderObeys 128 [lateMessage 130] := by
  have hem : Encodable 6 (lateMessage 130) := lateMessage_encodable (by decide) (by decide)
  refine ⟨hem, ?_, ?_⟩
  · have hext : ruleExtension (lateMessage 130) = [1, 0, 0, 0] := by decide +kernel
    have hno : ¬ Delivers 128 (fun k _ ↦ k + 1) 0 ([] ++ lateMessage 130 :: []) :=
      not_delivers (c := 6) _ 0 (by decide) (by simp) (by simp) hem (by decide +kernel) hext
        (by decide +kernel)
    exact hno
  · intro h
    have hk : sentChunks 128 none [lateMessage 130] = [⟨none, lateMessage 130, 0⟩,
        ⟨some (nextChunk none (lateMessage 130)), lateMessage 130, 128⟩] := by
      have hc : chunkCount 128 (lateMessage 130).usingData.length = 2 := by decide +kernel
      simp only [sentChunks, hc, messageSent]
      rfl
    have hok := (sendMessages_ok_iff (show 0 < (128 : BitVec 32).toInt by decide) [lateMessage 130] 200
      fun _ ↦ none).mpr (by decide +kernel)
    have hrule := (h _ _ (sendRtmpMessages_ok hok)).2
      ⟨some (nextChunk none (lateMessage 130)), lateMessage 130, 128⟩ (by rw [hk]; simp)
    exact (hrule (chooseFmt_again _)).mpr (by decide +kernel) (messageHeader_again _)

end Exact

end MmsServer.Rtmp.ExtendedTimestamp
