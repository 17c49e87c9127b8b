import MmsServer.SdpFormat.Session

namespace MmsServer.SdpFormat.RoundTrip

open Lib.ByteReader Lib.Checked Lib.KeyedList Lib.Text Attributes MediaSection Session

def Plain (t : Bytes) : Prop := ∀ b ∈ t, b ≠ 32 ∧ b ≠ 10 ∧ b ≠ 13

structure PlainOrigin (o : Origin) : Prop where
  username : Plain o.username
  nettype : Plain o.nettype
  addrtype : Plain o.addrtype
  unicastAddress : Plain o.unicastAddress

structure PlainPayload (p : Payload) : Prop where
  encodingName : Plain p.encodingName
  encodingParams : ∀ t ∈ p.encodingParams, Plain t
  rtcpFbs : ∀ f ∈ p.rtcpFbs, Plain f.fbVal ∧ Plain f.fbParam
  fmtps : ∀ e ∈ p.fmtps, ∀ q ∈ e.2.fmtParams, Plain q.1 ∧ Plain q.2

structure PlainCandidate (c : Candidate) : Prop where
  foundation : Plain c.foundation
  transport : Plain c.transport
  address : Plain c.address
  relAddr : Plain c.relAddr
  exts : ∀ e ∈ c.exts, Plain e.1 ∧ Plain e.2

/-- A media section as the server makes it. -/
structure BuiltMedia (m : MediaSdp) : Prop where
  media : Plain m.media
  proto : Plain m.proto
  fmts : m.fmts ≠ []
  payloads : ∀ e ∈ m.payloads, e.1 = e.2.payloadType ∧ PlainPayload e.2
  mid : ∀ t ∈ m.mid, Plain t
  candidates : ∀ c ∈ m.candidates, PlainCandidate c

structure Built (s : Sdp) : Prop where
  origin : PlainOrigin s.origin
  sessionName : Plain s.sessionName
  iceUfrag : ∀ t ∈ s.iceUfrag, Plain t
  icePwd : ∀ t ∈ s.icePwd, Plain t
  mediaSdps : ∀ m ∈ s.mediaSdps, BuiltMedia m

def rtpmap (p : Payload) : BitVec 32 × Bytes × BitVec 32 × List Bytes :=
  (p.payloadType, p.encodingName, p.clockRate, p.encodingParams)

def fmtpParam (m : MediaSdp) (pt : BitVec 32) (k : Bytes) : Option Bytes :=
  ((m.payloads.lookup pt).bind fun p ↦ p.fmtps.lookup pt).bind fun f ↦ f.fmtParams.lookup k

structure SameMedia (m m' : MediaSdp) : Prop where
  media : m'.media = m.media
  port : m'.port = m.port
  proto : m'.proto = m.proto
  fmts : m'.fmts = m.fmts
  rtpmaps : ∀ pt, (m'.payloads.lookup pt).map rtpmap = (m.payloads.lookup pt).map rtpmap
  fmtps : ∀ pt k, fmtpParam m' pt k = fmtpParam m pt k

/-- The text of a description, read into an object without sections, gives it back. -/
def RoundTrips (mem : ℕ → Garbage) (fresh s : Sdp) : Prop :=
  ∃ s', Sdp.parse mem fresh s.toString = .ok s' ∧ s'.origin = s.origin ∧
    s'.iceUfrag = s.iceUfrag ∧ s'.icePwd = s.icePwd ∧
    List.Forall₂ SameMedia s.mediaSdps s'.mediaSdps

section Origin

variable {o : Origin} {s : Sdp} {sep : UInt8}

theorem plain_decimal (n : ℕ) : Plain (decimal n) := by
  intro b hb
  obtain ⟨c, hc, rfl⟩ := List.mem_map.mp hb
  have hdigit := Nat.isDigit_of_mem_toDigits (by decide) (by decide) hc
  rw [Char.isDigit, Bool.and_eq_true, decide_eq_true_iff, decide_eq_true_iff] at hdigit
  obtain ⟨hlo, hhi⟩ := hdigit
  have hlo' : 48 ≤ c.toNat := hlo
  have hhi' : c.toNat ≤ 57 := hhi
  have hnat : (UInt8.ofNat c.toNat).toNat = c.toNat := by
    rw [UInt8.toNat_ofNat']
    exact Nat.mod_eq_of_lt (by omega)
  refine ⟨?_, ?_, ?_⟩
  all_goals
    intro h
    rw [h] at hnat
    simp only [UInt8.reduceToNat] at hnat
    omega

theorem plain_decimalInt (v : ℤ) : Plain (decimalInt v) := by
  cases v with
  | ofNat n => exact plain_decimal n
  | negSucc n => exact List.forall_mem_cons.mpr ⟨by decide, plain_decimal (n + 1)⟩

def originFields (o : Origin) : List Bytes :=
  [o.username, decimal o.sessionId.toNat, decimal o.sessionVersion.toNat, o.nettype, o.addrtype,
    o.unicastAddress]

theorem plain_originFields (h : PlainOrigin o) : ∀ t ∈ originFields o, Plain t := by
  simp only [originFields, List.forall_mem_cons, List.not_mem_nil, false_implies, implies_true,
    and_true]
  exact ⟨h.username, plain_decimal _, plain_decimal _, h.nettype, h.addrtype, h.unicastAddress⟩

theorem origin_toString : o.toString = Origin.pfx ++ ([32].intercalate (originFields o) ++ [10]) := by
  simp only [Origin.toString, originFields, endl, ascii, List.intercalate, List.intersperse,
    List.flatten_cons, List.flatten_nil, List.append_assoc, List.append_nil]
  rfl

/-- The parser takes the last letter of the line for a line end. -/
theorem validString_plain {pfx body : Bytes} (h : 13 ∉ body) :
    validString pfx (pfx ++ body) = body.dropLast := by
  rw [validString, List.drop_left, chop, if_neg h]

theorem not_mem_intercalate {ls : List Bytes} {b : UInt8} (hsep : b ≠ sep) (h : ∀ l ∈ ls, b ∉ l) :
    b ∉ [sep].intercalate ls := by
  induction ls with
  | nil => exact List.not_mem_nil
  | cons l ls ih =>
    obtain ⟨hl, hls⟩ := List.forall_mem_cons.mp h
    cases ls with
    | nil =>
      rw [List.intercalate_singleton]
      exact hl
    | cons l' ls =>
      rw [List.intercalate_cons_cons, List.mem_append, List.mem_append, List.mem_singleton]
      rintro ((hb | hb) | hb)
      · exact hl hb
      · exact hsep hb
      · exact ih hls hb

theorem intercalate_concat {ls : List Bytes} (hls : ls ≠ []) (t : Bytes) :
    [sep].intercalate (ls ++ [t]) = [sep].intercalate ls ++ sep :: t := by
  induction ls with
  | nil => exact absurd rfl hls
  | cons l ls ih =>
    cases ls with
    | nil =>
      rw [List.singleton_append, List.intercalate_cons_cons, List.intercalate_singleton,
        List.intercalate_singleton, List.append_assoc]
      rfl
    | cons l' ls =>
      rw [List.cons_append, List.cons_append, List.intercalate_cons_cons, ← List.cons_append,
        ih (List.cons_ne_nil l' ls), List.intercalate_cons_cons, List.append_assoc, List.append_assoc,
        List.append_assoc]

/-- Without its last letter a line has lost its last field, or that field its last letter. -/
theorem dropLast_intercalate {ls : List Bytes} (hls : ls ≠ []) (t : Bytes) :
    ([sep].intercalate (ls ++ [t])).dropLast =
      [sep].intercalate (if t = [] then ls else ls ++ [t.dropLast]) := by
  rw [intercalate_concat hls]
  split
  · rename_i ht
    rw [ht]
    exact List.dropLast_concat
  · rename_i ht
    rw [intercalate_concat hls, List.dropLast_append_of_ne_nil (List.cons_ne_nil sep t),
      List.dropLast_cons_of_ne_nil ht]

theorem parse_origin_line (h : PlainOrigin o) {o' : Origin}
    (hparse : Origin.parse (Origin.pfx ++ [32].intercalate (originFields o)) = some o') : o' ≠ o := by
  have hplain := plain_originFields h
  have hreturn : 13 ∉ [32].intercalate (originFields o) :=
    not_mem_intercalate (by decide) fun t ht hb ↦ (hplain t ht 13 hb).2.2 rfl
  have hspace : ∀ t ∈ originFields o, (32 : UInt8) ∉ t := fun t ht hb ↦ (hplain t ht 32 hb).1 rfl
  obtain ⟨fields, hfields, hne, hlast⟩ : ∃ fields : List Bytes,
      originFields o = fields ++ [o.unicastAddress] ∧ fields ≠ [] ∧ fields.length = 5 :=
    ⟨[o.username, decimal o.sessionId.toNat, decimal o.sessionVersion.toNat, o.nettype, o.addrtype],
      rfl, List.cons_ne_nil _ _, rfl⟩
  rw [Origin.parse, validString_plain hreturn, hfields, dropLast_intercalate hne] at hparse
  rw [hfields, List.forall_mem_append, List.forall_mem_singleton] at hspace
  obtain ⟨hspace, haddr⟩ := hspace
  by_cases ht : o.unicastAddress = []
  · rw [if_pos ht, Attributes.split, List.splitOn_intercalate 32 hspace hne] at hparse
    split at hparse
    · cases hlast
    · cases hparse
  · have hspace' : ∀ t ∈ fields ++ [o.unicastAddress.dropLast], (32 : UInt8) ∉ t :=
      List.forall_mem_append.mpr ⟨hspace, List.forall_mem_singleton.mpr fun hb ↦
        haddr (List.dropLast_subset _ hb)⟩
    rw [if_neg ht, Attributes.split,
      List.splitOn_intercalate 32 hspace' (List.append_ne_nil_of_left_ne_nil hne _)] at hparse
    rintro rfl
    split at hparse
    · rename_i u i v n a t hsplit
      have ht' : t = o'.unicastAddress.dropLast := by
        have := congrArg List.getLast? hsplit
        rw [List.getLast?_concat] at this
        exact (Option.some_inj.mp this).symm
      have := congrArg Origin.unicastAddress (Option.some_inj.mp hparse)
      have hlen := congrArg List.length (ht'.symm.trans this)
      rw [List.length_dropLast] at hlen
      have := List.length_pos_iff.mpr ht
      omega
    · cases hparse

theorem toString_lines (s : Sdp) : ∃ more, s.toString =
    ProtocolVersion.pfx ++ decimalInt s.protocolVersion.toInt ++
      10 :: (Origin.pfx ++ [32].intercalate (originFields s.origin) ++ 10 :: more) := by
  rw [Sdp.toString, ProtocolVersion.toString, origin_toString, endl]
  simp only [List.append_assoc, List.cons_append, List.nil_append]
  exact ⟨_, rfl⟩

/-- The address of the origin comes back without its last letter, so that no description
that the server builds comes back as it was. -/
theorem built_not_roundTrips (mem : ℕ → Garbage) (fresh s : Sdp) (h : Built s) :
    ¬ RoundTrips mem fresh s := by
  rintro ⟨s', hparse, horigin, -⟩
  obtain ⟨v, o, rest, hsplit, ho⟩ := parse_origin hparse
  obtain ⟨more, hmore⟩ := toString_lines s
  have hplain := plain_originFields h.origin
  have hversion : (10 : UInt8) ∉ ProtocolVersion.pfx ++ decimalInt s.protocolVersion.toInt := by
    rw [List.mem_append, not_or]
    exact ⟨by decide, fun hb ↦ (plain_decimalInt _ 10 hb).2.1 rfl⟩
  have hline : (10 : UInt8) ∉ Origin.pfx ++ [32].intercalate (originFields s.origin) := by
    rw [List.mem_append, not_or]
    exact ⟨by decide, not_mem_intercalate (by decide) fun t ht hb ↦ (hplain t ht 10 hb).2.1 rfl⟩
  rw [hmore, Attributes.split, List.splitOn_append_cons_self_of_not_mem hversion,
    List.splitOn_append_cons_self_of_not_mem hline, List.cons.injEq, List.cons.injEq] at hsplit
  rw [← hsplit.2.1] at ho
  exact parse_origin_line h.origin ho horigin

def answer : Sdp where
  protocolVersion := 0
  origin := ⟨ascii "-", 7, 1, ascii "IN", ascii "IP4", ascii "127.0.0.1"⟩
  sessionName := ascii "-"
  iceUfrag := some (ascii "zV6U")
  icePwd := some (ascii "aM/wRMqaSFysiElHwmg+xFEO")
  mediaSdps := [{
    media := ascii "audio"
    port := 9
    portCount := 0
    proto := ascii "UDP/TLS/RTP/SAVPF"
    fmts := [111]
    currPt := 0
    payloads := [(111, {
      payloadType := 111
      encodingName := ascii "OPUS"
      clockRate := 48000
      encodingParams := [ascii "2"]
      fmtps := [(111, ⟨111, [(ascii "minptime", ascii "10")]⟩)] })]
    dir := some .recvonly
    mid := some (ascii "0") }]

theorem plain_of_all {t : Bytes} (h : t.all fun b ↦ b != 32 && (b != 10 && b != 13)) : Plain t := by
  intro b hb
  have := List.all_eq_true.mp h b hb
  simpa only [Bool.and_eq_true, bne_iff_ne] using this

theorem built_answer : Built answer where
  origin := ⟨plain_of_all (by decide), plain_of_all (by decide), plain_of_all (by decide),
    plain_of_all (by decide)⟩
  sessionName := plain_of_all (by decide)
  iceUfrag t ht := by
    cases ht
    exact plain_of_all (by decide)
  icePwd t ht := by
    cases ht
    exact plain_of_all (by decide)
  mediaSdps m hm := by
    rw [List.mem_singleton.mp hm]
    exact {
      media := plain_of_all (by decide)
      proto := plain_of_all (by decide)
      fmts := List.cons_ne_nil _ _
      payloads e he := by
        rw [List.mem_singleton.mp he]
        exact ⟨rfl, {
          encodingName := plain_of_all (by decide)
          encodingParams := List.forall_mem_singleton.mpr (plain_of_all (by decide))
          rtcpFbs _ hf := by cases hf
          fmtps := List.forall_mem_singleton.mpr (List.forall_mem_singleton.mpr
            ⟨plain_of_all (by decide), plain_of_all (by decide)⟩) }⟩
      mid t ht := by
        cases ht
        exact plain_of_all (by decide)
      candidates c hc := by cases hc }

theorem answer_not_roundTrips : ¬ RoundTrips (fun _ ↦ ⟨0, 0, 0, id⟩) { answer with mediaSdps := [] }
    answer := built_not_roundTrips _ _ answer built_answer

/-- The text of the version is gone when its line ends in its only digit. -/
theorem answer_rejected : ¬ ∀ mem fresh s, fresh.mediaSdps = [] → Built s →
    RoundTrips mem fresh s := by
  intro h
  let mem : ℕ → Garbage := fun _ ↦ ⟨0, 0, 0, id⟩
  let fresh : Sdp := { answer with mediaSdps := [] }
  obtain ⟨s', hparse, -⟩ := h mem fresh answer rfl built_answer
  have herr : Sdp.parse mem fresh answer.toString = .err (-2) := rfl
  rw [herr] at hparse
  cases hparse

end Origin

end MmsServer.SdpFormat.RoundTrip
