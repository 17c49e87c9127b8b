import MmsServer.Stun.Integrity
import MmsServer.Webrtc.Server

namespace MmsServer.Webrtc.Binding

open Function Lib.ByteReader Lib.Checked Lib.MirrorMap Stun.Attr Stun.Msg Stun.Integrity Webrtc.Server

theorem getEndpointHash_injective : Injective getEndpointHash := by
  intro ep ep' h
  have hport : ep.port = ep'.port := by
    apply BitVec.eq_of_getLsbD_eq
    intro i hi
    have hb := congrArg (BitVec.getLsbD · i) h
    simpa [getEndpointHash, show i < 64 by omega, show i < 32 by omega] using hb
  have haddress : ep.address = ep'.address := by
    apply BitVec.eq_of_getLsbD_eq
    intro i hi
    have hb := congrArg (BitVec.getLsbD · (i + 32)) h
    have hz : ∀ p : BitVec 16, p.getLsbD (i + 32) = false := fun p ↦
      BitVec.getLsbD_of_ge p _ (by omega)
    simpa [getEndpointHash, show i + 32 < 64 by omega, hz] using hb
  obtain ⟨address, port⟩ := ep
  obtain ⟨address', port'⟩ := ep'
  cases hport
  cases haddress
  rfl

structure Names (server : WebRtcServer) (fuel : ℕ) (data : Bytes) (stunMsg : StunMsg) (s : ℕ)
    (localUserName : Bytes) (session : WebRtcServerSession) : Prop where
  stun : detectMsgType data = .ok .stun
  decoded : StunMsg.decode fuel data = some (.ok stunMsg)
  found : server.findSession stunMsg = some (s, localUserName)
  session : server.sessions s = some session

theorem Names.unique {server : WebRtcServer} {fuel : ℕ} {data : Bytes} {stunMsg stunMsg' : StunMsg}
    {s s' : ℕ} {localUserName localUserName' : Bytes} {session session' : WebRtcServerSession}
    (h : Names server fuel data stunMsg s localUserName session)
    (h' : Names server fuel data stunMsg' s' localUserName' session') :
    stunMsg = stunMsg' ∧ s = s' ∧ localUserName = localUserName' ∧ session = session' := by
  have hd := h.decoded.symm.trans h'.decoded
  cases hd
  have hf := h.found.symm.trans h'.found
  cases hf
  have hs := h.session.symm.trans h'.session
  cases hs
  exact ⟨rfl, rfl, rfl, rfl⟩

theorem findSession_eq_some {server : WebRtcServer} {stunMsg : StunMsg} {s : ℕ}
    {localUserName : Bytes} (h : server.findSession stunMsg = some (s, localUserName)) :
    server.ufragSessionMap localUserName = some s := by
  unfold WebRtcServer.findSession at h
  split at h
  · cases h
  · split at h
    · cases h
    · rw [Option.map_eq_some_iff] at h
      obtain ⟨s', hs, heq⟩ := h
      cases heq
      exact hs

/-- A datagram leaves the server as it is, or its source is bound to the session
that it names. -/
theorem recv_cases {D : Digests} {server server' : WebRtcServer} {fuel : ℕ} {data : Bytes}
    {remoteEp : Endpoint} {sent : Bool}
    (h : server.onUdpSocketRecv D fuel data remoteEp sent = some (.ok server')) :
    server' = server ∨ ∃ stunMsg s localUserName session ret,
      Names server fuel data stunMsg s localUserName session ∧
      session.processStunPacket D stunMsg data remoteEp sent = .ok ret ∧
      server' = { server.bindEndpoint s remoteEp with
        accepted := if ret then ⟨remoteEp, s, localUserName⟩ :: server.accepted
          else server.accepted } := by
  unfold WebRtcServer.onUdpSocketRecv at h
  split at h
  · rename_i hstun
    rw [Option.map_eq_some_iff] at h
    obtain ⟨o, hdec, ho⟩ := h
    cases o with
    | err code =>
      cases ho
      exact .inl rfl
    | fault f => cases ho
    | ok stunMsg =>
      obtain ⟨⟨server₁, ret⟩, hp, heq⟩ := Outcome.bind_eq_ok.mp ho
      cases heq
      unfold WebRtcServer.processStunPacket at hp
      split at hp
      · cases hp
        exact .inl rfl
      · rename_i s localUserName hfind
        split at hp
        · cases hp
        · rename_i session hs
          obtain ⟨ret', hret, hr⟩ := Outcome.bind_eq_ok.mp hp
          refine .inr ⟨stunMsg, s, localUserName, session, ret', ⟨hstun, hdec, hfind, hs⟩, hret, ?_⟩
          cases ret' with
          | false =>
            cases hr
            rfl
          | true =>
            cases hr
            rfl
  · cases h
    exact .inl rfl
  · cases h
  · cases h

inductive Run (D : Digests) (meets : WebRtcServer → Event → Prop) : WebRtcServer → Prop
  | init : Run D meets {}
  | step {server server' : WebRtcServer} {event : Event} : Run D meets server →
      meets server event → Step D server event server' → Run D meets server'

def Named (server : WebRtcServer) : Prop :=
  ∀ u s, server.ufragSessionMap u = some s →
    ∃ session, server.sessions s = some session ∧ session.localIceUfrag = u

theorem step_sessions {D : Digests} {server server' : WebRtcServer} {event : Event}
    (h : Step D server event server') {s : ℕ} {session : WebRtcServerSession}
    (hs : server.sessions s = some session) :
    ∃ session', server'.sessions s = some session' ∧
      session'.localIceUfrag = session.localIceUfrag := by
  cases h with
  | whip hnew =>
    rename_i s' _ _
    have hne : s ≠ s' := by
      rintro rfl
      rw [hnew] at hs
      cases hs
    exact ⟨session, (update_of_ne hne ..).trans hs, rfl⟩
  | sdp hs' =>
    rename_i s' session' _
    obtain rfl | hne := eq_or_ne s s'
    · rw [hs] at hs'
      cases hs'
      exact ⟨_, update_self .., rfl⟩
    · exact ⟨session, (update_of_ne hne ..).trans hs, rfl⟩
  | recv hr =>
    obtain rfl | ⟨_, _, _, _, _, _, _, rfl⟩ := recv_cases hr
    · exact ⟨session, hs, rfl⟩
    · exact ⟨session, hs, rfl⟩
  | close hs' hc =>
    rename_i s' session'
    obtain rfl | hne := eq_or_ne s s'
    · rw [hs] at hs'
      cases hs'
      exact ⟨_, update_self .., rfl⟩
    · exact ⟨session, (update_of_ne hne ..).trans hs, rfl⟩

/-- A name in the map was there before or is the one of a new session. -/
theorem step_ufragSessionMap {D : Digests} {server server' : WebRtcServer} {event : Event}
    (h : Step D server event server') {u : Bytes} {s : ℕ}
    (hu : server'.ufragSessionMap u = some s) :
    server.ufragSessionMap u = some s ∨ ∃ pwd, event = .whip s u pwd := by
  cases h with
  | whip _ =>
    obtain hm | ⟨-, rfl, rfl⟩ := insertNew_eq_some hu
    · exact .inl hm
    · exact .inr ⟨_, rfl⟩
  | sdp _ => exact .inl hu
  | recv hr =>
    obtain rfl | ⟨_, _, _, _, _, _, _, rfl⟩ := recv_cases hr
    · exact .inl hu
    · exact .inl hu
  | close _ _ => exact .inl (erase_eq_some.mp hu).2

theorem Named.step {D : Digests} {server server' : WebRtcServer} {event : Event}
    (h : Named server) (hst : Step D server event server') : Named server' := by
  intro u s hu
  obtain hm | ⟨pwd, rfl⟩ := step_ufragSessionMap hst hu
  · obtain ⟨session, hs, rfl⟩ := h u s hm
    exact step_sessions hst hs
  · cases hst with
    | whip _ => exact ⟨_, update_self .., rfl⟩

theorem run_named {D : Digests} {meets : WebRtcServer → Event → Prop} {server : WebRtcServer}
    (h : Run D meets server) : Named server := by
  induction h with
  | init =>
    intro u s hu
    cases hu
  | step _ _ hst ih => exact ih.step hst

/-- An endpoint is bound to a session only behind a request that the session has
accepted. -/
def Authenticated (server : WebRtcServer) : Prop :=
  ∀ remoteEp s, server.endpointSessionMap (getEndpointHash remoteEp) = some s →
    ∃ session, server.sessions s = some session ∧
      ⟨remoteEp, s, session.localIceUfrag⟩ ∈ server.accepted

def Answers (D : Digests) (server : WebRtcServer) (ret : Bool) : Event → Prop
  | .recv fuel data remoteEp sent => ∃ stunMsg s localUserName session,
      Names server fuel data stunMsg s localUserName session ∧
        session.processStunPacket D stunMsg data remoteEp sent = .ok ret
  | _ => False

def NotRefused (D : Digests) (server : WebRtcServer) (event : Event) : Prop :=
  ¬ Answers D server false event

theorem recv_of_names {D : Digests} {server : WebRtcServer} {fuel : ℕ} {data : Bytes}
    {stunMsg : StunMsg} {s : ℕ} {localUserName : Bytes} {session : WebRtcServerSession}
    {remoteEp : Endpoint} {sent ret : Bool}
    (hn : Names server fuel data stunMsg s localUserName session)
    (hret : session.processStunPacket D stunMsg data remoteEp sent = .ok ret) :
    server.onUdpSocketRecv D fuel data remoteEp sent =
      some (.ok { server.bindEndpoint s remoteEp with
        accepted := if ret then ⟨remoteEp, s, localUserName⟩ :: server.accepted
          else server.accepted }) := by
  simp only [WebRtcServer.onUdpSocketRecv, hn.stun, hn.decoded, Option.map_some,
    WebRtcServer.processStunPacket, hn.found, hn.session, hret, Outcome.ok_bind]
  cases ret with
  | false => rfl
  | true => rfl

/-- A refused request always leaves its mark. -/
theorem refused_changes {D : Digests} {server server' : WebRtcServer} {event : Event}
    (h : Step D server event server') (hr : Answers D server false event) :
    server'.sessionEndpointMap ≠ server.sessionEndpointMap := by
  cases h with
  | whip _ => exact hr.elim
  | sdp _ => exact hr.elim
  | close _ _ => exact hr.elim
  | recv h =>
    obtain ⟨stunMsg, s, localUserName, session, hn, hret⟩ := hr
    rw [recv_of_names hn hret] at h
    cases h
    exact List.cons_ne_self _ _

theorem Authenticated.step {D : Digests} {server server' : WebRtcServer} {event : Event}
    (h : Authenticated server) (hnamed : Named server) (hok : NotRefused D server event)
    (hst : Step D server event server') : Authenticated server' := by
  intro remoteEp s hs
  have hkeep : ∀ {server'}, Step D server event server' →
      server.endpointSessionMap (getEndpointHash remoteEp) = some s →
      (∀ b ∈ server.accepted, b ∈ server'.accepted) →
      ∃ session, server'.sessions s = some session ∧
        ⟨remoteEp, s, session.localIceUfrag⟩ ∈ server'.accepted := by
    intro server' hst hm hsub
    obtain ⟨session, hses, hacc⟩ := h remoteEp s hm
    obtain ⟨session', hses', heq⟩ := step_sessions hst hses
    exact ⟨session', hses', by rw [heq]; exact hsub _ hacc⟩
  cases hst with
  | whip hnew => exact hkeep (.whip hnew) hs fun _ hb ↦ hb
  | sdp hses => exact hkeep (.sdp hses) hs fun _ hb ↦ hb
  | close hses hc =>
    refine hkeep (.close hses hc) ?_ fun _ hb ↦ hb
    have hk : eraseAll server.endpointSessionMap _ _ = _ := hs
    rw [eraseAll_apply] at hk
    split at hk
    · cases hk
    · exact hk
  | recv hrecv =>
    obtain rfl | ⟨stunMsg, s', localUserName, session, ret, hn, hret, rfl⟩ := recv_cases hrecv
    · exact h remoteEp s hs
    · cases ret with
      | false => exact absurd ⟨stunMsg, s', localUserName, session, hn, hret⟩ hok
      | true =>
        obtain hm | ⟨-, heq, rfl⟩ := insertNew_eq_some hs
        · exact hkeep (.recv hrecv) hm fun _ hb ↦ List.mem_cons_of_mem _ hb
        · have hep := getEndpointHash_injective heq
          obtain ⟨session', hses, hname⟩ := hnamed _ _ (findSession_eq_some hn.found)
          refine ⟨session', hses, ?_⟩
          rw [hname, hep]
          exact List.mem_cons_self

/-- In a run in which no session refuses a request that names it, every bound
endpoint has been accepted. A request that its session refuses never leaves the
maps as they were. -/
theorem authenticated_of_notRefused {D : Digests} {server : WebRtcServer}
    (h : Run D (NotRefused D) server) :
    Authenticated server ∧
      ∀ event server', Step D server event server' →
        ((Answers D server false event →
            server'.endpointSessionMap = server.endpointSessionMap ∧
              server'.sessionEndpointMap = server.sessionEndpointMap) ↔
          NotRefused D server event) := by
  constructor
  · induction h with
    | init =>
      intro remoteEp s hs
      cases hs
    | step hrun hok hst ih => exact ih.step (run_named hrun) hok hst
  · intro event server' hst
    constructor
    · intro hkeep hr
      exact refused_changes hst hr (hkeep hr).2
    · intro hok hr
      exact absurd hr hok

def sampleRequest (hmacSha1 : Bytes) : Bytes :=
  sampleHeader 40 ++ usernameBytes ++ [0, 8, 0, 20] ++ hmacSha1

def requestMsg (hmacSha1 : Bytes) : StunMsg where
  header := sampleMsg.header
  usernameAttr := some ⟨[97, 98, 99, 100], [101, 102, 103, 104]⟩
  msgIntegrityAttr := some hmacSha1

def sampleEp : Endpoint := ⟨0x0a000001#32, 5000#16⟩

def sampleSession (remoteIceUfrag : Bytes) : WebRtcServerSession where
  localIceUfrag := [97, 98, 99, 100]
  localIcePwd := [112, 119, 100]
  remoteIceUfrag := remoteIceUfrag

def sampleServer : WebRtcServer :=
  (({} : WebRtcServer).onWhip 0 [97, 98, 99, 100] [112, 119, 100]).setRemoteIceUfrag 0
    (sampleSession []) [101, 102, 103, 104]

theorem sampleServer_run (D : Digests) {meets : WebRtcServer → Event → Prop}
    (hw : ∀ server s ufrag pwd, meets server (.whip s ufrag pwd))
    (hs : ∀ server s ufrag, meets server (.sdp s ufrag)) : Run D meets sampleServer :=
  .step (.step .init (hw ..) (.whip rfl)) (hs ..) (.sdp rfl)

theorem sampleServer_names (hmacSha1 : Bytes)
    (h : StunMsg.decode 2 (sampleRequest hmacSha1) = some (.ok (requestMsg hmacSha1))) :
    Names sampleServer 2 (sampleRequest hmacSha1) (requestMsg hmacSha1) 0 [97, 98, 99, 100]
      (sampleSession [101, 102, 103, 104]) :=
  ⟨rfl, h, rfl, rfl⟩

theorem authenticated_of_notRefused_sample :
    ∃ server : WebRtcServer, server.endpointSessionMap (getEndpointHash sampleEp) = some 0 ∧
      Authenticated server := by
  have hn := sampleServer_names requestHmac (by decide +kernel)
  have hret : (sampleSession [101, 102, 103, 104]).processStunPacket sampleDigests
      (requestMsg requestHmac) (sampleRequest requestHmac) sampleEp true = .ok true := by
    decide +kernel
  have hrun : Run sampleDigests (NotRefused sampleDigests) sampleServer :=
    sampleServer_run _ (fun _ _ _ _ hr ↦ hr) (fun _ _ _ hr ↦ hr)
  refine ⟨_, rfl, (authenticated_of_notRefused
    (.step hrun ?_ (.recv (recv_of_names hn hret)))).1⟩
  rintro ⟨stunMsg, s, localUserName, session, hn', hret'⟩
  obtain ⟨rfl, rfl, rfl, rfl⟩ := hn.unique hn'
  rw [hret] at hret'
  cases hret'

/-- A request with a wrong MESSAGE-INTEGRITY. -/
theorem authenticated_fails :
    ∃ server, Run sampleDigests (fun _ _ ↦ True) server ∧ ¬ Authenticated server := by
  have hn := sampleServer_names (List.replicate 20 0) (by decide +kernel)
  have hret : (sampleSession [101, 102, 103, 104]).processStunPacket sampleDigests
      (requestMsg (List.replicate 20 0)) (sampleRequest (List.replicate 20 0)) sampleEp true =
        .ok false := by
    decide +kernel
  refine ⟨_, .step (sampleServer_run _ (fun _ _ _ _ ↦ trivial) fun _ _ _ ↦ trivial) trivial
    (.recv (recv_of_names hn hret)), fun h ↦ ?_⟩
  obtain ⟨session, -, hacc⟩ := h sampleEp 0 rfl
  cases hacc

end MmsServer.Webrtc.Binding
