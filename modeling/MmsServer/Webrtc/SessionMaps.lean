import MmsServer.Webrtc.Binding

namespace MmsServer.Webrtc.SessionMaps

open Function Lib.ByteReader Lib.Checked Lib.MirrorMap Stun.Msg Stun.Integrity Webrtc.Server
  Webrtc.Binding

/-- The two endpoint maps say the same, and closing a session takes away the
entries of this session and no others. -/
def MapsConsistent (D : Digests) (server : WebRtcServer) : Prop :=
  Mirrors server.endpointSessionMap server.sessionEndpointMap ∧
    ∀ s server', Step D server (.close s) server' →
      (∀ u, server'.ufragSessionMap u =
        if server.ufragSessionMap u = some s then none else server.ufragSessionMap u) ∧
      ∀ k, server'.endpointSessionMap k =
        if server.endpointSessionMap k = some s then none else server.endpointSessionMap k

/-- A new session draws a name that is not registered, and a request comes from
an endpoint that is not bound to another session than the one it names. -/
def KeysFree (server : WebRtcServer) : Event → Prop
  | .whip _ ufrag _ => server.ufragSessionMap ufrag = none
  | .recv fuel data remoteEp _ => ∀ stunMsg s localUserName session,
      Names server fuel data stunMsg s localUserName session →
        server.endpointSessionMap (getEndpointHash remoteEp) = none ∨
          server.endpointSessionMap (getEndpointHash remoteEp) = some s
  | _ => True

def Registered (server : WebRtcServer) : Prop :=
  ∀ s session, server.sessions s = some session → session.closed = false →
    server.ufragSessionMap session.localIceUfrag = some s

variable {D : Digests} {server server' : WebRtcServer} {event : Event}

theorem mirrors_step (h : Mirrors server.endpointSessionMap server.sessionEndpointMap)
    (hfree : KeysFree server event) (hst : Step D server event server') :
    Mirrors server'.endpointSessionMap server'.sessionEndpointMap := by
  cases hst with
  | whip _ => exact h
  | sdp _ => exact h
  | close _ _ => exact h.eraseValue _
  | recv hr =>
    obtain rfl | ⟨stunMsg, s, localUserName, session, ret, hn, -, rfl⟩ := recv_cases hr
    · exact h
    · exact h.insert (hfree stunMsg s localUserName session hn)

theorem registered_step (h : Registered server) (hfree : KeysFree server event)
    (hst : Step D server event server') : Registered server' := by
  intro s session hs hc
  cases hst with
  | whip hnew =>
    rename_i s' ufrag pwd
    obtain rfl | hne := eq_or_ne s s'
    · have heq := (update_self ..).symm.trans hs
      cases heq
      exact insertNew_self (.inl hfree)
    · have hs' : server.sessions s = some session := (update_of_ne hne ..).symm.trans hs
      exact insertNew_of_eq_some (h s session hs' hc)
  | sdp hold =>
    rename_i s' session' ufrag
    obtain rfl | hne := eq_or_ne s s'
    · have heq := (update_self ..).symm.trans hs
      cases heq
      exact h s session' hold hc
    · have hs' : server.sessions s = some session := (update_of_ne hne ..).symm.trans hs
      exact h s session hs' hc
  | recv hr =>
    obtain rfl | ⟨_, _, _, _, _, _, _, rfl⟩ := recv_cases hr
    · exact h s session hs hc
    · exact h s session hs hc
  | close hold hopen =>
    rename_i s' session'
    obtain rfl | hne := eq_or_ne s s'
    · have heq := (update_self ..).symm.trans hs
      cases heq
      cases hc
    · have hs' : server.sessions s = some session := (update_of_ne hne ..).symm.trans hs
      have hu := h s session hs' hc
      refine erase_eq_some.mpr ⟨fun heq ↦ hne ?_, hu⟩
      have hu' := h s' session' hold hopen
      rw [heq, hu'] at hu
      cases hu
      rfl

/-- The name of an open session is the only one that leads to it. -/
theorem ufrag_of_close (hnamed : Named server) (hreg : Registered server) {s : ℕ}
    {session : WebRtcServerSession} (hs : server.sessions s = some session)
    (hc : session.closed = false) (u : Bytes) :
    erase server.ufragSessionMap session.localIceUfrag u =
      if server.ufragSessionMap u = some s then none else server.ufragSessionMap u := by
  obtain rfl | hne := eq_or_ne u session.localIceUfrag
  · rw [hreg s session hs hc, if_pos rfl]
    exact update_self ..
  · rw [erase, update_of_ne hne, if_neg]
    intro hu
    obtain ⟨session', hs', rfl⟩ := hnamed u s hu
    rw [hs] at hs'
    cases hs'
    exact hne rfl

theorem mapsConsistent_of_keysFree (h : Run D KeysFree server) : MapsConsistent D server := by
  have hinv : Mirrors server.endpointSessionMap server.sessionEndpointMap ∧ Registered server := by
    induction h with
    | init =>
      constructor
      · intro k v
        constructor
        · intro hk
          cases hk
        · intro hk
          cases hk
      · intro s session hs
        cases hs
    | step _ hfree hst ih =>
      exact ⟨mirrors_step ih.1 hfree hst, registered_step ih.2 hfree hst⟩
  refine ⟨hinv.1, fun s server' hst ↦ ?_⟩
  cases hst with
  | close hs hc =>
    exact ⟨ufrag_of_close (run_named h) hinv.2 hs hc, hinv.1.eraseAll_keysOf s⟩

theorem mapsConsistent_of_keysFree_sample :
    ∃ server : WebRtcServer, server.endpointSessionMap (getEndpointHash sampleEp) = some 0 ∧
      MapsConsistent sampleDigests server := by
  have hn := sampleServer_names requestHmac (by decide +kernel)
  have hret : (sampleSession [101, 102, 103, 104]).processStunPacket sampleDigests
      (requestMsg requestHmac) (sampleRequest requestHmac) sampleEp true = .ok true := by
    decide +kernel
  have hrun : Run sampleDigests KeysFree sampleServer := by
    refine .step (.step .init ?_ (.whip rfl)) ?_ (.sdp rfl)
    · rfl
    · trivial
  refine ⟨_, rfl, mapsConsistent_of_keysFree
    (.step hrun ?_ (.recv (recv_of_names hn hret)))⟩
  exact fun _ _ _ _ _ ↦ .inl rfl

/-- Two sessions with the same name: closing the second takes away the entry of
the first. -/
theorem mapsConsistent_fails :
    ∃ server, Run sampleDigests (fun _ _ ↦ True) server ∧
      ¬ MapsConsistent sampleDigests server := by
  let first := ({} : WebRtcServer).onWhip 0 [97, 98, 99, 100] []
  have h₁ : Step sampleDigests {} (.whip 0 [97, 98, 99, 100] []) first := .whip rfl
  have h₂ : Step sampleDigests first (.whip 1 [97, 98, 99, 100] [])
      (first.onWhip 1 [97, 98, 99, 100] []) := .whip rfl
  refine ⟨_, .step (.step .init trivial h₁) trivial h₂, fun h ↦ ?_⟩
  have hc := (h.2 1 _ (.close rfl rfl)).1 [97, 98, 99, 100]
  cases hc

end MmsServer.Webrtc.SessionMaps
