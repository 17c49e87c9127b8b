import MmsServer.Core.SessionInvariant

namespace MmsServer.Core.Exclusivity

open Lib.WeakSlot SourceSession Server SessionInvariant

variable {t : Server} {s src : ℕ}

def Step (t t' : Server) : Prop := ∃ s a, Enabled t s a ∧ t' = t.apply s a

/-- The receive coroutine hands packets to the source of the session, over RTSP
only if `SETUP` asked for TCP. -/
def CanDeliver (t : Server) (s src : ℕ) : Prop :=
  (t.sessions s).progress = .receiving ∧ (t.sessions s).mediaSource = some src ∧
    ((t.sessions s).protocol = .rtsp → (t.sessions s).isTcpTransport = true)

structure Exclusive (t : Server) : Prop where
  unique : ∀ src, t.registered = some src → ∀ s s', t.alive s = true → t.alive s' = true →
    src ∈ (t.sessions s).acceptedFor → src ∈ (t.sessions s').acceptedFor → s = s'
  session : ∀ src, t.registered = some src → ∀ s,
    t.alive s = true → src ∈ (t.sessions s).acceptedFor →
    t.getSession src = some s
  refused : ∀ src, t.registered = some src → ∀ s,
    (t.sessions s).refused = true → ¬ CanDeliver t s src

theorem getSession_accepted (h : Inv t) (hs : t.alive s = true)
    (ha : src ∈ (t.sessions s).acceptedFor) :
    t.getSession src = some s :=
  lock_eq_some.mpr ⟨(h.acceptedFor s src ha).2 hs, hs⟩

theorem one_publisher_of_careful_run (protocol : ℕ → Protocol) (t : Server)
    (h : Relation.ReflTransGen CarefulStep (init protocol) t) : Exclusive t := by
  have hinv := inv_run (inv_init protocol) h
  constructor
  · intro src _ s s' hs hs' ha ha'
    have he := (getSession_accepted hinv hs ha).symm.trans (getSession_accepted hinv hs' ha')
    exact Option.some.inj he
  · intro src _ s hs ha
    exact getSession_accepted hinv hs ha
  · rintro src hreg s hr ⟨hp, hsrc, _⟩
    exact hinv.refused s hr hp src hsrc hreg

section TwoPublishers

def oneRtmp (s : ℕ) : Protocol := if s = 1 then .rtmp else .rtsp

def firstAccepted (protocol : ℕ → Protocol) : Server :=
  (((init protocol).announce 0).published 0 true).sent 0 true

def rtmpRefused : Server :=
  ((((firstAccepted oneRtmp).publish .replace 1).published 1 true).sent 1 true)

theorem rtmpRefused_run : Relation.ReflTransGen CarefulStep (init oneRtmp) rtmpRefused := by
  have h₁ : Relation.ReflTransGen CarefulStep (init oneRtmp) ((init oneRtmp).announce 0) :=
    .single ⟨0, .announce, ⟨rfl, rfl⟩, fun src old h ↦ (by cases h), rfl⟩
  have h₂ := ((h₁.tail ⟨0, .published true, rfl, trivial, rfl⟩).tail ⟨0, .sent true, rfl, trivial, rfl⟩).tail
    ⟨1, .publish .replace, ⟨rfl, rfl⟩, trivial, rfl⟩
  exact (h₂.tail ⟨1, .published true, rfl, trivial, rfl⟩).tail ⟨1, .sent true, rfl, trivial, rfl⟩

theorem one_publisher_rtmpRefused : Relation.ReflTransGen CarefulStep (init oneRtmp) rtmpRefused ∧
    rtmpRefused.registered = some 0 ∧ (rtmpRefused.sessions 1).refused = true ∧
    Exclusive rtmpRefused :=
  ⟨rtmpRefused_run, rfl, rfl, one_publisher_of_careful_run oneRtmp rtmpRefused rtmpRefused_run⟩

def allRtsp (_ : ℕ) : Protocol := .rtsp

def bothAccepted : Server := (((firstAccepted allRtsp).announce 1).published 1 true).sent 1 true

def turnedAway : Server := (((firstAccepted allRtsp).announce 1).published 1 false).apply 1 .setup

theorem rtsp_publishers_share_source :
    (Relation.ReflTransGen Step (init allRtsp) bothAccepted ∧ ¬ Exclusive bothAccepted) ∧
    (Relation.ReflTransGen Step (init allRtsp) turnedAway ∧ ¬ Exclusive turnedAway) := by
  have h₁ : Relation.ReflTransGen Step (init allRtsp) ((init allRtsp).announce 0) :=
    .single ⟨0, .announce, ⟨rfl, rfl⟩, rfl⟩
  have h₂ := ((h₁.tail ⟨0, .published true, rfl, rfl⟩).tail ⟨0, .sent true, rfl, rfl⟩).tail
    ⟨1, .announce, ⟨rfl, rfl⟩, rfl⟩
  refine ⟨⟨(h₂.tail ⟨1, .published true, rfl, rfl⟩).tail ⟨1, .sent true, rfl, rfl⟩, ?_⟩,
    ⟨(h₂.tail ⟨1, .published false, rfl, rfl⟩).tail ⟨1, .setup, ⟨rfl, rfl⟩, rfl⟩, ?_⟩⟩
  · intro h
    have he := h.unique 0 rfl 0 1 rfl rfl (by decide) (by decide)
    cases he
  · intro h
    exact h.refused 0 rfl 1 rfl ⟨rfl, rfl, fun _ ↦ rfl⟩

end TwoPublishers

end MmsServer.Core.Exclusivity
