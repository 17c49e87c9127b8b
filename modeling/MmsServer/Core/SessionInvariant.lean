import MmsServer.Core.SourceSession
import Mathlib.Data.Nat.Basic
import Mathlib.Order.Basic

namespace MmsServer.Core.SessionInvariant

open Function Lib.WeakSlot SourceSession Server

variable {t t' t'' : Server} {s src : ℕ}

/-- A live session keeps the sources it is bound to. -/
structure Evolves (t t' : Server) : Prop where
  next : t.nextSource ≤ t'.nextSource
  mediaType : ∀ src < t.nextSource, (t'.sources src).mediaType = (t.sources src).mediaType
  session : ∀ src < t.nextSource, ∀ x, t.alive x = true → (t.sources src).session = some x →
    (t'.sources src).session = some x

theorem evolves_of_sources (hs : t'.sources = t.sources) (hn : t'.nextSource = t.nextSource) :
    Evolves t t' where
  next := hn.ge
  mediaType src _ := by rw [hs]
  session src _ x _ h := by rwa [hs]

theorem Evolves.trans (h : Evolves t t') (h' : Evolves t' t'') (ha : t'.alive = t.alive) :
    Evolves t t'' where
  next := h.next.trans h'.next
  mediaType src hlt := (h'.mediaType src (hlt.trans_le h.next)).trans (h.mediaType src hlt)
  session src hlt x hx hs :=
    h'.session src (hlt.trans_le h.next) x (ha ▸ hx) (h.session src hlt x hx hs)

theorem evolves_makeSource (t : Server) (s : ℕ) : Evolves t (t.makeSource s) where
  next := Nat.le_succ _
  mediaType src hlt := by rw [makeSource_of_ne t s hlt.ne]
  session src hlt x _ h := by rwa [makeSource_of_ne t s hlt.ne]

theorem evolves_modifySource (g : MediaSource → MediaSource) (hm : ∀ m, (g m).mediaType = m.mediaType)
    (hs : ∀ x, t.alive x = true → (t.sources src).session = some x → (g (t.sources src)).session = some x) :
    Evolves t (t.modifySource src g) where
  next := le_rfl
  mediaType r _ := by
    by_cases hr : r = src
    · rw [hr, modifySource_self, hm]
    · rw [modifySource_of_ne t src g hr]
  session r _ x hx h := by
    by_cases hr : r = src
    · subst hr
      rw [modifySource_self]
      exact hs x hx h
    · rwa [modifySource_of_ne t src g hr]

theorem evolves_setSession (t : Server) (src : ℕ) (new : Option ℕ) :
    Evolves t (t.setSession src new).2 := by
  unfold setSession
  dsimp only
  apply evolves_modifySource
  · intro m
    rfl
  intro x hx hs
  rw [hs]
  exact exchange_keeps new hx

theorem evolves_bindTo (h : t.getSession src = none ∨ t.getSession src = some s) :
    Evolves t (t.bindTo s src) := by
  have hset := evolves_setSession t src (some s)
  rw [setSession_ok h] at hset
  exact ⟨hset.next, hset.mediaType, hset.session⟩

structure Changes (t t' : Server) (s : ℕ) : Prop where
  protocol : (t'.sessions s).protocol = (t.sessions s).protocol
  alive : (t'.sessions s).alive = true → (t.sessions s).alive = true
  running : (t'.sessions s).progress ≠ .ended →
    (t.sessions s).progress ≠ .ended ∧ (t'.sessions s).alive = (t.sessions s).alive
  mediaSource : ∀ src, (t'.sessions s).mediaSource = some src →
      (t.sessions s).mediaSource = some src ∨
    src < t'.nextSource ∧ (t'.sources src).mediaType = (t.sessions s).protocol ∧
      ((t'.sessions s).progress ≠ .ended → (t'.sources src).session = some s)
  waiting : ∀ old src, (t'.sessions s).progress = .stoppingOld old src →
    (t.sessions s).progress = .stoppingOld old src ∨
    src < t'.nextSource ∧ (t'.sources src).mediaType = (t.sessions s).protocol
  acceptedFor : ∀ src ∈ (t'.sessions s).acceptedFor, src ∈ (t.sessions s).acceptedFor ∨
    (t.sessions s).mediaSource = some src ∧ (t.sessions s).progress ≠ .ended
  refused : (t'.sessions s).refused = true → (t'.sessions s).progress = .receiving →
    ∀ src, (t'.sessions s).mediaSource = some src → t'.registered ≠ some src

structure Transition (t : Server) (s : ℕ) (t' : Server) : Prop where
  evolves : Evolves t t'
  self : Changes t t' s
  others : ∀ x ≠ s, ∃ c, t'.sessions x = { t.sessions x with closed := c }
  registered : ∀ src, t'.registered = some src → t.registered = some src ∨
    (t.sessions s).mediaSource = some src ∧ (t.sessions s).progress = .sending

structure Inv (t : Server) : Prop where
  registered_lt : ∀ src, t.registered = some src → src < t.nextSource
  live : ∀ x, (t.sessions x).progress ≠ .ended → t.alive x = true
  mediaSource : ∀ x src, (t.sessions x).mediaSource = some src →
    src < t.nextSource ∧ (t.sources src).mediaType = (t.sessions x).protocol
  waiting : ∀ x old src, (t.sessions x).progress = .stoppingOld old src →
    src < t.nextSource ∧ (t.sources src).mediaType = (t.sessions x).protocol
  bound : ∀ x src, (t.sessions x).progress ≠ .ended → (t.sessions x).mediaSource = some src →
    (t.sources src).session = some x
  acceptedFor : ∀ x, ∀ src ∈ (t.sessions x).acceptedFor,
    src < t.nextSource ∧ (t.alive x = true → (t.sources src).session = some x)
  refused : ∀ x, (t.sessions x).refused = true → (t.sessions x).progress = .receiving →
    ∀ src, (t.sessions x).mediaSource = some src → t.registered ≠ some src

theorem inv_init (protocol : ℕ → Protocol) : Inv (init protocol) where
  registered_lt src h := by cases h
  live x _ := rfl
  mediaSource x src h := by cases h
  waiting x old src h := by cases h
  bound x src _ h := by cases h
  acceptedFor x src h := by cases h
  refused x h := by cases h

/-- The other sessions change in the same way, since nobody can take the source
of a session that is still running. -/
theorem Transition.changes (h : Transition t s t') (hinv : Inv t) (x : ℕ) : Changes t t' x := by
  by_cases hx : x = s
  · exact hx ▸ h.self
  obtain ⟨c, hc⟩ := h.others x hx
  constructor
  · rw [hc]
  · rw [hc]
    exact id
  · rw [hc]
    exact fun hp ↦ ⟨hp, rfl⟩
  · rw [hc]
    exact fun src hs ↦ Or.inl hs
  · rw [hc]
    exact fun old src hs ↦ Or.inl hs
  · rw [hc]
    exact fun src hs ↦ Or.inl hs
  · rw [hc]
    intro hr hp src hs hreg
    rcases h.registered src hreg with hold | ⟨hsrc, hsend⟩
    · exact hinv.refused x hr hp src hs hold
    · have hx' := hinv.bound x src (by rw [hp]; decide) hs
      have hs' := hinv.bound s src (by rw [hsend]; decide) hsrc
      rw [hx', Option.some.injEq] at hs'
      exact hx hs'

theorem inv_transition (hinv : Inv t) (h : Transition t s t') : Inv t' := by
  have hc := h.changes hinv
  have he := h.evolves
  constructor
  · intro src hreg
    rcases h.registered src hreg with hold | ⟨hsrc, _⟩
    · exact (hinv.registered_lt src hold).trans_le he.next
    · exact (hinv.mediaSource s src hsrc).1.trans_le he.next
  · intro x hp
    obtain ⟨hp', ha⟩ := (hc x).running hp
    exact ha.trans (hinv.live x hp')
  · intro x src hs
    rw [(hc x).protocol]
    rcases (hc x).mediaSource src hs with hold | ⟨hlt, hm, _⟩
    · obtain ⟨hlt, hm⟩ := hinv.mediaSource x src hold
      exact ⟨hlt.trans_le he.next, (he.mediaType src hlt).trans hm⟩
    · exact ⟨hlt, hm⟩
  · intro x old src hw
    rw [(hc x).protocol]
    rcases (hc x).waiting old src hw with hold | hnew
    · obtain ⟨hlt, hm⟩ := hinv.waiting x old src hold
      exact ⟨hlt.trans_le he.next, (he.mediaType src hlt).trans hm⟩
    · exact hnew
  · intro x src hp hs
    rcases (hc x).mediaSource src hs with hold | ⟨_, _, hb⟩
    · have hp' := ((hc x).running hp).1
      have hlt := (hinv.mediaSource x src hold).1
      exact he.session src hlt x (hinv.live x hp') (hinv.bound x src hp' hold)
    · exact hb hp
  · intro x src ha
    rcases (hc x).acceptedFor src ha with hold | ⟨hs, hp⟩
    · obtain ⟨hlt, hb⟩ := hinv.acceptedFor x src hold
      refine ⟨hlt.trans_le he.next, ?_⟩
      intro hx
      have hx' := (hc x).alive hx
      exact he.session src hlt x hx' (hb hx')
    · have hlt := (hinv.mediaSource x src hs).1
      exact ⟨hlt.trans_le he.next, fun _ ↦ he.session src hlt x (hinv.live x hp) (hinv.bound x src hp hs)⟩
  · intro x
    exact (hc x).refused

/-- Where an RTSP session does as the RTMP one does. It finds no other live
session on the source it takes, and it is not turned away, by `on_publish` or
for its SDP, from the source that has the name. -/
def Careful (t : Server) (s : ℕ) : Action → Prop
  | .announce => ∀ src old, t.registered = some src → (t.sources src).mediaType = .rtsp →
      t.getSession src = some old → old = s
  | .published false => (t.sessions s).protocol = .rtsp →
      ∀ src, (t.sessions s).mediaSource = some src → t.registered ≠ some src
  | _ => True

theorem transition_modify {f : Session → Session} (hprot : ∀ x, (f x).protocol = x.protocol)
    (hacc : ∀ x, (f x).acceptedFor = x.acceptedFor)
    (halive : ∀ x, (f x).alive = true → x.alive = true)
    (hrun : (f (t.sessions s)).progress ≠ .ended →
      (t.sessions s).progress ≠ .ended ∧ (f (t.sessions s)).alive = (t.sessions s).alive)
    (hsrc : ∀ src, (f (t.sessions s)).mediaSource = some src → (t.sessions s).mediaSource = some src ∨
      src < t.nextSource ∧ (t.sources src).mediaType = (t.sessions s).protocol ∧
        (f (t.sessions s)).progress = .ended)
    (hwait : ∀ old src, (f (t.sessions s)).progress = .stoppingOld old src →
      (t.sessions s).progress = .stoppingOld old src ∨
      src < t.nextSource ∧ (t.sources src).mediaType = (t.sessions s).protocol)
    (href : (f (t.sessions s)).refused = true → (f (t.sessions s)).progress = .receiving →
      ∀ src, (f (t.sessions s)).mediaSource = some src → t.registered ≠ some src) :
    Transition t s (t.modify s f) where
  evolves := evolves_of_sources rfl rfl
  others x hx := ⟨(t.sessions x).closed, modify_of_ne t s f hx⟩
  registered src h := Or.inl h
  self := by
    constructor
    · rw [modify_self, hprot]
    · rw [modify_self]
      exact halive _
    · rwa [modify_self]
    · rw [modify_self]
      intro src h
      rcases hsrc src h with hold | ⟨hlt, hm, hend⟩
      · exact Or.inl hold
      · exact Or.inr ⟨hlt, hm, fun hp ↦ absurd hend hp⟩
    · rwa [modify_self]
    · rw [modify_self, hacc]
      exact fun src h ↦ Or.inl h
    · rwa [modify_self]

theorem transition_bindTo (hlt : src < t.nextSource)
    (hm : (t.sources src).mediaType = (t.sessions s).protocol)
    (hrun : (t.sessions s).progress ≠ .ended)
    (h : t.getSession src = none ∨ t.getSession src = some s) :
    Transition t s (t.bindTo s src) where
  evolves := evolves_bindTo h
  others x hx := ⟨(t.sessions x).closed, bindTo_of_ne hx⟩
  registered src h := Or.inl h
  self := by
    have hself := bindTo_self t s src
    constructor
    · rw [hself]
    · rw [hself]
      exact id
    · rw [hself]
      exact fun _ ↦ ⟨hrun, rfl⟩
    · rw [hself]
      intro r hr
      obtain rfl := Option.some.inj hr
      rw [bindTo_source]
      exact Or.inr ⟨hlt, hm, fun _ ↦ rfl⟩
    · rw [hself]
      intro old r h
      cases h
    · rw [hself]
      exact fun r h ↦ Or.inl h
    · rw [hself]
      intro _ h
      cases h

theorem transition_takeSource (hlt : src < t.nextSource)
    (hm : (t.sources src).mediaType = (t.sessions s).protocol)
    (hrun : (t.sessions s).progress ≠ .ended) :
    Transition t s (t.takeSource s src) := by
  cases h : t.getSession src with
  | none =>
    rw [takeSource_ok (Or.inl h)]
    exact transition_bindTo hlt hm hrun (Or.inl h)
  | some old =>
    by_cases hne : old = s
    · subst hne
      rw [takeSource_ok (Or.inr h)]
      exact transition_bindTo hlt hm hrun (Or.inr h)
    · rw [takeSource_refused h hne]
      apply transition_modify
      · exact fun _ ↦ rfl
      · exact fun _ ↦ rfl
      · exact fun _ ↦ id
      · exact fun hp ↦ absurd rfl hp
      · intro r hr
        obtain rfl := Option.some.inj hr
        exact Or.inr ⟨hlt, hm, rfl⟩
      · intro o r hr
        cases hr
      · intro _ hr
        cases hr

structure KeepsSource (f : Session → Session) : Prop where
  protocol : ∀ x, (f x).protocol = x.protocol
  mediaSource : ∀ x, (f x).mediaSource = x.mediaSource
  acceptedFor : ∀ x, (f x).acceptedFor = x.acceptedFor

theorem transition_flags (hinv : Inv t) {f : Session → Session} (hf : KeepsSource f)
    (hprog : ∀ x, (f x).progress = x.progress) (href : ∀ x, (f x).refused = x.refused)
    (halive : (t.sessions s).progress = .ended ∨ (f (t.sessions s)).alive = (t.sessions s).alive)
    (hdown : ∀ x, (f x).alive = true → x.alive = true) : Transition t s (t.modify s f) := by
  apply transition_modify hf.protocol hf.acceptedFor hdown
  · rw [hprog]
    intro hp
    exact ⟨hp, halive.resolve_left hp⟩
  · rw [hf.mediaSource]
    exact fun src h ↦ Or.inl h
  · rw [hprog]
    exact fun old src h ↦ Or.inl h
  · rw [href, hprog, hf.mediaSource]
    exact hinv.refused s

theorem transition_same (hinv : Inv t) : Transition t s t := by
  have h : Transition t s (t.modify s id) :=
    transition_flags hinv ⟨fun _ ↦ rfl, fun _ ↦ rfl, fun _ ↦ rfl⟩ (fun _ ↦ rfl) (fun _ ↦ rfl) (Or.inr rfl)
      fun _ ↦ id
  have hself : t.modify s id = t := by
    unfold Server.modify
    rw [id, update_eq_self]
  rwa [hself] at h

theorem transition_progress {f : Session → Session} (hf : KeepsSource f) (halive : ∀ x, (f x).alive = x.alive)
    {next : Progress} (hnext : (f (t.sessions s)).progress = next) (hwait : ∀ old src, next ≠ .stoppingOld old src)
    (hrun : next = .ended ∨ (t.sessions s).progress ≠ .ended)
    (href : next = .receiving → ∀ src, (t.sessions s).mediaSource = some src → t.registered ≠ some src) :
    Transition t s (t.modify s f) := by
  apply transition_modify hf.protocol hf.acceptedFor (fun x h ↦ halive x ▸ h)
  · rw [hnext, halive]
    exact fun hp ↦ ⟨hrun.resolve_left hp, rfl⟩
  · rw [hf.mediaSource]
    exact fun src h ↦ Or.inl h
  · rw [hnext]
    exact fun old src h ↦ absurd h (hwait old src)
  · rw [hnext, hf.mediaSource]
    exact fun _ ↦ href

theorem Transition.of_before {t₀ : Server} (h : Transition t₀ s t') (he : Evolves t t₀)
    (hsess : ∀ x, ∃ c, t₀.sessions x = { t.sessions x with closed := c })
    (hreg : t₀.registered = t.registered) :
    Transition t s t' := by
  have halive : t₀.alive = t.alive := by
    funext x
    obtain ⟨c, hc⟩ := hsess x
    simp only [Server.alive, hc]
  obtain ⟨c, hc⟩ := hsess s
  refine ⟨he.trans h.evolves halive, ?_, ?_, ?_⟩
  · have hself := h.self
    constructor
    · simpa only [hc] using hself.protocol
    · simpa only [hc] using hself.alive
    · simpa only [hc] using hself.running
    · simpa only [hc] using hself.mediaSource
    · simpa only [hc] using hself.waiting
    · simpa only [hc] using hself.acceptedFor
    · exact hself.refused
  · intro x hx
    obtain ⟨c', hc'⟩ := h.others x hx
    obtain ⟨d, hd⟩ := hsess x
    exact ⟨c', by rw [hc', hd]⟩
  · simpa only [hc, hreg] using h.registered

theorem transition_make (h : Transition (t.makeSource s) s t') : Transition t s t' :=
  h.of_before (evolves_makeSource t s) (fun x ↦ ⟨(t.sessions x).closed, rfl⟩) rfl

theorem Transition.modifySource (h : Transition t s t') (hinv : Inv t) (src : ℕ) {g : MediaSource → MediaSource}
    (hm : ∀ m, (g m).mediaType = m.mediaType)
    (hs : ∀ x, t.alive x = true → (t'.sources src).session = some x → (g (t'.sources src)).session = some x) :
    Transition t s (t'.modifySource src g) := by
  have hm' (r : ℕ) : ((t'.modifySource src g).sources r).mediaType = (t'.sources r).mediaType := by
    by_cases hr : r = src
    · rw [hr, modifySource_self, hm]
    · rw [modifySource_of_ne t' src g hr]
  have hs' (r x : ℕ) (hx : t.alive x = true) (hb : (t'.sources r).session = some x) :
      ((t'.modifySource src g).sources r).session = some x := by
    by_cases hr : r = src
    · subst hr
      rw [modifySource_self]
      exact hs x hx hb
    · rwa [modifySource_of_ne t' src g hr]
  refine ⟨⟨h.evolves.next, ?_, ?_⟩, ?_, h.others, h.registered⟩
  · intro r hlt
    exact (hm' r).trans (h.evolves.mediaType r hlt)
  · intro r hlt x hx hb
    exact hs' r x hx (h.evolves.session r hlt x hx hb)
  · refine ⟨h.self.protocol, h.self.alive, h.self.running, ?_, ?_, h.self.acceptedFor,
      h.self.refused⟩
    · intro r hr
      rcases h.self.mediaSource r hr with hold | ⟨hlt, htype, hb⟩
      · exact Or.inl hold
      · refine Or.inr ⟨hlt, (hm' r).trans htype, ?_⟩
        intro hp
        exact hs' r s (hinv.live s (h.self.running hp).1) (hb hp)
    · intro old r hr
      rw [hm']
      exact h.self.waiting old r hr

theorem Transition.removeSource (h : Transition t s t') : Transition t s t'.removeSource := by
  refine ⟨⟨h.evolves.next, h.evolves.mediaType, h.evolves.session⟩, ?_, h.others,
    fun r hr ↦ by cases hr⟩
  refine ⟨h.self.protocol, h.self.alive, h.self.running, h.self.mediaSource, h.self.waiting,
    h.self.acceptedFor, ?_⟩
  intro _ _ r _ hr
  cases hr

theorem transition_refuse {next : Progress} (hrun : (t.sessions s).progress ≠ .ended)
    (hnext : next = .ended ∨ next = .receiving ∧
      ∀ src, (t.sessions s).mediaSource = some src → t.registered ≠ some src) :
    Transition t s (t.refuse s next) := by
  refine transition_progress ⟨fun _ ↦ rfl, fun _ ↦ rfl, fun _ ↦ rfl⟩ (fun _ ↦ rfl) rfl ?_
    (Or.inr hrun) ?_
  · rintro old src rfl
    rcases hnext with h | ⟨h, _⟩ <;> cases h
  · rintro rfl
    rcases hnext with h | ⟨_, h⟩
    · cases h
    · exact h

theorem transition_stoppingOld (old : ℕ) (hlt : src < t.nextSource)
    (hm : (t.sources src).mediaType = (t.sessions s).protocol)
    (hrun : (t.sessions s).progress ≠ .ended) :
    Transition t s ((t.modify old fun x ↦ { x with closed := true }).modify s fun x ↦
      { x with progress := .stoppingOld old src }) := by
  have hclosed (x : ℕ) : ∃ c, (t.modify old fun x ↦ { x with closed := true }).sessions x =
      { t.sessions x with closed := c } := by
    by_cases hx : x = old
    · subst hx
      exact ⟨true, modify_self t x _⟩
    · exact ⟨(t.sessions x).closed, modify_of_ne t old _ hx⟩
  obtain ⟨c, hc⟩ := hclosed s
  have he : Evolves t (t.modify old fun x ↦ { x with closed := true }) := evolves_of_sources rfl rfl
  refine Transition.of_before ?_ he hclosed rfl
  refine transition_modify (fun _ ↦ rfl) (fun _ ↦ rfl) (fun _ ↦ id) ?_ (fun r h ↦ Or.inl h) ?_ ?_
  · rw [hc]
    exact fun _ ↦ ⟨hrun, rfl⟩
  · intro o r h
    cases h
    rw [hc]
    exact Or.inr ⟨hlt, hm⟩
  · intro _ h
    cases h

theorem transition_publish (hinv : Inv t) (policy : ConflictPolicy)
    (hp : (t.sessions s).protocol = .rtmp) (hrun : (t.sessions s).progress ≠ .ended) :
    Transition t s (t.publish policy s) := by
  have hnew : Transition t s ((t.makeSource s).takeSource s t.nextSource) := by
    apply transition_make
    apply transition_takeSource
    · exact Nat.lt_succ_self _
    · rw [makeSource_self]
      rfl
    · exact hrun
  have href : Transition t s (t.refuse s .ended) := transition_refuse hrun (Or.inl rfl)
  unfold publish
  split
  · exact hnew
  rename_i src hreg
  have hlt := hinv.registered_lt src hreg
  split
  · exact hnew
  rename_i hm
  rw [not_not, ← hp] at hm
  split
  · exact transition_takeSource hlt hm hrun
  rename_i old _
  split
  · exact href
  split
  · exact href
  exact transition_stoppingOld old hlt hm hrun

theorem transition_announce (hinv : Inv t) (hp : (t.sessions s).protocol = .rtsp)
    (hrun : (t.sessions s).progress ≠ .ended) (hcare : Careful t s .announce) :
    Transition t s (t.announce s) := by
  cases hreg : t.registered with
  | none =>
    rw [announce_none hreg hp]
    apply transition_make
    apply transition_bindTo
    · exact Nat.lt_succ_self _
    · rw [makeSource_self]
      rfl
    · exact hrun
    · exact getSession_makeSource t s
  | some src =>
    by_cases hm : (t.sources src).mediaType = .rtsp
    · have hfree : t.getSession src = none ∨ t.getSession src = some s := by
        cases hg : t.getSession src with
        | none => exact Or.inl rfl
        | some old => exact Or.inr (congrArg some (hcare src old hreg hm hg))
      rw [announce_some hreg hm hfree]
      exact transition_bindTo (hinv.registered_lt src hreg) (hm.trans hp.symm) hrun hfree
    · rw [announce_other hreg hm]
      apply transition_refuse hrun
      refine Or.inr ⟨rfl, ?_⟩
      intro r hr he
      rw [hreg] at he
      obtain rfl := Option.some.inj he
      exact hm ((hinv.mediaSource s src hr).2.trans hp)

theorem transition_published (ok : Bool) (hp : (t.sessions s).progress = .onPublish)
    (hcare : Careful t s (.published ok)) : Transition t s (t.published s ok) := by
  have hrun : (t.sessions s).progress ≠ .ended := by rw [hp]; decide
  unfold published
  cases ok with
  | true =>
    rw [if_pos rfl]
    refine transition_progress ⟨fun _ ↦ rfl, fun _ ↦ rfl, fun _ ↦ rfl⟩ (fun _ ↦ rfl) rfl ?_
      (Or.inr hrun) ?_
    · intro old src h
      cases h
    · intro h
      cases h
  | false =>
    cases hproto : (t.sessions s).protocol with
    | rtmp => exact transition_refuse hrun (Or.inl rfl)
    | rtsp => exact transition_refuse hrun (Or.inr ⟨rfl, hcare hproto⟩)

theorem transition_accept (hs : (t.sessions s).mediaSource = some src)
    (hp : (t.sessions s).progress = .sending) :
    Transition t s ({ t with registered := some src }.modify s fun x ↦
      { x with acceptedFor := src :: x.acceptedFor, refused := false, progress := .receiving }) := by
  have hrun : (t.sessions s).progress ≠ .ended := by rw [hp]; decide
  refine ⟨evolves_of_sources rfl rfl, ?_, ?_, ?_⟩
  · constructor
    · rw [modify_self]
    · rw [modify_self]
      exact id
    · rw [modify_self]
      exact fun _ ↦ ⟨hrun, rfl⟩
    · rw [modify_self]
      exact fun r h ↦ Or.inl h
    · rw [modify_self]
      intro old r h
      cases h
    · rw [modify_self]
      intro r h
      rcases List.mem_cons.mp h with rfl | h
      · exact Or.inr ⟨hs, hrun⟩
      · exact Or.inl h
    · rw [modify_self]
      intro h
      cases h
  · intro x hx
    exact ⟨(t.sessions x).closed, modify_of_ne _ s _ hx⟩
  · intro r hr
    obtain rfl := Option.some.inj hr
    exact Or.inr ⟨hs, hp⟩

theorem transition_sent (hinv : Inv t) (ok : Bool) (hp : (t.sessions s).progress = .sending) :
    Transition t s (t.sent s ok) := by
  have hrun : (t.sessions s).progress ≠ .ended := by rw [hp]; decide
  unfold sent
  split
  · exact transition_refuse hrun (Or.inl rfl)
  split
  · exact transition_same hinv
  rename_i src hs
  unfold addSource
  cases hreg : t.registered with
  | none => exact transition_accept hs hp
  | some r =>
    by_cases hr : r = src
    · subst hr
      simp only [decide_true, if_true]
      have h := transition_accept hs hp
      rw [← hreg] at h
      exact h
    · simp only [hr, decide_false, Bool.false_eq_true, if_false]
      have h : Transition t s (t.refuse s .ended) := transition_refuse hrun (Or.inl rfl)
      change Transition t s ((t.refuse s .ended).close src)
      exact h.modifySource hinv src (fun _ ↦ rfl) fun _ _ hb ↦ hb

theorem transition_doStop (hinv : Inv t) (hp : (t.sessions s).progress = .ended) :
    Transition t s (t.doStop s) := by
  unfold doStop
  split
  · exact transition_flags hinv ⟨fun _ ↦ rfl, fun _ ↦ rfl, fun _ ↦ rfl⟩ (fun _ ↦ rfl) (fun _ ↦ rfl)
      (Or.inl hp)
      fun _ ↦ id
  · rename_i src _
    have h : Transition t s (t.modify s fun x ↦ { x with stopped := true, waitingCleanup := true }) :=
      transition_flags hinv ⟨fun _ ↦ rfl, fun _ ↦ rfl, fun _ ↦ rfl⟩ (fun _ ↦ rfl) (fun _ ↦ rfl) (Or.inl hp)
        fun _ ↦ id
    change Transition t s ((t.modify s fun x ↦ { x with stopped := true, waitingCleanup := true }).modifySource src
      fun m ↦ { m with session := (exchange t.alive (t.sources src).session none).2 })
    refine h.modifySource hinv src (fun _ ↦ rfl) ?_
    intro x hx hb
    rw [modify_sources] at hb
    rw [hb]
    exact exchange_keeps none hx

theorem transition_delayedCheck (hinv : Inv t) : Transition t s (t.delayedCheck s) := by
  have h : Transition t s (t.modify s fun x ↦ { x with waitingCleanup := false }) :=
    transition_flags hinv ⟨fun _ ↦ rfl, fun _ ↦ rfl, fun _ ↦ rfl⟩ (fun _ ↦ rfl) (fun _ ↦ rfl) (Or.inr rfl)
      fun _ ↦ id
  unfold delayedCheck
  split
  · exact transition_same hinv
  · dsimp only
    split
    · exact h.removeSource.modifySource hinv _ (fun _ ↦ rfl) fun _ _ hb ↦ hb
    · exact h

theorem transition_apply (hinv : Inv t) {a : Action} (hen : Enabled t s a) (hcare : Careful t s a) :
    Transition t s (t.apply s a) := by
  cases a with
  | publish policy => exact transition_publish hinv policy hen.1 (by rw [hen.2]; decide)
  | oldStopped =>
    obtain ⟨old, src, hp, _⟩ := hen
    have hsrc := hinv.waiting s old src hp
    unfold Server.apply oldStopped
    rw [hp]
    exact transition_takeSource hsrc.1 hsrc.2 (by rw [hp]; intro h; cases h)
  | announce => exact transition_announce hinv hen.1 (by rw [hen.2]; decide) hcare
  | published ok => exact transition_published ok hen hcare
  | sent ok => exact transition_sent hinv ok hen
  | setup =>
    change Transition t s (t.modify s fun x ↦ { x with isTcpTransport := true })
    exact transition_flags hinv ⟨fun _ ↦ rfl, fun _ ↦ rfl, fun _ ↦ rfl⟩ (fun _ ↦ rfl) (fun _ ↦ rfl)
      (Or.inr rfl)
      fun _ ↦ id
  | stop =>
    change Transition t s (t.modify s fun x ↦ { x with closed := true })
    exact transition_flags hinv ⟨fun _ ↦ rfl, fun _ ↦ rfl, fun _ ↦ rfl⟩ (fun _ ↦ rfl) (fun _ ↦ rfl)
      (Or.inr rfl)
      fun _ ↦ id
  | recvEnd =>
    change Transition t s (t.modify s fun x ↦ { x with progress := .ended })
    refine transition_progress ⟨fun _ ↦ rfl, fun _ ↦ rfl, fun _ ↦ rfl⟩ (fun _ ↦ rfl) rfl ?_
      (Or.inl rfl) ?_
    · intro old src h
      cases h
    · intro h
      cases h
  | doStop => exact transition_doStop hinv hen.2.2
  | delayedCheck => exact transition_delayedCheck hinv
  | destroy =>
    change Transition t s (t.modify s fun x ↦ { x with alive := false })
    refine transition_flags hinv ⟨fun _ ↦ rfl, fun _ ↦ rfl, fun _ ↦ rfl⟩ (fun _ ↦ rfl) (fun _ ↦ rfl)
      (Or.inl hen.2.2.1) ?_
    intro x h
    cases h

def CarefulStep (t t' : Server) : Prop := ∃ s a, Enabled t s a ∧ Careful t s a ∧ t' = t.apply s a

theorem inv_run (hinv : Inv t) (h : Relation.ReflTransGen CarefulStep t t') : Inv t' := by
  induction h with
  | refl => exact hinv
  | tail _ hstep ih =>
    obtain ⟨s, a, hen, hcare, rfl⟩ := hstep
    exact inv_transition ih (transition_apply ih hen hcare)

theorem bound_run {x : ℕ} (hinv : Inv t) (h : Relation.ReflTransGen CarefulStep t t')
    (hlt : src < t.nextSource) (hs : (t.sources src).session = some x) (hx : t'.alive x = true) :
    (t'.sources src).session = some x := by
  suffices hrun : t.nextSource ≤ t'.nextSource ∧ (t'.sources src).session = some x from hrun.2
  induction h with
  | refl => exact ⟨le_rfl, hs⟩
  | tail hrun hstep ih =>
    obtain ⟨s, a, hen, hcare, rfl⟩ := hstep
    have hmid := inv_run hinv hrun
    have htr := transition_apply hmid hen hcare
    have hx' := (htr.changes hmid x).alive hx
    obtain ⟨hle, hb⟩ := ih hx'
    exact ⟨hle.trans htr.evolves.next, htr.evolves.session src (hlt.trans_le hle) x hx' hb⟩

theorem rtmp_run (hinv : Inv t) (hp : ∀ x, (t.sessions x).protocol = .rtmp)
    (hm : ∀ src, t.registered = some src → (t.sources src).mediaType = .rtmp)
    (h : Relation.ReflTransGen CarefulStep t t') : (∀ x, (t'.sessions x).protocol = .rtmp) ∧
      ∀ src, t'.registered = some src → (t'.sources src).mediaType = .rtmp := by
  induction h with
  | refl => exact ⟨hp, hm⟩
  | tail hrun hstep ih =>
    obtain ⟨s, a, hen, hcare, rfl⟩ := hstep
    have hmid := inv_run hinv hrun
    have htr := transition_apply hmid hen hcare
    refine ⟨fun x ↦ (htr.changes hmid x).protocol.trans (ih.1 x), ?_⟩
    intro src hreg
    rcases htr.registered src hreg with hold | ⟨hsrc, _⟩
    · exact (htr.evolves.mediaType src (hmid.registered_lt src hold)).trans (ih.2 src hold)
    · obtain ⟨hlt, htype⟩ := hmid.mediaSource s src hsrc
      exact (htr.evolves.mediaType src hlt).trans (htype.trans (ih.1 s))

end MmsServer.Core.SessionInvariant
