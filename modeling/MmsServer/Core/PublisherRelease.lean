import MmsServer.Core.PublisherSteps

namespace MmsServer.Core.PublisherRelease

open Lib.WeakSlot SourceSession Server SessionInvariant PublisherSteps

variable {t t' : Server} {s src : ℕ}

structure Publishing (t : Server) (s src : ℕ) : Prop where
  registered : t.registered = some src
  mediaSource : (t.sessions s).mediaSource = some src
  acceptedFor : src ∈ (t.sessions s).acceptedFor
  alive : t.alive s = true
  openSession : (t.sessions s).closed = false

/-- The publisher has stopped and nobody has taken its place. As long as it
lives, the source is bound to it. -/
structure Left (t : Server) (s src : ℕ) : Prop where
  mediaSource : (t.sessions s).mediaSource = some src
  ended : (t.sessions s).progress = .ended
  closed : (t.sessions s).closed = true
  cleanup : (t.sessions s).waitingCleanup = true → t.alive s = true
  registered : t.registered = some src ∨ t.registered = none
  bound : (t.sources src).session = some s ∨ t.alive s = false ∧ (t.sources src).session = none
  openSource : t.alive s = true → (t.sources src).closed = false

theorem Left.getSession_live (h : Left t s src) (ha : t.alive s = true) :
    t.getSession src = some s := by
  rcases h.bound with hb | ⟨hd, _⟩
  · exact lock_eq_some.mpr ⟨hb, ha⟩
  · rw [ha] at hd
    cases hd

theorem Left.getSession_gone (h : Left t s src) (ha : t.alive s = false) :
    t.getSession src = none := by
  unfold getSession
  rcases h.bound with hb | ⟨_, hb⟩
  · rw [hb, lock_gone ha]
  · rw [hb]
    rfl

theorem left_stopNow {T : Server} (h : Settled t) (hp : Publishing t s src)
    (hself : ∃ c, T.sessions s = { t.sessions s with closed := c })
    (hreg : T.registered = t.registered) (hsrc : T.sources = t.sources)
    (hrun : Relation.ReflTransGen CarefulStep t (stopNow T s)) :
    Left (stopNow T s) s src := by
  obtain ⟨c, hc⟩ := hself
  obtain ⟨w, hw⟩ := stopNow_self T s
  obtain ⟨hlt, hb⟩ := h.inv.acceptedFor s src hp.acceptedFor
  have halive : (stopNow T s).alive s = true := by
    rw [stopNow_alive, Server.alive, hc]
    exact hp.alive
  constructor
  · rw [hw, hc]
    exact hp.mediaSource
  · rw [hw]
  · rw [hw]
  · exact fun _ ↦ halive
  · rw [stopNow_registered, hreg]
    exact Or.inl hp.registered
  · exact Or.inl (bound_run h.inv hrun hlt (hb hp.alive) halive)
  · rw [stopNow_source_closed, hsrc]
    exact fun _ ↦ h.openSource src hp.registered

/-- The steps that stop a publisher: its own, and the command of a session that
is to replace it. -/
inductive Stops (t : Server) (s : ℕ) : Server → Prop
  | stop : Stops t s (stopNow t s)
  | replaced (x : ℕ) (ok sentOk : Bool) : x ≠ s → Enabled t x (.publish .replace) →
      Stops t s (publishAll t .replace x ok sentOk)

theorem Stops.publisherStep (h : Stops t s t') (hs : (t.sessions s).closed = false) :
    PublisherStep t t' := by
  cases h with
  | stop => exact .stop s hs
  | replaced x ok sentOk _ hen => exact .publish .replace x ok sentOk hen

theorem Left.of_same (h : Left t s src) (hself : t'.sessions s = t.sessions s)
    (hreg : t'.registered = some src ∨ t'.registered = none)
    (hbound : (t'.sources src).session = some s ∨
      t.alive s = false ∧ (t'.sources src).session = none)
    (hopen : t.alive s = true → (t'.sources src).closed = false) : Left t' s src := by
  have halive : t'.alive s = t.alive s := congrArg Session.alive hself
  constructor
  · rw [hself, h.mediaSource]
  · rw [hself, h.ended]
  · rw [hself, h.closed]
  · rw [hself, halive]
    exact h.cleanup
  · exact hreg
  · rwa [halive]
  · rwa [halive]

theorem Left.modify_other (h : Left t s src) {x : ℕ} (hx : s ≠ x) {f : Session → Session} :
    Left (t.modify x f) s src :=
  h.of_same (modify_of_ne t x f hx) h.registered h.bound h.openSource

theorem left_replaced (h : Settled t) (hp : Publishing t s src) {x : ℕ} (hx : x ≠ s)
    (hen : Enabled t x (.publish .replace)) (ok sentOk : Bool) :
    Left (publishAll t .replace x ok sentOk) s src := by
  have hb := (h.inv.acceptedFor s src hp.acceptedFor).2 hp.alive
  have hg : t.getSession src = some s := lock_eq_some.mpr ⟨hb, hp.alive⟩
  have hpub := publish_replace (s := x) hp.registered
    (h.mediaType src hp.registered) hg hp.openSession
  have hstopped : Left (stopNow (t.publish .replace x) s) s src := by
    apply left_stopNow h hp
    · exact ⟨true, replace_old h hp.registered hg hp.openSession hx.symm⟩
    · rw [hpub]
      rfl
    · rw [hpub]
      rfl
    · exact replace_run h hen hp.registered hg hp.openSession hx.symm
  unfold publishAll
  rw [publishBind_replace h hen hp.registered hg hp.openSession hx.symm, publishEnd_unbound]
  · exact hstopped.modify_other hx.symm
  · rw [modify_self]
    intro hp
    cases hp

theorem left_stops (h : Settled t) (hp : Publishing t s src) (hstop : Stops t s t') :
    Left t' s src := by
  cases hstop with
  | stop =>
    obtain ⟨hstop, hprog⟩ := h.idle s hp.openSession
    exact left_stopNow h hp ⟨_, rfl⟩ rfl rfl (stopNow_run hprog hstop)
  | replaced x ok sentOk hx hen => exact left_replaced h hp hx hen ok sentOk

theorem left_publish (hset : Settled t) (h : Left t s src) {policy : ConflictPolicy} {x : ℕ}
    (hen : Enabled t x (.publish policy)) (hb : ¬ Binds t policy x) (ok sentOk : Bool) :
    Left (publishAll t policy x ok sentOk) s src := by
  have hx : s ≠ x := by
    rintro rfl
    have hp := hen.2
    rw [h.ended] at hp
    cases hp
  have hbound {T : Server} {r : ℕ} (he : t.publish policy x = T.bindTo x r) : Binds t policy x := by
    unfold Binds
    rw [publishBind_bindTo he, bindTo_self]
  cases hset.outcome policy x with
  | made _ he => exact absurd (hbound he) hb
  | found _ _ he => exact absurd (hbound he) hb
  | refused he =>
    unfold publishAll
    rw [publishBind_refuse he, publishEnd_unbound]
    · exact h.modify_other hx
    · rw [refuse, modify_self]
      intro hp
      cases hp
  | replaces old r hpol hreg hg hc =>
    have hr : r = src := by
      rcases h.registered with hreg' | hreg'
      · rw [hreg] at hreg'
        exact Option.some.inj hreg'
      · rw [hreg] at hreg'
        cases hreg'
    subst hr
    cases ha : t.alive s with
    | true =>
      rw [h.getSession_live ha] at hg
      rw [← Option.some.inj hg, h.closed] at hc
      cases hc
    | false =>
      rw [h.getSession_gone ha] at hg
      cases hg

theorem left_stop (hset : Settled t) (h : Left t s src) {x : ℕ}
    (hx : (t.sessions x).closed = false) : Left (stopNow t x) s src := by
  have hne : s ≠ x := by
    rintro rfl
    rw [h.closed] at hx
    cases hx
  apply h.of_same (stopNow_of_ne hne)
  · rw [stopNow_registered]
    exact h.registered
  · cases ha : t.alive s with
    | true =>
      have hlt := (hset.inv.mediaSource s src h.mediaSource).1
      have hs := (lock_eq_some.mp (h.getSession_live ha)).1
      obtain ⟨hstop, hprog⟩ := hset.idle x hx
      have ha' : (stopNow t x).alive s = true := (stopNow_alive t x s).trans ha
      exact Or.inl (bound_run hset.inv (stopNow_run hprog hstop) hlt hs ha')
    | false =>
      rcases stopNow_session t x src with hs | hs
      · rw [hs]
        rcases h.bound with hb | ⟨_, hb⟩
        · exact Or.inl hb
        · exact Or.inr ⟨rfl, hb⟩
      · exact Or.inr ⟨rfl, hs⟩
  · rw [stopNow_source_closed]
    exact h.openSource

theorem left_flag (h : Left t s src) {x : ℕ} :
    Left (t.modify x fun x ↦ { x with waitingCleanup := false }) s src := by
  by_cases hx : s = x
  · subst hx
    have hself := modify_self t s fun x ↦ { x with waitingCleanup := false }
    have halive : (t.modify s fun x ↦ { x with waitingCleanup := false }).alive s = t.alive s := by
      rw [Server.alive, hself]
      rfl
    constructor
    · rw [hself, h.mediaSource]
    · rw [hself, h.ended]
    · rw [hself, h.closed]
    · rw [hself]
      intro hw
      cases hw
    · exact h.registered
    · rw [halive]
      exact h.bound
    · rw [halive]
      exact h.openSource
  · exact h.modify_other hx

/-- A check removes the name only if it is about another source, or the stopped
publisher is gone. -/
theorem left_remove (h : Left t s src) {r : ℕ} (hr : t.alive s = true → src ≠ r) :
    Left (t.removeSource.close r) s src := by
  refine h.of_same ?_ (Or.inr rfl) ?_ ?_
  · rfl
  · have hsession : ((t.removeSource.close r).sources src).session = (t.sources src).session := by
      unfold close
      by_cases he : src = r
      · subst he
        rw [modifySource_self]
        rfl
      · rw [modifySource_of_ne _ _ _ he]
        rfl
    rw [hsession]
    exact h.bound
  · intro ha
    unfold close
    rw [modifySource_of_ne _ _ _ (hr ha)]
    exact h.openSource ha

theorem left_check (h : Left t s src) (x : ℕ) : Left (t.delayedCheck x) s src := by
  cases hs : (t.sessions x).mediaSource with
  | none => rwa [delayedCheck_none hs]
  | some r =>
    cases hg : t.getSession r with
    | some old =>
      rw [delayedCheck_bound hs hg]
      exact left_flag h
    | none =>
      have hflag : (t.modify x fun x ↦ { x with waitingCleanup := false }).alive s = t.alive s := by
        rw [alive_modify (by intro x; rfl)]
      rw [delayedCheck_gone hs hg]
      apply left_remove (left_flag h)
      rw [hflag]
      rintro ha rfl
      rw [h.getSession_live ha] at hg
      cases hg

theorem left_destroy (h : Left t s src) {x : ℕ} (hen : Enabled t x .destroy) :
    Left (t.apply x .destroy) s src := by
  by_cases hx : s = x
  · subst hx
    have hself : (t.apply s .destroy).sessions s = { t.sessions s with alive := false } :=
      modify_self t s fun x ↦ { x with alive := false }
    constructor
    · rw [hself, h.mediaSource]
    · rw [hself, h.ended]
    · rw [hself, h.closed]
    · rw [hself, hen.2.1]
      intro hw
      cases hw
    · exact h.registered
    · rcases h.bound with hb | ⟨_, hb⟩
      · exact Or.inl hb
      · exact Or.inr ⟨congrArg Session.alive hself, hb⟩
    · intro ha
      rw [Server.alive, hself] at ha
      cases ha
  · change Left (t.modify x fun x ↦ { x with alive := false }) s src
    exact h.modify_other hx

theorem left_step (hset : Settled t) (h : Left t s src) (hstep : UnboundStep t t') :
    Left t' s src := by
  cases hstep with
  | publish policy x ok sentOk hen hb => exact left_publish hset h hen hb ok sentOk
  | stop x hx => exact left_stop hset h hx
  | check x _ => exact left_check h x
  | destroy x hen => exact left_destroy h hen

theorem left_run (hset : Settled t) (h : Left t s src)
    (hrun : Relation.ReflTransGen UnboundStep t t') :
    Settled t' ∧ Left t' s src := by
  induction hrun with
  | refl => exact ⟨hset, h⟩
  | tail _ hstep ih => exact ⟨settled_step ih.1 hstep.publisherStep, left_step ih.1 ih.2 hstep⟩

theorem accepted_bindTo {T : Server} {x r : ℕ} {policy : ConflictPolicy}
    (he : t.publish policy x = T.bindTo x r) (hp : (T.sessions x).protocol = .rtmp)
    (hreg : T.registered = none ∨ T.registered = some r) :
    Accepted (publishAll t policy x true true) x := by
  have hself := bindTo_self T x r
  unfold Accepted publishAll
  rw [publishBind_bindTo he, publishEnd_bound (congrArg Session.progress hself)
    ((congrArg Session.protocol hself).trans hp) (congrArg Session.mediaSource hself) hreg]
  rw [Bool.and_self, if_pos rfl, modify_self]

theorem not_accepted_refuse {x : ℕ} {policy : ConflictPolicy}
    (he : t.publish policy x = t.refuse x .ended) (ok sentOk : Bool) :
    ¬ Accepted (publishAll t policy x ok sentOk) x := by
  unfold Accepted publishAll publishEnd
  rw [publishBind_refuse he, refuse, modify_self]
  dsimp only
  rw [modify_self]
  intro hp
  cases hp

/-- A publisher that has stopped keeps its stream from the next one until it is
destroyed, or until the check of another session removes the name. Its own check
never does. -/
theorem stopped_publisher_keeps_stream (t t₁ t₂ : Server) (s src : ℕ)
    (hreach : Relation.ReflTransGen PublisherStep (init fun _ ↦ .rtmp) t)
    (hpub : Publishing t s src) (hstop : Stops t s t₁)
    (hrun : Relation.ReflTransGen UnboundStep t₁ t₂) :
    (∀ policy x, Enabled t₂ x (.publish policy) →
      (Accepted (publishAll t₂ policy x true true) x ↔ t₂.alive s = false ∨ t₂.registered = none)) ∧
    (Enabled t₂ s .delayedCheck →
      ¬ ((t₂.delayedCheck s).registered ≠ some src ∧
        ((t₂.delayedCheck s).sources src).closed = true)) := by
  have hset := settled_run hreach
  have hset₁ := settled_step hset (hstop.publisherStep hpub.openSession)
  obtain ⟨hset₂, hleft⟩ := left_run hset₁ (left_stops hset hpub hstop) hrun
  constructor
  · intro policy x hen
    rcases hleft.registered with hreg | hreg
    · have hm := hset₂.mediaType src hreg
      cases ha : t₂.alive s with
      | true =>
        have href : t₂.publish policy x = t₂.refuse x .ended :=
          publish_taken hreg hm (hleft.getSession_live ha) (Or.inr hleft.closed)
        refine iff_of_false (not_accepted_refuse href true true) ?_
        rw [hreg]
        rintro (h | h) <;> cases h
      | false =>
        have hfree : t₂.publish policy x = t₂.bindTo x src :=
          publish_free hreg hm (hleft.getSession_gone ha)
        exact iff_of_true (accepted_bindTo hfree hen.1 (Or.inr hreg)) (Or.inl rfl)
    · exact iff_of_true (accepted_bindTo (publish_none hreg) hen.1 (Or.inl hreg)) (Or.inr hreg)
  · rintro hen ⟨_, hclosed⟩
    have ha := hleft.cleanup hen
    rw [delayedCheck_bound hleft.mediaSource (hleft.getSession_live ha), modify_sources,
      hleft.openSource ha]
      at hclosed
    cases hclosed

section Blocked

def live : Server := publishAll (init fun _ ↦ .rtmp) .replace 0 true true

def left : Server := stopNow live 0

def destroyed : Server := (left.delayedCheck 0).apply 0 .destroy

theorem live_reach : Relation.ReflTransGen PublisherStep (init fun _ ↦ .rtmp) live :=
  .single (.publish .replace 0 true true ⟨rfl, rfl⟩)

theorem live_publishing : Publishing live 0 0 := ⟨rfl, rfl, by decide, rfl, rfl⟩

theorem destroyed_run : Relation.ReflTransGen UnboundStep left destroyed := by
  have hcheck : UnboundStep left (left.delayedCheck 0) := .check 0 rfl
  refine (Relation.ReflTransGen.single hcheck).tail (.destroy 0 ⟨rfl, rfl, rfl, ?_⟩)
  intro x src
  cases x with
  | zero =>
    intro h
    cases h
  | succ x =>
    intro h
    cases h

theorem destroyed_publisher_frees_stream :
    Relation.ReflTransGen PublisherStep (init fun _ ↦ .rtmp) live ∧
    Publishing live 0 0 ∧ Stops live 0 left ∧ Relation.ReflTransGen UnboundStep left destroyed ∧
    Accepted (publishAll destroyed .refuse 1 true true) 1 := by
  have h := stopped_publisher_keeps_stream live left destroyed 0 0 live_reach live_publishing .stop
    destroyed_run
  exact ⟨live_reach, live_publishing, .stop, destroyed_run,
    (h.1 .refuse 1 ⟨rfl, rfl⟩).mpr (Or.inl rfl)⟩

theorem stopped_publisher_blocks_stream :
    Relation.ReflTransGen PublisherStep (init fun _ ↦ .rtmp) live ∧
    Publishing live 0 0 ∧ Stops live 0 left ∧ (∀ policy, Enabled left 1 (.publish policy)) ∧
    ¬ Accepted (publishAll left .refuse 1 true true) 1 ∧
    ¬ Accepted (publishAll left .replace 1 true true) 1 ∧
    Enabled left 0 .delayedCheck ∧ (left.delayedCheck 0).registered = some 0 ∧
    ((left.delayedCheck 0).sources 0).closed = false :=
  ⟨live_reach, live_publishing, .stop, fun _ ↦ ⟨rfl, rfl⟩, by unfold Accepted; decide,
    by unfold Accepted; decide, rfl, rfl, rfl⟩

end Blocked

end MmsServer.Core.PublisherRelease
