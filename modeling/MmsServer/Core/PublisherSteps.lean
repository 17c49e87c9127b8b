import MmsServer.Core.SessionInvariant

namespace MmsServer.Core.PublisherSteps

open Function Lib.WeakSlot SourceSession Server SessionInvariant

variable {t t' : Server} {s src : ℕ}

/-- `stop` or `sync_stop`, with the receive coroutine ended, up to the end of
`do_stop`. -/
def stopNow (t : Server) (s : ℕ) : Server :=
  (t.modify s fun x ↦ { x with closed := true, progress := .ended }).doStop s

/-- `handle_amf0_publish_command` without interruption up to `on_publish`. A
session that is to replace itself waits forever. -/
def publishBind (t : Server) (policy : ConflictPolicy) (s : ℕ) : Server :=
  match ((t.publish policy s).sessions s).progress with
  | .stoppingOld old _ =>
    if old = s then t.publish policy s else (stopNow (t.publish policy s) old).oldStopped s
  | _ => t.publish policy s

def publishEnd (t : Server) (s : ℕ) (ok sentOk : Bool) : Server :=
  match (t.sessions s).progress with
  | .onPublish => if ok then (t.published s true).sent s sentOk else t.published s false
  | _ => t

def publishAll (t : Server) (policy : ConflictPolicy) (s : ℕ) (ok sentOk : Bool) : Server :=
  publishEnd (publishBind t policy s) s ok sentOk

def Binds (t : Server) (policy : ConflictPolicy) (s : ℕ) : Prop :=
  ((publishBind t policy s).sessions s).progress = .onPublish

def Accepted (t : Server) (s : ℕ) : Prop := (t.sessions s).progress = .receiving

/-- The steps of RTMP publishers on one stream name. -/
inductive PublisherStep (t : Server) : Server → Prop
  | publish (policy : ConflictPolicy) (s : ℕ) (ok sentOk : Bool) : Enabled t s (.publish policy) →
      PublisherStep t (publishAll t policy s ok sentOk)
  | stop (s : ℕ) : (t.sessions s).closed = false → PublisherStep t (stopNow t s)
  | check (s : ℕ) : Enabled t s .delayedCheck → PublisherStep t (t.delayedCheck s)
  | destroy (s : ℕ) : Enabled t s .destroy → PublisherStep t (t.apply s .destroy)

inductive UnboundStep (t : Server) : Server → Prop
  | publish (policy : ConflictPolicy) (s : ℕ) (ok sentOk : Bool) : Enabled t s (.publish policy) →
      ¬ Binds t policy s → UnboundStep t (publishAll t policy s ok sentOk)
  | stop (s : ℕ) : (t.sessions s).closed = false → UnboundStep t (stopNow t s)
  | check (s : ℕ) : Enabled t s .delayedCheck → UnboundStep t (t.delayedCheck s)
  | destroy (s : ℕ) : Enabled t s .destroy → UnboundStep t (t.apply s .destroy)

theorem UnboundStep.publisherStep (h : UnboundStep t t') : PublisherStep t t' := by
  cases h with
  | publish policy s ok sentOk hen _ => exact .publish policy s ok sentOk hen
  | stop s hs => exact .stop s hs
  | check s hen => exact .check s hen
  | destroy s hen => exact .destroy s hen

section Publish

variable {policy : ConflictPolicy} {old : ℕ}

theorem publishBind_eq
    (h : ∀ old src, ((t.publish policy s).sessions s).progress ≠ .stoppingOld old src) :
    publishBind t policy s = t.publish policy s := by
  unfold publishBind
  split
  · rename_i old src hp
    exact absurd hp (h old src)
  · rfl

theorem publishBind_bindTo {T : Server} (h : t.publish policy s = T.bindTo s src) :
    publishBind t policy s = T.bindTo s src := by
  rw [publishBind_eq, h]
  rw [h, bindTo_self]
  intro old r hp
  cases hp

theorem publishBind_refuse (h : t.publish policy s = t.refuse s .ended) :
    publishBind t policy s = t.refuse s .ended := by
  rw [publishBind_eq, h]
  rw [h, refuse, modify_self]
  intro old r hp
  cases hp

theorem publish_none (hreg : t.registered = none) :
    t.publish policy s = (t.makeSource s).bindTo s t.nextSource := by
  unfold Server.publish
  rw [hreg]
  exact takeSource_ok (getSession_makeSource t s)

theorem publish_free (hreg : t.registered = some src) (hm : (t.sources src).mediaType = .rtmp)
    (hg : t.getSession src = none) : t.publish policy s = t.bindTo s src := by
  unfold Server.publish
  simp only [hreg, hm, ne_eq, not_true_eq_false, if_false, hg]
  exact takeSource_ok (Or.inl hg)

theorem publish_taken (hreg : t.registered = some src) (hm : (t.sources src).mediaType = .rtmp)
    (hg : t.getSession src = some old) (hold : policy = .refuse ∨ (t.sessions old).closed = true) :
    t.publish policy s = t.refuse s .ended := by
  unfold Server.publish
  simp only [hreg, hm, ne_eq, not_true_eq_false, if_false, hg]
  rcases hold with rfl | hc
  · rfl
  · cases policy with
    | refuse => rfl
    | replace => exact if_pos hc

theorem publish_replace (hreg : t.registered = some src) (hm : (t.sources src).mediaType = .rtmp)
    (hg : t.getSession src = some old) (hc : (t.sessions old).closed = false) :
    t.publish .replace s = (t.modify old fun x ↦ { x with closed := true }).modify s fun x ↦
      { x with progress := .stoppingOld old src } := by
  unfold Server.publish
  simp only [hreg, hm, ne_eq, not_true_eq_false, if_false, hg, hc, Bool.false_eq_true]

theorem publishEnd_unbound (hp : (t.sessions s).progress ≠ .onPublish) (ok sentOk : Bool) :
    publishEnd t s ok sentOk = t := by
  unfold publishEnd
  split
  · rename_i hp'
    exact absurd hp' hp
  · rfl

theorem publishEnd_bound (hp : (t.sessions s).progress = .onPublish)
    (hr : (t.sessions s).protocol = .rtmp) (hs : (t.sessions s).mediaSource = some src)
    (hreg : t.registered = none ∨ t.registered = some src) (ok sentOk : Bool) :
    publishEnd t s ok sentOk =
      if ok && sentOk then
        { t with registered := some src }.modify s fun x ↦
          { x with acceptedFor := src :: x.acceptedFor, refused := false, progress := .receiving }
      else t.refuse s .ended := by
  have hsend : t.published s true = t.modify s fun x ↦ { x with progress := .sending } := rfl
  have hsrc : ((t.published s true).sessions s).mediaSource = some src := by
    rw [hsend, modify_self, hs]
  have hprot : ((t.published s true).sessions s).protocol = .rtmp := by rw [hsend, modify_self, hr]
  unfold publishEnd
  rw [hp]
  cases ok with
  | false => simp [published, hr]
  | true =>
    cases sentOk with
    | false =>
      simp only [if_true, Bool.and_false, Bool.false_eq_true, if_false, sent, hprot, and_self,
        refuse]
      rw [hsend, modify_modify]
      rfl
    | true =>
      have hadd : (t.published s true).addSource src =
          (true, { t.published s true with registered := some src }) := by
        unfold addSource
        rcases hreg with hn | hn
        · rw [hsend, modify_registered, hn]
        · rw [hsend, modify_registered, hn]
          simp only [decide_true, ← hn]
          rfl
      simp only [if_true, Bool.and_self, sent, hprot, Bool.true_eq_false, and_false, if_false, hsrc,
        hadd]
      change ({ t with registered := some src }.modify s fun x ↦
        { x with progress := .sending }).modify s _ = _
      rw [modify_modify]
      rfl

end Publish

theorem stopNow_self (t : Server) (s : ℕ) : ∃ w, (stopNow t s).sessions s =
    { t.sessions s with
      closed := true, progress := .ended, stopped := true, waitingCleanup := w } := by
  unfold stopNow doStop
  rw [modify_self]
  split
  · refine ⟨(t.sessions s).waitingCleanup, ?_⟩
    rw [modify_self, modify_self]
  · refine ⟨true, ?_⟩
    rw [modify_self, setSession_sessions, modify_self]

theorem stopNow_of_ne {x : ℕ} (hx : x ≠ s) : (stopNow t s).sessions x = t.sessions x := by
  unfold stopNow doStop
  split
  · rw [modify_of_ne _ _ _ hx, modify_of_ne _ _ _ hx]
  · rw [modify_of_ne _ _ _ hx, setSession_sessions, modify_of_ne _ _ _ hx]

theorem stopNow_alive (t : Server) (s x : ℕ) : (stopNow t s).alive x = t.alive x := by
  unfold Server.alive
  by_cases hx : x = s
  · subst hx
    obtain ⟨w, hw⟩ := stopNow_self t x
    rw [hw]
  · rw [stopNow_of_ne hx]

@[simp] theorem stopNow_registered (t : Server) (s : ℕ) :
    (stopNow t s).registered = t.registered := by
  unfold stopNow doStop
  split <;> rfl

theorem stopNow_source_closed (t : Server) (s src : ℕ) :
    ((stopNow t s).sources src).closed = (t.sources src).closed := by
  unfold stopNow doStop
  split
  · rfl
  · rw [modify_sources, setSession_closed, modify_sources]

theorem stopNow_session (t : Server) (s src : ℕ) :
    ((stopNow t s).sources src).session = (t.sources src).session ∨
    ((stopNow t s).sources src).session = none := by
  unfold stopNow doStop
  split
  · exact Or.inl rfl
  · rw [modify_sources, setSession_session]
    split
    · rename_i hr
      subst hr
      exact exchange_cases _ _ none
    · exact Or.inl rfl

theorem halt_run (hp : (t.sessions s).progress = .receiving ∨ (t.sessions s).progress = .ended) :
    Relation.ReflTransGen CarefulStep t
      (t.modify s fun x ↦ { x with closed := true, progress := .ended }) := by
  have hclose : Relation.ReflTransGen CarefulStep t
      (t.modify s fun x ↦ { x with closed := true }) := by
    cases hc : (t.sessions s).closed with
    | false => exact .single ⟨s, .stop, hc, trivial, rfl⟩
    | true =>
      have hself : (t.modify s fun x ↦ { x with closed := true }) = t := by
        unfold Server.modify
        simp only [← hc]
        rw [update_eq_self]
      rw [hself]
  rcases hp with hp | hp
  · have hrecv : CarefulStep (t.modify s fun x ↦ { x with closed := true })
        ((t.modify s fun x ↦ { x with closed := true }).modify s fun x ↦
          { x with progress := .ended }) :=
      ⟨s, .recvEnd, by simp [Enabled, hp], trivial, rfl⟩
    rw [modify_modify] at hrecv
    exact hclose.tail hrecv
  · have hself : (t.modify s fun x ↦ { x with closed := true, progress := .ended }) =
        t.modify s fun x ↦ { x with closed := true } := by
      unfold Server.modify
      simp only [← hp]
    rwa [hself]

theorem stopNow_run (hp : (t.sessions s).progress = .receiving ∨ (t.sessions s).progress = .ended)
    (hs : (t.sessions s).stopped = false) : Relation.ReflTransGen CarefulStep t (stopNow t s) := by
  refine (halt_run hp).tail ⟨s, .doStop, ?_, trivial, rfl⟩
  unfold Enabled
  rw [modify_self]
  exact ⟨rfl, hs, rfl⟩

/-- A session that was not told to stop is not in the middle of a request. -/
def Idle (x : Session) : Prop :=
  x.closed = false → x.stopped = false ∧ (x.progress = .receiving ∨ x.progress = .ended)

theorem idle_modify (h : ∀ x ≠ s, Idle (t.sessions x)) {f : Session → Session}
    (hf : Idle (f (t.sessions s))) (x : ℕ) : Idle ((t.modify s f).sessions x) := by
  by_cases hx : x = s
  · subst hx
    rwa [modify_self]
  · rw [modify_of_ne t s f hx]
    exact h x hx

structure Settled (t : Server) : Prop where
  inv : Inv t
  protocol : ∀ x, (t.sessions x).protocol = .rtmp
  mediaType : ∀ src, t.registered = some src → (t.sources src).mediaType = .rtmp
  openSource : ∀ src, t.registered = some src → (t.sources src).closed = false
  idle : ∀ x, Idle (t.sessions x)

theorem settled_init : Settled (init fun _ ↦ .rtmp) where
  inv := inv_init _
  protocol _ := rfl
  mediaType src h := by cases h
  openSource src h := by cases h
  idle x _ := ⟨rfl, Or.inl rfl⟩

inductive Outcome (t : Server) (policy : ConflictPolicy) (s : ℕ) : Prop
  | made : t.registered = none → t.publish policy s = (t.makeSource s).bindTo s t.nextSource →
      Outcome t policy s
  | found (src : ℕ) : t.registered = some src → t.publish policy s = t.bindTo s src →
      Outcome t policy s
  | refused : t.publish policy s = t.refuse s .ended → Outcome t policy s
  | replaces (old src : ℕ) : policy = .replace → t.registered = some src →
      t.getSession src = some old →
      (t.sessions old).closed = false → Outcome t policy s

theorem Settled.outcome (h : Settled t) (policy : ConflictPolicy) (s : ℕ) : Outcome t policy s := by
  cases hreg : t.registered with
  | none => exact .made hreg (publish_none hreg)
  | some src =>
    have hm := h.mediaType src hreg
    cases hg : t.getSession src with
    | none => exact .found src hreg (publish_free hreg hm hg)
    | some old =>
      cases policy with
      | refuse => exact .refused (publish_taken hreg hm hg (Or.inl rfl))
      | replace =>
        cases hc : (t.sessions old).closed with
        | true => exact .refused (publish_taken hreg hm hg (Or.inr hc))
        | false => exact .replaces old src rfl hreg hg hc

theorem publishEnd_run (hr : (t.sessions s).protocol = .rtmp) (ok sentOk : Bool) :
    Relation.ReflTransGen CarefulStep t (publishEnd t s ok sentOk) := by
  unfold publishEnd
  split
  · rename_i hp
    cases ok with
    | false =>
      have hcare : Careful t s (.published false) := fun h ↦ by rw [hr] at h; cases h
      exact .single ⟨s, .published false, hp, hcare, rfl⟩
    | true =>
      have hsend : Enabled (t.published s true) s (.sent sentOk) :=
        congrArg Session.progress (modify_self t s fun x ↦ { x with progress := .sending })
      have hpub : Relation.ReflTransGen CarefulStep t (t.published s true) :=
        .single ⟨s, .published true, hp, trivial, rfl⟩
      exact hpub.tail ⟨s, .sent sentOk, hsend, trivial, rfl⟩
  · exact .refl

section Replace

variable {old : ℕ} (h : Settled t) (hen : Enabled t s (.publish .replace))
  (hreg : t.registered = some src) (hg : t.getSession src = some old)
  (hc : (t.sessions old).closed = false)

include h hreg hg hc

theorem replace_self : (t.publish .replace s).sessions s =
    { t.sessions s with
      closed := ((t.publish .replace s).sessions s).closed, progress := .stoppingOld old src } := by
  rw [publish_replace hreg (h.mediaType src hreg) hg hc, modify_self]
  by_cases hs : s = old
  · subst hs
    rw [modify_self]
  · rw [modify_of_ne _ _ _ hs]

theorem replace_old (hne : old ≠ s) :
    (t.publish .replace s).sessions old = { t.sessions old with closed := true } := by
  rw [publish_replace hreg (h.mediaType src hreg) hg hc, modify_of_ne _ _ _ hne, modify_self]

theorem replace_of_ne {x : ℕ} (hx : x ≠ s) (hold : x ≠ old) :
    (t.publish .replace s).sessions x = t.sessions x := by
  rw [publish_replace hreg (h.mediaType src hreg) hg hc, modify_of_ne _ _ _ hx,
    modify_of_ne _ _ _ hold]

theorem publishBind_self (hs : old = s) : publishBind t .replace s = t.publish .replace s := by
  unfold publishBind
  rw [replace_self h hreg hg hc]
  exact if_pos hs

theorem publishBind_stopped (hne : old ≠ s) :
    publishBind t .replace s = (stopNow (t.publish .replace s) old).oldStopped s := by
  unfold publishBind
  rw [replace_self h hreg hg hc]
  exact if_neg hne

theorem replaced_self (hne : old ≠ s) : (stopNow (t.publish .replace s) old).sessions s =
    { t.sessions s with
      closed := ((t.publish .replace s).sessions s).closed, progress := .stoppingOld old src } := by
  rw [stopNow_of_ne hne.symm, ← replace_self h hreg hg hc]

include hen

theorem replace_run (hne : old ≠ s) :
    Relation.ReflTransGen CarefulStep t (stopNow (t.publish .replace s) old) := by
  have hpub : Relation.ReflTransGen CarefulStep t (t.publish .replace s) :=
    .single ⟨s, .publish .replace, hen, trivial, rfl⟩
  have hold := replace_old h hreg hg hc hne
  obtain ⟨hstop, hprog⟩ := h.idle old hc
  exact hpub.trans (stopNow_run (by rw [hold]; exact hprog) (by rw [hold]; exact hstop))

/-- The old session is alive when it has stopped, so the new one is refused. -/
theorem publishBind_replace (hne : old ≠ s) :
    publishBind t .replace s = (stopNow (t.publish .replace s) old).modify s fun x ↦
      { x with mediaSource := some src, refused := true, progress := .ended } := by
  obtain ⟨hs, ha⟩ := lock_eq_some.mp hg
  have halive : (stopNow (t.publish .replace s) old).alive old = true := by
    rw [stopNow_alive, Server.alive, replace_old h hreg hg hc hne]
    exact ha
  have hlt := h.inv.registered_lt src hreg
  have hs' := bound_run h.inv (replace_run h hen hreg hg hc hne) hlt hs halive
  have hg' : (stopNow (t.publish .replace s) old).getSession src = some old :=
    lock_eq_some.mpr ⟨hs', halive⟩
  rw [publishBind_stopped h hreg hg hc hne, oldStopped, replaced_self h hreg hg hc hne]
  exact takeSource_refused hg' hne

end Replace

theorem publishBind_run (h : Settled t) {policy : ConflictPolicy}
    (hen : Enabled t s (.publish policy)) :
    Relation.ReflTransGen CarefulStep t (publishBind t policy s) := by
  have hpub : Relation.ReflTransGen CarefulStep t (t.publish policy s) :=
    .single ⟨s, .publish policy, hen, trivial, rfl⟩
  cases h.outcome policy s with
  | made _ he => rwa [publishBind_bindTo he, ← he]
  | found _ _ he => rwa [publishBind_bindTo he, ← he]
  | refused he => rwa [publishBind_refuse he, ← he]
  | replaces old src hpol hreg hg hc =>
    subst hpol
    by_cases hne : old = s
    · rwa [publishBind_self h hreg hg hc hne]
    · have hself := congrArg Session.progress (replaced_self h hreg hg hc hne)
      have hrun := replace_run h hen hreg hg hc hne
      obtain ⟨w, hw⟩ := stopNow_self (t.publish .replace s) old
      rw [publishBind_stopped h hreg hg hc hne]
      exact hrun.tail ⟨s, .oldStopped, ⟨old, src, hself, by rw [hw]⟩, trivial, rfl⟩

theorem Settled.of_run (h : Settled t) (hrun : Relation.ReflTransGen CarefulStep t t')
    (hopen : ∀ src, t'.registered = some src → (t'.sources src).closed = false)
    (hidle : ∀ x, Idle (t'.sessions x)) : Settled t' := by
  obtain ⟨hprot, htype⟩ := rtmp_run h.inv h.protocol h.mediaType hrun
  exact ⟨inv_run h.inv hrun, hprot, htype, hopen, hidle⟩

theorem settled_bound (h : Settled t) {T : Server} (hT : T.sessions = t.sessions)
    (hsrc : T.registered = none ∨ T.registered = some src) (hopen : (T.sources src).closed = false)
    {ok sentOk : Bool}
    (hrun : Relation.ReflTransGen CarefulStep t (publishEnd (T.bindTo s src) s ok sentOk)) :
    Settled (publishEnd (T.bindTo s src) s ok sentOk) := by
  have hself := bindTo_self T s src
  have hend := publishEnd_bound (congrArg Session.progress hself)
    ((congrArg Session.protocol hself).trans (by rw [hT]; exact h.protocol s))
    (congrArg Session.mediaSource hself) hsrc ok sentOk
  apply h.of_run hrun
  · intro r hr
    have hr' : r = src := by
      rw [hend] at hr
      split at hr
      · exact (Option.some.inj hr).symm
      · change T.registered = some r at hr
        rcases hsrc with hn | hn
        · rw [hn] at hr
          cases hr
        · rw [hn] at hr
          exact (Option.some.inj hr).symm
    rw [hend, hr']
    split
    · exact (bindTo_closed T s src src).trans hopen
    · exact (bindTo_closed T s src src).trans hopen
  · have hothers (x : ℕ) (hx : x ≠ s) : Idle ((T.bindTo s src).sessions x) := by
      rw [bindTo_of_ne hx, hT]
      exact h.idle x
    have hstop (hc : ((T.bindTo s src).sessions s).closed = false) :
        ((T.bindTo s src).sessions s).stopped = false := by
      rw [hself, hT] at hc ⊢
      exact (h.idle s hc).1
    rw [hend]
    split
    · intro x
      refine idle_modify ?_ ?_ x
      · exact hothers
      · exact fun hc ↦ ⟨hstop hc, Or.inl rfl⟩
    · intro x
      refine idle_modify hothers ?_ x
      exact fun hc ↦ ⟨hstop hc, Or.inr rfl⟩

section Replaced

variable {old : ℕ} (h : Settled t) (hen : Enabled t s (.publish .replace))
  (hreg : t.registered = some src) (hg : t.getSession src = some old)
  (hc : (t.sessions old).closed = false)

include h hreg hg hc

theorem settled_replace_self (hs : old = s)
    (hrun : Relation.ReflTransGen CarefulStep t (t.publish .replace s)) :
    Settled (t.publish .replace s) := by
  subst hs
  rw [publish_replace hreg (h.mediaType src hreg) hg hc] at hrun ⊢
  refine h.of_run hrun h.openSource fun x ↦ idle_modify ?_ ?_ x
  · intro x hx
    rw [modify_of_ne _ _ _ hx]
    exact h.idle x
  · rw [modify_self]
    intro hclosed
    cases hclosed

include hen

theorem settled_replace (hne : old ≠ s)
    (hrun : Relation.ReflTransGen CarefulStep t (publishBind t .replace s)) :
    Settled (publishBind t .replace s) := by
  have hpub := publish_replace (s := s) hreg (h.mediaType src hreg) hg hc
  rw [publishBind_replace h hen hreg hg hc hne] at hrun ⊢
  apply h.of_run hrun
  · intro r hr
    rw [modify_registered, stopNow_registered, hpub] at hr
    rw [modify_sources, stopNow_source_closed, hpub]
    exact h.openSource r hr
  · intro x
    refine idle_modify ?_ ?_ x
    · intro x hx
      by_cases hx' : x = old
      · subst hx'
        obtain ⟨w, hw⟩ := stopNow_self (t.publish .replace s) x
        rw [hw]
        intro hclosed
        cases hclosed
      · rw [stopNow_of_ne hx', replace_of_ne h hreg hg hc hx hx']
        exact h.idle x
    · rw [replaced_self h hreg hg hc hne, hpub, modify_self, modify_of_ne _ _ _ hne.symm]
      intro hclosed
      exact ⟨(h.idle s hclosed).1, Or.inr rfl⟩

end Replaced

theorem settled_publish (h : Settled t) {policy : ConflictPolicy}
    (hen : Enabled t s (.publish policy)) (ok sentOk : Bool) :
    Settled (publishAll t policy s ok sentOk) := by
  have hbind := publishBind_run h hen
  have hprot : ((publishBind t policy s).sessions s).protocol = .rtmp :=
    (rtmp_run h.inv h.protocol h.mediaType hbind).1 s
  have hrun : Relation.ReflTransGen CarefulStep t
      (publishEnd (publishBind t policy s) s ok sentOk) :=
    hbind.trans (publishEnd_run hprot ok sentOk)
  unfold publishAll
  cases h.outcome policy s with
  | made hreg he =>
    rw [publishBind_bindTo he] at hrun ⊢
    exact settled_bound h (makeSource_sessions t s) (Or.inl hreg) (by rw [makeSource_self]) hrun
  | found src hreg he =>
    rw [publishBind_bindTo he] at hrun ⊢
    exact settled_bound h rfl (Or.inr hreg) (h.openSource src hreg) hrun
  | refused he =>
    have hself := modify_self t s fun x ↦ { x with refused := true, progress := .ended }
    have hp : ((publishBind t policy s).sessions s).progress ≠ .onPublish := by
      rw [publishBind_refuse he, refuse, hself]
      intro hp
      cases hp
    rw [publishEnd_unbound hp]
    rw [publishBind_refuse he] at hbind ⊢
    apply h.of_run hbind h.openSource
    apply idle_modify
    · exact fun x _ ↦ h.idle x
    · exact fun hc ↦ ⟨(h.idle s hc).1, Or.inr rfl⟩
  | replaces old src hpol hreg hg hc =>
    subst hpol
    by_cases hne : old = s
    · have hself := publishBind_self h hreg hg hc hne
      have hp : ((publishBind t .replace s).sessions s).progress ≠ .onPublish := by
        rw [hself, replace_self h hreg hg hc]
        intro hp
        cases hp
      rw [publishEnd_unbound hp]
      rw [hself] at hbind ⊢
      exact settled_replace_self h hreg hg hc hne hbind
    · have hp : ((publishBind t .replace s).sessions s).progress ≠ .onPublish := by
        rw [publishBind_replace h hen hreg hg hc hne, modify_self]
        intro hp
        cases hp
      rw [publishEnd_unbound hp]
      exact settled_replace h hen hreg hg hc hne hbind

theorem delayedCheck_none (hs : (t.sessions s).mediaSource = none) : t.delayedCheck s = t := by
  unfold delayedCheck
  rw [hs]

theorem delayedCheck_gone (hs : (t.sessions s).mediaSource = some src)
    (hg : t.getSession src = none) :
    t.delayedCheck s =
      (t.modify s fun x ↦ { x with waitingCleanup := false }).removeSource.close src := by
  unfold delayedCheck
  simp only [hs, hg]

theorem delayedCheck_bound {old : ℕ} (hs : (t.sessions s).mediaSource = some src)
    (hg : t.getSession src = some old) :
    t.delayedCheck s = t.modify s fun x ↦ { x with waitingCleanup := false } := by
  unfold delayedCheck
  simp only [hs, hg]

theorem settled_step (h : Settled t) (hstep : PublisherStep t t') : Settled t' := by
  cases hstep with
  | publish policy s ok sentOk hen => exact settled_publish h hen ok sentOk
  | stop s hs =>
    apply h.of_run (stopNow_run (h.idle s hs).2 (h.idle s hs).1)
    · intro r hr
      rw [stopNow_registered] at hr
      rw [stopNow_source_closed]
      exact h.openSource r hr
    · intro x
      by_cases hx : x = s
      · subst hx
        obtain ⟨w, hw⟩ := stopNow_self t x
        rw [hw]
        intro hclosed
        cases hclosed
      · rw [stopNow_of_ne hx]
        exact h.idle x
  | check s hen =>
    have hrun : Relation.ReflTransGen CarefulStep t (t.delayedCheck s) :=
      .single ⟨s, .delayedCheck, hen, trivial, rfl⟩
    have hidle : ∀ x, Idle ((t.modify s fun x ↦ { x with waitingCleanup := false }).sessions x) := by
      intro x
      refine idle_modify ?_ ?_ x
      · exact fun x _ ↦ h.idle x
      · exact h.idle s
    cases hs : (t.sessions s).mediaSource with
    | none =>
      rw [delayedCheck_none hs]
      exact h
    | some src =>
      cases hg : t.getSession src with
      | none =>
        rw [delayedCheck_gone hs hg] at hrun ⊢
        exact h.of_run hrun (fun r hr ↦ by cases hr) hidle
      | some old =>
        rw [delayedCheck_bound hs hg] at hrun ⊢
        exact h.of_run hrun h.openSource hidle
  | destroy s hen =>
    apply h.of_run (.single ⟨s, .destroy, hen, trivial, rfl⟩)
    · exact h.openSource
    · intro x
      change Idle ((t.modify s fun x ↦ { x with alive := false }).sessions x)
      refine idle_modify ?_ ?_ x
      · exact fun x _ ↦ h.idle x
      · exact h.idle s

theorem settled_run (h : Relation.ReflTransGen PublisherStep (init fun _ ↦ .rtmp) t) :
    Settled t := by
  induction h with
  | refl => exact settled_init
  | tail _ hstep ih => exact settled_step ih hstep

end MmsServer.Core.PublisherSteps
