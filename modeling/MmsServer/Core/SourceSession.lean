import MmsServer.Lib.WeakSlot
import Mathlib.Logic.Function.Basic
import Mathlib.Logic.Relation

namespace MmsServer.Core.SourceSession

open Function Lib.WeakSlot

inductive Protocol
  | rtmp
  | rtsp
deriving DecidableEq

inductive ConflictPolicy
  | replace
  | refuse
deriving DecidableEq

/-- `session` is the weak reference `session_`. -/
structure MediaSource where
  mediaType : Protocol := .rtmp
  session : Option ℕ := none
  closed : Bool := false

/-- Where the receive coroutine of a session stands: between two requests, in
one of the suspensions of a request, or at its end. -/
inductive Progress
  | receiving
  | stoppingOld (old src : ℕ)
  | onPublish
  | sending
  | ended
deriving DecidableEq

/-- `mediaSource` is `rtmp_media_source_` or `rtsp_media_source_`. The last two
fields record how the requests of the session were answered. -/
structure Session where
  protocol : Protocol
  progress : Progress := .receiving
  mediaSource : Option ℕ := none
  isTcpTransport : Bool := false
  closed : Bool := false
  stopped : Bool := false
  waitingCleanup : Bool := false
  alive : Bool := true
  acceptedFor : List ℕ := []
  refused : Bool := false

/-- The sessions, the sources they made and the source that `SourceManager` has
under one domain, app and stream name. -/
structure Server where
  sessions : ℕ → Session
  sources : ℕ → MediaSource := fun _ ↦ {}
  nextSource : ℕ := 0
  registered : Option ℕ := none

namespace Server

def alive (t : Server) (s : ℕ) : Bool := (t.sessions s).alive

def modify (t : Server) (s : ℕ) (f : Session → Session) : Server :=
  { t with sessions := update t.sessions s (f (t.sessions s)) }

def modifySource (t : Server) (src : ℕ) (f : MediaSource → MediaSource) : Server :=
  { t with sources := update t.sources src (f (t.sources src)) }

def getSession (t : Server) (src : ℕ) : Option ℕ := lock t.alive (t.sources src).session

def setSession (t : Server) (src : ℕ) (s : Option ℕ) : Bool × Server :=
  ((exchange t.alive (t.sources src).session s).1,
    t.modifySource src fun m ↦ { m with session := (exchange t.alive (t.sources src).session s).2 })

def addSource (t : Server) (src : ℕ) : Bool × Server :=
  match t.registered with
  | some r => (r = src, t)
  | none => (true, { t with registered := some src })

def removeSource (t : Server) : Server := { t with registered := none }

def close (t : Server) (src : ℕ) : Server := t.modifySource src fun m ↦ { m with closed := true }

def makeSource (t : Server) (s : ℕ) : Server :=
  { t with
    sources := update t.sources t.nextSource { mediaType := (t.sessions s).protocol, session := some s }
    nextSource := t.nextSource + 1 }

/-- A handler that gives up and returns false ends the receive coroutine; one
that returns true lets it go on. -/
def refuse (t : Server) (s : ℕ) (next : Progress) : Server :=
  t.modify s fun x ↦ { x with refused := true, progress := next }

def takeSource (t : Server) (s src : ℕ) : Server :=
  let r := (t.modify s fun x ↦ { x with mediaSource := some src }).setSession src (some s)
  if r.1 then r.2.modify s fun x ↦ { x with progress := .onPublish } else r.2.refuse s .ended

def publish (t : Server) (policy : ConflictPolicy) (s : ℕ) : Server :=
  match t.registered with
  | none => (t.makeSource s).takeSource s t.nextSource
  | some src =>
    if (t.sources src).mediaType ≠ .rtmp then (t.makeSource s).takeSource s t.nextSource
    else
      match t.getSession src with
      | none => t.takeSource s src
      | some old =>
        match policy with
        | .refuse => t.refuse s .ended
        | .replace =>
          if (t.sessions old).closed then t.refuse s .ended
          else
            (t.modify old fun x ↦ { x with closed := true }).modify s fun x ↦
              { x with progress := .stoppingOld old src }

/-- The command goes on when `sync_stop` has returned. -/
def oldStopped (t : Server) (s : ℕ) : Server :=
  match (t.sessions s).progress with
  | .stoppingOld _ src => t.takeSource s src
  | _ => t

def announce (t : Server) (s : ℕ) : Server :=
  let r :=
    match t.registered with
    | none => (t.makeSource s, t.nextSource)
    | some src => (t, src)
  if (r.1.sources r.2).mediaType ≠ .rtsp then r.1.refuse s .receiving
  else
    ((r.1.modify s fun x ↦ { x with mediaSource := some r.2 }).setSession r.2 (some s)).2.modify s fun x ↦
      { x with progress := .onPublish }

/-- `on_publish` has returned. For an RTSP session `ok` says too that the SDP of
the request is good. -/
def published (t : Server) (s : ℕ) (ok : Bool) : Server :=
  if ok then t.modify s fun x ↦ { x with progress := .sending }
  else t.refuse s (if (t.sessions s).protocol = .rtmp then .ended else .receiving)

/-- The status message or the response is on its way. The RTSP handler does not
look at the result. -/
def sent (t : Server) (s : ℕ) (ok : Bool) : Server :=
  if (t.sessions s).protocol = .rtmp ∧ ok = false then t.refuse s .ended
  else
    match (t.sessions s).mediaSource with
    | none => t
    | some src =>
      let r := t.addSource src
      if r.1 then
        r.2.modify s fun x ↦
          { x with acceptedFor := src :: x.acceptedFor, refused := false, progress := .receiving }
      else (r.2.close src).refuse s .ended

/-- `do_stop` after its wait for the coroutines of the session. -/
def doStop (t : Server) (s : ℕ) : Server :=
  match (t.sessions s).mediaSource with
  | none => t.modify s fun x ↦ { x with stopped := true }
  | some src =>
    (t.setSession src none).2.modify s fun x ↦ { x with stopped := true, waitingCleanup := true }

def delayedCheck (t : Server) (s : ℕ) : Server :=
  match (t.sessions s).mediaSource with
  | none => t
  | some src =>
    let t' := t.modify s fun x ↦ { x with waitingCleanup := false }
    match t.getSession src with
    | none => t'.removeSource.close src
    | some _ => t'

end Server

inductive Action
  | publish (policy : ConflictPolicy)
  | oldStopped
  | announce
  | published (ok : Bool)
  | sent (ok : Bool)
  | setup
  | stop
  | recvEnd
  | doStop
  | delayedCheck
  | destroy

namespace Server

def apply (t : Server) (s : ℕ) : Action → Server
  | .publish policy => t.publish policy s
  | .oldStopped => t.oldStopped s
  | .announce => t.announce s
  | .published ok => t.published s ok
  | .sent ok => t.sent s ok
  | .setup => t.modify s fun x ↦ { x with isTcpTransport := true }
  | .stop => t.modify s fun x ↦ { x with closed := true }
  | .recvEnd => t.modify s fun x ↦ { x with progress := .ended }
  | .doStop => t.doStop s
  | .delayedCheck => t.delayedCheck s
  | .destroy => t.modify s fun x ↦ { x with alive := false }

/-- When session `s` can take an action. `sync_stop` waits for `do_stop`, which
waits for the receive coroutine. Its coroutines, the pending check and a command
that waits for it keep a session alive. -/
def Enabled (t : Server) (s : ℕ) : Action → Prop
  | .publish _ => (t.sessions s).protocol = .rtmp ∧ (t.sessions s).progress = .receiving
  | .oldStopped => ∃ old src, (t.sessions s).progress = .stoppingOld old src ∧
      (t.sessions old).stopped = true
  | .announce => (t.sessions s).protocol = .rtsp ∧ (t.sessions s).progress = .receiving
  | .published _ => (t.sessions s).progress = .onPublish
  | .sent _ => (t.sessions s).progress = .sending
  | .setup => (t.sessions s).protocol = .rtsp ∧ (t.sessions s).progress = .receiving
  | .stop => (t.sessions s).closed = false
  | .recvEnd => (t.sessions s).progress = .receiving
  | .doStop => (t.sessions s).closed = true ∧ (t.sessions s).stopped = false ∧
      (t.sessions s).progress = .ended
  | .delayedCheck => (t.sessions s).waitingCleanup = true
  | .destroy => (t.sessions s).stopped = true ∧ (t.sessions s).waitingCleanup = false ∧
      (t.sessions s).progress = .ended ∧ ∀ x src, (t.sessions x).progress ≠ .stoppingOld s src

end Server

def init (protocol : ℕ → Protocol) : Server where
  sessions s := { protocol := protocol s }

namespace Server

variable (t : Server) (s src : ℕ) (f : Session → Session) (g : MediaSource → MediaSource)

@[simp] theorem modify_sources : (t.modify s f).sources = t.sources := rfl

@[simp] theorem modify_registered : (t.modify s f).registered = t.registered := rfl

@[simp] theorem modify_self : (t.modify s f).sessions s = f (t.sessions s) := update_self s _ _

theorem modify_of_ne {x : ℕ} (h : x ≠ s) : (t.modify s f).sessions x = t.sessions x :=
  update_of_ne h _ _

@[simp] theorem modifySource_self : (t.modifySource src g).sources src = g (t.sources src) :=
  update_self src _ _

theorem modifySource_of_ne {x : ℕ} (h : x ≠ src) : (t.modifySource src g).sources x = t.sources x :=
  update_of_ne h _ _

@[simp] theorem setSession_sessions (new : Option ℕ) :
    (t.setSession src new).2.sessions = t.sessions := rfl

@[simp] theorem makeSource_sessions : (t.makeSource s).sessions = t.sessions := rfl

@[simp] theorem makeSource_self : (t.makeSource s).sources t.nextSource =
    { mediaType := (t.sessions s).protocol, session := some s } := update_self t.nextSource _ _

theorem makeSource_of_ne {x : ℕ} (h : x ≠ t.nextSource) :
    (t.makeSource s).sources x = t.sources x :=
  update_of_ne h _ _

theorem setSession_closed (new : Option ℕ) (r : ℕ) :
    ((t.setSession src new).2.sources r).closed = (t.sources r).closed := by
  by_cases hr : r = src
  · subst hr
    simp [setSession]
  · simp [setSession, modifySource_of_ne t src _ hr]

theorem setSession_session (new : Option ℕ) (r : ℕ) : ((t.setSession src new).2.sources r).session =
    if r = src then (exchange t.alive (t.sources src).session new).2 else (t.sources r).session := by
  by_cases hr : r = src
  · subst hr
    simp [setSession]
  · simp [setSession, modifySource_of_ne t src _ hr, hr]

variable {t s src f g}

theorem alive_modify (hf : ∀ x, (f x).alive = x.alive) : (t.modify s f).alive = t.alive := by
  funext x
  by_cases hx : x = s
  · subst hx
    exact (congrArg Session.alive (modify_self t x f)).trans (hf _)
  · exact congrArg Session.alive (modify_of_ne t s f hx)

def bindTo (t : Server) (s src : ℕ) : Server :=
  (t.modify s fun x ↦ { x with mediaSource := some src, progress := .onPublish }).modifySource src fun m ↦
    { m with session := some s }

theorem bindTo_self (t : Server) (s src : ℕ) : (t.bindTo s src).sessions s =
    { t.sessions s with mediaSource := some src, progress := .onPublish } :=
  modify_self t s fun x ↦ { x with mediaSource := some src, progress := .onPublish }

theorem bindTo_of_ne {x : ℕ} (hx : x ≠ s) : (t.bindTo s src).sessions x = t.sessions x :=
  modify_of_ne t s (fun x ↦ { x with mediaSource := some src, progress := .onPublish }) hx

theorem bindTo_source (t : Server) (s src : ℕ) : (t.bindTo s src).sources src =
    { t.sources src with session := some s } :=
  modifySource_self t src fun m ↦ { m with session := some s }

theorem bindTo_closed (t : Server) (s src r : ℕ) :
    ((t.bindTo s src).sources r).closed = (t.sources r).closed := by
  by_cases hr : r = src
  · subst hr
    rw [bindTo_source]
  · exact congrArg MediaSource.closed (modifySource_of_ne t src (fun m ↦ { m with session := some s }) hr)

theorem modify_modify (h : Session → Session) : (t.modify s f).modify s h = t.modify s (h ∘ f) := by
  unfold modify
  simp

theorem setSession_modify (hf : ∀ x, (f x).alive = x.alive) (new : Option ℕ) :
    (t.modify s f).setSession src new =
    ((t.setSession src new).1, (t.setSession src new).2.modify s f) := by
  unfold setSession
  rw [alive_modify hf]
  rfl

theorem setSession_ok {new : Option ℕ} (h : t.getSession src = none ∨ t.getSession src = new) :
    t.setSession src new = (true, t.modifySource src fun m ↦ { m with session := new }) := by
  unfold setSession
  rw [exchange_ok h]

theorem setSession_refused {old : ℕ} {new : Option ℕ} (h : t.getSession src = some old)
    (hne : some old ≠ new) :
    t.setSession src new = (false, t) := by
  obtain ⟨hs, ha⟩ := lock_eq_some.mp h
  have hself : (t.modifySource src fun m ↦ { m with session := some old }) = t := by
    unfold modifySource
    rw [← hs, update_eq_self]
  unfold setSession
  rw [hs, exchange_refused ha hne, hself]

theorem takeSource_ok (h : t.getSession src = none ∨ t.getSession src = some s) :
    t.takeSource s src = t.bindTo s src := by
  unfold takeSource bindTo
  rw [setSession_modify (by intro x; rfl), setSession_ok h]
  simp only [if_true, modify_modify]
  rfl

theorem getSession_makeSource (t : Server) (s : ℕ) :
    (t.makeSource s).getSession t.nextSource = none ∨
    (t.makeSource s).getSession t.nextSource = some s := by
  unfold getSession
  rw [makeSource_self]
  cases ha : (t.makeSource s).alive s
  · exact Or.inl (lock_gone ha)
  · exact Or.inr (lock_live ha)

theorem announce_none (hreg : t.registered = none) (hp : (t.sessions s).protocol = .rtsp) :
    t.announce s = (t.makeSource s).bindTo s t.nextSource := by
  have hm : ((t.makeSource s).sources t.nextSource).mediaType = .rtsp := by rw [makeSource_self, hp]
  unfold announce bindTo
  rw [hreg]
  simp only [hm, ne_eq, not_true_eq_false, if_false]
  rw [setSession_modify (by intro x; rfl), setSession_ok (getSession_makeSource t s)]
  simp only [modify_modify]
  rfl

theorem announce_some (hreg : t.registered = some src) (hm : (t.sources src).mediaType = .rtsp)
    (h : t.getSession src = none ∨ t.getSession src = some s) : t.announce s = t.bindTo s src := by
  unfold announce bindTo
  rw [hreg]
  simp only [hm, ne_eq, not_true_eq_false, if_false]
  rw [setSession_modify (by intro x; rfl), setSession_ok h]
  simp only [modify_modify]
  rfl

theorem announce_other (hreg : t.registered = some src) (hm : (t.sources src).mediaType ≠ .rtsp) :
    t.announce s = t.refuse s .receiving := by
  unfold announce
  rw [hreg]
  simp only [ne_eq, hm, not_false_eq_true, if_true]

theorem takeSource_refused {old : ℕ} (h : t.getSession src = some old) (hne : old ≠ s) :
    t.takeSource s src = t.modify s fun x ↦
      { x with mediaSource := some src, refused := true, progress := .ended } := by
  unfold takeSource
  rw [setSession_modify (by intro x; rfl), setSession_refused h fun he ↦ hne (Option.some.inj he)]
  simp only [Bool.false_eq_true, if_false, refuse, modify_modify]
  rfl

end Server

end MmsServer.Core.SourceSession
