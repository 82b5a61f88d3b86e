import Mathlib.Control.Monad.Basic

namespace QBRepository.RxSwift

/-!
# `Single` — one subscription of RxSwift

What RxSwift does when a `Single` made by `Single.create` is subscribed to: the objects one
subscription consists of are the record `Subscription`, and events pass through them from the
subscribe handler to the observer.

* `Single.create`, `Single.subscribe` — the two ends;
* `AnonymousObservableSink.on`, `Sink.forwardOn`, `ObserverBase.on`, `Single.onEvent` — the way of
  an event;
* `Subscription.disposeSink`, `Subscription.disposeCancel` — two `dispose()` that call each other;
* `run_create_emitEach` — the observer is called with the first event, and with no other;
* `DoesAs` — what code on a thread does, if it meets no fatal error and leaves the thread as it was.
-/

variable {Error Element : Type}

/-- `SingleEvent` -/
inductive SingleEvent (Error Element : Type) where
  | success (element : Element)
  | error (error : Error)

/-- `Event` -/
inductive Event (Error Element : Type) where
  | next (element : Element)
  | error (error : Error)
  | completed

/-- The calls of `rxFatalError` and `rxFatalErrorInDebug`. -/
inductive FatalError where
  | completionEvent
  | sinkNotSet
  | alreadySet

/-! ### The objects of a subscription -/

/-- `SinkDisposer`: the flags of its `_state`, and whether it holds a sink and a subscription. -/
structure SinkDisposer where
  isDisposed : Bool
  sinkAndSubscriptionSet : Bool
  holdsSink : Bool

/-- One subscription: `_isStopped` and `_disposed` of the sink, `_isStopped` of the observer, the
    variable `stopped` of `Single.subscribe`, and the `SinkDisposer`. -/
structure Subscription where
  sinkIsStopped : Bool
  sinkDisposed : Bool
  observerIsStopped : Bool
  stopped : Bool
  cancel : SinkDisposer

namespace Subscription

/-- The objects as they are made. -/
def start : Subscription := ⟨false, false, false, false, ⟨false, false, false⟩⟩

/-- An event has been delivered, and the disposer does not hold the sink yet. -/
def delivered : Subscription := ⟨true, true, true, true, ⟨true, false, false⟩⟩

/-- An event has been delivered, and the disposer has let go of the sink. -/
def finished : Subscription := ⟨true, true, true, true, ⟨true, true, false⟩⟩

mutual

/-- `Sink.dispose()` -/
def disposeSink (s : Subscription) : Except FatalError Subscription :=
  disposeCancel { s with sinkDisposed := true }
termination_by 2 * (if s.cancel.isDisposed then 0 else 1) + 1

/-- `SinkDisposer.dispose()`; the subscription it holds is a `NopDisposable`. -/
def disposeCancel (s : Subscription) : Except FatalError Subscription :=
  if s.cancel.isDisposed then .ok s
  else if s.cancel.sinkAndSubscriptionSet then
    if s.cancel.holdsSink then do
      let s' ← disposeSink { s with cancel.isDisposed := true }
      return { s' with cancel.holdsSink := false }
    else .error .sinkNotSet
  else .ok { s with cancel.isDisposed := true }
termination_by 2 * (if s.cancel.isDisposed then 0 else 1)
decreasing_by simp only [*, if_true]; decide

end

/-- `SinkDisposer.setSinkAndSubscription(sink:subscription:)` -/
def setSinkAndSubscription (s : Subscription) : Except FatalError Subscription :=
  if s.cancel.sinkAndSubscriptionSet then .error .alreadySet
  else
    let s' := { s with cancel := ⟨s.cancel.isDisposed, true, true⟩ }
    if s.cancel.isDisposed then do
      let s'' ← disposeSink s'
      return { s'' with cancel.holdsSink := false }
    else .ok s'

/-- Disposing twice changes nothing. -/
theorem disposeCancel_of_isDisposed {s : Subscription} (h : s.cancel.isDisposed = true) :
    s.disposeCancel = .ok s := by
  rw [disposeCancel, if_pos h]

end Subscription

/-! ### The way of an event -/

section Events

variable {M : Type → Type} [Monad M] [MonadExceptOf FatalError M]

/-- A `dispose()` among the objects of the subscription. -/
def disposing (dispose : Subscription → Except FatalError Subscription) :
    StateT Subscription M Unit := do
  match dispose (← get) with
  | .ok s => set s
  | .error error => throw error

/-- The closure of `Single.subscribe`. -/
def Single.onEvent (observer : SingleEvent Error Element → M Unit) :
    Event Error Element → StateT Subscription M Unit := fun event => do
  if (← get).stopped then
    return ()
  modify fun s => { s with stopped := true }
  match event with
  | .next element => observer (.success element)
  | .error error => observer (.error error)
  | .completed => throw FatalError.completionEvent

/-- `ObserverBase.on`, whose `onCore` calls the closure. -/
def ObserverBase.on (onCore : Event Error Element → StateT Subscription M Unit) :
    Event Error Element → StateT Subscription M Unit
  | .next element => do
    if !(← get).observerIsStopped then
      onCore (.next element)
  | event => do
    if !(← get).observerIsStopped then
      modify fun s => { s with observerIsStopped := true }
      onCore event

/-- `Sink.forwardOn` -/
def Sink.forwardOn (observer : Event Error Element → StateT Subscription M Unit) :
    Event Error Element → StateT Subscription M Unit := fun event => do
  if (← get).sinkDisposed then
    return ()
  observer event

/-- `AnonymousObservableSink.on` -/
def AnonymousObservableSink.on (observer : Event Error Element → StateT Subscription M Unit) :
    Event Error Element → StateT Subscription M Unit
  | .next element => do
    if (← get).sinkIsStopped then
      return ()
    Sink.forwardOn observer (.next element)
  | event => do
    if !(← get).sinkIsStopped then
      modify fun s => { s with sinkIsStopped := true }
      Sink.forwardOn observer event
      disposing Subscription.disposeSink

/-- `Single`, by the subscribe handler of its `AnonymousObservable`.  The disposable the handler
    returns does nothing. -/
structure Single (M : Type → Type) (Error Element : Type) where
  subscribeHandler : (Event Error Element → StateT Subscription M Unit) → StateT Subscription M Unit

/-- `Single.create(subscribe:)` -/
def Single.create (subscribe : (SingleEvent Error Element → StateT Subscription M Unit) →
    StateT Subscription M Unit) : Single M Error Element where
  subscribeHandler observer := subscribe fun event =>
    match event with
    | .success element => do
      observer (.next element)
      observer .completed
    | .error error => observer (.error error)

/-- The body of `Producer.subscribe`: run the handler, and let the disposer hold the sink. -/
def Producer.run (single : Single M Error Element)
    (observer : Event Error Element → StateT Subscription M Unit) : M Subscription := do
  let (_, s) ← (single.subscribeHandler (AnonymousObservableSink.on observer)).run
    Subscription.start
  match s.setSinkAndSubscription with
  | .ok s => return s
  | .error error => throw error

/-! ### What reaches the observer -/

section Emitting

variable [LawfulMonad M] (observer : SingleEvent Error Element → M Unit)

/-- What `Single.create` hands to the subscribe handler when `observer` subscribes. -/
def emit (event : SingleEvent Error Element) : StateT Subscription M Unit :=
  match event with
  | .success element => do
    AnonymousObservableSink.on (ObserverBase.on (Single.onEvent observer)) (.next element)
    AnonymousObservableSink.on (ObserverBase.on (Single.onEvent observer)) .completed
  | .error error =>
    AnonymousObservableSink.on (ObserverBase.on (Single.onEvent observer)) (.error error)

/-- The first event is delivered, and stops all that is on its way. -/
theorem emit_start (event : SingleEvent Error Element) :
    (emit observer event).run Subscription.start = do
      observer event
      return ((), Subscription.delivered) := by
  have hdispose : Subscription.disposeSink ⟨true, false, true, true, ⟨false, false, false⟩⟩
      = .ok Subscription.delivered := by
    rw [Subscription.disposeSink, Subscription.disposeCancel]
    rfl
  cases event <;>
    simp [emit, AnonymousObservableSink.on, Sink.forwardOn, ObserverBase.on, Single.onEvent,
      Subscription.start, disposing, hdispose]

/-- A later event is not delivered. -/
theorem emit_delivered (event : SingleEvent Error Element) :
    (emit observer event).run Subscription.delivered = pure ((), Subscription.delivered) := by
  cases event <;> simp [emit, AnonymousObservableSink.on, Subscription.delivered]

/-- A subscribe handler that comes by its events one after another, and hands each of them on. -/
def emitEach (single : SingleEvent Error Element → StateT Subscription M Unit) :
    List (M (SingleEvent Error Element)) → StateT Subscription M Unit
  | [] => return ()
  | event :: events => do
    single (← event)
    emitEach single events

omit [MonadExceptOf FatalError M] [LawfulMonad M] in
/-- Coming by the events only. -/
def performEach : List (M (SingleEvent Error Element)) → M Unit
  | [] => return ()
  | event :: events => do
    let _ ← event
    performEach events

/-- Nothing more is delivered. -/
theorem emitEach_delivered (events : List (M (SingleEvent Error Element))) :
    (emitEach (emit observer) events).run Subscription.delivered = do
      performEach events
      return ((), Subscription.delivered) := by
  induction events with
  | nil => simp [emitEach, performEach]
  | cons event events ih => simp [emitEach, performEach, emit_delivered, ih]

omit [LawfulMonad M] in
/-- What subscribing to a created single does. -/
theorem run_create (handler : (SingleEvent Error Element → StateT Subscription M Unit) →
    StateT Subscription M Unit) :
    Producer.run (Single.create handler) (ObserverBase.on (Single.onEvent observer)) = (do
      let (_, s) ← (handler (emit observer)).run Subscription.start
      match s.setSinkAndSubscription with
      | .ok s => return s
      | .error error => throw error) := rfl

/-- **The first event**, and no other, is what the observer is called with, whatever the subscribe
    handler hands on. -/
theorem run_create_emitEach (event : M (SingleEvent Error Element))
    (events : List (M (SingleEvent Error Element))) :
    Producer.run (Single.create fun single => emitEach single (event :: events))
        (ObserverBase.on (Single.onEvent observer)) = do
      observer (← event)
      performEach events
      return Subscription.finished := by
  have hset : Subscription.delivered.setSinkAndSubscription = .ok Subscription.finished := by
    rw [Subscription.setSinkAndSubscription]
    simp only [Subscription.delivered, Subscription.disposeSink]
    rw [Subscription.disposeCancel_of_isDisposed rfl]
    rfl
  rw [run_create]
  simp [emitEach, emit_start, emitEach_delivered, hset]

end Emitting

end Events

/-! ### The thread -/

/-- The thread, by whether `CurrentThreadScheduler` is to be entered on it. -/
structure CurrentThread where
  isScheduleRequired : Bool

/-- Code that runs on a thread, with the effects `m` of the program; it may end in a fatal error. -/
abbrev ThreadM (m : Type → Type) := StateT CurrentThread (ExceptT FatalError m)

section Thread

variable {m : Type → Type} [Monad m] {α β : Type}

/-- `CurrentThreadScheduler.schedule`, where it is required; nothing is put in its queue, for what
    is subscribed to within the action is not scheduled. -/
def CurrentThreadScheduler.schedule (action : ThreadM m α) : ThreadM m α := do
  set (CurrentThread.mk false)
  let disposable ← action
  set (CurrentThread.mk true)
  return disposable

/-- `Producer.subscribe` -/
def Producer.subscribe (single : Single (ThreadM m) Error Element)
    (observer : Event Error Element → StateT Subscription (ThreadM m) Unit) :
    ThreadM m Subscription := do
  if !(← get).isScheduleRequired then
    Producer.run single observer
  else
    CurrentThreadScheduler.schedule (Producer.run single observer)

/-- `Single.subscribe(_:)` -/
def Single.subscribe (single : Single (ThreadM m) Error Element)
    (observer : SingleEvent Error Element → ThreadM m Unit) : ThreadM m Subscription :=
  Producer.subscribe single (ObserverBase.on (Single.onEvent observer))

/-- A program calls `dispose()` of what `subscribe` has returned, or lets go of it. -/
def Subscription.disposeIf (disposes : Bool) (s : Subscription) : ThreadM m Unit :=
  if disposes then
    match s.disposeCancel with
    | .ok _ => return ()
    | .error error => throw error
  else
    return ()

/-- `work` does what `plain` does: there is no fatal error, and the thread is as it was. -/
def DoesAs (work : ThreadM m α) (plain : m α) : Prop :=
  ∀ thread, (work.run thread).run = (fun a => .ok (a, thread)) <$> plain

variable [LawfulMonad m]

/-- Returning a value. -/
theorem DoesAs.pure (a : α) : DoesAs (pure a : ThreadM m α) (pure a) := by
  intro thread
  simp

/-- A call that schedules nothing. -/
theorem DoesAs.lift (plain : m α) : DoesAs (liftM plain : ThreadM m α) plain := by
  intro thread
  simp [Except.map]

/-- One piece of work after another. -/
theorem DoesAs.bind {work : ThreadM m α} {plain : m α} {rest : α → ThreadM m β}
    {plainRest : α → m β} (h : DoesAs work plain) (hrest : ∀ a, DoesAs (rest a) (plainRest a)) :
    DoesAs (work >>= rest) (plain >>= plainRest) := by
  intro thread
  rw [StateT.run_bind, ExceptT.run_bind, h thread]
  simp only [bind_map_left, map_bind]
  exact bind_congr fun a => hrest a thread

/-- The rest runs on the value that the first part always has. -/
theorem DoesAs.bind_return {work : ThreadM m α} {plain : m Unit} {a : α} {rest : α → ThreadM m β}
    {plainRest : m β} (h : DoesAs work (do plain; return a))
    (hrest : DoesAs (rest a) plainRest) : DoesAs (work >>= rest) (do plain; plainRest) := by
  intro thread
  rw [StateT.run_bind, ExceptT.run_bind, h thread]
  simp only [map_bind, map_pure, bind_assoc, pure_bind]
  exact bind_congr fun _ => hrest thread

/-- What is subscribed to within another subscription is not scheduled, and the thread is left as it
    was either way. -/
theorem DoesAs.subscribe {single : Single (ThreadM m) Error Element}
    {observer : Event Error Element → StateT Subscription (ThreadM m) Unit} {plain : m Subscription}
    (h : DoesAs (Producer.run single observer) plain) :
    DoesAs (Producer.subscribe single observer) plain := by
  intro thread
  obtain ⟨isScheduleRequired⟩ := thread
  cases isScheduleRequired with
  | false =>
    simp only [Producer.subscribe, StateT.run_bind, StateT.run_get, pure_bind, Bool.not_false,
      if_true]
    exact h ⟨false⟩
  | true =>
    simp only [Producer.subscribe, CurrentThreadScheduler.schedule, StateT.run_bind, StateT.run_get,
      StateT.run_set, pure_bind, Bool.not_true, Bool.false_eq_true, if_false, ExceptT.run_bind]
    rw [h ⟨false⟩]
    simp

/-- **A subscription** to a `Single` that makes a call and emits an event of its result makes the
    call, and hands this one event to the observer. -/
theorem DoesAs.subscribe_create {α : Type} (call : m α) (event : α → SingleEvent Error Element)
    {handler : (SingleEvent Error Element → StateT Subscription (ThreadM m) Unit) →
      StateT Subscription (ThreadM m) Unit}
    (hhandler : ∀ single, handler single = do
      let a ← liftM (liftM call : ThreadM m α)
      single (event a))
    {observer : SingleEvent Error Element → ThreadM m Unit}
    {plain : SingleEvent Error Element → m Unit} (hobserver : ∀ e, DoesAs (observer e) (plain e)) :
    DoesAs ((Single.create handler).subscribe observer) (do
      plain (event (← call))
      return Subscription.finished) := by
  apply DoesAs.subscribe
  have hemits : handler = fun single =>
      emitEach single [(do return event (← (liftM call : ThreadM m α)))] := by
    funext single
    rw [hhandler single]
    simp [emitEach]
  rw [hemits, run_create_emitEach]
  simp only [performEach, bind_assoc, pure_bind]
  exact (DoesAs.lift call).bind fun a =>
    (hobserver (event a)).bind fun _ => DoesAs.pure Subscription.finished

/-- Disposing of a subscription that has come to its end, or not, does nothing. -/
theorem DoesAs.disposeIf_finished (disposes : Bool) :
    DoesAs (Subscription.finished.disposeIf disposes : ThreadM m Unit) (Pure.pure ()) := by
  have hfinished : Subscription.finished.disposeCancel = .ok Subscription.finished :=
    Subscription.disposeCancel_of_isDisposed rfl
  unfold Subscription.disposeIf
  rw [hfinished]
  cases disposes <;> exact DoesAs.pure ()

end Thread

end QBRepository.RxSwift
