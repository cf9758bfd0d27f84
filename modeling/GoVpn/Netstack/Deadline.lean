import GoVpn.Lib.Run

/-!
# Deadline timers

`deadlineTimer` (`netstack/deadline.go`): a deadline and a channel that closes when it passes.
`set`, `wait`, `stop` and the callback of a timer each run under the mutex, so each is one step.
A timer that is due starts a goroutine for its callback, which gets the mutex whenever the
scheduler pleases. `Stop` prevents the start, not the goroutine.

Channels are numbered in the order they are made, and times are nanoseconds on a clock that does
not run backwards; `time.Until` is not cut off at the 292 years a `Duration` can hold. Closing a
closed channel panics, and from then on nothing happens.
-/

namespace GoVpn.Netstack

/-- A running `time.AfterFunc` timer: when it is due, and the channel its callback captured. -/
structure ArmedTimer where
  due : Int
  ch : Nat
  /-- Which `set` call armed it; the code has no such number. -/
  gen : Nat
  fired : Bool := false
  deriving DecidableEq

/-- The goroutine of a timer that fired, waiting for the mutex. -/
structure LateCallback where
  ch : Nat
  gen : Nat
  deriving DecidableEq

structure DeadlineTimer where
  timer : Option ArmedTimer := none
  ch : Nat := 0
  expired : Bool := false
  deriving DecidableEq

/-- `wait`: the channel a blocked reader or writer selects on. -/
def DeadlineTimer.wait (d : DeadlineTimer) : Nat := d.ch

/-- One timer, the clock, the callbacks on their way and the channels closed so far. -/
structure DeadlineWorld where
  d : DeadlineTimer := {}
  now : Int := 0
  made : Nat := 1
  /-- Every `close` executed, in order. -/
  closes : List Nat := []
  late : List LateCallback := []
  panicked : Bool := false
  /-- The argument of the last `set`, `none` for the zero time. -/
  want : Option Int := none
  /-- How many `set` calls there were. -/
  gen : Nat := 0
  deriving DecidableEq

namespace DeadlineWorld

/-- `newDeadlineTimer`, made at time `now`. -/
def new (now : Int) : DeadlineWorld := { now := now }

/-- `close(c)`. -/
def closeChan (w : DeadlineWorld) (c : Nat) : DeadlineWorld :=
  { w with closes := w.closes ++ [c], panicked := w.panicked || w.closes.contains c }

/-- `stop`: the timer is forgotten, and does not fire unless it already has. -/
def stop (w : DeadlineWorld) : DeadlineWorld := { w with d := { w.d with timer := none } }

/-- The part of `set` that makes a fresh channel after a deadline that expired. -/
def renew (w : DeadlineWorld) : DeadlineWorld :=
  if w.d.expired then
    { w with d := { w.d with ch := w.made, expired := false }, made := w.made + 1 }
  else w

def set (w : DeadlineWorld) (t : Option Int) : DeadlineWorld :=
  let w := { w.stop.renew with want := t, gen := w.gen + 1 }
  match t with
  | none => w
  | some t =>
    let dur := t - w.now
    if dur ≤ 0 then
      { w with d := { w.d with expired := true } }.closeChan w.d.ch
    else
      { w with d := { w.d with timer := some { due := w.now + dur, ch := w.d.ch, gen := w.gen } } }

/-- The runtime starts the callback of the timer, if that is due and was not started yet. -/
def fire (w : DeadlineWorld) : DeadlineWorld :=
  match w.d.timer with
  | none => w
  | some t =>
    if t.fired = false ∧ t.due ≤ w.now then
      { w with d := { w.d with timer := some { t with fired := true } }
               late := w.late ++ [{ ch := t.ch, gen := t.gen }] }
    else w

/-- The callback that waits in place `i` gets the mutex. -/
def callback (w : DeadlineWorld) (i : Nat) : DeadlineWorld :=
  match w.late[i]? with
  | none => w
  | some cb =>
    let w := { w with late := w.late.eraseIdx i }
    if w.d.expired then w
    else { w with d := { w.d with expired := true } }.closeChan cb.ch

end DeadlineWorld

/-- What can happen next. -/
inductive DeadlineAct
  | set (t : Option Int)
  | stop
  | fire
  | callback (i : Nat)
  | elapse (ns : Nat)
  deriving DecidableEq

/-- One step of the timer and its runtime; after a panic there is none. -/
def DeadlineWorld.step (w : DeadlineWorld) (a : DeadlineAct) : DeadlineWorld :=
  if w.panicked then w
  else
    match a with
    | .set t => w.set t
    | .stop => w.stop
    | .fire => w.fire
    | .callback i => w.callback i
    | .elapse ns => { w with now := w.now + ns }

end GoVpn.Netstack
