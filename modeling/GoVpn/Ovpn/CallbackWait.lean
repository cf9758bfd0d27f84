import GoVpn.Lib.Threads

/-!
# Waiting for callbacks

`OnSessionClosed` runs on goroutines of its own. `cbBegin` counts one before it is
started and `cbEnd` after the callback has returned, and `Close` ends in `cbWait`,
which makes a channel, leaves it in `cbDone` and receives from it (`ovpn.go`). The
counter and the field are guarded by `cbMu`; each section below is one hold of it, and
the receive.
-/

namespace GoVpn.Ovpn

/-- A channel, by the order of its making. -/
abbrev Chan := Nat

/-- The fields `cbMu` guards, and the channels made so far. -/
structure CallbackWait where
  cbCount : Int := 0
  cbDone : Option Chan := none
  made : Nat := 0
  closed : List Chan := []
  deriving DecidableEq

inductive CallbackSection
  | cbBegin
  | cbEnd
  | cbWait
  /-- At `<-ch`. -/
  | receive (ch : Chan)
  deriving DecidableEq

inductive CallbackEvent
  /-- A session is torn down by a configuration with `OnSessionClosed`. -/
  | sessionClosed
  /-- A call of `Close` has closed the sessions of its snapshot. -/
  | serverClose

namespace CallbackWait

def start (w : CallbackWait) : CallbackEvent → CallbackWait × List CallbackSection
  | .sessionClosed => (w, [.cbBegin])
  | .serverClose => (w, [.cbWait])

def exec (w : CallbackWait) : CallbackSection → CallbackWait × List CallbackSection
  -- the callback runs until its goroutine gets to `cbEnd`
  | .cbBegin => ({ w with cbCount := w.cbCount + 1 }, [.cbEnd])
  | .cbEnd =>
    let w := { w with cbCount := w.cbCount - 1 }
    match w.cbDone with
    | some ch =>
      (if w.cbCount = 0 then { w with closed := ch :: w.closed, cbDone := none } else w, [])
    | none => (w, [])
  | .cbWait =>
    if w.cbCount = 0 then (w, [])
    else ({ w with made := w.made + 1, cbDone := some w.made }, [.receive w.made])
  | .receive ch => (w, if w.closed.contains ch then [] else [.receive ch])

end CallbackWait

/-- The goroutines that begin, end and wait for callbacks. -/
def callbackProgram : Threads.Program CallbackWait CallbackSection CallbackEvent Unit where
  start := CallbackWait.start
  exec w x _ := w.exec x

end GoVpn.Ovpn
