import TagItGluster.Base.Keyed
import TagItGluster.Base.Machine

/-!
# The worker pool of io-threads

Requests wait in one list for each priority. A worker takes the first request of the first priority
that has one and is below its limit; of the least priority no more than a number in each second are
taken. A worker without work sleeps, and leaves if it slept too long and is not the last one.

A step is what a thread does while it holds the mutex, or the end of a request outside of it. The
clock, the time at which a sleeper wakes up and what the creation of a thread answers are inputs of
the steps. `arrived` and `handed` are not in the code: the requests that were scheduled and those
that were given to a worker. Line numbers: `xlators/performance/io-threads/src/io-threads.c`.
-/

namespace TagItGluster.IoThreads

open Base Function

/-- `iot_pri_t` up to `IOT_PRI_MAX`. -/
inductive IotPri where
  | hi
  | normal
  | lo
  | least
deriving DecidableEq

/-- The priorities in the order of the loops. -/
def IotPri.all : List IotPri := [.hi, .normal, .lo, .least]

/-- The priority `__iot_enqueue` makes of its argument. -/
def IotPri.ofInt (pri : Int) : IotPri :=
  if pri = 0 then .hi else if pri = 1 then .normal else if pri = 2 then .lo else .least

/-- `struct timeval`. -/
structure Timeval where
  sec : Int
  usec : Int
deriving DecidableEq

/-- `timersub`. -/
def Timeval.sub (a b : Timeval) : Timeval :=
  if a.usec - b.usec < 0 then ⟨a.sec - b.sec - 1, a.usec - b.usec + 1000000⟩
  else ⟨a.sec - b.sec, a.usec - b.usec⟩

/-- `timeradd`. -/
def Timeval.add (a b : Timeval) : Timeval :=
  if 1000000 ≤ a.usec + b.usec then ⟨a.sec + b.sec + 1, a.usec + b.usec - 1000000⟩
  else ⟨a.sec + b.sec, a.usec + b.usec⟩

/-- `IOT_MIN_THREADS`. -/
def iotMinThreads : Nat := 1

/-- `IOT_LEAST_THROTTLE_DELAY`. -/
def iotLeastThrottleDelay : Int := 1

/-- `struct iot_least_throttle`. The limit is compared as an unsigned number. -/
structure Throttle where
  sampleTime : Timeval
  sampleCnt : BitVec 32
  cachedRate : BitVec 32
  rateLimit : BitVec 32
deriving DecidableEq

namespace Throttle

/-- A new sample interval starts if the old one is over. -/
def resample (now : Timeval) (t : Throttle) : Throttle :=
  if iotLeastThrottleDelay ≤ (now.sub t.sampleTime).sec then
    { t with cachedRate := t.sampleCnt, sampleCnt := 0, sampleTime := now }
  else t

/-- The part of `__iot_dequeue` under the lock of the throttle: the time to sleep to, or one more
request is counted. -/
def allow (now : Timeval) (t : Throttle) : Throttle × Option Timeval :=
  if t.sampleTime.sec = 0 then
    ({ t with sampleTime := now, sampleCnt := t.sampleCnt + 1 }, none)
  else
    let t := t.resample now
    if t.rateLimit ≠ 0 ∧ t.rateLimit ≤ t.sampleCnt then
      (t, some (t.sampleTime.add ⟨iotLeastThrottleDelay, 0⟩))
    else ({ t with sampleCnt := t.sampleCnt + 1 }, none)

end Throttle

/-- `iot_conf_t`. A request is its number. -/
structure IotConf where
  maxCount : Nat
  currCount : Int
  sleepCount : Int
  reqs : IotPri → List Nat
  acIotLimit : IotPri → Nat
  acIotCount : IotPri → Int
  queueSizes : IotPri → Int
  queueSize : Int
  throttle : Throttle

/-- What `__iot_dequeue` gives: a request, a time to sleep to, or neither. -/
inductive Dequeued where
  | stub (stub : Nat) (pri : IotPri)
  | sleep (till : Timeval)
  | nothing
deriving DecidableEq

namespace IotConf

/-- `__iot_enqueue` (138). -/
def enqueue (stub : Nat) (pri : IotPri) (conf : IotConf) : IotConf :=
  { conf with
    reqs := update conf.reqs pri (conf.reqs pri ++ [stub])
    queueSize := conf.queueSize + 1
    queueSizes := update conf.queueSizes pri (conf.queueSizes pri + 1) }

/-- A priority that has a request and is below its limit. -/
def ready (conf : IotConf) (pri : IotPri) : Bool :=
  !(conf.reqs pri).isEmpty && decide (conf.acIotCount pri < conf.acIotLimit pri)

/-- The counters after a request was taken, `rest` being those behind it. -/
def took (pri : IotPri) (rest : List Nat) (conf : IotConf) : IotConf :=
  { conf with
    reqs := update conf.reqs pri rest
    acIotCount := update conf.acIotCount pri (conf.acIotCount pri + 1)
    queueSize := conf.queueSize - 1
    queueSizes := update conf.queueSizes pri (conf.queueSizes pri - 1) }

/-- The end of `__iot_dequeue`: the first request of a priority is taken. -/
def take (pri : IotPri) (conf : IotConf) : IotConf × Dequeued :=
  match conf.reqs pri with
  | [] => (conf, .nothing)
  | stub :: rest => (conf.took pri rest, .stub stub pri)

/-- `__iot_dequeue` (57). -/
def dequeue (now : Timeval) (conf : IotConf) : IotConf × Dequeued :=
  match IotPri.all.find? conf.ready with
  | none => (conf, .nothing)
  | some .least =>
    let (throttle, till) := conf.throttle.allow now
    match till with
    | some till => ({ conf with throttle := throttle }, .sleep till)
    | none => { conf with throttle := throttle }.take .least
  | some pri => conf.take pri

/-- `ac_iot_count[pri]--`. -/
def release (pri : IotPri) (conf : IotConf) : IotConf :=
  { conf with acIotCount := update conf.acIotCount pri (conf.acIotCount pri - 1) }

/-- The number of threads `__iot_workers_scale` wants. -/
def scale (conf : IotConf) : Int :=
  let wanted : Int := IotPri.all.foldl (fun scale pri => scale +
    (if conf.queueSizes pri < conf.acIotLimit pri then conf.queueSizes pri
      else conf.acIotLimit pri)) 0
  let atLeast : Int := if wanted < iotMinThreads then iotMinThreads else wanted
  if atLeast > conf.maxCount then conf.maxCount else atLeast

end IotConf

/-- Where a worker is: before the mutex at the top of its loop, in one of the two waits, with a
request, before the mutex behind the loop, or gone. -/
inductive WorkerPhase where
  | top
  | idle
  | throttled
  | running (stub : Nat)
  | leaving
  | gone
deriving DecidableEq

/-- A thread in `iot_worker` (153) with its variables. -/
structure IotWorker where
  id : Nat
  phase : WorkerPhase
  pri : Option IotPri
  timeout : Bool
  bye : Bool
deriving DecidableEq

/-- The pool: its data, its threads, the requests that came and those that were handed out. -/
structure IotPool where
  conf : IotConf
  workers : List IotWorker
  arrived : List (Nat × IotPri)
  handed : List (Nat × IotPri)

/-- What happens next. The number of threads that can be created, the time and the reason why a
wait is over are given. -/
inductive IotEvent where
  | schedule (pri : Int) (threads : Nat)
  | lock (worker : Nat) (now : Timeval)
  | wake (worker : Nat) (timedOut : Bool) (now : Timeval)
  | finish (worker : Nat)

/-- A thread as `__iot_workers_scale` creates it. -/
def IotWorker.new (id : Nat) : IotWorker := ⟨id, .top, none, false, false⟩

/-- The worker's part behind `if (timeout)`. -/
def leaveIfTimedOut (conf : IotConf) (w : IotWorker) : IotConf × IotWorker :=
  if w.timeout then
    if iotMinThreads < conf.currCount then
      ({ conf with currCount := conf.currCount - 1 }, { w with bye := true })
    else (conf, { w with timeout := false })
  else (conf, w)

/-- Where a worker goes with what it was given. -/
def IotWorker.given (w : IotWorker) : Dequeued → IotWorker
  | .stub stub pri => { w with phase := .running stub, pri := some pri }
  | .sleep till =>
    if till ≠ ⟨0, 0⟩ then { w with phase := .throttled, pri := none }
    else { w with phase := if w.bye then .gone else .top, pri := none }
  | .nothing => { w with phase := if w.bye then .gone else .top, pri := none }

/-- `if (pri != -1)` at the top of the loop and behind it. -/
def releasePri (conf : IotConf) (w : IotWorker) : IotConf × IotWorker :=
  match w.pri with
  | some pri => (conf.release pri, { w with pri := none })
  | none => (conf, w)

namespace IotPool

/-- The worker with a number. -/
def worker? (id : Nat) (s : IotPool) : Option IotWorker := s.workers.find? (·.id = id)

/-- New data of the pool and of one worker. -/
def put (conf : IotConf) (w : IotWorker) (s : IotPool) : IotPool :=
  { s with conf := conf, workers := updateAt IotWorker.id w.id (fun _ => w) s.workers }

/-- New threads. -/
def createWorkers (created : Nat) (s : IotPool) : IotPool :=
  { s with
    conf := { s.conf with currCount := s.conf.currCount + created }
    workers := s.workers ++ (List.range' s.workers.length created).map IotWorker.new }

/-- `__iot_workers_scale` (745), with the number it returns. -/
def workersScale (threads : Nat) (s : IotPool) : IotPool × Nat :=
  let diff := (s.conf.scale - s.conf.currCount).toNat
  (s.createWorkers (min threads diff), diff - min threads diff - 1)

/-- `do_iot_schedule` (233). What it returns is not negative, so the request stays. -/
def schedule (pri : Int) (threads : Nat) (s : IotPool) : IotPool × Nat :=
  let stub := s.arrived.length
  { s with
    conf := s.conf.enqueue stub (IotPri.ofInt pri)
    arrived := s.arrived ++ [(stub, IotPri.ofInt pri)] }.workersScale threads

/-- The part of the loop behind the wait for requests, up to the end of the mutex. -/
def afterWait (now : Timeval) (conf : IotConf) (w : IotWorker) (s : IotPool) : IotPool :=
  let (conf, w) := leaveIfTimedOut conf w
  let (conf, d) := conf.dequeue now
  match d with
  | .stub stub pri =>
    { s.put conf (w.given d) with handed := s.handed ++ [(stub, pri)] }
  | _ => s.put conf (w.given d)

/-- The test of the wait for requests. -/
def waitForRequests (now : Timeval) (conf : IotConf) (w : IotWorker) (s : IotPool) : IotPool :=
  if conf.queueSize = 0 then
    s.put { conf with sleepCount := conf.sleepCount + 1 } { w with phase := .idle }
  else s.afterWait now conf w

/-- A worker gets the mutex at the top of its loop or behind it. -/
def lock (now : Timeval) (w : IotWorker) (s : IotPool) : IotPool :=
  match w.phase with
  | .top =>
    let (conf, w) := releasePri s.conf w
    s.waitForRequests now conf w
  | .leaving =>
    let (conf, w) := releasePri s.conf w
    s.put conf { w with phase := .gone }
  | _ => s

/-- A worker gets the mutex back from one of its waits. -/
def wake (timedOut : Bool) (now : Timeval) (w : IotWorker) (s : IotPool) : IotPool :=
  match w.phase with
  | .idle =>
    let conf := { s.conf with sleepCount := s.conf.sleepCount - 1 }
    if timedOut then s.afterWait now conf { w with timeout := true }
    else s.waitForRequests now conf w
  | .throttled => s.put s.conf { w with phase := .top }
  | _ => s

/-- A worker has done its request. -/
def finish (w : IotWorker) (s : IotPool) : IotPool :=
  match w.phase with
  | .running _ => s.put s.conf { w with phase := if w.bye then .leaving else .top }
  | _ => s

/-- What an event does. -/
def step : IotEvent → IotPool → IotPool
  | .schedule pri threads, s => (s.schedule pri threads).1
  | .lock id now, s => match s.worker? id with
    | some w => s.lock now w
    | none => s
  | .wake id timedOut now, s => match s.worker? id with
    | some w => s.wake timedOut now w
    | none => s
  | .finish id, s => match s.worker? id with
    | some w => s.finish w
    | none => s

/-- The state after `init`. -/
def init (maxCount : Nat) (acIotLimit : IotPri → Nat) (rateLimit : BitVec 32) (threads : Nat) :
    IotPool :=
  (workersScale threads
    { conf :=
        { maxCount := maxCount
          currCount := 0
          sleepCount := 0
          reqs := fun _ => []
          acIotLimit := acIotLimit
          acIotCount := fun _ => 0
          queueSizes := fun _ => 0
          queueSize := 0
          throttle := ⟨⟨0, 0⟩, 0, 0, rateLimit⟩ }
      workers := []
      arrived := []
      handed := [] }).1

end IotPool

end TagItGluster.IoThreads
