import LgxRuntime.Runtime.Core
import Mathlib.Logic.Function.Basic

/-!
# The health monitor

A monitoring thread checks the health of the runtime until it is told to stop.  It is started in a section
under the mutex; to stop it, the flag of the thread is lowered in one section, the thread is joined without
the mutex, and the monitoring is marked as disabled in a second section.

The monitoring threads are numbered in the order in which they are created.  An alert callback runs on its
monitoring thread and may call the monitor as well; a thread that joins itself is told so at once.
-/

namespace LgxRuntime.HealthMonitor

open Function (update)
open LgxRuntime.Runtime (LgxResult)

/-- Who calls: a thread of the game, or the alert callback on a monitoring thread. -/
inductive Caller (Thread : Type)
  | game (t : Thread)
  | callback (n : ℕ)
  deriving DecidableEq

/-- Where a caller is.  A caller that stops the monitoring keeps the thread that it has told to stop. -/
inductive Pc
  | idle
  /-- Before the section of `lgx_health_monitor_start_monitoring`. -/
  | start (intervalMs : ℕ)
  /-- Before the first section of `lgx_health_monitor_stop_monitoring`. -/
  | stop
  /-- Before the read of `monitoring_thread`. -/
  | readThread (target : ℕ)
  /-- In `pthread_join`. -/
  | join (target thread : ℕ)
  /-- Before the second section. -/
  | clear (target : ℕ)
  | returns (result : LgxResult)

/-- The caller is between the two sections of `lgx_health_monitor_stop_monitoring`. -/
def Pc.Stopping : Pc → Prop
  | .readThread _ | .join _ _ | .clear _ => True
  | _ => False

/-- The monitor with its callers and its threads.  The state records how many threads were created, which have
finished, which were joined, and which were stopped by a call that returned `LGX_SUCCESS`. -/
structure State (Thread : Type) where
  monitoringEnabled : Bool
  monitoringThread : ℕ
  monitoringThreadRunning : Bool
  monitoringIntervalMs : ℕ
  pc : Caller Thread → Pc
  created : ℕ
  finished : ℕ → Bool
  joined : List ℕ
  stopped : List ℕ

/-- A call, the next step of a caller, with the answer of `pthread_create`, or the end of a monitoring thread. -/
inductive Action (Thread : Type)
  | callStart (c : Caller Thread) (intervalMs : ℕ)
  | callStop (c : Caller Thread)
  | next (c : Caller Thread) (create : Bool)
  | finish (n : ℕ)

variable {Thread : Type} [DecidableEq Thread]

namespace State

/-- A caller moves on. -/
def goto (s : State Thread) (c : Caller Thread) (pc : Pc) : State Thread :=
  { s with pc := update s.pc c pc }

/-- A monitoring thread calls only while it runs. -/
def canCall (s : State Thread) : Caller Thread → Bool
  | .game _ => true
  | .callback n => n < s.created && !s.finished n

/-- The next step of a caller. -/
def next (s : State Thread) (c : Caller Thread) (create : Bool) : Pc → Option (State Thread)
  | .idle => none
  | .start intervalMs =>
      if s.monitoringEnabled then some (s.goto c (.returns .alreadyInitialized))
      else if create then
        some { s.goto c (.returns .success) with
          monitoringIntervalMs := intervalMs
          monitoringEnabled := true
          monitoringThreadRunning := true
          monitoringThread := s.created
          created := s.created + 1 }
      else
        some { s.goto c (.returns .systemError) with
          monitoringIntervalMs := intervalMs
          monitoringEnabled := false
          monitoringThreadRunning := false }
  | .stop =>
      if !s.monitoringEnabled then some (s.goto c (.returns .notInitialized))
      else some { s.goto c (.readThread s.monitoringThread) with monitoringThreadRunning := false }
  | .readThread target => some (s.goto c (.join target s.monitoringThread))
  | .join target thread =>
      if c = .callback thread then some (s.goto c (.clear target))
      else if s.finished thread then some { s.goto c (.clear target) with joined := s.joined ++ [thread] }
      else none
  | .clear target =>
      some { s.goto c (.returns .success) with monitoringEnabled := false, stopped := s.stopped ++ [target] }
  | .returns _ => some (s.goto c .idle)

/-- A call from the outside. -/
def call (s : State Thread) (c : Caller Thread) (pc : Pc) : Option (State Thread) :=
  match s.pc c with
  | .idle => if s.canCall c then some (s.goto c pc) else none
  | _ => none

/-- A monitoring thread leaves `health_monitoring_thread` when it finds its flag lowered. -/
def finish (s : State Thread) (n : ℕ) : Option (State Thread) :=
  match s.pc (.callback n) with
  | .idle =>
      if n < s.created ∧ s.finished n = false ∧ s.monitoringThreadRunning = false then
        some { s with finished := update s.finished n true }
      else none
  | _ => none

end State

/-- One step. -/
def step (s : State Thread) : Action Thread → Option (State Thread)
  | .callStart c intervalMs =>
      s.call c (if intervalMs = 0 then .returns .invalidParam else .start intervalMs)
  | .callStop c => s.call c .stop
  | .next c create => s.next c create (s.pc c)
  | .finish n => s.finish n

/-- `lgx_health_monitor_init`. -/
def healthMonitorInit : State Thread where
  monitoringEnabled := false
  monitoringThread := 0
  monitoringThreadRunning := false
  monitoringIntervalMs := 1000
  pc := fun _ => .idle
  created := 0
  finished := fun _ => false
  joined := []
  stopped := []

/-- The monitor has just been initialised. -/
def Initial (s : State Thread) : Prop :=
  s = healthMonitorInit

/-- The thread was created and has not been joined. -/
def State.Unjoined (s : State Thread) (n : ℕ) : Prop :=
  n < s.created ∧ n ∉ s.joined

/-- The monitoring is stopped by a thread of the game, and only while no other call stops it. -/
def Orderly (s : State Thread) : Action Thread → Prop
  | .next c _ => s.pc c = .stop → s.monitoringEnabled = true →
      (∀ n, c ≠ .callback n) ∧ ∀ d, ¬ (s.pc d).Stopping
  | _ => True

/-- There is one monitoring thread at most, which is joined once at most, and by the call that stops it; and if
nobody calls, there is one exactly if the monitoring is enabled. -/
structure Owned (s : State Thread) : Prop where
  alone : ∀ m n, s.Unjoined m → s.Unjoined n → m = n
  joinedOnce : s.joined.Nodup
  stopped : ∀ n ∈ s.stopped, n ∈ s.joined
  enabled : (∀ c, s.pc c = .idle) → (s.monitoringEnabled = true ↔ ∃ n, s.Unjoined n)

end LgxRuntime.HealthMonitor
