import Kingkong.Pump.Step
import Mathlib.Algebra.Ring.Int.Defs

/-!
`MessagePumpAndroid`: the pump of the main thread, driven by a timer on `CLOCK_MONOTONIC`. `Wakeup`
computes how long it is until a task is due and hands this to `timerfd_settime` as an absolute
instant. Instants are in nanoseconds since the start of the clock, and `base` is the instant from
which `GetTickCount2` counts milliseconds.
-/

namespace Kingkong.Pump
open Lib State

/-! ### The instant for which the timer is set -/

/-- The widths of `long`, and so of `time_t`. -/
inductive Abi where
  | ilp32
  | lp64
  deriving DecidableEq

def Abi.longWidth : Abi → Nat
  | .ilp32 => 32
  | .lp64 => 64

/-- The conversion to `long`. -/
def Abi.long (abi : Abi) (x : Int) : Int := Int.bmod x (2 ^ abi.longWidth)

structure Timespec where
  tvSec : Int
  tvNsec : Int
  deriving DecidableEq

/-- The flags and the `itimerspec` that are passed to `timerfd_settime`. -/
structure Settime where
  abstime : Bool
  itInterval : Timespec
  itValue : Timespec
  deriving DecidableEq

def kNanosecondsPerSecond : Int := 1000 * 1000 * 1000

/-- `nanos`: the product is taken in `uint64_t` and stored to an `int64_t`. -/
def wakeupNanos (expired now : Nat) : Int :=
  if now < expired then Int.bmod ((expired - now) * 1000 * 1000 % wordBound : Nat) (2 ^ 64) else 10

/-- Division and remainder of signed numbers, which go towards zero. -/
def timespecOf (abi : Abi) (nanos : Int) : Timespec :=
  ⟨abi.long (nanos.tdiv kNanosecondsPerSecond), abi.long (nanos.tmod kNanosecondsPerSecond)⟩

/-- `MessagePumpAndroid::Wakeup` at the tick `now`. -/
def androidWakeup (abi : Abi) (expired now : Nat) : Settime where
  abstime := true
  itInterval := ⟨0, 0⟩
  itValue := timespecOf abi (wakeupNanos expired now)

/-- `GetTickCount2` at the instant `clock`. -/
def tickCount (base clock : Nat) : Nat := (clock - base) / 1000000

def Timespec.nanoseconds (t : Timespec) : Int := t.tvSec * 1000000000 + t.tvNsec

/-- What `timerfd_settime` takes, and as something other than a request to disarm the timer. -/
def Timespec.WellFormed (t : Timespec) : Prop :=
  0 ≤ t.tvSec ∧ 0 ≤ t.tvNsec ∧ t.tvNsec < 1000000000 ∧ ¬ (t.tvSec = 0 ∧ t.tvNsec = 0)

instance (t : Timespec) : Decidable t.WellFormed := inferInstanceAs (Decidable (_ ∧ _ ∧ _ ∧ ¬ _))

/-- When the timer expires that is set at the instant `clock`. An instant of the past is as good as
now. -/
def Settime.expiry (call : Settime) (clock : Nat) : Int :=
  if call.abstime then max clock call.itValue.nanoseconds else clock + call.itValue.nanoseconds

/-- The timer is set, and not for an instant before the tick counter reaches `expired`. -/
def TimerArmed (abi : Abi) (base clock expired : Nat) : Prop :=
  let call := androidWakeup abi expired (tickCount base clock)
  call.itValue.WellFormed ∧ (tickCount base clock < expired → (base + expired * 1000000 : Nat) ≤ call.expiry clock)

/-- Instants before the horizon fit in an `int64_t`, and their seconds in a `time_t`. -/
def Abi.horizon : Abi → Nat
  | .ilp32 => 2 ^ 31 * 1000000000
  | .lp64 => 2 ^ 63

/-! #### Seconds and nanoseconds -/

section Wakeup

variable {abi : Abi} {base clock expired now : Nat}

theorem long_le (abi : Abi) {x : Int} (positive : 0 ≤ x) : abi.long x ≤ x := by
  unfold Abi.long
  cases abi <;> simp only [Abi.longWidth, Int.bmod_def] <;> split <;> omega

theorem long_lt (abi : Abi) (x : Int) :
    abi.long x * 1000000000 + 1000000000 ≤ abi.horizon ∨ abi = .lp64 := by
  cases abi with
  | ilp32 =>
    have below : Abi.ilp32.long x < 2 ^ 31 := Int.bmod_lt (by decide)
    simp only [Abi.horizon]
    omega
  | lp64 => exact .inr rfl

theorem long_small {x : Int} (low : -2 ^ 31 ≤ x) (high : x < 2 ^ 31) : abi.long x = x := by
  cases abi with
  | ilp32 => exact Int.bmod_eq_of_le (by simp [Abi.longWidth]; omega) (by simp [Abi.longWidth]; omega)
  | lp64 => exact Int.bmod_eq_of_le (by simp [Abi.longWidth]; omega) (by simp [Abi.longWidth]; omega)

theorem long_lp64 {x : Int} (low : -2 ^ 63 ≤ x) (high : x < 2 ^ 63) : Abi.lp64.long x = x :=
  Int.bmod_eq_of_le (by simp [Abi.longWidth]; omega) (by simp [Abi.longWidth]; omega)

theorem timespecOf_nonneg {n : Int} (positive : 0 ≤ n) :
    timespecOf abi n = ⟨abi.long (n / 1000000000), n % 1000000000⟩ := by
  have quotient : n.tdiv kNanosecondsPerSecond = n / 1000000000 :=
    Int.tdiv_eq_ediv_of_nonneg positive
  have rest : n.tmod kNanosecondsPerSecond = n % 1000000000 := Int.tmod_eq_emod_of_nonneg positive
  have kept : abi.long (n % 1000000000) = n % 1000000000 := long_small (by omega) (by omega)
  rw [timespecOf, quotient, rest, kept]

theorem timespecOf_neg {n : Int} (negative : n < 0) :
    timespecOf abi n = ⟨abi.long (-(-n / 1000000000)), -(-n % 1000000000)⟩ := by
  have quotient := Int.neg_tdiv (-n) kNanosecondsPerSecond
  have rest := Int.neg_tmod (-n) kNanosecondsPerSecond
  have positive : 0 ≤ -n := by omega
  rw [Int.neg_neg, Int.tdiv_eq_ediv_of_nonneg positive] at quotient
  rw [Int.neg_neg, Int.tmod_eq_emod_of_nonneg positive] at rest
  have kept : abi.long (-(-n % 1000000000)) = -(-n % 1000000000) := long_small (by omega) (by omega)
  rw [timespecOf, quotient, rest]
  exact congrArg _ kept

theorem timespecOf_fits {n : Int} (positive : 0 < n) (near : n < abi.horizon) :
    (timespecOf abi n).WellFormed ∧ (timespecOf abi n).nanoseconds = n := by
  have seconds : abi.long (n / 1000000000) = n / 1000000000 := by
    cases abi with
    | ilp32 =>
      simp only [Abi.horizon] at near
      exact long_small (by omega) (by omega)
    | lp64 =>
      simp only [Abi.horizon] at near
      exact long_lp64 (by omega) (by omega)
  rw [timespecOf_nonneg (by omega), seconds]
  simp only [Timespec.WellFormed, Timespec.nanoseconds]
  omega

/-- The `timespec` of a negative number is refused, unless its seconds are cut to a small positive
number. -/
theorem timespecOf_le {n : Int} (low : -2 ^ 63 ≤ n) (high : n < 2 ^ 63)
    (wellFormed : (timespecOf abi n).WellFormed) :
    (timespecOf abi n).nanoseconds < abi.horizon ∧
      (0 ≤ n → (timespecOf abi n).nanoseconds ≤ n) := by
  rcases Int.lt_or_le n 0 with negative | positive
  · refine ⟨?_, fun positive => absurd negative (by omega)⟩
    rw [timespecOf_neg negative] at wellFormed ⊢
    simp only [Timespec.WellFormed, Timespec.nanoseconds] at wellFormed ⊢
    rcases long_lt abi (-(-n / 1000000000)) with near | wide
    · omega
    · rw [wide, long_lp64 (by omega) (by omega)] at wellFormed
      omega
  · rw [timespecOf_nonneg positive]
    have cut := long_le abi (x := n / 1000000000) (by omega)
    simp only [Timespec.nanoseconds]
    refine ⟨?_, fun _ => by omega⟩
    rcases long_lt abi (n / 1000000000) with near | wide
    · omega
    · subst wide
      simp only [Abi.horizon]
      omega

/-! #### The number that is split -/

theorem wakeupNanos_range (expired now : Nat) :
    -2 ^ 63 ≤ wakeupNanos expired now ∧ wakeupNanos expired now < 2 ^ 63 := by
  unfold wakeupNanos
  split
  · have low := Int.le_bmod (x := ((expired - now) * 1000 * 1000 % wordBound : Nat)) (m := 2 ^ 64) (by decide)
    have high := Int.bmod_lt (x := ((expired - now) * 1000 * 1000 % wordBound : Nat)) (m := 2 ^ 64) (by decide)
    omega
  · omega

theorem wakeupNanos_near (later : now < expired) (near : (expired - now) * 1000000 < 2 ^ 63) :
    wakeupNanos expired now = ((expired - now) * 1000000 : Nat) := by
  have product : (expired - now) * 1000 * 1000 = (expired - now) * 1000000 := by omega
  have fits : (expired - now) * 1000000 < wordBound := by
    unfold wordBound
    omega
  unfold wakeupNanos
  rw [if_pos later, product, Nat.mod_eq_of_lt fits]
  exact Int.bmod_eq_of_le (by omega) (by omega)

/-- A wait that is too long for an `int64_t` is cut to a shorter one, or to a negative number. -/
theorem wakeupNanos_le (later : now < expired) :
    wakeupNanos expired now ≤ ((expired - now) * 1000000 : Nat) := by
  unfold wakeupNanos wordBound
  rw [if_pos later, Int.bmod_def]
  split <;> omega

/-- What the timer is set for is never more than the time until the task is due. -/
theorem wakeup_le (later : now < expired)
    (wellFormed : (androidWakeup abi expired now).itValue.WellFormed) :
    (androidWakeup abi expired now).itValue.nanoseconds < abi.horizon ∧
      (androidWakeup abi expired now).itValue.nanoseconds ≤ ((expired - now) * 1000000 : Nat) := by
  obtain ⟨low, high⟩ := wakeupNanos_range expired now
  obtain ⟨near, cut⟩ := timespecOf_le low high wellFormed
  refine ⟨near, ?_⟩
  rcases Int.lt_or_le (wakeupNanos expired now) 0 with negative | positive
  · have far : 2 ^ 63 ≤ (expired - now) * 1000000 := by
      by_contra short
      rw [wakeupNanos_near later (by omega)] at negative
      omega
    have horizon : abi.horizon ≤ 2 ^ 63 := by cases abi <;> decide
    show (timespecOf abi (wakeupNanos expired now)).nanoseconds ≤ _
    omega
  · exact Int.le_trans (cut positive) (wakeupNanos_le later)

theorem wakeup_fits (abi : Abi) (later : now < expired)
    (near : (expired - now) * 1000000 < abi.horizon) :
    (androidWakeup abi expired now).itValue.WellFormed ∧
      (androidWakeup abi expired now).itValue.nanoseconds = ((expired - now) * 1000000 : Nat) := by
  have horizon : abi.horizon ≤ 2 ^ 63 := by cases abi <;> decide
  have exact : wakeupNanos expired now = ((expired - now) * 1000000 : Nat) :=
    wakeupNanos_near later (by omega)
  unfold androidWakeup
  rw [exact]
  exact timespecOf_fits (by omega) (by omega)

theorem wakeup_due (due : expired ≤ now) : (androidWakeup abi expired now).itValue.WellFormed := by
  have ten : wakeupNanos expired now = 10 := if_neg (by omega)
  have far : 10 < abi.horizon := by cases abi <;> decide
  unfold androidWakeup
  rw [ten]
  exact (timespecOf_fits (by decide) (by omega)).1

theorem clock_lt (base clock : Nat) : clock < base + (tickCount base clock + 1) * 1000000 := by
  unfold tickCount
  omega

/-- The timer is set for the right instant exactly when the task is due already, or when the tick
counter was started with the clock and both are still in their first millisecond. -/
theorem timer_armed_iff (abi : Abi) (base clock expired : Nat) :
    TimerArmed abi base clock expired ↔
      expired ≤ tickCount base clock ∨ base = 0 ∧ tickCount base clock = 0 ∧
      expired * 1000000 < abi.horizon := by
  have current := clock_lt base clock
  unfold TimerArmed
  generalize tickCount base clock = now at current ⊢
  constructor
  · rintro ⟨wellFormed, timely⟩
    rcases Nat.lt_or_ge now expired with later | due
    · obtain ⟨near, cut⟩ := wakeup_le later wellFormed
      have instant : (base + expired * 1000000 : Nat) ≤ max (clock : Int) _ := timely later
      omega
    · exact .inl due
  · intro condition
    rcases Nat.lt_or_ge now expired with later | due
    · obtain ⟨wellFormed, exact⟩ := wakeup_fits abi later (by omega)
      refine ⟨wellFormed, fun _ => ?_⟩
      show (base + expired * 1000000 : Nat) ≤ max (clock : Int) _
      omega
    · exact ⟨wakeup_due due, fun later => absurd later (by omega)⟩

/-- A task that is due in a second, on a clock that has run for an hour: the timer is set for the
first second of the clock, so it expires at once. -/
theorem timer_armed_past :
    tickCount 3600000000000 3600500000000 = 500 ∧
      androidWakeup .lp64 1500 500 = { abstime := true, itInterval := ⟨0, 0⟩, itValue := ⟨1, 0⟩ } ∧
      (androidWakeup .lp64 1500 500).expiry 3600500000000 = 3600500000000 ∧
      ¬ TimerArmed .lp64 3600000000000 3600500000000 1500 := by
  refine ⟨by decide, by decide, by decide, ?_⟩
  rw [TimerArmed]
  decide

/-- A wait of `2 ^ 58` milliseconds is cut to nothing, which disarms the timer. -/
example : (androidWakeup .lp64 (2 ^ 58) 0).itValue = ⟨0, 0⟩ := by decide

/-- When a timer that was set for the right instant expires, the task is due. -/
theorem TimerArmed.due {later : Nat} (armed : TimerArmed abi base clock expired)
    (order : clock ≤ later)
    (expires : (androidWakeup abi expired (tickCount base clock)).expiry clock ≤ later) :
    expired ≤ tickCount base later := by
  have forward : tickCount base clock ≤ tickCount base later := by
    unfold tickCount
    omega
  rcases Nat.lt_or_ge (tickCount base clock) expired with pending | due
  · have instant := armed.2 pending
    unfold tickCount
    omega
  · omega

end Wakeup

/-! ### The pump and its timer -/

variable {R : Type}

/-- `timer` is the instant at which `delayed_fd_` expires. The main thread is the worker 0 of the
pump. -/
structure Android (R : Type) where
  pump : State R
  base : Nat
  clock : Nat
  timer : Option Int := none

namespace Android

/-- `timerfd_settime`: zero disarms the timer, and an ill-formed value changes nothing. -/
def settime (s : Android R) (call : Settime) : Android R :=
  if call.itValue = ⟨0, 0⟩ then { s with timer := none }
  else if call.itValue.WellFormed then { s with timer := some (call.expiry s.clock) }
  else s

def wakeup (abi : Abi) (s : Android R) (expired : Nat) : Android R :=
  s.settime (androidWakeup abi expired s.pump.now)

def expired (s : Android R) : Bool :=
  match s.timer with
  | some instant => decide (instant ≤ s.clock)
  | none => false

/-- The looper calls `WorkWrapper` when the timer has expired. Time passes with the clock only. -/
def allows (s : Android R) : Pump.Event R → Bool
  | .doWork w => w == 0 && s.expired
  | .tick _ | .doOneWork _ | .takeOne _ => false
  | _ => true

/-- `WorkWrapper` reads the expiration before it calls `DoWork`. -/
def follow (abi : Abi) (s : Android R) (event : Pump.Event R) (pump : State R) : Android R :=
  match event with
  | .leave c =>
    match s.pump.calls c with
    | .inserted tick delay _ true => { s with pump := pump }.wakeup abi (expiredTime tick delay)
    | _ => { s with pump := pump }
  | .doWork _ => { s with pump := pump, timer := none }
  | .rearm _ =>
    match pump.runableSet.first? with
    | some first => { s with pump := pump }.wakeup abi first.expiredTime
    | none => { s with pump := pump }
  | _ => { s with pump := pump }

inductive Event (R : Type) where
  | pass (nanoseconds : Nat)
  | pump (event : Pump.Event R)

def step (abi : Abi) (s : Android R) : Event R → Option (Android R)
  | .pass nanoseconds =>
    (Pump.step s.pump (.tick (tickCount s.base (s.clock + nanoseconds) - tickCount s.base s.clock))).map fun pump =>
      { s with clock := s.clock + nanoseconds, pump := pump }
  | .pump event => if s.allows event then (Pump.step s.pump event).map (s.follow abi event) else none

/-- A call of `WorkWrapper` that finds no task due. -/
def cycle : List (Event R) := [.pump (.doWork 0), .pump (.take 0), .pump (.rearm 0)]

end Android

section Spin

variable {abi : Abi} {s t : Android R} {event : Android.Event R} {events : List (Android.Event R)}
  {first : RunnableInfo R}

theorem androidWakeup_frame (expired : Nat) :
    (s.wakeup abi expired).pump = s.pump ∧ (s.wakeup abi expired).base = s.base ∧
      (s.wakeup abi expired).clock = s.clock := by
  unfold Android.wakeup Android.settime
  split
  · exact ⟨rfl, rfl, rfl⟩
  · split <;> exact ⟨rfl, rfl, rfl⟩

theorem follow_frame (abi : Abi) (s : Android R) (event : Event R) (pump : State R) :
    (s.follow abi event pump).pump = pump ∧ (s.follow abi event pump).base = s.base ∧
      (s.follow abi event pump).clock = s.clock := by
  unfold Android.follow
  split
  · split
    · exact androidWakeup_frame _
    · exact ⟨rfl, rfl, rfl⟩
  · exact ⟨rfl, rfl, rfl⟩
  · split
    · exact androidWakeup_frame _
    · exact ⟨rfl, rfl, rfl⟩
  · exact ⟨rfl, rfl, rfl⟩

theorem android_step {e : Event R} {pump : State R} (allowed : s.allows e = true)
    (stepped : step s.pump e = some pump) :
    s.step abi (.pump e) = some (s.follow abi e pump) := by
  rw [Android.step, if_pos allowed, stepped, Option.map_some]

/-- The tick counter shows the clock. -/
def Synced (s : Android R) : Prop := s.pump.now = tickCount s.base s.clock

/-- What the Android pump does is what a pump does, at the ticks that its clock shows. -/
theorem android_pump (synced : Synced s) (h : s.step abi event = some t) :
    (∃ e, step s.pump e = some t.pump) ∧ Synced t := by
  cases event with
  | pass nanoseconds =>
    cases h
    refine ⟨⟨.tick (tickCount s.base (s.clock + nanoseconds) - tickCount s.base s.clock), rfl⟩, ?_⟩
    have forward : tickCount s.base s.clock ≤ tickCount s.base (s.clock + nanoseconds) := by
      unfold tickCount
      omega
    unfold Synced at synced ⊢
    show s.pump.now + (tickCount s.base (s.clock + nanoseconds) - tickCount s.base s.clock) =
      tickCount s.base (s.clock + nanoseconds)
    omega
  | pump event =>
    obtain ⟨allowed, h⟩ := Option.ite_none_right_eq_some.mp h
    obtain ⟨pump, stepped, rfl⟩ := Option.map_eq_some_iff.mp h
    obtain ⟨samePump, sameBase, sameClock⟩ := follow_frame abi s event pump
    refine ⟨⟨event, by rw [samePump]; exact stepped⟩, ?_⟩
    have still : event.elapsed = 0 := by
      cases event with
      | tick elapsed => cases allowed
      | _ => rfl
    have elapsed := step_elapsed stepped
    unfold Synced at synced ⊢
    rw [samePump, sameBase, sameClock, elapsed, still, ← synced, Nat.add_zero]

theorem run_android_pump (synced : Synced s) (h : run (Android.step abi) s events = some t) :
    (∃ moves, run step s.pump moves = some t.pump) ∧ Synced t := by
  have each : ∀ (pump : State R) (s : Android R) event t, pump = s.pump ∧ Synced s →
      s.step abi event = some t →
      ∃ moves next, run step pump moves = some next ∧ next = t.pump ∧ Synced t := by
    rintro _ s event t ⟨rfl, synced⟩ h
    obtain ⟨⟨e, stepped⟩, synced⟩ := android_pump synced h
    exact ⟨[e], t.pump, run_cons.mpr ⟨t.pump, stepped, rfl⟩, rfl, synced⟩
  obtain ⟨moves, _, reached, rfl, synced⟩ := run_simulates_run each ⟨rfl, synced⟩ h
  exact ⟨⟨moves, reached⟩, synced⟩

/-! ### The cycle of a task that is not due -/

theorem take_none_due {pump : State R} (found : pump.runableSet.first? = some first)
    (pending : pump.now < first.expiredTime) :
    pump.runableSet.front (due pump.now) = [] ∧
      pump.runableSet.dropFront (due pump.now) = pump.runableSet := by
  have shape := OrderedSet.dropFirst_elems found
  have late : due pump.now first = false := decide_eq_false (by omega)
  constructor
  · rw [OrderedSet.front, shape, List.takeWhile_cons_of_neg (by simp [late])]
  · apply OrderedSet.ext
    show pump.runableSet.elems.dropWhile (due pump.now) = pump.runableSet.elems
    rw [shape, List.dropWhile_cons_of_neg (by simp [late])]

/-- The timer has expired, the main thread is idle, and the first task is not due. The time until it
is due is shorter than the time since the clock was started, so the timer is set for an instant of
the past. -/
structure Spinning (abi : Abi) (s : Android R) (first : RunnableInfo R) : Prop where
  expired : s.expired = true
  live : 0 < s.pump.threads
  idle : s.pump.workers 0 = .idle
  found : s.pump.runableSet.first? = some first
  pending : s.pump.now < first.expiredTime
  near : (first.expiredTime - s.pump.now) * 1000000 < abi.horizon
  past : (first.expiredTime - s.pump.now) * 1000000 ≤ s.clock

theorem wakeup_past {expired : Nat} (pending : s.pump.now < expired)
    (near : (expired - s.pump.now) * 1000000 < abi.horizon)
    (past : (expired - s.pump.now) * 1000000 ≤ s.clock) :
    s.wakeup abi expired = { s with timer := some (s.clock : Int) } := by
  obtain ⟨wellFormed, exact⟩ := wakeup_fits abi pending near
  have armed : (androidWakeup abi expired s.pump.now).itValue ≠ ⟨0, 0⟩ := by
    intro zero
    rw [zero] at wellFormed
    exact wellFormed.2.2.2 ⟨rfl, rfl⟩
  have expiry : (androidWakeup abi expired s.pump.now).expiry s.clock = s.clock := by
    show max (s.clock : Int) _ = _
    rw [exact]
    omega
  unfold Android.wakeup Android.settime
  rw [if_neg armed, if_pos wellFormed, expiry]

theorem cycle_back (spinning : Spinning abi s first) :
    run (Android.step abi) s Android.cycle = some { s with timer := some (s.clock : Int) } := by
  obtain ⟨expired, live, idle, found, pending, near, past⟩ := spinning
  obtain ⟨none, same⟩ := take_none_due found pending
  have polls : step s.pump (.doWork 0) = some (s.pump.setWorker 0 (.polled s.pump.now)) := by
    simp [step, poll, idle, live]
  have takes : step (s.pump.setWorker 0 (.polled s.pump.now)) (.take 0) =
      some (s.pump.setWorker 0 (.working [])) := by
    simp [step, doWorkTake, setWorker, none, same]
  have ends : step (s.pump.setWorker 0 (.working [])) (.rearm 0) = some s.pump := by
    simp only [step, doWorkEnd, setWorker, Function.update_self, Function.update_idem]
    rw [← idle, Function.update_eq_self]
  refine run_cons.mpr
    ⟨{ s with pump := s.pump.setWorker 0 (.polled s.pump.now), timer := .none }, ?_,
    run_cons.mpr ⟨{ s with pump := s.pump.setWorker 0 (.working []), timer := .none }, ?_,
      run_cons.mpr ⟨_, ?_, rfl⟩⟩⟩
  · exact android_step (by simp [Android.allows, expired]) polls
  · exact android_step rfl takes
  · rw [android_step rfl ends, Android.follow, found]
    exact congrArg some (wakeup_past (s := { s with timer := .none }) pending near past)

theorem Spinning.again (spinning : Spinning abi s first) :
    Spinning abi { s with timer := some (s.clock : Int) } first :=
  { spinning with expired := decide_eq_true (Int.le_refl _) }

/-- However often `DoWork` has found nothing to do, it is called again at the same instant. -/
theorem spins (spinning : Spinning abi s first) (n : Nat) :
    run (Android.step abi) s (List.replicate (n + 1) Android.cycle).flatten =
      some { s with timer := some (s.clock : Int) } := by
  induction n generalizing s with
  | zero =>
    rw [List.replicate_one, List.flatten_singleton]
    exact cycle_back spinning
  | succ n ih =>
    rw [List.replicate_succ, List.flatten_cons]
    exact run_append.mpr ⟨_, cycle_back spinning, ih spinning.again⟩

/-- A task that is due in a second, posted an hour after the clock was started. -/
example :
    ((run (Android.step .lp64)
      { pump := Pump.initial Unit 1, base := 3600000000000, clock := 3600000000000 }
    ([.pump (.enter 0 1000 ()), .pump (.insert 0),
      .pump (.leave 0)] ++ Android.cycle ++ Android.cycle)).map
      fun s => (s.timer, s.pump.now, s.pump.runableSet.elems.map RunnableInfo.expiredTime)) =
        some (some 3600000000000, 0, [1000]) := by
  decide

end Spin

end Kingkong.Pump
