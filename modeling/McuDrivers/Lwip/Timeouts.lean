import McuDrivers.Eth.Basic
import McuDrivers.Library.Machine
import McuDrivers.Lwip.Mem

set_option autoImplicit false

/-! # lwIP: the timeout list of `timeouts.c`

The list holds the times at which timers expire, in milliseconds of a clock that wraps around after
seven weeks, and `TIME_LESS_THAN` compares two of them by the half of the circle they are apart. A call of
`sys_check_timeouts` is a `check`, which reads the clock, and then one `round` of its loop after another
until one of them returns; what a handler does stands between two rounds. -/

namespace Lwip

open Eth (Word)

def lwipMaxTimeout : Nat := 0x7fffffff

/-- `LWIP_UINT32_MAX / 4` -/
def maxMsecs : Nat := 0xffffffff / 4

def sysTimeoutsSleeptimeInfinite : Nat := 0xffffffff

/-- `MEMP_NUM_SYS_TIMEOUT`: one each for TCP, reassembly, ARP and IGMP, and eight. -/
def mempNumSysTimeout : Nat := 1 + 1 + 1 + 1 + 8

def timeLessThan (t compareTo : Word) : Bool := lwipMaxTimeout < (t - compareTo).toNat

/-- Handler and argument are addresses, 0 being NULL. -/
structure SysTimeo where
  time : Word
  h : Nat
  arg : Nat

structure Timeouts where
  nextTimeout : List SysTimeo
  currentTimeoutDueTime : Word
  lwipSysNow : Word
  /-- `now` of each call of `sys_check_timeouts` that runs, the innermost first. -/
  checks : List Word

def Timeouts.boot : Timeouts := ⟨[], 0, 0, []⟩

/-- The intervals of `lwip_cyclic_timers`, the first of them being `tcp_tmr`, which is started on demand. -/
def lwipCyclicTimers : List Word := [250, 1000, 1000, 100]

/-- The place that `sys_timeout_abs` finds: before the first entry that expires later. -/
def linkTimeout (timeout : SysTimeo) : List SysTimeo → List SysTimeo
  | [] => [timeout]
  | t :: next =>
      -- an entry with the same time stays in front, so that the two expire in the order they were set
      if timeLessThan timeout.time t.time then timeout :: t :: next else t :: linkTimeout timeout next

def sysTimeoutAbs (absTime : Word) (h arg : Nat) (s : Timeouts) : Except String Timeouts := do
  -- the elements of the pool that are taken are those on the list
  lwipAssert "sys_timeout: timeout != NULL, pool MEMP_SYS_TIMEOUT is empty"
    (s.nextTimeout.length < mempNumSysTimeout)
  .ok { s with nextTimeout := linkTimeout ⟨absTime, h, arg⟩ s.nextTimeout }

def sysTimeout (msecs : Word) (h arg : Nat) (s : Timeouts) : Except String Timeouts := do
  lwipAssert "Timeout time too long, max is LWIP_UINT32_MAX/4 msecs" (msecs.toNat ≤ maxMsecs)
  sysTimeoutAbs (s.lwipSysNow + msecs) h arg s

/-- What `lwip_cyclic_timer`, at address `h`, does once the timer's own handler has returned. -/
def lwipCyclicTimer (intervalMs : Word) (h arg : Nat) (s : Timeouts) : Except String Timeouts :=
  let nextTimeoutTime := s.currentTimeoutDueTime + intervalMs
  if timeLessThan nextTimeoutTime s.lwipSysNow then
    -- overload: restart without any correction
    sysTimeoutAbs (s.lwipSysNow + intervalMs) h arg s
  else
    sysTimeoutAbs nextTimeoutTime h arg s

/-- The list without the first entry that matches, if one does. -/
def unlinkTimeout (h arg : Nat) : List SysTimeo → Option (List SysTimeo)
  | [] => none
  | t :: next => if t.h = h ∧ t.arg = arg then some next else (unlinkTimeout h arg next).map (t :: ·)

def sysRestartTimeouts (s : Timeouts) : Timeouts :=
  match s.nextTimeout with
  | [] => s
  | first :: _ =>
      { s with nextTimeout := s.nextTimeout.map fun t => { t with time := t.time - first.time + s.lwipSysNow } }

def sysTimeoutsSleeptime (s : Timeouts) : Except String Nat :=
  match s.nextTimeout with
  | [] => .ok sysTimeoutsSleeptimeInfinite
  | first :: _ => do
      if timeLessThan first.time s.lwipSysNow then .ok 0
      else
        lwipAssert "invalid sleeptime" ((first.time - s.lwipSysNow).toNat ≤ lwipMaxTimeout)
        .ok (first.time - s.lwipSysNow).toNat

inductive TimeoutEvent
  | passes (ms : Nat)
  | timeout (msecs : Word) (h arg : Nat)
  | cyclic (intervalMs : Word) (h arg : Nat)
  | untimeout (h arg : Nat)
  | check
  | round
  | restart
  | sleeptime

inductive TimeoutAnswer
  | done
  | set (h arg : Nat)
  | removed (h arg : Nat)
  /-- The entry is freed and `h`, unless it is NULL, is called. -/
  | expires (h arg : Nat)
  | returned
  | sleep (ms : Nat)
deriving DecidableEq

/-- One round of the loop in `sys_check_timeouts`. -/
def checkRound (s : Timeouts) : Except String (TimeoutAnswer × Timeouts) :=
  match s.checks with
  | [] => .error "sys_check_timeouts does not run"
  | now :: checks =>
      match s.nextTimeout with
      | [] => .ok (.returned, { s with checks := checks })
      | tmptimeout :: next =>
          if timeLessThan now tmptimeout.time then .ok (.returned, { s with checks := checks })
          else
            -- the element is free before the handler runs, which may take it again
            .ok (.expires tmptimeout.h tmptimeout.arg,
              { s with nextTimeout := next, currentTimeoutDueTime := tmptimeout.time })

def timeoutStep (s : Timeouts) : TimeoutEvent → Except String (TimeoutAnswer × Timeouts)
  | .passes ms => .ok (.done, { s with lwipSysNow := s.lwipSysNow + BitVec.ofNat 32 ms })
  | .timeout msecs h arg => (sysTimeout msecs h arg s).map fun s => (.set h arg, s)
  | .cyclic intervalMs h arg => (lwipCyclicTimer intervalMs h arg s).map fun s => (.set h arg, s)
  | .untimeout h arg =>
      match unlinkTimeout h arg s.nextTimeout with
      | some l => .ok (.removed h arg, { s with nextTimeout := l })
      | none => .ok (.done, s)
  | .check => .ok (.done, { s with checks := s.lwipSysNow :: s.checks })
  | .round => checkRound s
  | .restart => .ok (.done, sysRestartTimeouts s)
  | .sleeptime => (sysTimeoutsSleeptime s).map fun ms => (.sleep ms, s)

end Lwip
