import TimedCondvar.Time

/-!
The clocks a condition variable can be bound to, what the kernel replies when one of them is
read, and deadlines counted from a reading. Readings fail or come back malformed; a well-formed
reply is taken over as it is.
-/

namespace TimedCondvar

inductive Clock
  | monotonic
  | monotonicRaw
  | boottime
  deriving DecidableEq, Repr

namespace Clock

instance : Inhabited Clock := ⟨.monotonic⟩

def all : List Clock := [.monotonic, .monotonicRaw, .boottime]

/-- The kernel's name, in messages. -/
def name : Clock → String
  | .monotonic => "CLOCK_MONOTONIC"
  | .monotonicRaw => "CLOCK_MONOTONIC_RAW"
  | .boottime => "CLOCK_BOOTTIME"

/-- The name in a configuration. -/
def key : Clock → String
  | .monotonic => "monotonic"
  | .monotonicRaw => "monotonic_raw"
  | .boottime => "boottime"

def ofKey? (s : String) : Option Clock := all.find? (·.key == s)

/-- Uptime is measured at the hardware's own rate. -/
def uptimeSource : Clock := .monotonicRaw

theorem ofKey?_key (c : Clock) : ofKey? c.key = some c := by
  cases c <;> decide

theorem key_of_ofKey? {s : String} {c : Clock} (h : ofKey? s = some c) : s = c.key := by
  have := List.find?_some h
  simpa using (beq_iff_eq.1 this).symm

end Clock

/-! ### Errors -/

inductive Errno
  | perm | noEntry | interrupted | io | badFile | again | noMemory | access | fault | busy
  | noDevice | invalid | notTty | range | noSystemCall | overflow | notSupported | timedOut
  | unknown
  deriving DecidableEq, Repr

namespace Errno

/-- The error of a number; all numbers that mean nothing are one error. -/
def ofNumber : Int → Errno
  | 1 => .perm
  | 2 => .noEntry
  | 4 => .interrupted
  | 5 => .io
  | 9 => .badFile
  | 11 => .again
  | 12 => .noMemory
  | 13 => .access
  | 14 => .fault
  | 16 => .busy
  | 19 => .noDevice
  | 22 => .invalid
  | 25 => .notTty
  | 34 => .range
  | 38 => .noSystemCall
  | 75 => .overflow
  | 95 => .notSupported
  | 110 => .timedOut
  | _ => .unknown

def message : Errno → String
  | .perm => "EPERM: Operation not permitted"
  | .noEntry => "ENOENT: No such file or directory"
  | .interrupted => "EINTR: Interrupted system call"
  | .io => "EIO: I/O error"
  | .badFile => "EBADF: Bad file number"
  | .again => "EAGAIN: Try again"
  | .noMemory => "ENOMEM: Out of memory"
  | .access => "EACCES: Permission denied"
  | .fault => "EFAULT: Bad address"
  | .busy => "EBUSY: Device or resource busy"
  | .noDevice => "ENODEV: No such device"
  | .invalid => "EINVAL: Invalid argument"
  | .notTty => "ENOTTY: Not a typewriter"
  | .range => "ERANGE: Math result not representable"
  | .noSystemCall => "ENOSYS: Function not implemented"
  | .overflow => "EOVERFLOW: Value too large for defined data type"
  | .notSupported => "EOPNOTSUPP: Operation not supported on transport endpoint"
  | .timedOut => "ETIMEDOUT: Connection timed out"
  | .unknown => "UnknownErrno: Unknown errno"

end Errno

inductive ClockError
  | unsupported (clock : Clock)
  | read (clock : Clock) (errno : Errno)
  | outOfRange (clock : Clock) (nanos : Int)
  deriving DecidableEq, Repr

namespace ClockError

def message : ClockError → String
  | .unsupported c => "Clock " ++ c.name ++ " is not supported on this platform"
  | .read c e => "Failed to read " ++ c.name ++ ": " ++ e.message
  | .outOfRange c n => c.name ++ " returned out-of-range nanoseconds: " ++ Numeral.signed n

def code : ClockError → String
  | .unsupported _ => "clock::unsupported"
  | .read _ _ => "clock::read_failed"
  | .outOfRange _ _ => "clock::out_of_range"

def help? : ClockError → Option String
  | .unsupported _ =>
    some "Use ClockSource::Monotonic, which every supported platform provides."
  | .read _ _ =>
    some "The kernel rejected clock_gettime. Check seccomp filters or sandbox policy."
  | .outOfRange _ _ => none

end ClockError

/-! ### Reading -/

/-- What the kernel answers to a reading. -/
inductive Reply
  | time (secs nanos : Int)
  | failed (errno : Errno)
  deriving DecidableEq, Repr

namespace Clock

/-- The reading behind a reply. Nanoseconds outside one second are reported as they came. -/
def now (clock : Clock) : Reply → Except ClockError Time
  | .failed e => .error (.read clock e)
  | .time secs nanos =>
    if 0 ≤ nanos ∧ nanos < nanosPerSec then .ok (.new secs nanos.toNat)
    else .error (.outOfRange clock nanos)

def deadlineAfter (clock : Clock) (reply : Reply) (interval : Duration) :
    Except ClockError Time :=
  (clock.now reply).map (·.saturatingAdd interval)

/-- Zero milliseconds give the reading itself. -/
def deadlineAfterMillis (clock : Clock) (reply : Reply) (ms : Nat) : Except ClockError Time :=
  (clock.now reply).map fun now => if ms = 0 then now else now.saturatingAddMillis ms

end Clock

end TimedCondvar
