import Aviso.Watch.Phase

namespace Aviso.Watch

/-- A duration in nanoseconds. -/
def seconds (n : Nat) : Nat := n * 10 ^ 9

def baseDelayMs : Nat := 250

/-- The cap on an exponential delay. -/
def maxDelay : Nat := seconds 30

def shortBackoff : Nat := seconds 5

/-- The longest wait a `Retry-After` header is granted. -/
def maxHonoured : Nat := seconds 300

/-- `compute_backoff`, its jitter drawn by the environment. -/
def computeBackoff (jitter attempt : Nat) : ReconnectPolicy → Nat
  | .immediate => 0
  | .shortBackoff => shortBackoff
  | .exponentialBackoff =>
    let ceilMs := min (baseDelayMs * 2 ^ min attempt 20) u64Max
    let ceilNanos := min (ceilMs * 10 ^ 6) maxDelay
    if ceilNanos = 0 then 0 else jitter % ceilNanos

/-- A `u64` shifted to the left; a shift of 64 bits or more panics. -/
def checkedShl (a n : Nat) : Option Nat := if n < 64 then some (a * 2 ^ n % 2 ^ 64) else none

/-- A remainder; a division by zero panics. -/
def checkedRem (a b : Nat) : Option Nat := if b = 0 then none else some (a % b)

/-- `compute_backoff` in machine arithmetic, with the operations that may panic. -/
def computeBackoffChecked (jitter attempt : Nat) : ReconnectPolicy → Option Nat
  | .immediate => some 0
  | .shortBackoff => some shortBackoff
  | .exponentialBackoff => do
    let factor ← checkedShl 1 (min attempt 20)
    let ceilMs := min (baseDelayMs * factor) u64Max
    let ceilNanos := min (min (ceilMs * 10 ^ 6) maxDelay) u64Max
    if ceilNanos = 0 then some 0 else checkedRem jitter ceilNanos

/-- White space as `str::trim` sees it in a header value. -/
def trim (s : Text) : Text :=
  ((s.dropWhile Char.isWhitespace).reverse.dropWhile Char.isWhitespace).reverse

/-- `parse_retry_after`: `untilDate` is how far ahead the HTTP date of the header
lies, if it is one that has not passed. -/
def parseRetryAfter (value : Option Text) (untilDate : Text → Option Nat) : Option Nat :=
  value.bind fun value =>
    let raw := trim value
    match parseU64 raw with
    | some secs => some (min (seconds secs) maxHonoured)
    | none => (untilDate raw).map (min · maxHonoured)

end Aviso.Watch
