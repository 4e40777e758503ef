/-!
# `stats.rs` — what a worker counts

Only the counts the workers decide by are here: latencies, status tallies and byte totals
are read by the report alone.
-/

namespace Shb

structure Stats where
  completed : Nat
  errors : Nat
  connectErrors : Nat
  deriving DecidableEq, Repr

namespace Stats

def zero : Stats := { completed := 0, errors := 0, connectErrors := 0 }

variable (s : Stats)

def recordSuccess : Stats := { s with completed := s.completed + 1 }

/-- `stats.errors += n`. -/
def fail (n : Nat) : Stats := { s with errors := s.errors + n }

/-- The requests a run has heard the last of. -/
def finished : Nat := s.completed + s.errors

@[simp] theorem completed_fail (n : Nat) : (s.fail n).completed = s.completed := rfl

@[simp] theorem errors_fail (n : Nat) : (s.fail n).errors = s.errors + n := rfl

end Stats

end Shb
