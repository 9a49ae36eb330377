/-!
The scheduling states of `src/process.c3`. `PROC_RESERVED` is left out: a slot is
reserved and published within one system call, and kernel code is not preempted.
-/

namespace Racccoon

inductive ProcState where
  | unused
  | runnable
  | blocked
  deriving DecidableEq

end Racccoon
