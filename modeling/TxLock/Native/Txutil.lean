import TxLock.Native.Lll

/-!
# Parameters of the speculation

The constants of `txutil.c` that decide when a lock speculates. They are set once,
when the library is loaded, from the environment.
-/

namespace TxLock.Native

/-- `TK_MIN_DISTANCE`, `TK_MAX_DISTANCE` and `TK_NUM_TRIES`, each a `uint32_t`. -/
structure TmParams where
  minDistance : Word := 0
  maxDistance : Word := 2
  numTries : Word := 2
  deriving DecidableEq, Repr

end TxLock.Native
