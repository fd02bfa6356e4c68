/-!
# The readiness flag

One writer sets the flag after every check of the member, and any number of readers see the value
last written.
-/

namespace StoreWarden.Readiness

/-- Whether the member was last found to serve. -/
structure Flag where
  isReady : Bool
deriving DecidableEq, Repr

namespace Flag

def initial : Flag := ⟨false⟩

/-- Writes the flag, and gives the value it had. -/
def set (f : Flag) (ready : Bool) : Flag × Bool := (⟨ready⟩, f.isReady)

end Flag

end StoreWarden.Readiness
