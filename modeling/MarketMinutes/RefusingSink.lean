import MarketMinutes.Aggregation

/-!
# A sink that refuses

Records kept in memory by a sink that refuses one write, by its number, or
every flush.
-/

namespace MarketMinutes

structure RefusingSink where
  records : List Record
  attempts : Nat
  flushes : Nat
  deriving DecidableEq

namespace RefusingSink

def empty : RefusingSink := ⟨[], 0, 0⟩

def writeRefused : String := "IO error: write refused"

def flushRefused : String := "IO error: flush refused"

/-- The sink that refuses the write of this number, counted from one, and all flushes if told so. -/
def sink (refusedWrite : Option Nat) (refuseFlush : Bool) : Sink RefusingSink String where
  write s r :=
    let s := { s with attempts := s.attempts + 1 }
    if refusedWrite = some s.attempts then (s, .error writeRefused)
    else ({ s with records := s.records ++ [r] }, .ok ())
  flush s :=
    let s := { s with flushes := s.flushes + 1 }
    (s, if refuseFlush then .error flushRefused else .ok ())

end RefusingSink
end MarketMinutes
