/-!
# Directions

Reports and packets travel one of two ways, as seen from this end.
-/

namespace MediaTransport

/-- Which way something travelled. -/
inductive Direction where
  | received
  | sent
  deriving DecidableEq, Repr

end MediaTransport
