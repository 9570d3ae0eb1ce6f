/-!
# Conversational quality score

A transmission rating between 0 and 100 is turned into a score by a cubic; the score is reported
times ten and cut to a whole number. Ratings outside that range have the lowest and the highest
score, and a rating that is not a number has the highest: it is neither below 0 nor below 100. The
cubic is computed in binary floating point, and rounded after each operation.
-/

namespace MediaTransport.Quality

/-- The score of a rating between 0 and 100, times ten and before it is cut to a whole number. -/
def cubic (r : Float) : Float :=
  10 * (1 + 0.035 * r + r * (r - 60) * (100 - r) * 7 * 0.000001)

/-- The score of a rating, times ten. -/
def score (r : Float) : UInt8 :=
  (if r < 0 then 10 else if r < 100 then cubic r else 45 : Float).toUInt8

end MediaTransport.Quality
