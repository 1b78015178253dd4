/-!
# Ages

What a year may bring depends on the age at which it begins: the talents that are
unlocked then, and the pool from which one event is drawn.
-/

namespace LifeCourse

/-- An event of a pool with its weight. -/
structure PoolEntry where
  event : Int
  weight : Float

/-- What may come at one age. -/
structure AgeSlot where
  age : Int
  talents : List Int
  pool : List PoolEntry

end LifeCourse
