/-!
# Scenes

Some items follow the view: they are told when it changes.
-/

namespace WatchFace

structure Scene (ι : Type) where
  items : List ι := []
  deriving Repr

namespace Scene

variable {ι : Type} [BEq ι]

def add (s : Scene ι) (i : ι) : Scene ι := { s with items := s.items ++ [i] }

def remove (s : Scene ι) (i : ι) : Scene ι := { s with items := s.items.erase i }

def followers (follows : ι → Bool) (s : Scene ι) : List ι := s.items.filter follows

end Scene

end WatchFace
