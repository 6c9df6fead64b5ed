import Fractal.Proofs.Turtle.Continuation

/-!
Where a list of operations leads, and the positions that its pen comes by.

Lists that close all their branches lead on from one another, whatever comes before and after them.
-/

namespace Fractal

namespace Gait

variable {σ π : Type} (gait : Gait σ π)

/-- The positions of a pen: where it is set down, and the end of each segment that it draws. -/
def trail (pose : σ) (ops : List Op) : List π :=
  gait.position pose :: ((Walker.start pose).walk gait ops).segments.map Segment.stop

/-- The pose to which a list of operations leads. -/
def arrive (pose : σ) (ops : List Op) : σ :=
  ((Walker.start pose).walk gait ops).here

/-- There is one more position on a trail than there are drawing operations. -/
theorem length_trail (pose : σ) (ops : List Op) :
    (gait.trail pose ops).length = ops.count .draw + 1 := by
  -- There is one stop for each stroke, and the position where the walk starts.
  rw [trail, List.length_cons, List.length_map, Walker.length_segments_walk]

/-- A list that closes its branches and leads from one pose to another, along some positions. -/
structure Leads (first : σ) (ops : List Op) (along : List π) (last : σ) : Prop where
  /-- No branch is left open. -/
  closed : ((Walker.start first).walk gait ops).saved = []
  /-- The pen comes by these positions. -/
  trail : gait.trail first ops = along
  /-- The walk ends in the other pose. -/
  arrive : gait.arrive first ops = last

namespace Leads

variable {gait} {first middle last : σ} {ops more : List Op} {along beyond : List π}

/-- No operations lead nowhere else. -/
theorem nil (pose : σ) : gait.Leads pose [] [gait.position pose] pose := ⟨rfl, rfl, rfl⟩

/-- A second list leads on from the first, by the positions of both without their common one. -/
theorem append (there : gait.Leads first ops along middle)
    (onward : gait.Leads middle more beyond last) :
    gait.Leads first (ops ++ more) (along ++ beyond.tail) last := by
  obtain ⟨closed, rfl, rfl⟩ := there
  obtain ⟨closedToo, rfl, rfl⟩ := onward
  -- With nothing saved, the second walk does not depend on the first but for its pose.
  have split : (Walker.start first).walk gait (ops ++ more) =
      ((Walker.start (gait.arrive first ops)).walk gait more).atop
        ((Walker.start first).walk gait ops) := by
    rw [Walker.walk_append]
    exact Walker.walk_atop_of_bottom gait _ closed more (.start (gait.arrive first ops))
  refine ⟨?_, ?_, ?_⟩
  -- Nothing is saved above nothing.
  · rw [split, Walker.atop, closed, closedToo]
    rfl
  -- The strokes of the second walk follow those of the first.
  · rw [Gait.trail, split, Walker.segments_atop, List.map_append]
    rfl
  -- The pose on top is that of the second walk.
  · rw [Gait.arrive, split]
    rfl

/-- A stroke leads on from the next pose. -/
theorem draw (onward : gait.Leads (gait.forward first) ops along last) :
    gait.Leads first (.draw :: ops) (gait.position first :: along) last := by
  -- One stroke leads ahead, by evaluation of a single step.
  have stroke : gait.Leads first [.draw]
      [gait.position first, gait.position (gait.forward first)] (gait.forward first) :=
    ⟨rfl, rfl, rfl⟩
  obtain ⟨closed, rfl, rfl⟩ := onward
  exact stroke.append ⟨closed, rfl, rfl⟩

/-- Two lists with a stroke between them lead along all positions of both. -/
theorem append_draw (there : gait.Leads first ops along middle)
    (onward : gait.Leads (gait.forward middle) more beyond last) :
    gait.Leads first (ops ++ .draw :: more) (along ++ beyond) last :=
  there.append onward.draw

end Leads

end Gait

end Fractal
