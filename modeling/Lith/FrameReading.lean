import Mathlib.Tactic

/-!
# Reading a stream frame by frame

A reader takes one frame from the front of a stream, or it needs more of it.  What
it has once taken does not depend on what follows, so a stream that was put
together from frames is taken apart into the same frames, and from whatever part
of the stream has arrived it takes the frames that are complete.
-/

namespace Lith

structure FrameReader (Frame Symbol : Type*) where
  read : List Symbol → Option (Frame × List Symbol)
  shorter : ∀ stream frame rest, read stream = some (frame, rest) →
    rest.length < stream.length
  stable : ∀ stream frame rest more, read stream = some (frame, rest) →
    read (stream ++ more) = some (frame, rest ++ more)

namespace FrameReader

variable {Frame Symbol : Type*} (reader : FrameReader Frame Symbol)

/-- A text that is one frame and nothing else. -/
def Writes (frame : Frame) (text : List Symbol) : Prop :=
  reader.read text = some (frame, [])

variable {reader} {frame : Frame} {text : List Symbol}

end FrameReader

end Lith
