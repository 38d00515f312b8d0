import LayeredDiagram.Render.Picture
/-!
Several pictures with the same settings. A session keeps the trace of its last call.
-/

namespace LayeredDiagram

structure Session where
  settings : Settings := {}
  -- Font of images, where a call names none.
  font : Option String := none
  trace : Option Trace := none

namespace Session

-- Remembers the trace of a call; one without a trace drops the earlier one.
def keep (s : Session) (r : Run) : Run × Session :=
  (r, { s with trace := r.trace })

def textArt (s : Session) (o : ArtOptions) (debug : Bool) (input : String) : Run × Session :=
  s.keep (s.settings.textArt o debug input)

def svg (s : Session) (o : SvgOptions) (debug : Bool) (input : String) : Run × Session :=
  s.keep (s.settings.svg o debug input)

end Session

end LayeredDiagram
