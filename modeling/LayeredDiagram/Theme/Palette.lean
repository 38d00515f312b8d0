import LayeredDiagram.Theme.Color
/-!
Palettes, and the colours of drawings derived from them. A palette needs a background and a
foreground; other colours that it lacks are mixed from these two.
-/

namespace LayeredDiagram

-- Colours as they were given, not yet checked.
structure Palette where
  bg : Value := .text "#FFFFFF"
  fg : Value := .text "#27272A"
  line : Value := .null
  accent : Value := .null
  muted : Value := .null
  surface : Value := .null
  border : Value := .null

-- The colour of every part of a drawing.
structure DrawingColors where
  bg : String
  text : String
  textSec : String
  textMuted : String
  textFaint : String
  line : String
  arrow : String
  nodeFill : String
  nodeStroke : String
  groupFill : String
  groupHeader : String
  innerStroke : String

namespace Palette

-- The colour of a palette for some part, or a mix with the given percentage of the foreground.
def override (fg bg label : String) (value : Value) (percent : Nat) : Except ColorError String :=
  if value.isPresent then Color.validate label value
  else Color.mix fg bg ((percent : Nat) : Quantity)

-- The colours of a drawing. The background and the foreground are checked first.
def resolve (p : Palette) : Except ColorError DrawingColors := do
  let bg ← Color.validate "bg" p.bg
  let fg ← Color.validate "fg" p.fg
  let textSec ← override fg bg "muted" p.muted 60
  let textMuted ← override fg bg "muted" p.muted 40
  let textFaint ← override fg bg "" .null 25
  let line ← override fg bg "line" p.line 30
  let arrow ← override fg bg "accent" p.accent 50
  let nodeFill ← override fg bg "surface" p.surface 3
  let nodeStroke ← override fg bg "border" p.border 20
  let groupHeader ← override fg bg "" .null 5
  let innerStroke ← override fg bg "" .null 12
  return {
    bg, text := fg, textSec, textMuted, textFaint, line, arrow, nodeFill, nodeStroke,
    groupFill := bg, groupHeader, innerStroke }

-- A palette from an editor theme: its `colors`, and the `tokenColors` of keywords and comments.
def ofEditorTheme (theme : Value) : Palette :=
  let ui := theme.field "colors"
  let isDark := (theme.field "type").isText "dark"
  let pick (dark light : String) : Value := .text (if isDark then dark else light)
  let lineNumber := ui.field "editorLineNumber.foreground"
  { bg := (ui.field "editor.background").orElse (pick "#1e1e1e" "#ffffff")
    fg := (ui.field "editor.foreground").orElse (pick "#d4d4d4" "#333333")
    line := lineNumber
    accent := (ui.field "focusBorder").orElse (tokenColor "keyword")
    muted := (tokenColor "comment").orElse lineNumber
    surface := ui.field "editor.selectionBackground"
    border := ui.field "editorWidget.border" }
where
  -- The foreground of the first token entry with a scope.
  tokenColor (scope : String) : Value :=
    let found := (theme.field "tokenColors").entries.find? fun token =>
      match token.field "scope" with
      | .list scopes => scopes.any (·.isText scope)
      | other => other.isText scope
    match found with
    | some token => (token.field "settings").field "foreground"
    | none => .null

end Palette

end LayeredDiagram
