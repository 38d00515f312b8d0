import LayeredDiagram.Theme.Palette
/-!
Palettes known by name.
-/

namespace LayeredDiagram

-- What is no name of a palette.
structure UnknownTheme where
  name : Value

namespace Palette

-- A palette with its two main colours and some of the others.
def ofHex (bg fg : String) (line accent muted : Option String) : Palette :=
  let value (s : Option String) : Value := .ofOption s
  { bg := .text bg, fg := .text fg, line := value line, accent := value accent, muted := value muted }

def named : List (String × Palette) := [
  ("zinc-dark", ofHex "#18181B" "#FAFAFA" none none none),
  ("tokyo-night", ofHex "#1a1b26" "#a9b1d6" "#3d59a1" "#7aa2f7" "#565f89"),
  ("tokyo-night-storm", ofHex "#24283b" "#a9b1d6" "#3d59a1" "#7aa2f7" "#565f89"),
  ("tokyo-night-light", ofHex "#d5d6db" "#343b58" "#34548a" "#34548a" "#9699a3"),
  ("catppuccin-mocha", ofHex "#1e1e2e" "#cdd6f4" "#585b70" "#cba6f7" "#6c7086"),
  ("catppuccin-latte", ofHex "#eff1f5" "#4c4f69" "#9ca0b0" "#8839ef" "#9ca0b0"),
  ("nord", ofHex "#2e3440" "#d8dee9" "#4c566a" "#88c0d0" "#616e88"),
  ("nord-light", ofHex "#eceff4" "#2e3440" "#aab1c0" "#5e81ac" "#7b88a1"),
  ("dracula", ofHex "#282a36" "#f8f8f2" "#6272a4" "#bd93f9" "#6272a4"),
  ("github-light", ofHex "#ffffff" "#1f2328" "#d1d9e0" "#0969da" "#59636e"),
  ("github-dark", ofHex "#0d1117" "#e6edf3" "#3d444d" "#4493f8" "#9198a1"),
  ("solarized-light", ofHex "#fdf6e3" "#657b83" "#93a1a1" "#268bd2" "#93a1a1"),
  ("solarized-dark", ofHex "#002b36" "#839496" "#586e75" "#268bd2" "#586e75"),
  ("one-dark", ofHex "#282c34" "#abb2bf" "#4b5263" "#c678dd" "#5c6370")]

-- The names of all palettes in alphabetical order.
def names : List String :=
  (named.map (·.1)).mergeSort fun a b => !(b < a)

def ofName (name : String) : Except UnknownTheme Palette :=
  match named.lookup name with
  | some p => .ok p
  | none => .error ⟨.text name⟩

-- The palette that a value names.
def ofValue (v : Value) : Except UnknownTheme Palette :=
  v.text?.elim (.error ⟨v⟩) ofName

-- The palette of a name, or the default one, with another background or foreground. What says
-- nothing counts as missing.
def adapted (name bg fg : Value) : Except UnknownTheme Palette := do
  let base ← if name.isPresent then ofValue name else .ok {}
  return { base with bg := bg.orElse base.bg, fg := fg.orElse base.fg }

end Palette

namespace UnknownTheme

def message (e : UnknownTheme) : String :=
  "Unknown theme: " ++ e.name.write Value.logStyle ++ ". Available: " ++ ", ".intercalate Palette.names

end UnknownTheme

end LayeredDiagram
