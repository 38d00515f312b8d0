import LayeredDiagram.Data.Setting
import LayeredDiagram.Family.Diagram
import LayeredDiagram.TextArt.Config
import LayeredDiagram.Theme.Palette
import LayeredDiagram.Trace.Basic
/-!
The names under which the constants of all pictures can be set.
-/

namespace LayeredDiagram

open Setting

def Fonts.settings : List (Setting (Fonts Quantity)) := [
  number "node_label_size" fun q f => { f with nodeLabelSize := q },
  whole "node_label_weight" fun n f => { f with nodeLabelWeight := n },
  number "edge_label_size" fun q f => { f with edgeLabelSize := q },
  whole "edge_label_weight" fun n f => { f with edgeLabelWeight := n },
  number "group_header_size" fun q f => { f with groupHeaderSize := q },
  whole "group_header_weight" fun n f => { f with groupHeaderWeight := n },
  number "edge_label_pad_x" fun q f => { f with edgeLabelPadX := q },
  number "edge_label_pad_y" fun q f => { f with edgeLabelPadY := q }]

-- Titles have a size of their own, which nothing depends on.
def C4.Config.settings : List (Setting (C4.Config Quantity)) := [
  nested "fonts" Fonts.settings (·.fonts) fun f c => { c with fonts := f },
  number "padding" fun q c => { c with padding := q },
  number "box_pad_x" fun q c => { c with boxPadX := q },
  number "box_pad_y" fun q c => { c with boxPadY := q },
  number "person_width" fun q c => { c with personWidth := q },
  number "person_height" fun q c => { c with personHeight := q },
  number "min_box_width" fun q c => { c with minBoxWidth := q },
  number "min_box_height" fun q c => { c with minBoxHeight := q },
  number "line_height" fun q c => { c with lineHeight := q },
  number "boundary_padding" fun q c => { c with boundaryPadding := q },
  number "boundary_header_height" fun q c => { c with boundaryHeaderHeight := q },
  number "node_spacing" fun q c => { c with nodeSpacing := q },
  number "layer_spacing" fun q c => { c with layerSpacing := q },
  number "title_font_size" fun _ c => c,
  whole "title_font_weight" fun _ c => c,
  number "desc_font_size" fun q c => { c with descFontSize := q },
  whole "desc_font_weight" fun n c => { c with descFontWeight := n },
  number "tech_font_size" fun q c => { c with techFontSize := q },
  whole "tech_font_weight" fun n c => { c with techFontWeight := n }]

def ArchiMate.Config.settings : List (Setting (ArchiMate.Config Quantity)) := [
  nested "fonts" Fonts.settings (·.fonts) fun f c => { c with fonts := f },
  number "padding" fun q c => { c with padding := q },
  number "min_element_width" fun q c => { c with minElementWidth := q },
  number "element_height" fun q c => { c with elementHeight := q },
  number "element_pad_x" fun q c => { c with elementPadX := q },
  number "layer_padding" fun q c => { c with layerPadding := q },
  number "layer_label_height" fun q c => { c with layerLabelHeight := q },
  number "node_spacing" fun q c => { c with nodeSpacing := q },
  number "layer_spacing" fun q c => { c with layerSpacing := q },
  number "type_indicator_size" fun q c => { c with typeIndicatorSize := q },
  whole "type_indicator_weight" fun n c => { c with typeIndicatorWeight := n },
  number "layer_edge_weight" fun q c => { c with layerEdgeWeight := q }]

def ClassDiagram.Config.settings : List (Setting (ClassDiagram.Config Quantity)) := [
  nested "fonts" Fonts.settings (·.fonts) fun f c => { c with fonts := f },
  number "padding" fun q c => { c with padding := q },
  number "box_pad_x" fun q c => { c with boxPadX := q },
  number "min_width" fun q c => { c with minWidth := q },
  number "header_height" fun q c => { c with headerHeight := q },
  number "annotation_height" fun q c => { c with stereotypeHeight := q },
  number "member_row_height" fun q c => { c with memberRowHeight := q },
  number "compartment_pad_y" fun q c => { c with compartmentPadY := q },
  number "member_font_size" fun q c => { c with memberFontSize := q },
  number "name_font_size" fun q c => { c with nameFontSize := q },
  whole "name_font_weight" fun n c => { c with nameFontWeight := n },
  number "annotation_font_size" fun q c => { c with stereotypeFontSize := q },
  whole "annotation_font_weight" fun n c => { c with stereotypeFontWeight := n },
  number "node_spacing" fun q c => { c with nodeSpacing := q },
  number "layer_spacing" fun q c => { c with layerSpacing := q },
  number "namespace_padding" fun q c => { c with namespacePadding := q },
  number "namespace_header_height" fun q c => { c with namespaceHeaderHeight := q }]

def TextArt.Config.settings : List (Setting (TextArt.Config Quantity)) := [
  flag "use_ascii" fun b c => { c with charset := .ofAscii b },
  number "padding_x" fun q c => { c with paddingX := q },
  number "padding_y" fun q c => { c with paddingY := q },
  number "group_padding" fun q c => { c with groupPadding := q },
  number "group_header" fun q c => { c with groupHeader := q },
  number "edge_spacing" fun q c => { c with edgeSpacing := q },
  number "self_loop" fun q c => { c with selfLoop := q },
  number "empty_group_width" fun q c => { c with emptyGroupWidth := q },
  number "empty_group_height" fun q c => { c with emptyGroupHeight := q },
  number "margin_cells" fun q c => { c with margin := q }]

-- The constants of all families that a record changes.
def Config.ofValue (v : Value) : Except UnknownSetting (Config Quantity) := do
  let c4 ← assign "c4" C4.Config.settings (v.field "c4") .standard
  let archimate ← assign "archimate" ArchiMate.Config.settings (v.field "archimate") .standard
  let classDiagram ← assign "class" ClassDiagram.Config.settings (v.field "class") .standard
  return { c4, archimate, classDiagram }

-- The gaps of a graph are real numbers.
def Spacing.settings : List (Setting (Spacing Quantity)) := [
  number "node" fun q s => { s with node := q.asReal },
  number "rank" fun q s => { s with rank := q.asReal },
  number "edge" fun q s => { s with edge := q.asReal },
  number "group_padding" fun q s => { s with groupPadding := q.asReal },
  number "group_header" fun q s => { s with groupHeader := q.asReal },
  number "empty_group_width" fun q s => { s with emptyGroupWidth := q.asReal },
  number "empty_group_height" fun q s => { s with emptyGroupHeight := q.asReal },
  number "self_loop" fun q s => { s with selfLoop := q.asReal }]

def Palette.settings : List (Setting Palette) := [
  any "bg" fun v p => { p with bg := v },
  any "fg" fun v p => { p with fg := v },
  any "line" fun v p => { p with line := v },
  any "accent" fun v p => { p with accent := v },
  any "muted" fun v p => { p with muted := v },
  any "surface" fun v p => { p with surface := v },
  any "border" fun v p => { p with border := v }]

def Trace.settings : List (Setting Trace) := [
  text "input_text" fun s t => { t with input := s },
  text "diagram_type" fun s t => { t with family := s },
  text "output_format" fun s t => { t with format := s }]

end LayeredDiagram
