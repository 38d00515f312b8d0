import LayeredDiagram.Layout.Order
/-!
Vertical coordinates. Ranks are stacked with the rank gap between them, and with room for the headers
and the padding of the groups that open and close there.
-/

namespace LayeredDiagram

-- A rank with its vertical centre and the height of its tallest item.
structure RankBand (α : Type) where
  rank : Nat
  center : α
  height : α

variable {α : Type} [Scalar α]

namespace RankBand

-- The most groups around one item of a rank that have their first items there.
def opening (span : String → Nat × Nat) (layer : List (Item α)) : Nat :=
  ((layer.map fun i => (i.path.filter fun g => (span g).1 == i.rank).length).max?).getD 0

-- The most groups around one item of a rank that have their last items there.
def closing (span : String → Nat × Nat) (layer : List (Item α)) : Nat :=
  ((layer.map fun i => (i.path.filter fun g => (span g).2 == i.rank).length).max?).getD 0

def tallest (layer : List (Item α)) : α :=
  (Scalar.largest? (layer.map (·.height))).getD 0

-- Room for the headers of the groups that open in a rank.
def headers (spacing : Spacing α) (span : String → Nat × Nat) (layer : List (Item α)) : α :=
  (opening span layer : α) * (spacing.groupPadding + spacing.groupHeader)

-- The bands below a given one, which closes a number of groups.
def stack (spacing : Spacing α) (span : String → Nat × Nat) (above : RankBand α) (closed : Nat) :
    List (Nat × List (Item α)) → List (RankBand α)
  | [] => []
  | (rank, layer) :: rest =>
    let height := tallest layer
    let center := above.center + above.height / 2 + spacing.rank
      + (closed : α) * spacing.groupPadding + headers spacing span layer + height / 2
    let band := ⟨rank, center, height⟩
    band :: stack spacing span band (closing span layer) rest

-- The bands of all ranks that hold items.
def ofLayers (spacing : Spacing α) (span : String → Nat × Nat) (layers : Layers α) :
    List (RankBand α) :=
  let present := (layers.zipIdx.filter fun (layer, _) => !layer.isEmpty).map fun (layer, r) => (r, layer)
  match present with
  | [] => []
  | (rank, layer) :: rest =>
    let height := tallest layer
    let first := ⟨rank, headers spacing span layer + height / 2, height⟩
    first :: stack spacing span first (closing span layer) rest

def center? (bands : List (RankBand α)) (rank : Nat) : Option α :=
  (bands.find? (·.rank == rank)).map (·.center)

-- The middle of the gap below a rank.
def midline (bands : List (RankBand α)) (rank : Nat) : α :=
  match bands.find? (·.rank == rank), bands.find? (rank < ·.rank) with
  | some upper, some lower =>
    let top := upper.center + upper.height / 2
    let bottom := lower.center - lower.height / 2
    (top + bottom) / 2
  | _, _ => 0

end RankBand

end LayeredDiagram
