import LayeredDiagram.Text.Blank
/-!
Argument lists: texts between commas. Commas between double quotes do not separate, and the quotes
stay with the argument.
-/

namespace LayeredDiagram.Text

-- The fields between commas outside quotes; the flag says whether a quote is open.
def fields : Bool → List Char → List (List Char)
  | _, [] => [[]]
  | quoted, c :: rest =>
    if c = ',' ∧ quoted = false then [] :: fields false rest
    else
      match fields (if c = '"' then !quoted else quoted) rest with
      | field :: more => (c :: field) :: more
      | [] => [[c]]

-- Drops the last field if it is empty.
def dropLastEmpty : List (List Char) → List (List Char)
  | [] => []
  | [field] => if field.isEmpty then [] else [field]
  | field :: more => field :: dropLastEmpty more

-- The arguments of a list, trimmed; a last argument that is blank does not count.
def arguments (s : List Char) : List (List Char) :=
  dropLastEmpty ((fields false s).map trim)

-- A text without the pair of double quotes around it, if there is one.
def unquote : List Char → List Char
  | '"' :: rest =>
    match rest.reverse with
    | '"' :: inner => inner.reverse
    | _ => '"' :: rest
  | s => s

end LayeredDiagram.Text
