import LayeredDiagram.Data.Value
/-!
Settings given by name. A configuration lists its settings; a value given under the name of a setting takes
its place, and a name that is not listed is refused.
-/

namespace LayeredDiagram

-- A name that no setting of a kind of configuration has.
structure UnknownSetting where
  kind : String
  name : String
  deriving DecidableEq

-- A setting of a configuration: its name, and how a value changes the configuration.
structure Setting (σ : Type) where
  name : String
  put : Value → σ → Except UnknownSetting σ

namespace Setting

variable {σ τ : Type}

-- A setting that takes any value.
def any (name : String) (put : Value → σ → σ) : Setting σ :=
  ⟨name, fun v s => .ok (put v s)⟩

def number (name : String) (put : Quantity → σ → σ) : Setting σ :=
  any name fun v s => v.number?.elim s fun q => put q s

def whole (name : String) (put : Int → σ → σ) : Setting σ :=
  number name fun q => put (Scalar.floor q)

def flag (name : String) (put : Bool → σ → σ) : Setting σ :=
  any name fun v => put v.isPresent

def text (name : String) (put : String → σ → σ) : Setting σ :=
  any name fun v s => v.text?.elim s fun t => put t s

-- Changes a configuration by the fields of a record.
def assign (kind : String) (settings : List (Setting σ)) (given : Value) (start : σ) :
    Except UnknownSetting σ :=
  given.fields.foldlM (fun s (name, v) =>
    match settings.find? (·.name == name) with
    | some setting => setting.put v s
    | none => .error ⟨kind, name⟩) start

-- A setting that is a configuration itself.
def nested (name : String) (settings : List (Setting τ)) (get : σ → τ) (put : τ → σ → σ) : Setting σ :=
  ⟨name, fun v s => (assign name settings v (get s)).map fun t => put t s⟩

end Setting

end LayeredDiagram
