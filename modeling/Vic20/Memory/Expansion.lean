/-! Memory expansions: the presets, and which of the five expansion blocks each fits. -/

namespace Vic20

inductive Expansion where
  | unexpanded | k3 | k8 | k16 | k24 | k27 | k32 | k35
  deriving DecidableEq, Repr

namespace Expansion

def all : List Expansion := [unexpanded, k3, k8, k16, k24, k27, k32, k35]

def name : Expansion → String
  | unexpanded => "Unexpanded"
  | k3 => "K3"
  | k8 => "K8"
  | k16 => "K16"
  | k24 => "K24"
  | k27 => "K27"
  | k32 => "K32"
  | k35 => "K35"

/-- The name in a configuration. -/
def key : Expansion → String
  | unexpanded => "unexpanded"
  | k3 => "k3"
  | k8 => "k8"
  | k16 => "k16"
  | k24 => "k24"
  | k27 => "k27"
  | k32 => "k32"
  | k35 => "k35"

def ofKey? (key : String) : Option Expansion := all.find? (·.key == key)

/-- Whether each block is fitted: the 3K block, then the four 8K blocks from the bottom up. -/
def blocks : Expansion → Vector Bool 5
  | unexpanded => #v[false, false, false, false, false]
  | k3 => #v[true, false, false, false, false]
  | k8 => #v[false, true, false, false, false]
  | k16 => #v[false, true, true, false, false]
  | k24 => #v[false, true, true, true, false]
  | k27 => #v[true, true, true, true, false]
  | k32 => #v[false, true, true, true, true]
  | k35 => #v[true, true, true, true, true]

end Expansion
end Vic20
