import ExperienceReplay.Yaml.Token.Basic

/-!
The content of a YAML document.
-/

namespace ExperienceReplay.Yaml

/-- A node of a document. An alias refers to an anchored node by its number. -/
inductive Node where
  | scalar (text : String) (plain : Bool) (tag : Option Tag)
  | sequence (items : List Node)
  | mapping (entries : List (Node × Node))
  | alias (anchor : Nat)

namespace Node

def absent : Node := scalar "~" true none

end Node

/-- A document: its root, and the anchored nodes by number. An anchored node may hold an alias of
itself. -/
structure Document where
  root : Node
  anchored : List (Nat × Node)

namespace Document

def resolve? (document : Document) : Node → Option Node
  | .alias anchor => document.anchored.lookup anchor
  | node => some node

end Document

end ExperienceReplay.Yaml
