/-!
The tokens of a YAML text.
-/

namespace ExperienceReplay.Yaml

structure Tag where
  handle : String
  suffix : String
deriving DecidableEq

inductive Token where
  | directive
  | documentStart
  | documentEnd
  | blockSequenceStart
  | blockMappingStart
  | blockEnd
  | flowSequenceStart
  | flowSequenceEnd
  | flowMappingStart
  | flowMappingEnd
  | blockEntry
  | flowEntry
  | key
  | value
  | alias (name : String)
  | anchor (name : String)
  | tag (tag : Tag)
  | scalar (text : String) (plain : Bool)
deriving DecidableEq

end ExperienceReplay.Yaml
