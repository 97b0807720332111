/-!
Lines that a call logs, in order.
-/

namespace ExperienceReplay

inductive LogLevel where
  | warning
  | error
deriving DecidableEq

structure LogLine where
  level : LogLevel
  text : String
deriving DecidableEq

structure Logged (α : Type) where
  value : α
  lines : List LogLine
deriving DecidableEq

namespace Logged

def silent {α : Type} (value : α) : Logged α := ⟨value, []⟩

def warning {α : Type} (text : String) (value : α) : Logged α := ⟨value, [⟨.warning, text⟩]⟩

def map {α β : Type} (f : α → β) (logged : Logged α) : Logged β := ⟨f logged.value, logged.lines⟩

def both {α β : Type} (a : Logged α) (b : Logged β) : Logged (α × β) :=
  ⟨(a.value, b.value), a.lines ++ b.lines⟩

end Logged

end ExperienceReplay
