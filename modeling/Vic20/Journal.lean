/-! Messages that tell what a component did. -/

namespace Vic20

inductive Level where
  | trace | debug | info | warn | error
  deriving DecidableEq, Repr

def Level.name : Level → String
  | trace => "TRACE"
  | debug => "DEBUG"
  | info => "INFO"
  | warn => "WARN"
  | error => "ERROR"

structure Message where
  level : Level
  text : String
  deriving DecidableEq, Repr

/-- A message behind its level. -/
def Message.line (m : Message) : String := m.level.name ++ " " ++ m.text

end Vic20
