import Flotilla.Text.Split

/-!
# Topics

A topic is a text of levels separated by slashes. In a pattern the level `+` stands for any one
level, and `#`, which has to be the last level, for any number of them, none included. All topics
of a fleet start with one root: commands to a device and its replies each have a place under it.
-/

namespace Flotilla.Topic

/-- One level of a topic or of a pattern. -/
abbrev Level := List Char

/-- The levels of a topic or of a pattern. -/
def levels (topic : String) : List Level := Text.split '/' topic.toList

/-- The pattern level that stands for any one level. -/
def anyLevel : Level := ['+']

/-- The pattern level that stands for all levels from its place on. -/
def anyRest : Level := ['#']

/-- Whether the levels of a pattern match those of a topic. -/
def levelsMatch : List Level → List Level → Bool
  | [], topic => topic.isEmpty
  | p :: pattern, topic =>
    if p = anyRest then pattern.isEmpty
    else match topic with
      | [] => false
      | t :: topic => (p = anyLevel || p = t) && levelsMatch pattern topic

/-- Whether a pattern matches a topic. -/
def covers (pattern topic : String) : Bool := levelsMatch (levels pattern) (levels topic)

/-- The topic on which `target` is sent the command `command`. -/
def command (root target command : String) : String :=
  root ++ "/" ++ target ++ "/cmd/" ++ command

/-- The topic on which `target` answers. -/
def reply (root target : String) : String := root ++ "/" ++ target ++ "/reply"

/-- The pattern of the replies of all targets. -/
def anyReply (root : String) : String := root ++ "/+/reply"

/-- The pattern of all commands to one target. -/
def anyCommand (root target : String) : String := root ++ "/" ++ target ++ "/cmd/#"

/-- The last level of a topic: in a command topic, the command. -/
def lastLevel (topic : String) : String :=
  String.ofList ((levels topic).getLast?.getD [])

end Flotilla.Topic
