namespace DocWire

-- Whether a command must reach the writable primary or may be read from others.
inductive Routing where
  | requiresPrimary
  | readable
deriving DecidableEq

def Routing.render : Routing → String
  | .requiresPrimary => "a primary-only command"
  | .readable => "a readable command"

-- Which servers a readable command may go to.
inductive ReadPreference where
  | primary
  | primaryPreferred
  | secondary
  | secondaryPreferred
  | nearest
deriving DecidableEq, Inhabited

-- Why no server could be named or found.
inductive SelectionError where
  | noServer (routing : Routing) (preference : ReadPreference)
  | unknownPreference (text : String)
  | invalidAddress (text : String)
deriving DecidableEq

namespace ReadPreference

def all : List ReadPreference :=
  [.primary, .primaryPreferred, .secondary, .secondaryPreferred, .nearest]

def render : ReadPreference → String
  | .primary => "primary"
  | .primaryPreferred => "primaryPreferred"
  | .secondary => "secondary"
  | .secondaryPreferred => "secondaryPreferred"
  | .nearest => "nearest"

-- Only the case of ASCII letters is levelled, which is all that the names hold.
def named (text : String) (preference : ReadPreference) : Bool :=
  text.toList.map Char.toLower = preference.render.toList.map Char.toLower

-- The preference of a name in any mixture of upper and lower case.
def parse (text : String) : Except SelectionError ReadPreference :=
  match all.find? (named text) with
  | some preference => .ok preference
  | none => .error (.unknownPreference text)

end ReadPreference

def SelectionError.message : SelectionError → String
  | .noServer routing preference =>
    "no server available for " ++ routing.render ++ " with read preference " ++ preference.render
  | .unknownPreference text => "invalid read preference '" ++ text ++ "'"
  | .invalidAddress text => "invalid server address '" ++ text ++ "'"

end DocWire
