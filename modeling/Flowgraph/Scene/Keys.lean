import Flowgraph.Json.Record

namespace Flowgraph

/-- The keys that are held down, in order. -/
structure PressedKeys where
  held : Dictionary Unit := []
deriving DecidableEq

namespace PressedKeys

def press (keys : PressedKeys) (key : String) : PressedKeys :=
  ⟨Dictionary.insert key () keys.held⟩

def release (keys : PressedKeys) (key : String) : PressedKeys :=
  ⟨Dictionary.erase key keys.held⟩

def isPressed (keys : PressedKeys) (key : String) : Bool :=
  (Dictionary.get? keys.held key).isSome

def ofList (names : List String) : PressedKeys :=
  ⟨Dictionary.ofList (names.map (·, ()))⟩

/-- The held keys in order. -/
def toList (keys : PressedKeys) : List String := Dictionary.keys keys.held

def ofJson? (j : Json) : Option PressedKeys :=
  (Json.asList? Json.asString? j).map ofList

end PressedKeys

/-- The keys as a host shows them to a tick. To look one up is an operation of the host. -/
structure Keyboard where
  /-- Whether a key is held, or the text of the crash that the lookup ends in, if it left one. -/
  look : String → Except (Option String) Bool := fun _ => .ok false

/-- Whether a key is seen to be held. -/
def Keyboard.isPressed (keys : Keyboard) (key : String) : Bool :=
  match keys.look key with
  | .ok pressed => pressed
  | .error _ => false

/-- Pressed keys are looked up without a crash. -/
instance : Coe PressedKeys Keyboard := ⟨fun keys => ⟨fun key => .ok (keys.isPressed key)⟩⟩

end Flowgraph
