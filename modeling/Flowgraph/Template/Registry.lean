import Flowgraph.Template.Basic

namespace Flowgraph

namespace Template

/-- As many defaults as settings: extra ones are cut off and missing ones are zero. -/
def fitDefaults (internals : List Port) (defaults : List Value) : List Value :=
  defaults.take internals.length ++ Port.zeros (internals.drop defaults.length)

/-- What is written down to have a template of each kind. -/
inductive Declaration where
  | plain (category name : String) (inputs outputs : List Port) (evaluate : Evaluator)
      (exported : Bool)
  | event (category name : String) (outputs : List Port)
  | internal (category name : String) (inputs internals : List Port) (defaults : List Value)
      (outputs : List Port) (evaluate : Evaluator) (exported : Bool)
  /-- The ports are both settings and outputs. -/
  | constant (category name : String) (ports : List Port) (defaults : List Value)
      (exported : Bool)
  /-- A template as it stands, however its parts fit together. -/
  | whole (template : Template)

namespace Declaration

/-- The template that a declaration makes. -/
def template : Declaration → Template
  | .plain category name inputs outputs evaluate exported =>
    { category, name, kind := .plain, inputs, outputs, internals := [], defaults := [],
      evaluator := some evaluate, exported }
  | .event category name outputs =>
    { category, name, kind := .event, inputs := [], outputs, internals := [], defaults := [],
      evaluator := none, exported := false }
  | .internal category name inputs internals defaults outputs evaluate exported =>
    { category, name, kind := .internal, inputs, outputs, internals,
      defaults := fitDefaults internals defaults, evaluator := some evaluate, exported }
  | .constant category name ports defaults exported =>
    { category, name, kind := .constant, inputs := [], outputs := ports, internals := ports,
      defaults := fitDefaults ports defaults, evaluator := none, exported }
  | .whole template => template

/-- Whether the number of defaults had to be changed. -/
def misfits : Declaration → Bool
  | .internal _ _ _ internals defaults .. => defaults.length != internals.length
  | .constant _ _ ports defaults _ => defaults.length != ports.length
  | _ => false

end Declaration

end Template

/-- Templates by name, as a store keeps them: each name once, in whatever order. -/
structure Registry where
  entries : List (String × Template) := []

namespace Registry

/-- Adds a template, in place of one of the same name. -/
def register (r : Registry) (t : Template) : Registry :=
  ⟨(t.name, t) :: Dictionary.erase t.name r.entries⟩

/-- Adds the declared templates, in order. -/
def declare (r : Registry) (declarations : List Template.Declaration) : Registry :=
  declarations.foldl (fun r d => r.register d.template) r

/-- The template of a name. -/
def get? (r : Registry) (name : String) : Option Template :=
  Dictionary.get? r.entries name

def contains (r : Registry) (name : String) : Bool := (r.get? name).isSome

def size (r : Registry) : Nat := r.entries.length

/-- The templates, in the order of the store. -/
def templates (r : Registry) : List Template := r.entries.map (·.2)

/-- The registered names, sorted. -/
def names (r : Registry) : List String := (Dictionary.keys r.entries).mergeSort

/-- The templates of a category, sorted by name. -/
def inCategory (r : Registry) (category : String) : List Template :=
  (r.templates.filter (·.category = category)).mergeSort fun a b => a.name ≤ b.name

/-- The categories that have a template, sorted and without repetitions. -/
def categories (r : Registry) : List String :=
  (r.templates.map (·.category)).mergeSort.eraseReps

end Registry

end Flowgraph
