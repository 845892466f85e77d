import PropertyTree.Event.Basic
/-!
# Property documents

A set of the key `webapp` to an object carries a part of the property tree. It expands into one set
per leaf, depth first in key order; all carry the version of the document, which is its top-level
member `version` or else that of the event. Any other wire event expands to itself.
-/

namespace PropertyTree

namespace Document

/-- The key under which documents are sent. -/
def key : String := "webapp"

/-- The member of a document that holds its version. -/
def versionKey : String := "version"

mutual

/-- The leaf events of a value at the path below `above`. -/
def leafEvents (version : Option Version) (above : List String) :
    Json → Except Failure (List Event)
  | .object members => memberEvents version above members
  | leaf => do
    let path ← (Path.ofTexts above).mapError Failure.path
    let value ← Event.scalar path.dotted leaf
    .ok [.set path value version]

/-- The leaf events of all members of an object at the path `above`. -/
def memberEvents (version : Option Version) (above : List String) :
    List (String × Json) → Except Failure (List Event)
  | [] => .ok []
  | (name, value) :: rest => do
    let first ← leafEvents version (above ++ [name]) value
    let others ← memberEvents version above rest
    .ok (first ++ others)

end

/-- The version of a document: its own, which must be a natural below `2 ^ 64`, or else the one it
was sent with. -/
def version (members : List (String × Json)) (outer : Option Version) :
    Except Failure (Option Version) :=
  match Keyed.find? versionKey members with
  | none => .ok outer
  | some found =>
    match found with
    | .number n =>
      match n.toUInt64? with
      | some number => .ok (some ⟨number⟩)
      | none => .error (.event (.invalidDocumentVersion found.compact))
    | _ => .error (.event (.invalidDocumentVersion found.compact))

/-- The leaf events of a document. -/
def events (members : List (String × Json)) (outer : Option Version) :
    Except Failure (List Event) := do
  memberEvents (← version members outer) [] (Keyed.erase versionKey members)

end Document

/-- The checked events that a wire event stands for. -/
def Event.expand (event : WireEvent) : Except Failure (List Event) :=
  match event with
  | .set key (some (.object members)) version =>
    if key = Document.key then Document.events members version
    else (Event.ofWire event).map ([·])
  | _ => (Event.ofWire event).map ([·])

end PropertyTree
