import PropertyTree.Json.Reader
import PropertyTree.Version
/-!
# Wire events

A property event arrives as JSON: an object with a `type`, or an array of its fields in order. Each
kind of event has a short and a long type name. `WireEvent.ofJson?` reads the JSON form,
`WireEvent.toJson` writes the normal one: an object with the short name and without absent fields.
A line of text is read as it comes: a second type or an unknown one is refused where it stands, all
other faults of shape only when the event has been read.
-/

namespace PropertyTree

/-- The two kinds of events. -/
inductive EventKind where
  | set
  | delete
deriving DecidableEq

namespace EventKind

/-- The short name of the kind. -/
def name : EventKind → String
  | .set => "set"
  | .delete => "delete"

/-- The kind with this short or long name. -/
def ofName? (name : String) : Option EventKind :=
  if name = "set" ∨ name = "user.properties-set" then some .set
  else if name = "delete" ∨ name = "user.properties-delete" then some .delete
  else none

/-- The kind that a JSON value names. -/
def ofJson? : Json → Option EventKind
  | .string name => ofName? name
  | _ => none

end EventKind

/-- A property event as it is sent. -/
inductive WireEvent where
  | set (key : String) (value : Option Json) (version : Option Version)
  | delete (key : String)
deriving DecidableEq

namespace WireEvent

/-- The dotted key that the event is about. -/
def key : WireEvent → String
  | .set key _ _ => key
  | .delete key => key

/-- A value field; `null` stands for an absent value. -/
def readValue : Json → Option Json
  | .null => none
  | value => some value

/-- A version field; `null` stands for an absent version. -/
def readVersion? : Json → Option (Option Version)
  | .null => some none
  | .number n => n.toUInt64?.map fun number => some ⟨number⟩
  | _ => none

/-- A key field. -/
def readKey? : Json → Option String
  | .string key => some key
  | _ => none

/-- The members of this name, in order. -/
def fields (name : String) (members : List (String × Json)) : List Json :=
  members.filterMap fun (key, value) => if key = name then some value else none

/-- The event of a kind with these members beside its type. A field that counts occurs at most once,
and the key must be there. -/
def ofMembers? (kind : EventKind) (members : List (String × Json)) : Option WireEvent := do
  let key ← match fields "key" members with
    | [key] => readKey? key
    | _ => none
  match kind with
  | .delete => some (.delete key)
  | .set =>
    let value ← match fields "value" members with
      | [] => some none
      | [value] => some (readValue value)
      | _ => none
    let version ← match fields "version" members with
      | [] => some none
      | [version] => readVersion? version
      | _ => none
    some (.set key value version)

/-- The event of a kind with these fields after its type. -/
def ofItems? (kind : EventKind) (items : List Json) : Option WireEvent :=
  match kind, items with
  | .delete, [key] => (readKey? key).map .delete
  | .set, [key] => (readKey? key).map (.set · none none)
  | .set, [key, value] => (readKey? key).map (.set · (readValue value) none)
  | .set, [key, value, version] => do
    let key ← readKey? key
    let version ← readVersion? version
    some (.set key (readValue value) version)
  | _, _ => none

/-- The event that a JSON value stands for. -/
def ofJson? : Json → Option WireEvent
  | .object members => do
    let kind ← (Keyed.find? "type" members).bind EventKind.ofJson?
    ofMembers? kind (Keyed.erase "type" members)
  | .array (name :: items) => do
    let kind ← EventKind.ofJson? name
    ofItems? kind items
  | _ => none

/-- The normal JSON form of an event. -/
def toJson : WireEvent → Json
  | .delete key => .object [("key", .string key), ("type", .string EventKind.delete.name)]
  | .set key value version =>
    .object <|
      [("key", .string key), ("type", .string EventKind.set.name)]
        ++ (value.map fun v => ("value", v)).toList
        ++ (version.map fun v => ("version", Json.number (.ofUInt64 v.number))).toList

open Json (Fault Reader)
open Json.Reader

/-- Reads an event type. An array or an object is refused at its first mark. -/
def readKind : Reader EventKind := fun text =>
  match skipBlank text with
  | [] => .error .ended
  | c :: rest =>
    if c = '[' ∨ c = '\x7b' then .error .misfit
    else do
      let (name, rest) ← value 0 (c :: rest)
      match EventKind.ofJson? name with
      | some kind => .ok (kind, rest)
      | none => .error .misfit

/-- Reads one member of an event object: its type, once, or another field. -/
def readMember (state : Option EventKind × List (String × Json)) :
    Reader (Option EventKind × List (String × Json)) := fun text => do
  let (key, text) ← memberKey text
  if key = "type" then
    if state.1.isSome then .error .misfit
    else
      let (kind, text) ← readKind (← colon text)
      .ok ((some kind, state.2), text)
  else
    let (v, text) ← value (Json.maxDepth - 1) (← colon text)
    .ok ((state.1, (key, v) :: state.2), text)

/-- Reads one item of an event array: its type first, then the other fields. -/
def readItem (state : Option EventKind × List Json) :
    Reader (Option EventKind × List Json) := fun text => do
  if state.1.isSome then
    let (v, text) ← value (Json.maxDepth - 1) text
    .ok ((state.1, v :: state.2), text)
  else
    let (kind, text) ← readKind text
    .ok ((some kind, state.2), text)

/-- Reads an event. -/
def read : Reader WireEvent := fun text => do
  let settle (event : Option WireEvent) (text : List Char) : Except Fault (WireEvent × List Char) :=
    match event with
    | some event => .ok (event, text)
    | none => .error .misfit
  match skipBlank text with
  | '\x7b' :: rest =>
    let ((kind, members), rest) ← items '\x7d' readMember (rest.length + 1) true (none, []) rest
    settle (kind.bind (ofMembers? · members.reverse)) rest
  | '[' :: rest =>
    let ((kind, fields), rest) ← items ']' readItem (rest.length + 1) true (none, []) rest
    settle (kind.bind (ofItems? · fields.reverse)) rest
  | text =>
    let (_, rest) ← value 0 text
    settle none rest

/-- The event that a text holds. -/
def parse (text : String) : Except Fault WireEvent := Json.whole read text

end WireEvent

end PropertyTree
