import PropertyTree.Keyed
import PropertyTree.Toml.Value
/-!
# Tables in the making

A TOML document fills its tables by headers and by dotted keys. A table may be stated by a header
once, may be reached by headers below it, or may come into being by dotted keys; a draft remembers
which. Headers and dotted keys may go through a table without stating it, but dotted keys must not
enter a table that a header has stated, nor a header state one that dotted keys have made. Values
are closed: inline tables and written arrays cannot be added to.
-/

namespace PropertyTree.Toml

/-- How a table came into being. -/
inductive Origin where
  /-- By a header below it. -/
  | implied
  /-- By a dotted key. -/
  | dotted
  /-- By its own header. -/
  | stated
deriving DecidableEq

/-- A member of a table in the making. -/
inductive Draft where
  | value (value : Toml)
  | table (origin : Origin) (members : List (String × Draft))
  /-- Tables of one name, the last of them still open. -/
  | tables (earlier : List (List (String × Draft))) (latest : List (String × Draft))

namespace Draft

/-- The members of a table in the making. -/
abbrev Members := List (String × Draft)

/-- Changes the table at the end of a path by `f`, which is told whether dotted keys made it. Tables
that are missing on the way are made: by dotted keys, or else implied. -/
def within (dotted : Bool) (f : Bool → Members → Option Members) :
    List String → Bool → Members → Option Members
  | [], isDotted, members => f isDotted members
  | key :: rest, _, members =>
    let child? : Option Draft :=
      match Keyed.find? key members with
      | none =>
        (within dotted f rest dotted []).map (.table (if dotted then .dotted else .implied))
      | some (.value _) => none
      | some (.table origin inner) =>
        if dotted && origin == .stated then none
        else (within dotted f rest (origin == .dotted) inner).map (.table origin)
      | some (.tables earlier latest) =>
        (within dotted f rest false latest).map (.tables earlier)
    child?.map fun child => Keyed.insert key child members

/-- Adds a value under a dotted key. The table it goes to must be made by dotted keys just if the
key has more than one part. -/
def put (parents : List String) (key : String) (value : Toml) (members : Members) :
    Option Members :=
  within true (fun isDotted inner =>
    if isDotted == parents.isEmpty || (Keyed.find? key inner).isSome then none
    else some (Keyed.insert key (.value value) inner)) parents false members

/-- Adds a value under a dotted key in the table at a path. -/
def putAt (table parents : List String) (key : String) (value : Toml) (members : Members) :
    Option Members :=
  within false (fun _ inner => put parents key value inner) table false members

/-- States a table by its header. -/
def openTable (parents : List String) (key : String) (members : Members) : Option Members :=
  within false (fun _ inner =>
    match Keyed.find? key inner with
    | none => some (Keyed.insert key (.table .stated []) inner)
    | some (.table .implied own) => some (Keyed.insert key (.table .stated own) inner)
    | some _ => none) parents false members

/-- Adds a table to the tables of one name. -/
def openElement (parents : List String) (key : String) (members : Members) : Option Members :=
  within false (fun _ inner =>
    match Keyed.find? key inner with
    | none => some (Keyed.insert key (.tables [] []) inner)
    | some (.tables earlier latest) =>
      some (Keyed.insert key (.tables (earlier ++ [latest]) []) inner)
    | some _ => none) parents false members

mutual

/-- The value of a finished member. -/
def finish : Draft → Toml
  | .value closed => closed
  | .table _ members => .table (finishMembers members)
  | .tables earlier latest =>
    .array (finishTables earlier ++ [.table (finishMembers latest)])

/-- The values of finished tables. -/
def finishTables : List (List (String × Draft)) → List Toml
  | [] => []
  | members :: rest => .table (finishMembers members) :: finishTables rest

/-- The values of finished members. -/
def finishMembers : List (String × Draft) → List (String × Toml)
  | [] => []
  | (key, member) :: rest => (key, member.finish) :: finishMembers rest

end

end Draft

end PropertyTree.Toml
