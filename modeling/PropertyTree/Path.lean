import PropertyTree.Keyed
/-!
# Property paths

A property is named by a dotted key such as `settings.sound.alerts`. A `Path` is the non-empty list
of its segments, each non-empty and free of dots; segments are never trimmed. Paths are ordered by
their segments, coarse to fine, not by the dotted text. Reading a dotted key and writing it back are
inverse to each other.
-/

namespace PropertyTree

/-- Why a key is no path. -/
inductive PathError where
  | empty
  /-- The segment at `index` of the key is empty. -/
  | emptySegment (key : String) (index : Nat)
  /-- A segment that was given on its own contains a dot. -/
  | dottedSegment (segment : String)
deriving DecidableEq

/-- The wording of a path error. -/
def PathError.message : PathError → String
  | .empty => "malformed property path: key is empty"
  | .emptySegment key index => s!"malformed property path '{key}': segment {index} is empty"
  | .dottedSegment segment => s!"malformed property path: segment '{segment}' contains '.'"

/-- The stable code of a path error. -/
def PathError.code (_ : PathError) : String := "MALFORMED_PATH"

/-- The text contains a dot. -/
def isDotted (text : String) : Bool := text.toList.contains '.'

/-- One step of a path: a non-empty text without dots. -/
structure Segment where
  text : String
  nonempty : text ≠ ""
  undotted : isDotted text = false
deriving DecidableEq

namespace Segment

/-- The segment with this text, if it can be one. -/
def ofText? (text : String) : Option Segment :=
  if h : text ≠ "" ∧ isDotted text = false then some ⟨text, h.1, h.2⟩ else none

instance : LT Segment := ⟨fun a b => a.text < b.text⟩

instance (a b : Segment) : Decidable (a < b) := inferInstanceAs (Decidable (a.text < b.text))

theorem ext {a b : Segment} (h : a.text = b.text) : a = b := by
  cases a
  cases b
  cases h
  rfl

instance : KeyOrder Segment where
  irrefl a := String.lt_irrefl a.text
  trans := String.lt_trans
  connected hab hba := ext (KeyOrder.connected hab hba)

end Segment

/-- A property path. -/
structure Path where
  segments : List Segment
  nonempty : segments ≠ []
deriving DecidableEq

/-- The parts of a text between dots, at least one. -/
def splitDots : List Char → List (List Char)
  | [] => [[]]
  | c :: rest =>
    if c = '.' then [] :: splitDots rest
    else
      match splitDots rest with
      | [] => [[c]]
      | part :: parts => (c :: part) :: parts

/-- Texts joined by dots. -/
def joinDots (texts : List String) : String := ".".intercalate texts

namespace Path

instance : LT Path := ⟨fun a b => a.segments < b.segments⟩

instance (a b : Path) : Decidable (a < b) := inferInstanceAs (Decidable (a.segments < b.segments))

theorem ext {a b : Path} (h : a.segments = b.segments) : a = b := by
  cases a
  cases b
  cases h
  rfl

instance : KeyOrder Path where
  irrefl a := KeyOrder.irrefl a.segments
  trans := KeyOrder.trans (κ := List Segment)
  connected hab hba := ext (KeyOrder.connected hab hba)

/-- The path with these segments, if there are any. -/
def ofSegments? (segments : List Segment) : Option Path :=
  if h : segments ≠ [] then some ⟨segments, h⟩ else none

/-- The path with these segment texts. An empty segment is reported before a dotted one. -/
def ofTexts (texts : List String) : Except PathError Path :=
  if texts.isEmpty then .error .empty
  else
    match texts.findIdx? (· = "") with
    | some index => .error (.emptySegment (joinDots texts) index)
    | none =>
      match texts.find? isDotted with
      | some text => .error (.dottedSegment text)
      | none =>
        match ofSegments? (texts.filterMap Segment.ofText?) with
        | some path => .ok path
        | none => .error .empty

/-- The path of a dotted key. -/
def parse (key : String) : Except PathError Path :=
  if key = "" then .error .empty
  else ofTexts ((splitDots key.toList).map String.ofList)

/-- The texts of the segments. -/
def texts (path : Path) : List String := path.segments.map (·.text)

/-- The dotted key of a path. -/
def dotted (path : Path) : String := joinDots path.texts

instance : ToString Path := ⟨dotted⟩

/-- The number of segments. -/
def length (path : Path) : Nat := path.segments.length

/-- The last segment. -/
def leaf (path : Path) : Segment := path.segments.getLast path.nonempty

/-- The path without its last segment; none above a single segment. -/
def parent? (path : Path) : Option Path := ofSegments? path.segments.dropLast

/-- The paths properly above this one, coarse to fine. -/
def ancestors (path : Path) : List Path :=
  (List.range path.length).filterMap fun n => ofSegments? (path.segments.take n)

/-- The path lies properly above `other`. -/
def isAbove (path other : Path) : Bool :=
  path.length < other.length && other.segments.take path.length == path.segments

/-- The path one segment further down. -/
def child (path : Path) (text : String) : Except PathError Path :=
  if text = "" then .error (.emptySegment (path.dotted ++ ".") path.length)
  else
    match Segment.ofText? text with
    | some segment => .ok ⟨path.segments ++ [segment], by simp⟩
    | none => .error (.dottedSegment text)

end Path

end PropertyTree
