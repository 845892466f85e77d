import PropertyTree.Proofs.Event.Reading
import PropertyTree.Proofs.Path.Dotted

/-! # What a wire event expands to

A document expands to sets at paths of which none leads to another: each continues the names on the
way to a leaf, and no two members of an object have the same name. An event that carries no document
expands to itself, and every checked event is read back from the wire event with its dotted key.
-/

namespace PropertyTree

/-- The event carries a property document. -/
def WireEvent.isDocument : WireEvent → Bool
  | .set key (some (.object _)) _ => key = Document.key
  | .set _ _ _ | .delete _ => false

theorem Event.expand_of_not_isDocument {event : WireEvent} (h : event.isDocument = false) :
    expand event = (ofWire event).map ([·]) := by
  unfold expand
  split
  next => rw [if_neg (of_decide_eq_false h)]
  next => rfl

theorem Json.orderedMembers_iff {members : List (String × Json)} :
    OrderedMembers members ↔ ∀ member ∈ members, member.2.Ordered := by
  induction members with
  | nil => simp [OrderedMembers]
  | cons member rest ih => rw [OrderedMembers, ih, List.forall_mem_cons]

namespace Event

/-- The wire event that carries a checked event. -/
def toWire : Event → WireEvent
  | .set path value version => .set path.dotted (some value.toJson) version
  | .delete path => .delete path.dotted

theorem scalar_toJson (key : String) (value : Value) : scalar key value.toJson = .ok value := by
  rw [scalar, Value.ofJson?_toJson]

/-- Every checked event is read back from its wire event. -/
theorem ofWire_toWire (event : Event) : ofWire event.toWire = .ok event := by
  cases event with
  | set path value version =>
      rw [toWire, ofWire, bind_eq_ok_iff]
      refine ⟨path, mapError_eq_ok_iff.mpr path.parse_dotted, ?_⟩
      exact bind_eq_ok_iff.mpr ⟨value, scalar_toJson _ value, rfl⟩
  | delete path =>
      rw [toWire, ofWire, bind_eq_ok_iff]
      exact ⟨path, mapError_eq_ok_iff.mpr path.parse_dotted, rfl⟩

/-- No path of the events leads to another. -/
def AllApart (events : List Event) : Prop :=
  events.Pairwise fun first second => first.path.Apart second.path

theorem AllApart.perm {left right : List Event} (h : AllApart left) (hperm : left.Perm right) :
    AllApart right :=
  hperm.pairwise h Path.Apart.symm

end Event

namespace Document

/-- Sets at paths that start with these texts, none of which leads to another. -/
structure Spread (above : List String) (events : List Event) : Prop where
  kind : ∀ event ∈ events, event.kind = .set
  below : ∀ event ∈ events, above <+: event.path.texts
  apart : Event.AllApart events

namespace Spread

variable {above : List String} {events front back : List Event}

theorem nil : Spread above [] := ⟨List.forall_mem_nil _, List.forall_mem_nil _, .nil⟩

theorem raise {name : String} (h : Spread (above ++ [name]) events) : Spread above events :=
  ⟨h.kind, fun event hmem => (List.prefix_append _ _).trans (h.below event hmem), h.apart⟩

theorem append (hfront : Spread above front) (hback : Spread above back)
    (hapart : ∀ first ∈ front, ∀ second ∈ back, first.path.Apart second.path) :
    Spread above (front ++ back) := by
  refine ⟨?_, ?_, List.pairwise_append.mpr ⟨hfront.apart, hback.apart, hapart⟩⟩
  · exact List.forall_mem_append.mpr ⟨hfront.kind, hback.kind⟩
  · exact List.forall_mem_append.mpr ⟨hfront.below, hback.below⟩

end Spread

mutual

theorem spread_leafEvents {version : Option Version} {above : List String} {value : Json}
    {events : List Event} (hordered : value.Ordered)
    (h : leafEvents version above value = .ok events) : Spread above events := by
  cases value with
  | object members =>
      rw [leafEvents] at h
      rw [Json.Ordered] at hordered
      exact (spread_memberEvents hordered.1 hordered.2 h).1
  | null | bool _ | number _ | string _ | array _ =>
      rw [leafEvents] at h
      · obtain ⟨path, hpath, hleaf⟩ := bind_eq_ok_iff.mp h
        obtain ⟨found, _, hset⟩ := bind_eq_ok_iff.mp hleaf
        cases hset
        have htexts : path.texts = above :=
          Path.ofTexts_eq_ok_iff.mp (mapError_eq_ok_iff.mp hpath)
        refine ⟨List.forall_mem_singleton.mpr rfl, List.forall_mem_singleton.mpr ?_,
          List.pairwise_singleton _ _⟩
        exact htexts ▸ List.prefix_refl _
      · nofun

theorem spread_memberEvents {version : Option Version} {above : List String}
    {members : List (String × Json)} {events : List Event} (hkeys : Keyed.Ordered members)
    (hvalues : Json.OrderedMembers members)
    (h : memberEvents version above members = .ok events) :
    Spread above events ∧
      ∀ event ∈ events, ∃ member ∈ members, above ++ [member.1] <+: event.path.texts := by
  cases members with
  | nil =>
      cases h
      exact ⟨.nil, List.forall_mem_nil _⟩
  | cons member rest =>
      obtain ⟨name, value⟩ := member
      rw [memberEvents] at h
      obtain ⟨first, hfirst, hrest⟩ := bind_eq_ok_iff.mp h
      obtain ⟨others, hothers, happend⟩ := bind_eq_ok_iff.mp hrest
      cases happend
      rw [Json.OrderedMembers] at hvalues
      have hhead := spread_leafEvents hvalues.1 hfirst
      obtain ⟨htail, hnames⟩ := spread_memberEvents hkeys.tail hvalues.2 hothers
      refine ⟨hhead.raise.append htail ?_, List.forall_mem_append.mpr ⟨?_, ?_⟩⟩
      · intro event hevent other hother
        obtain ⟨member, hmember, hbelow⟩ := hnames other hother
        have hne : name ≠ member.1 := KeyOrder.ne_of_lt (hkeys.head_lt member hmember)
        exact Path.apart_of_texts hne (hhead.below event hevent) hbelow
      · intro event hevent
        exact ⟨_, List.mem_cons_self, hhead.below event hevent⟩
      · intro event hevent
        obtain ⟨member, hmember, hbelow⟩ := hnames event hevent
        exact ⟨member, List.mem_cons_of_mem _ hmember, hbelow⟩

end

/-- The events of a document are sets, and no path of theirs leads to another. -/
theorem spread_events {members : List (String × Json)} {outer : Option Version}
    {found : List Event} (hordered : (Json.object members).Ordered)
    (h : events members outer = .ok found) : Spread [] found := by
  obtain ⟨version, _, hmembers⟩ := bind_eq_ok_iff.mp h
  rw [Json.Ordered] at hordered
  refine (spread_memberEvents (hordered.1.erase versionKey) ?_ hmembers).1
  rw [Json.orderedMembers_iff] at hordered ⊢
  intro member hmember
  exact hordered.2 member (Keyed.mem_of_mem_erase hmember)

end Document

end PropertyTree
