import PropertyTree.Event.Document
import PropertyTree.Proofs.Except

/-! # Failures of reading

A wire event that cannot be read fails on its key, its value or the version of its document: never
on the schema or on what the store holds.
-/

namespace PropertyTree

/-- The failure tells of a wire event that could not be read. -/
def Failure.IsMisreading : Failure → Prop
  | .path _ | .event _ => True
  | .schema _ | .write _ | .snapshot _ | .config _ => False

namespace Event

variable {failure : Failure}

theorem isMisreading_of_scalar {path : String} {value : Json}
    (h : scalar path value = .error failure) : failure.IsMisreading := by
  unfold scalar at h
  split at h
  next => cases h
  next =>
    cases h
    trivial

theorem isMisreading_of_parse {key : String}
    (h : (Path.parse key).mapError Failure.path = .error failure) : failure.IsMisreading := by
  obtain ⟨error, _, rfl⟩ := mapError_eq_error_iff.mp h
  trivial

theorem isMisreading_of_ofWire {wire : WireEvent} (h : ofWire wire = .error failure) :
    failure.IsMisreading := by
  unfold ofWire at h
  rcases bind_eq_error_iff.mp h with hkey | ⟨path, _, hvalue⟩
  · exact isMisreading_of_parse hkey
  · cases wire with
    | delete key => cases hvalue
    | set key value version =>
        cases value with
        | none =>
            cases hvalue
            trivial
        | some value =>
            rcases bind_eq_error_iff.mp hvalue with hscalar | ⟨_, _, hset⟩
            · exact isMisreading_of_scalar hscalar
            · cases hset

end Event

namespace Document

variable {failure : Failure}

mutual

theorem isMisreading_of_leafEvents {version : Option Version} {above : List String} {value : Json}
    (h : leafEvents version above value = .error failure) : failure.IsMisreading := by
  cases value with
  | object members =>
      rw [leafEvents] at h
      exact isMisreading_of_memberEvents h
  | null | bool _ | number _ | string _ | array _ =>
      rw [leafEvents] at h
      · rcases bind_eq_error_iff.mp h with hpath | ⟨path, _, hvalue⟩
        · obtain ⟨error, _, rfl⟩ := mapError_eq_error_iff.mp hpath
          trivial
        · rcases bind_eq_error_iff.mp hvalue with hscalar | ⟨_, _, hset⟩
          · exact Event.isMisreading_of_scalar hscalar
          · cases hset
      · nofun

theorem isMisreading_of_memberEvents {version : Option Version} {above : List String}
    {members : List (String × Json)} (h : memberEvents version above members = .error failure) :
    failure.IsMisreading := by
  cases members with
  | nil => cases h
  | cons member rest =>
      obtain ⟨name, value⟩ := member
      rw [memberEvents] at h
      rcases bind_eq_error_iff.mp h with hfirst | ⟨_, _, hothers⟩
      · exact isMisreading_of_leafEvents hfirst
      · rcases bind_eq_error_iff.mp hothers with hrest | ⟨_, _, happend⟩
        · exact isMisreading_of_memberEvents hrest
        · cases happend

end

theorem isMisreading_of_version {members : List (String × Json)} {outer : Option Version}
    (h : version members outer = .error failure) : failure.IsMisreading := by
  unfold version at h
  repeat' split at h
  all_goals cases h
  all_goals trivial

end Document

/-- A wire event that cannot be expanded cannot be read. -/
theorem Event.isMisreading_of_expand {wire : WireEvent} {failure : Failure}
    (h : expand wire = .error failure) : failure.IsMisreading := by
  unfold expand at h
  split at h
  next members version =>
    split at h
    next =>
      rcases bind_eq_error_iff.mp h with hversion | ⟨_, _, hmembers⟩
      · exact Document.isMisreading_of_version hversion
      · exact Document.isMisreading_of_memberEvents hmembers
    next => exact isMisreading_of_ofWire (map_eq_error_iff.mp h)
  next => exact isMisreading_of_ofWire (map_eq_error_iff.mp h)

end PropertyTree
