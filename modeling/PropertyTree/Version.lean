/-!
# Write versions

The session that issues a write may number it. Versions are 64-bit words in numeric order.
-/

namespace PropertyTree

/-- The number of a write to one path. -/
structure Version where
  number : UInt64
deriving DecidableEq

namespace Version

instance : LT Version := ⟨fun a b => a.number < b.number⟩

instance : LE Version := ⟨fun a b => a.number ≤ b.number⟩

instance (a b : Version) : Decidable (a < b) := inferInstanceAs (Decidable (a.number < b.number))

instance (a b : Version) : Decidable (a ≤ b) := inferInstanceAs (Decidable (a.number ≤ b.number))

instance : ToString Version := ⟨fun v => "v" ++ toString v.number⟩

end Version

end PropertyTree
