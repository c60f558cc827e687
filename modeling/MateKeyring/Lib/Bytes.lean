/-! # Octets -/

set_option autoImplicit false

namespace MateKeyring

/-- Octets, as they are in memory, in files and in messages. -/
abbrev Bytes := List UInt8

/-- As many octets as an array has. -/
abbrev Octets (n : Nat) := Vector UInt8 n

end MateKeyring
