import Mathlib.Data.List.Basic

/-! # Cipher block chaining

Before a block is encrypted, what the block before it became is mixed into it.
-/
namespace FmacSdk.CipherChaining
variable {β : Type*} (mix : β → β → β)

/-- The blocks behind the chaining value `c`. -/
def encrypt (f : β → β) : β → List β → List β
  | _, [] => []
  | c, b :: bs => f (mix c b) :: encrypt f (f (mix c b)) bs

def decrypt (g : β → β) : β → List β → List β
  | _, [] => []
  | c, b :: bs => mix (g b) c :: decrypt g b bs

end FmacSdk.CipherChaining
