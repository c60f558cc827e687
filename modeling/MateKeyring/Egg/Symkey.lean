import MateKeyring.Lib.CText

/-!
# Keys from passwords

`egg_symkey_generate_simple` of `egg-symkey.c`: a password and a salt are hashed, again and again with the digest
in front, until there are enough octets for a key and an initialization vector.
-/

set_option autoImplicit false

namespace MateKeyring.Egg

/-- A hash of `libgcrypt`. -/
structure Digest where
  /-- Whether `gcry_md_open` has no error. -/
  opens : Bool
  /-- `gcry_md_get_algo_dlen` -/
  size : Nat
  hash : Bytes → Bytes
  length_hash : ∀ data, (hash data).length = size

variable (md : Digest)

/-- The digest of a digest, some times over. -/
def rehash : Nat → Bytes → Bytes
  | 0, digest => digest
  | n + 1, digest => rehash n (md.hash digest)

@[simp] theorem length_rehash (n : Nat) (digest : Bytes) (h : digest.length = md.size) :
    (rehash md n digest).length = md.size := by
  induction n generalizing digest with
  | zero => exact h
  | succ n ih => exact ih _ (md.length_hash digest)

/-- The passes of `egg_symkey_generate_simple`, with the digest before and what is still needed; `none` is that
they are not at an end. -/
def simpleLoop (input : Bytes) (iterations : Nat) : Nat → Bytes → Nat → Nat → Option (Bytes × Bytes)
  | 0, _, _, _ => none
  | fuel + 1, before, neededKey, neededIv =>
    let digest := rehash md (iterations - 1) (md.hash (before ++ input))
    let key := digest.take neededKey
    let iv := (digest.drop neededKey).take neededIv
    if neededKey - key.length = 0 ∧ neededIv - iv.length = 0 then some (key, iv)
    else
      (simpleLoop input iterations fuel digest (neededKey - key.length) (neededIv - iv.length)).map
        fun r => (key ++ r.1, iv ++ r.2)

/-- `egg_symkey_generate_simple`, for a cipher whose key and block have these lengths; `none` is `FALSE`. -/
def eggSymkeyGenerateSimple (keylen blklen : Nat) (password : Option Bytes) (salt : Bytes)
    (iterations : Nat) : Option (Bytes × Bytes) :=
  if iterations < 1 then none
  else if md.opens = false then none
  else if md.size = 0 then none
  else simpleLoop md (password.getD [] ++ salt) iterations (keylen + blklen + 1) [] keylen blklen

variable {md}

end MateKeyring.Egg
