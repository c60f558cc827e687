import MateKeyring.Egg.Symkey
import MateKeyring.Lib.KeyStream

/-!
# Key and initialization vector from one stream

`egg_symkey_generate_simple` with its pointers: the octets of a digest are drained into the key as long as one is
needed and then into the initialization vector, and they are counted whether or not there is a place for them. The
invariant of the passes is that what was drained and what is still needed is, for either, the same piece of the
digests `D1 D2 ...`, so that a key does not depend on whether the other is asked for.
-/

set_option autoImplicit false

namespace MateKeyring.Egg.SimpleKeys

open List
open Lib (ascii)
open Lib.KeyStream (blocks blocks_succ length_blocks take_blocks)

/-- A cipher of `libgcrypt`: `gcry_cipher_get_algo_keylen` and `gcry_cipher_get_algo_blklen`. -/
structure Cipher where
  keylen : Nat
  blklen : Nat

/-- The octets of a password; a length of -1 is that up to the terminator. -/
def passwordOctets (password : Option Bytes) (nPassword : Int) : Bytes :=
  match password with
  | none => []
  | some p => if nPassword = -1 then p.takeWhile (· ≠ 0) else p.take nPassword.toNat

/-- A place that octets are written to one after the other, or a null pointer, and the number that is needed. -/
structure Sink where
  written : Option Bytes
  needed : Nat
  deriving DecidableEq

/-- `while (needed && i < n_digest)`, with what is left of the digest. -/
def drain : Sink → Bytes → Sink × Bytes
  | sink, [] => (sink, [])
  | ⟨written, 0⟩, octet :: digest => (⟨written, 0⟩, octet :: digest)
  | ⟨written, needed + 1⟩, octet :: digest => drain ⟨written.map (· ++ [octet]), needed⟩ digest

variable (md : Digest)

/-- The passes of `egg_symkey_generate_simple`; `none` is that they are not at an end. -/
def passes (password salt : Bytes) (iterations : Nat) :
    Nat → Nat → Bytes → Sink → Sink → Option (Sink × Sink)
  | 0, _, _, _, _ => none
  | fuel + 1, pass, digest, key, iv =>
    -- the digest of the pass before is hashed from the second pass on
    let before := if 0 < pass then digest else []
    let digest := rehash md (iterations - 1) (md.hash (before ++ password ++ salt))
    let drained := drain key digest
    let drained' := drain iv drained.2
    if drained.1.needed = 0 ∧ drained'.1.needed = 0 then some (drained.1, drained'.1)
    else passes password salt iterations fuel (pass + 1) digest drained.1 drained'.1

/-- `egg_symkey_generate_simple`, where `key` and `iv` are whether these pointers are given. The key is left out if
the memory for it or for the digest cannot be had; `none` is that the passes are not at an end. -/
def eggSymkeyGenerateSimple (fuel : Nat) (secureAlloc : Nat → Bool) (cipher : Cipher)
    (password : Option Bytes) (nPassword : Int) (salt : Option Bytes) (iterations : Int)
    (key iv : Bool) : Option (Bool × Option Bytes × Option Bytes) :=
  if iterations < 1 then some (false, none, none)
  else if md.opens = false then some (false, none, none)
  else if md.size = 0 then some (false, none, none)
  else if secureAlloc md.size = false then some (false, none, none)
  else if key = true ∧ secureAlloc cipher.keylen = false then some (false, none, none)
  else
    (passes md (passwordOctets password nPassword) (salt.getD []) iterations.toNat fuel 0 []
        ⟨if key then some [] else none, cipher.keylen⟩ ⟨if iv then some [] else none, cipher.blklen⟩).map
      fun r => (true, r.1.written, r.2.written)

/-! ## The stream -/

/-- `D1` is `digests 0`: the password and the salt, hashed as often as there are iterations, and the others with the
one before in front. -/
def digests (input : Bytes) (iterations : Nat) : Nat → Bytes
  | 0 => rehash md (iterations - 1) (md.hash input)
  | n + 1 => rehash md (iterations - 1) (md.hash (digests input iterations n ++ input))

variable {md}

theorem length_digests (input : Bytes) (iterations n : Nat) : (digests md input iterations n).length = md.size := by
  cases n with
  | zero => exact length_rehash md _ _ (md.length_hash _)
  | succ n => exact length_rehash md _ _ (md.length_hash _)

/-- What goes into a sink, and what is left. -/
theorem drain_eq (written : Option Bytes) (needed : Nat) (digest : Bytes) :
    drain ⟨written, needed⟩ digest =
      (⟨written.map (· ++ digest.take needed), needed - digest.length⟩, digest.drop needed) := by
  induction digest generalizing written needed with
  | nil =>
    rw [drain, take_nil, drop_nil]
    cases written with
    | none => rfl
    | some w => rw [Option.map_some, append_nil, length_nil, Nat.sub_zero]
  | cons octet digest ih =>
    cases needed with
    | zero =>
      rw [drain, Nat.zero_sub, take_zero, drop_zero]
      cases written with
      | none => rfl
      | some w => rw [Option.map_some, append_nil]
    | succ needed =>
      rw [drain, ih, take_succ_cons, drop_succ_cons, length_cons, Nat.add_sub_add_right]
      cases written with
      | none => rfl
      | some w => rw [Option.map_some, Option.map_some, Option.map_some, append_assoc, singleton_append]

/-- A sink that has drained the octets of a stream from `start` on, and needs `total` of them. -/
def sinkOf (asked : Bool) (start total : Nat) (stream : Bytes) : Sink :=
  ⟨if asked then some ((stream.drop start).take total) else none, total - (stream.length - start)⟩

/-- The octets that follow are drained behind those that were. -/
theorem drain_sinkOf (asked : Bool) (total : Nat) (stream digest : Bytes) :
    drain (sinkOf asked 0 total stream) digest =
      (sinkOf asked 0 total (stream ++ digest), digest.drop (total - stream.length)) := by
  rw [sinkOf, drain_eq, sinkOf, drop_zero, drop_zero, take_append, length_append,
    Nat.sub_zero, Nat.sub_zero, Nat.sub_sub]
  cases asked with
  | false => rfl
  | true => rfl

/-- So are those that the key leaves. -/
theorem drain_sinkOf_behind (asked : Bool) (start total : Nat) (stream digest : Bytes) :
    drain (sinkOf asked start total stream) (digest.drop (start - stream.length)) =
      (sinkOf asked start total (stream ++ digest),
        digest.drop (start - stream.length + (total - (stream.length - start)))) := by
  have hneeded : total - (stream.length - start) - (digest.drop (start - stream.length)).length =
      total - ((stream ++ digest).length - start) := by
    rw [length_drop, length_append]
    omega
  rw [sinkOf, drain_eq, hneeded, drop_drop, sinkOf]
  cases asked with
  | false => rfl
  | true =>
    rw [if_pos rfl, if_pos rfl, Option.map_some, drop_append, take_append, length_drop]

/-- A pass hashes the digest before it, if there is one. -/
theorem digests_eq {input digest : Bytes} {iterations n : Nat}
    (hdigest : 0 < n → digest = digests md input iterations (n - 1)) :
    rehash md (iterations - 1) (md.hash ((if 0 < n then digest else []) ++ input)) =
      digests md input iterations n := by
  cases n with
  | zero => rw [if_neg (Nat.lt_irrefl 0), nil_append, digests]
  | succ n => rw [if_pos n.succ_pos, hdigest n.succ_pos, Nat.add_sub_cancel, digests]

/-- The passes from the `n`-th on fill both sinks from the digests. -/
theorem passes_eq (hsize : 0 < md.size) {password salt : Bytes} {iterations keylen blklen : Nat}
    (key iv : Bool) {fuel n : Nat} {digest : Bytes}
    (hdigest : 0 < n → digest = digests md (password ++ salt) iterations (n - 1))
    (hfuel : keylen + blklen < fuel + n * md.size) (hpos : 0 < fuel) :
    ∃ k, keylen + blklen ≤ k * md.size ∧
      passes md password salt iterations fuel n digest
          (sinkOf key 0 keylen (blocks (digests md (password ++ salt) iterations) n))
          (sinkOf iv keylen blklen (blocks (digests md (password ++ salt) iterations) n)) =
        some (sinkOf key 0 keylen (blocks (digests md (password ++ salt) iterations) k),
          sinkOf iv keylen blklen (blocks (digests md (password ++ salt) iterations) k)) := by
  induction fuel generalizing n digest with
  | zero => exact absurd hpos (Nat.lt_irrefl 0)
  | succ fuel ih =>
    have hlength := length_blocks (@length_digests md (password ++ salt) iterations) (n + 1)
    rw [passes, append_assoc, digests_eq hdigest, drain_sinkOf, drain_sinkOf_behind, ← blocks_succ]
    generalize hstream : blocks (digests md (password ++ salt) iterations) (n + 1) = stream at hlength
    split
    · rename_i hdone
      refine ⟨n + 1, ?_, by rw [hstream]⟩
      simp only [sinkOf] at hdone
      omega
    · rename_i hmore
      rw [← hstream]
      rw [Nat.succ_mul] at hlength
      simp only [sinkOf] at hmore
      apply ih
      · exact fun _ => rfl
      · rw [Nat.succ_mul]
        omega
      · omega

/-- Key and initialization vector are the first octets of the digests `D1 D2 ...` and those that follow, each of
them whether or not the other is asked for. -/
theorem simple_keys_right (md : Digest) (secureAlloc : Nat → Bool) (cipher : Cipher)
    (password : Option Bytes) (nPassword : Int) (salt : Option Bytes) (iterations : Int)
    (key iv : Bool) (hiterations : 1 ≤ iterations) (hopens : md.opens = true) (hsize : 0 < md.size)
    (hdigest : secureAlloc md.size = true) (hkey : secureAlloc cipher.keylen = true) :
    ∃ bound, ∀ more, bound ≤ more → ∀ k, cipher.keylen + cipher.blklen ≤ k * md.size →
      eggSymkeyGenerateSimple md more secureAlloc cipher password nPassword salt iterations key iv =
        some (true,
          (if key then
            some ((blocks (digests md (passwordOctets password nPassword ++ salt.getD []) iterations.toNat) k).take
              cipher.keylen)
          else none),
          (if iv then
            some (((blocks (digests md (passwordOctets password nPassword ++ salt.getD []) iterations.toNat) k).drop
              cipher.keylen).take cipher.blklen)
          else none)) := by
  refine ⟨cipher.keylen + cipher.blklen + 1, fun more hmore k hk => ?_⟩
  generalize hinput : passwordOctets password nPassword = octets
  have hstart : ∀ asked : Bool, ∀ start total,
      (⟨if asked then some [] else none, total⟩ : Sink) =
        sinkOf asked start total (blocks (digests md (octets ++ salt.getD []) iterations.toNat) 0) := by
    intro asked start total
    have hnone : blocks (digests md (octets ++ salt.getD []) iterations.toNat) 0 = [] := rfl
    rw [hnone, sinkOf, drop_nil, take_nil, length_nil, Nat.zero_sub, Nat.sub_zero]
  obtain ⟨k', hk', hpasses⟩ := @passes_eq md hsize octets (salt.getD []) iterations.toNat cipher.keylen
    cipher.blklen key iv more 0 [] (fun h => absurd h (Nat.lt_irrefl 0)) (by omega) (by omega)
  rw [← hstart key 0 cipher.keylen, ← hstart iv cipher.keylen cipher.blklen] at hpasses
  -- any two numbers of digests that hold what is needed agree on it
  have hsame : ∀ n, n ≤ cipher.keylen + cipher.blklen →
      (blocks (digests md (octets ++ salt.getD []) iterations.toNat) k').take n =
        (blocks (digests md (octets ++ salt.getD []) iterations.toNat) k).take n := by
    intro n hn
    rcases Nat.le_total k k' with hle | hle
    · exact take_blocks (length_digests _ _) hle (hn.trans hk)
    · exact (take_blocks (length_digests _ _) hle (hn.trans hk')).symm
  have hiv : ((blocks (digests md (octets ++ salt.getD []) iterations.toNat) k').drop cipher.keylen).take
        cipher.blklen =
      ((blocks (digests md (octets ++ salt.getD []) iterations.toNat) k).drop cipher.keylen).take
        cipher.blklen := by
    rw [take_drop, take_drop, hsame _ (by omega)]
  have hmemory : ¬ (key = true ∧ secureAlloc cipher.keylen = false) := by
    rw [hkey]
    exact fun h => absurd h.2 (by decide)
  rw [eggSymkeyGenerateSimple, if_neg (by omega), hopens, if_neg (by decide), if_neg (by omega), hdigest,
    if_neg (by decide), if_neg hmemory, hinput, hpasses, Option.map_some, sinkOf, sinkOf, drop_zero,
    hsame _ (Nat.le_add_right _ _), hiv]

/-- MD5 of what is hashed for the password `pw` and the salt `salt`, twice for each digest. -/
def sampleDigest : Digest where
  opens := true
  size := 16
  hash data :=
    if data = ascii "pwsalt" then
      [0x55, 0xe7, 0x0b, 0x99, 0x71, 0xd0, 0x50, 0xfe, 0x8f, 0x74, 0x55, 0xeb, 0x55, 0x11, 0x89, 0xcf]
    else if data.length = 22 then
      [0x6a, 0x01, 0xd9, 0x35, 0x9d, 0x09, 0xaf, 0x41, 0x42, 0x32, 0x85, 0xca, 0x2a, 0x12, 0x56, 0x9f]
    else if data.headD 0 = 0x55 then
      [0x75, 0x0c, 0x6d, 0x89, 0xe1, 0x07, 0x6e, 0x9b, 0xdd, 0xe8, 0x0b, 0x5e, 0x88, 0xdf, 0xb7, 0x7b]
    else [0x09, 0x7d, 0x85, 0xa9, 0x27, 0x20, 0x2c, 0xcd, 0x32, 0x4b, 0x5e, 0xcb, 0x80, 0x59, 0xec, 0x24]
  length_hash := by
    intro data
    repeat' split
    all_goals rfl

/-- Sixteen octets of key from the first digest, and eight of initialization vector from the second. -/
theorem simple_keys_right_sample :
    (1 : Int) ≤ 2 ∧ sampleDigest.opens = true ∧ 0 < sampleDigest.size ∧ ∃ bound, ∀ more, bound ≤ more →
      eggSymkeyGenerateSimple sampleDigest more (fun _ => true) ⟨16, 8⟩ (some (ascii "pw")) (-1)
          (some (ascii "salt")) 2 true true =
        some (true,
          some [0x75, 0x0c, 0x6d, 0x89, 0xe1, 0x07, 0x6e, 0x9b, 0xdd, 0xe8, 0x0b, 0x5e, 0x88, 0xdf, 0xb7, 0x7b],
          some [0x09, 0x7d, 0x85, 0xa9, 0x27, 0x20, 0x2c, 0xcd]) := by
  refine ⟨by decide, rfl, by decide, ?_⟩
  obtain ⟨bound, h⟩ := simple_keys_right sampleDigest (fun _ => true) ⟨16, 8⟩ (some (ascii "pw")) (-1)
    (some (ascii "salt")) 2 true true (by decide) rfl (by decide) rfl rfl
  refine ⟨bound, fun more hmore => ?_⟩
  rw [h more hmore 2 (by decide)]
  decide

end MateKeyring.Egg.SimpleKeys
