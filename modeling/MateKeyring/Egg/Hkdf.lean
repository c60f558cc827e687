import MateKeyring.Egg.KeyDerivation

/-!
# HKDF

`egg_hkdf_perform` of `egg-hkdf.c` extracts a key from its input and expands it, block after block, into the memory
of the caller. The number of a block is a `guchar`, so that the condition of the loop holds of every number, and
the loop ends at its `break`. The invariant is that the blocks so far are in their places and that the last of them
is in `buffer`; before the first round nothing of `buffer` counts.
-/

set_option autoImplicit false

namespace MateKeyring.Egg

open Lib List
open Lib.KeyStream (blocks blocks_succ_left expandBlock length_expandBlock hkdf)

/-! ## `egg_hkdf_perform` -/

/-- What is used of `libgcrypt`. -/
structure HkdfGcrypt where
  /-- `gcry_md_map_name` -/
  mdMapName : String → Option Hmac
  /-- Whether `gcry_md_setkey` has no error. -/
  mdSetkey : Bytes → Bool
  /-- `gcry_malloc_secure` and `gcry_malloc`, with what happens to be in the memory. -/
  malloc : Bool → Nat → Option Bytes
  length_malloc : ∀ secure n memory, malloc secure n = some memory → memory.length = n

/-- The loop over `i`, with `buffer`, `n_buffer`, `at` and `n_output`; `none` is that it is not at an end. -/
def hkdfLoop (hmac : Hmac) (prk info : Bytes) :
    Nat → UInt8 → Bytes → Nat → Nat → Nat → Bytes → Checked (Option Bytes)
  | 0, _, _, _, _, _, _ => .ok none
  | fuel + 1, i, buffer, nBuffer, pos, nOutput, output =>
    if i.toNat < 256 then do
      let digest := hmac.mac prk (buffer.take nBuffer ++ info ++ [i])
      let nBuffer := hmac.size
      let buffer ← memcpyAt buffer 0 digest
      let step := min nBuffer nOutput
      let output ← memcpyAt output pos (buffer.take step)
      if nOutput - step = 0 then .ok (some output)
      else hkdfLoop hmac prk info fuel (i + 1) buffer nBuffer (pos + step) (nOutput - step) output
    else .ok (some output)

/-- `egg_hkdf_perform`, into the memory at `output`. `isSecure` is `gcry_is_secure` of the input, and `none` is
that after `bound` turns the loop is not at an end. -/
def eggHkdfPerform (gcrypt : HkdfGcrypt) (bound : Nat) (hashAlgo : String) (isSecure : Bool) (input : Bytes)
    (salt : Option Bytes) (info output : Bytes) (nOutput : Nat) :
    Checked (Option (Bool × Bytes)) :=
  match gcrypt.mdMapName hashAlgo with
  | none => .ok (some (false, output))
  | some hmac =>
    if hmac.size = 0 then .ok (some (false, output))
    -- the product is a `guint`
    else if ¬ nOutput ≤ 255 * hmac.size % 2 ^ 32 then .ok (some (false, output))
    else
      match gcrypt.malloc isSecure hmac.size with
      | none => .ok (some (false, output))
      | some buffer =>
        let salt := salt.getD (replicate hmac.size 0)
        if hmac.opens = false then .ok (some (false, output))
        else if gcrypt.mdSetkey salt = false then .ok (some (false, output))
        else
          let prk := hmac.mac salt input
          if gcrypt.mdSetkey prk = false then .ok (some (false, output))
          else
            (hkdfLoop hmac prk info bound 1 buffer 0 0 nOutput output).map
              fun result => result.map fun output => (true, output)

/-! ## The rounds -/

variable {hmac : Hmac} {prk info : Bytes}

theorem memcpyAt_whole {dest src : Bytes} (h : dest.length = src.length) :
    memcpyAt dest 0 src = .ok src := by
  have hcopy : memcpyAt ([] ++ dest ++ []) 0 src = .ok ([] ++ src ++ []) := memcpyAt_eq rfl h
  rwa [nil_append, append_nil, nil_append, append_nil] at hcopy

/-- From the round on whose number is `k + 1`, the rest of the memory is filled with the blocks from there. -/
theorem hkdfLoop_eq (hsize : 0 < hmac.size) {fuel l k nBuffer pos nOutput : Nat} {i : UInt8}
    {buffer done room after : Bytes} (hi : i = UInt8.ofNat (k + 1)) (hbuffer : buffer.length = hmac.size)
    (hlast : buffer.take nBuffer = expandBlock (hmac.mac prk) info k) (hdone : pos = done.length)
    (hroom : room.length = nOutput) (hl : nOutput ≤ l * hmac.size) (hfuel : l ≤ fuel) (hpos : 0 < fuel) :
    hkdfLoop hmac prk info fuel i buffer nBuffer pos nOutput (done ++ room ++ after) =
      .ok (some (done ++ (blocks (fun j => expandBlock (hmac.mac prk) info (k + j + 1)) l).take nOutput ++ after)) := by
  induction fuel generalizing l k i buffer nBuffer pos nOutput done room with
  | zero => exact absurd hpos (Nat.lt_irrefl 0)
  | succ fuel ih =>
    have hdigest : hmac.mac prk (buffer.take nBuffer ++ info ++ [i]) = expandBlock (hmac.mac prk) info (k + 1) := by
      rw [hlast, hi, expandBlock]
    have hlength : (expandBlock (hmac.mac prk) info (k + 1)).length = hmac.size :=
      length_expandBlock (hmac.length_mac prk) info k
    have hcopy : memcpyAt buffer 0 (expandBlock (hmac.mac prk) info (k + 1)) =
        .ok (expandBlock (hmac.mac prk) info (k + 1)) := memcpyAt_whole (hbuffer.trans hlength.symm)
    -- the octets of the step take the place of as many of the room
    have hstep : memcpyAt (done ++ room ++ after) pos
        ((expandBlock (hmac.mac prk) info (k + 1)).take (min hmac.size nOutput)) =
        .ok (done ++ (expandBlock (hmac.mac prk) info (k + 1)).take (min hmac.size nOutput) ++
          (room.drop (min hmac.size nOutput) ++ after)) := by
      have hsplit : done ++ room ++ after =
          done ++ room.take (min hmac.size nOutput) ++ (room.drop (min hmac.size nOutput) ++ after) := by
        rw [append_assoc done (room.take _), ← append_assoc (room.take _), take_append_drop,
          append_assoc]
      rw [hsplit]
      apply memcpyAt_eq hdone
      rw [length_take, length_take, hlength, hroom]
      omega
    rw [hkdfLoop, if_pos i.toNat_lt, hdigest]
    simp only [hcopy, hstep, ok_bind]
    split
    · -- the last round
      rename_i hend
      have hle : nOutput ≤ hmac.size := by omega
      have hrest : room.drop (min hmac.size nOutput) = [] := by
        rw [Nat.min_eq_right hle, ← hroom, drop_length]
      have hblocks : (blocks (fun j => expandBlock (hmac.mac prk) info (k + j + 1)) l).take nOutput =
          (expandBlock (hmac.mac prk) info (k + 1)).take nOutput := by
        cases l with
        | zero =>
          have hzero : nOutput = 0 := by omega
          rw [hzero, take_zero, take_zero]
        | succ l =>
          rw [blocks_succ_left, Nat.add_zero, take_append_of_le_length]
          · rw [hlength]
            exact hle
      rw [hrest, hblocks, Nat.min_eq_right hle, nil_append]
    · -- a whole block, and more to come
      rename_i hmore
      have hlt : hmac.size < nOutput := by omega
      obtain ⟨l, rfl⟩ : ∃ l', l = l' + 1 := by
        apply Nat.exists_eq_add_one_of_ne_zero
        rintro rfl
        omega
      have hl' : nOutput - hmac.size ≤ l * hmac.size := by
        rw [Nat.succ_mul] at hl
        omega
      have hl0 : l ≠ 0 := by
        rintro rfl
        omega
      have hnumber : i + 1 = UInt8.ofNat (k + 1 + 1) := by
        rw [hi, UInt8.ofNat_add (k + 1) 1]
        rfl
      have hwhole : (expandBlock (hmac.mac prk) info (k + 1)).take hmac.size =
          expandBlock (hmac.mac prk) info (k + 1) := take_of_length_le hlength.le
      have hdone' : pos + hmac.size = (done ++ expandBlock (hmac.mac prk) info (k + 1)).length := by
        rw [length_append, hlength, hdone]
      have hroom' : (room.drop hmac.size).length = nOutput - hmac.size := by rw [length_drop, hroom]
      have hnext := ih hnumber hlength hwhole hdone' hroom' hl' (by omega) (by omega)
      rw [Nat.min_eq_left hlt.le, take_of_length_le hlength.le, ← append_assoc, hnext, blocks_succ_left,
        take_append, take_of_length_le (hlength.le.trans hlt.le), hlength]
      simp only [Nat.add_assoc, Nat.add_comm 1, append_assoc]

/-! ## The function -/

/-- What `libgcrypt` does for a hash that it has: the HMAC can be opened and takes every key, and there is memory for
a digest, of which 255 are no more than a `guint` holds. -/
structure HkdfGcrypt.Works (gcrypt : HkdfGcrypt) (hashAlgo : String) (hmac : Hmac) : Prop where
  name : gcrypt.mdMapName hashAlgo = some hmac
  size_pos : 0 < hmac.size
  size_lt : 255 * hmac.size < 2 ^ 32
  opens : hmac.opens = true
  setkey : ∀ key, gcrypt.mdSetkey key = true
  memory : ∀ isSecure, (gcrypt.malloc isSecure hmac.size).isSome

/-- The function ends after 255 turns at most, and writes the octets of RFC 5869 and no others. -/
theorem hkdf_perform_right {gcrypt : HkdfGcrypt} {hashAlgo : String} {hmac : Hmac}
    (hworks : gcrypt.Works hashAlgo hmac) (isSecure : Bool) (input : Bytes) (salt : Option Bytes)
    (info : Bytes) {output : Bytes} {nOutput bound : Nat} (hn : nOutput ≤ 255 * hmac.size)
    (hroom : nOutput ≤ output.length) (hbound : 255 ≤ bound) :
    eggHkdfPerform gcrypt bound hashAlgo isSecure input salt info output nOutput =
      .ok (some (true, hkdf hmac.mac hmac.size salt input info nOutput ++ output.drop nOutput)) := by
  have hsize := hworks.size_pos
  obtain ⟨buffer, hbuffer⟩ := Option.isSome_iff_exists.1 (hworks.memory isSecure)
  have hfits : nOutput ≤ 255 * hmac.size % 2 ^ 32 := by rwa [Nat.mod_eq_of_lt hworks.size_lt]
  have hrounds : nOutput ≤ (nOutput + hmac.size - 1) / hmac.size * hmac.size := by
    have hdiv := Nat.div_add_mod (nOutput + hmac.size - 1) hmac.size
    have hmod := Nat.mod_lt (nOutput + hmac.size - 1) hsize
    rw [Nat.mul_comm] at hdiv
    omega
  have hfew : (nOutput + hmac.size - 1) / hmac.size ≤ 255 := by
    rw [← Nat.lt_succ_iff, Nat.div_lt_iff_lt_mul hsize]
    omega
  have hroom' : (output.take nOutput).length = nOutput := length_take_of_le hroom
  have hnone : buffer.take 0 =
      expandBlock (hmac.mac (hmac.mac (salt.getD (replicate hmac.size 0)) input)) info 0 := rfl
  have hone : (1 : UInt8) = UInt8.ofNat (0 + 1) := rfl
  have hloop := @hkdfLoop_eq hmac _ info hsize bound _ 0 0 0 nOutput 1 buffer [] (output.take nOutput)
    (output.drop nOutput) hone (gcrypt.length_malloc _ _ _ hbuffer) hnone rfl hroom' hrounds (hfew.trans hbound)
    (by omega)
  rw [nil_append, take_append_drop, nil_append] at hloop
  simp only [Nat.zero_add] at hloop
  rw [eggHkdfPerform, hworks.name]
  simp only [if_neg hsize.ne', if_neg (not_not_intro hfits), hbuffer, hworks.opens, hworks.setkey, hloop]
  rfl

/-- A hash of two octets, the number of octets of the key and the sum of the data. -/
def sumHmac : Hmac where
  opens := true
  size := 2
  mac := fun key data => [UInt8.ofNat key.length, data.foldl (· + ·) 0]
  length_mac := fun _ _ => rfl

/-- A library that has this hash. -/
def sumGcrypt : HkdfGcrypt where
  mdMapName := fun name => if name = "sum" then some sumHmac else none
  mdSetkey := fun _ => true
  malloc := fun _ n => some (replicate n 0xaa)
  length_malloc := by
    rintro - n memory h
    rw [← Option.some.inj h, length_replicate]

theorem sumGcrypt_works : sumGcrypt.Works "sum" sumHmac where
  name := rfl
  size_pos := by decide
  size_lt := by decide
  opens := rfl
  setkey := fun _ => rfl
  memory := fun _ => rfl

/-- Three octets of five, from two blocks. -/
theorem hkdf_perform_sample :
    eggHkdfPerform sumGcrypt 255 "sum" false [1, 2] none [7] [0, 0, 0, 0, 0] 3 =
      .ok (some (true, [2, 8, 2, 0, 0])) :=
  hkdf_perform_right sumGcrypt_works false [1, 2] none [7] (by decide) (by decide) (by decide)

end MateKeyring.Egg
