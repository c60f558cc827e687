import Mathlib.Data.List.GetD
import Mathlib.Data.Nat.Digits.Lemmas
import MateKeyring.Egg.Symkey
import MateKeyring.Lib.BigEndian
import MateKeyring.Lib.Utf8

/-!
# Keys from passwords, as PKCS#12 has it

`generate_pkcs12` of `egg-symkey.c`, and the function of RFC 7292, B.2 that it is to compute. The code has room
for one block of salt and one of password, whatever their lengths; it divides by the length of the salt; and
`gcry_mpi_print` leaves out the leading zeros of a sum, so that octets of the block before stay behind it.
-/

set_option autoImplicit false

namespace MateKeyring.Egg

open Lib BigEndian List

variable {s : Bytes} {xs ys : List Bytes}

/-- What the processor does not do. -/
inductive Trap where
  | divisionByZero
  deriving DecidableEq, Repr

/-! ## Characters -/

/-- `g_utf8_skip`, for the first byte of a character. -/
def gUtf8Skip (a : UInt8) : Nat := if a < 0xc0 then 1 else if a < 0xe0 then 2 else if a < 0xf0 then 3 else 4

/-- The bits of the bytes that follow the first one. -/
def followBits (v : Nat) (s : Bytes) : Nat := s.foldl (fun v b => v * 64 + b.toNat % 64) v

/-- `g_utf8_get_char`, of text that passes `g_utf8_validate`. -/
def gUtf8GetChar : Bytes → Nat
  | [] => 0
  | a :: s =>
    if a < 0x80 then a.toNat
    else if a < 0xe0 then followBits (a.toNat % 32) (s.take 1)
    else if a < 0xf0 then followBits (a.toNat % 16) (s.take 2)
    else followBits (a.toNat % 8) (s.take 3)

/-- The characters of a text; there are not more than bytes. -/
def charactersLoop : Nat → Bytes → List Nat
  | 0, _ => []
  | _ + 1, [] => []
  | fuel + 1, a :: s => gUtf8GetChar (a :: s) :: charactersLoop fuel ((a :: s).drop (gUtf8Skip a))

def characters (text : Bytes) : List Nat := charactersLoop text.length text

/-! ## The code -/

variable (md : Digest) (type : UInt8) (iterations : Nat)

/-- The salt in `buf_i`. -/
def saltArea : Option Bytes → Except Trap Bytes
  | none => .ok (replicate 64 0)
  | some salt =>
    if salt.length = 0 then .error .divisionByZero
    else .ok ((List.range 64).map fun i => salt.getD (i % salt.length) 0)

/-- The 16 bits of a character, as they are encoded. -/
def charBytes (unich : Nat) : Bytes := [UInt8.ofNat (unich / 256), UInt8.ofNat unich]

/-- The password in `buf_i`, `n` characters from `p2` on. -/
def passwordArea (text : Bytes) : Nat → Bytes → Bytes
  | 0, _ => []
  -- the terminator, and back to the beginning
  | n + 1, [] => charBytes 0 ++ passwordArea text n text
  | n + 1, a :: p2 => charBytes (gUtf8GetChar (a :: p2)) ++ passwordArea text n ((a :: p2).drop (gUtf8Skip a))

/-- The password in `buf_i`. -/
def passwordHalf : Option Bytes → Bytes
  | none => replicate 64 0
  | some text => passwordArea text 32 text

/-- The two halves of `buf_i`. -/
def pkcs12Buffer (salt password : Option Bytes) : Except Trap (List Bytes) := do
  let first ← saltArea salt
  pure [first, passwordHalf password]

/-- How much of `buf_i` is hashed. -/
def hashedHalves (password : Option Bytes) : Nat := if password.isSome then 2 else 1

/-- The digest of the type and some blocks, with all its iterations. -/
def pkcs12Digest (blocks : List Bytes) : Bytes :=
  rehash md (iterations - 1) (md.hash (replicate 64 type ++ blocks.flatten))

/-- A digest, up to the length of a block. -/
def digestBlock (hash : Bytes) : Bytes := (List.range 64).map fun i => hash.getD (i % hash.length) 0

/-- `gcry_mpi_print` with `GCRYMPI_FMT_USG`. -/
def gcryMpiPrintUsg (n : Nat) : Bytes := encode (Nat.digits 256 n).length n

/-- The sum for a block, without the bits that `gcry_mpi_clear_highbit` clears. -/
def blockSum (hash block : Bytes) : Nat :=
  (decode block + (decode (digestBlock hash) + 1)) % 2 ^ (64 * 8)

/-- The voodoo: the sum is printed over a half of `buf_i`. -/
def voodoo (hash block : Bytes) : Bytes :=
  let printed := gcryMpiPrintUsg (blockSum hash block)
  printed ++ block.drop printed.length

/-- The loop of `generate_pkcs12`; `none` is that it is still running. -/
def hashAndBash (halves : Nat) : Nat → List Bytes → Nat → Option Bytes
  | 0, _, _ => none
  | fuel + 1, bufI, nOutput =>
    let hash := pkcs12Digest md type iterations (bufI.take halves)
    let taken := hash.take nOutput
    if nOutput - taken.length = 0 then some taken
    else (hashAndBash halves fuel (bufI.map (voodoo hash)) (nOutput - taken.length)).map (taken ++ ·)

/-- `generate_pkcs12`; `none` is `FALSE`. The password has passed `g_utf8_validate`. -/
def generatePkcs12 (password salt : Option Bytes) (nOutput : Nat) : Except Trap (Option Bytes) :=
  if md.size = 0 then .ok none
  else if md.opens = false then .ok none
  else do
    let bufI ← pkcs12Buffer salt password
    pure (hashAndBash md type iterations (hashedHalves password) (nOutput + 1) bufI nOutput)

/-! ## RFC 7292 -/

/-- Copies of a string, in as many blocks as it takes to hold it. -/
def copyBlocks (s : Bytes) : List Bytes :=
  (List.range ((s.length + 63) / 64)).map fun k => (List.range 64).map fun i => s.getD ((64 * k + i) % s.length) 0

/-- The `BMPString` of a password with its terminator, if its characters have 16 bits. -/
def bmpPassword : Option Bytes → Option Bytes
  | none => some []
  | some text =>
    if ∀ c ∈ characters text, c < 2 ^ 16 then some ((characters text).flatMap charBytes ++ charBytes 0) else none

/-- The blocks of the next round. -/
def nextBlocks (blocks : List Bytes) : List Bytes :=
  blocks.map fun block => encode 64 (blockSum (pkcs12Digest md type iterations blocks) block)

/-- The digests of some rounds. -/
def rfcRounds : Nat → List Bytes → Bytes
  | 0, _ => []
  | rounds + 1, blocks =>
    pkcs12Digest md type iterations blocks ++ rfcRounds rounds (nextBlocks md type iterations blocks)

/-- How many rounds `n` octets take. -/
def roundsFor (n : Nat) : Nat := (n + (md.size - 1)) / md.size

/-- The function of RFC 7292, B.2. -/
def rfcPkcs12 (salt bmp : Bytes) (n : Nat) : Bytes :=
  (rfcRounds md type iterations (roundsFor md n) (copyBlocks salt ++ copyBlocks bmp)).take n

/-! ## What is right -/

/-- What is generated is what RFC 7292 has. -/
def Pkcs12Right (password salt : Option Bytes) (n : Nat) : Prop :=
  ∃ out bmp, generatePkcs12 md type iterations password salt n = .ok (some out) ∧
    bmpPassword password = some bmp ∧ out = rfcPkcs12 md type iterations (salt.getD []) bmp n

/-- Some rounds hash the same octets as RFC 7292 has it. -/
def SameRounds (halves : Nat) : Nat → List Bytes → List Bytes → Prop
  | 0, _, _ => True
  | rounds + 1, bufI, blocks =>
    (bufI.take halves).flatten = blocks.flatten ∧
      SameRounds halves rounds (bufI.map (voodoo (pkcs12Digest md type iterations (bufI.take halves))))
        (nextBlocks md type iterations blocks)

/-- There is a salt of one block at most, and the password has 31 characters at most, all of 16 bits. -/
def Pkcs12Fits (password salt : Option Bytes) : Prop :=
  (∃ s, salt = some s ∧ 0 < s.length ∧ s.length ≤ 64) ∧
    ∀ text, password = some text → (characters text).length ≤ 31 ∧ ∀ c ∈ characters text, c < 2 ^ 16

/-- The sum for a block has all its octets, or there is nothing that could stay behind it. -/
def SumKept (hash block : Bytes) : Prop :=
  256 ^ 63 ≤ blockSum hash block ∨ blockSum hash block = 0 ∧ decode block = 0

/-- No sum of RFC 7292 in some rounds begins with a zero. -/
def NoLeadingZeros : Nat → List Bytes → Prop
  | 0, _ => True
  | rounds + 1, blocks =>
    (∀ block ∈ blocks, SumKept (pkcs12Digest md type iterations blocks) block) ∧
      NoLeadingZeros rounds (nextBlocks md type iterations blocks)

/-! ## The first blocks -/

variable {md type iterations}

/-- A string over and over, from a rest of it on. -/
def cycleFrom (s : Bytes) : Nat → Bytes → Bytes
  | 0, _ => []
  | n + 1, [] => s.headD 0 :: cycleFrom s n s.tail
  | n + 1, b :: rest => b :: cycleFrom s n rest

theorem cycleFrom_nil (hs : s ≠ []) (n : Nat) : cycleFrom s n [] = cycleFrom s n s := by
  cases n with
  | zero => rfl
  | succ n =>
    cases s with
    | nil => exact absurd rfl hs
    | cons b s => rfl

/-- The octets at the places modulo the length are those of the string over and over. -/
theorem map_range_mod (hs : s ≠ []) (n : Nat) {k : Nat} (hk : k ≤ s.length) :
    ((List.range n).map fun i => s.getD ((k + i) % s.length) 0) = cycleFrom s n (s.drop k) := by
  have hpos := length_pos_iff.2 hs
  induction n generalizing k with
  | zero => rfl
  | succ n ih =>
    rw [range_succ_eq_map, map_cons, map_map, Nat.add_zero]
    rcases hk.lt_or_eq with hlt | heq
    · have hrest : (fun i => s.getD ((k + i) % s.length) 0) ∘ Nat.succ =
          fun i => s.getD ((k + 1 + i) % s.length) 0 := by
        funext i
        rw [Function.comp_apply, Nat.succ_eq_add_one, Nat.add_comm i 1, Nat.add_assoc]
      rw [hrest, ih hlt, drop_eq_getElem_cons hlt, cycleFrom, Nat.mod_eq_of_lt hlt,
        getD_eq_getElem s 0 hlt]
    · -- the end, and back to the beginning
      have hrest : (fun i => s.getD ((k + i) % s.length) 0) ∘ Nat.succ =
          fun i => s.getD ((1 + i) % s.length) 0 := by
        funext i
        rw [Function.comp_apply, heq, Nat.succ_eq_add_one, Nat.add_mod_left, Nat.add_comm i 1]
      rw [hrest, ih (by omega : 1 ≤ s.length), heq, drop_length, cycleFrom, Nat.mod_self, drop_one]
      cases s with
      | nil => exact absurd rfl hs
      | cons b s => rfl

theorem one_le_gUtf8Skip (a : UInt8) : 1 ≤ gUtf8Skip a := by
  rw [gUtf8Skip]
  split
  · decide
  · split
    · decide
    · split <;> decide

theorem characters_stable {fuel : Nat} (h : s.length ≤ fuel) :
    charactersLoop fuel s = characters s := by
  have hstep : ∀ {fuel fuel'} {s : Bytes}, s.length ≤ fuel → s.length ≤ fuel' →
      charactersLoop fuel s = charactersLoop fuel' s := by
    intro fuel
    induction fuel with
    | zero =>
      intro fuel' s hs _
      obtain rfl := length_eq_zero_iff.1 (Nat.le_zero.1 hs)
      cases fuel' <;> rfl
    | succ fuel ih =>
      intro fuel' s hs hs'
      cases s with
      | nil => cases fuel' <;> rfl
      | cons a s =>
        cases fuel' with
        | zero => exact absurd hs' (Nat.not_succ_le_zero _)
        | succ fuel' =>
          have hskip : ((a :: s).drop (gUtf8Skip a)).length ≤ s.length := by
            have hone := one_le_gUtf8Skip a
            rw [length_drop, length_cons]
            omega
          rw [charactersLoop, charactersLoop]
          rw [length_cons] at hs hs'
          rw [ih (by omega) (by omega : _ ≤ fuel')]
  exact hstep h (Nat.le_refl _)

theorem characters_cons (a : UInt8) (s : Bytes) :
    characters (a :: s) = gUtf8GetChar (a :: s) :: characters ((a :: s).drop (gUtf8Skip a)) := by
  have hskip := one_le_gUtf8Skip a
  rw [characters, length_cons, charactersLoop, characters_stable]
  rw [length_drop, length_cons]
  omega

/-- The area of the password has its `BMPString` over and over. -/
theorem passwordArea_eq (text p2 : Bytes) (n : Nat) :
    passwordArea text n p2 = cycleFrom ((characters text).flatMap charBytes ++ charBytes 0) (2 * n)
      ((characters p2).flatMap charBytes ++ charBytes 0) := by
  have hne : (characters text).flatMap charBytes ++ charBytes 0 ≠ [] :=
    append_ne_nil_of_right_ne_nil _ (cons_ne_nil _ _)
  induction n generalizing p2 with
  | zero => rfl
  | succ n ih =>
    cases p2 with
    | nil =>
      rw [passwordArea, ih text, ← cycleFrom_nil hne]
      rfl
    | cons a p2 =>
      rw [passwordArea, ih, characters_cons]
      rfl

/-- A string of one block at most makes one block. -/
theorem copyBlocks_one (hs : s ≠ []) (hlt : s.length ≤ 64) : copyBlocks s = [cycleFrom s 64 s] := by
  have hpos := length_pos_iff.2 hs
  have hone : (s.length + 63) / 64 = 1 := by omega
  have hcycle := map_range_mod hs 64 (Nat.zero_le _)
  rw [drop_zero] at hcycle
  rw [copyBlocks, hone, ← hcycle]
  rfl

theorem saltArea_some {salt : Bytes} (hs : salt ≠ []) : saltArea (some salt) = .ok (cycleFrom salt 64 salt) := by
  have hcycle := map_range_mod hs 64 (Nat.zero_le _)
  rw [drop_zero] at hcycle
  rw [saltArea, if_neg (fun h => hs (length_eq_zero_iff.1 h)), ← hcycle]
  simp only [Nat.zero_add]

theorem length_flatMap_charBytes (cs : List Nat) : (cs.flatMap charBytes).length = 2 * cs.length := by
  induction cs with
  | nil => rfl
  | cons c cs ih =>
    rw [flatMap_cons, length_append, ih, length_cons]
    show 2 + 2 * cs.length = _
    omega

theorem length_cycleFrom (s : Bytes) (n : Nat) (rest : Bytes) : (cycleFrom s n rest).length = n := by
  induction n generalizing rest with
  | zero => rfl
  | succ n ih =>
    cases rest with
    | nil => rw [cycleFrom, length_cons, ih]
    | cons b rest => rw [cycleFrom, length_cons, ih]

theorem length_passwordArea (text p2 : Bytes) (n : Nat) : (passwordArea text n p2).length = 2 * n := by
  rw [passwordArea_eq, length_cycleFrom]

theorem length_copyBlocks (s : Bytes) : (copyBlocks s).length = (s.length + 63) / 64 := by
  rw [copyBlocks, length_map, length_range]

/-- Blocks of 64 octets. -/
def Blocks (blocks : List Bytes) : Prop := ∀ block ∈ blocks, block.length = 64

theorem blocks_copyBlocks (s : Bytes) : Blocks (copyBlocks s) := by
  intro block hblock
  obtain ⟨k, -, rfl⟩ := mem_map.1 hblock
  rw [length_map, length_range]

theorem Blocks.append (hx : Blocks xs) (hy : Blocks ys) : Blocks (xs ++ ys) := by
  intro block hblock
  exact (mem_append.1 hblock).elim (hx block) (hy block)

theorem Blocks.take {blocks : List Bytes} (h : Blocks blocks) (n : Nat) : Blocks (blocks.take n) :=
  fun block hblock => h block (mem_of_mem_take hblock)

/-- Blocks of one length can be told from the octets. -/
theorem Blocks.flatten_inj (hx : Blocks xs) (hy : Blocks ys)
    (h : xs.flatten = ys.flatten) : xs = ys := by
  induction xs generalizing ys with
  | nil =>
    cases ys with
    | nil => rfl
    | cons y ys =>
      have hlength := congrArg List.length h
      have hblock := hy y mem_cons_self
      rw [flatten_nil, flatten_cons, length_append, length_nil] at hlength
      omega
  | cons x xs ih =>
    cases ys with
    | nil =>
      have hlength := congrArg List.length h
      have hblock := hx x mem_cons_self
      rw [flatten_nil, flatten_cons, length_append, length_nil] at hlength
      omega
    | cons y ys =>
      rw [flatten_cons, flatten_cons] at h
      have hlength : x.length = y.length := by
        rw [hx x mem_cons_self, hy y mem_cons_self]
      obtain ⟨hhead, hrest⟩ := append_inj h hlength
      have htail := ih (fun b hb => hx b (mem_cons_of_mem x hb))
        (fun b hb => hy b (mem_cons_of_mem y hb)) hrest
      rw [hhead, htail]

/-- The halves of `buf_i`. -/
theorem blocks_pkcs12Buffer {salt password : Option Bytes} {bufI : List Bytes}
    (h : pkcs12Buffer salt password = .ok bufI) : Blocks bufI ∧ bufI.length = 2 := by
  have hsalt : ∀ first, saltArea salt = .ok first → first.length = 64 := by
    intro first hfirst
    cases salt with
    | none =>
      cases hfirst
      rfl
    | some salt =>
      rw [saltArea] at hfirst
      split at hfirst
      · cases hfirst
      · rw [← Except.ok.inj hfirst, length_map, length_range]
  cases hfirst : saltArea salt with
  | error trap =>
    rw [pkcs12Buffer, hfirst] at h
    cases h
  | ok first =>
    rw [pkcs12Buffer, hfirst] at h
    cases h
    refine ⟨?_, rfl⟩
    intro block hblock
    rcases mem_cons.1 hblock with rfl | hblock
    · exact hsalt _ hfirst
    · rw [mem_singleton.1 hblock]
      cases password with
      | none => rfl
      | some text => exact length_passwordArea text text 32

end MateKeyring.Egg
