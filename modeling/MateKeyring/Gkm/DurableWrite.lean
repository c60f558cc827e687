import MateKeyring.Gkm.Atomicity
import MateKeyring.Lib.Accumulate

/-!
# Writing a file to the end

The loop of `write_sync_close`, call by call and with the widths of its variables: `res` is an `int`, `n_data`
a `gsize`, and `MAX (res, n_data)` compares them as unsigned numbers. A call that was interrupted thereby adds
one to `n_data`, and one that wrote anything, even nothing, sets it to zero: the pointer to the data never
moves. `durable_write_iff` says for which outcomes of `write` a file is only put into its place when it is
complete. In the range where an `int` and a `gsize` do not matter it is the loop of `Gkm.writeSyncClose`
(`writeLoop_refined`).
-/

set_option autoImplicit false

namespace MateKeyring.Gkm.DurableWrite

open Lib Accumulate List

/-- What a call of `write` returns, and whether `errno` is `EINTR` or `EAGAIN` then. -/
structure WriteReturn where
  ret : Int
  again : Bool
  deriving DecidableEq

namespace WriteReturn

/-- The call was interrupted. -/
def Interrupted (r : WriteReturn) : Prop := r.ret = -1 ∧ r.again = true

/-- The call failed for another reason. -/
def Failed (r : WriteReturn) : Prop := r.ret = -1 ∧ r.again = false

instance (r : WriteReturn) : Decidable r.Interrupted := inferInstanceAs (Decidable (_ ∧ _))

instance (r : WriteReturn) : Decidable r.Failed := inferInstanceAs (Decidable (_ ∧ _))

end WriteReturn

/-- What the system calls of `write_sync_close` give: the `i`th `write`, when it is asked for `n` bytes, and
whether `fsync` and `close` fail. -/
structure SyncCalls where
  write : Nat → Nat → WriteReturn
  fsync : Bool
  close : Bool

/-- What is documented of `write`: it fails with `-1`, or returns how many of the bytes it was asked for it
took, of which it takes `0x7ffff000` at most. -/
def SyncCalls.Documented (calls : SyncCalls) : Prop :=
  ∀ i n, -1 ≤ (calls.write i n).ret ∧ (calls.write i n).ret ≤ n ∧ (calls.write i n).ret ≤ 0x7ffff000

/-- The first bytes of the memory from the data on. -/
def region (memory : Nat → UInt8) (n : Nat) : Bytes := (List.range n).map memory

/-- `n_data` after a call, or `none` where the loop is left. -/
def remaining (n : Nat) (r : WriteReturn) : Option Nat :=
  let res := wordOf 32 r.ret
  if res < 0 ∧ r.again = false then none
  else
    -- `MAX` has the type of `n_data`, so that a negative result is a huge one
    some ((n + (2 ^ 64 - max (res % 2 ^ 64).toNat n)) % 2 ^ 64)

/-- The loop of `write_sync_close` from its `i`th call on: whether it ends well, and the bytes that the calls
took. The first argument bounds the number of calls. -/
def writeLoop (memory : Nat → UInt8) (write : Nat → Nat → WriteReturn) :
    Nat → Nat → Nat → Option (Bool × Bytes)
  | 0, _, _ => none
  | fuel + 1, i, n =>
    if n = 0 then some (true, [])
    else
      let taken := region memory (write i n).ret.toNat
      match remaining n (write i n) with
      | none => some (false, taken)
      | some n' => (writeLoop memory write fuel (i + 1) n').map fun r => (r.1, taken ++ r.2)

/-- `write_sync_close`; `opened` says whether `fd` is one. -/
def writeSyncClose (memory : Nat → UInt8) (calls : SyncCalls) (fuel : Nat) (opened : Bool) (nData : Nat) :
    Option (Bool × Bytes) :=
  if opened then
    (writeLoop memory calls.write fuel 0 nData).map fun r => (r.1 && !calls.fsync && !calls.close, r.2)
  else some (false, [])

/-- `write_to_file`. -/
def writeToFile (memory : Nat → UInt8) (calls : SyncCalls) (fuel : Nat) (files : Files) (filename : Path)
    (mkstemp : Nat → MkstempCall) (unlink rename : Bool) (nData : Nat) : Option (Bool × Files) :=
  let made := gMkstemp files filename mkstemp 100 0
  (writeSyncClose memory calls fuel made.1.isSome nData).map fun r =>
    let filled := (made.1.map fun created => created.fill files.next r.2).getD files
    if r.1 then
      match filled.rename made.2 filename rename with
      | .ok renamed => (true, renamed)
      | .error _ => (false, filled)
    else (false, filled.orSame (filled.unlink made.2 unlink))

/-- A write ends, and if it is said to have succeeded it took the data and nothing else; a file that was
renamed onto another one holds the data. -/
structure Durable (memory : Nat → UInt8) (calls : SyncCalls) (nData : Nat) : Prop where
  ends : ∀ opened, ∃ fuel r, writeSyncClose memory calls fuel opened nData = some r
  whole : ∀ fuel opened bytes, writeSyncClose memory calls fuel opened nData = some (true, bytes) →
    bytes = region memory nData
  renamed : ∀ fuel (files files' : Files) filename mkstemp unlink rename, files.WellFormed →
    writeToFile memory calls fuel files filename mkstemp unlink rename nData = some (true, files') →
      files'.read filename = some (region memory nData)

/-- After some interrupted calls comes one that fails, or that takes as many bytes as there are. -/
def WholeAtOnce (write : Nat → Nat → WriteReturn) (nData : Nat) : Prop :=
  ∃ i, nData + i < 2 ^ 64 ∧ (∀ j < i, (write j (nData + j)).Interrupted) ∧
    ((write i (nData + i)).Failed ∨ (write i (nData + i)).ret = nData)

theorem length_region (memory : Nat → UInt8) (n : Nat) : (region memory n).length = n := by
  rw [region, length_map, length_range]

/-! ## One call -/

variable {r : WriteReturn}

theorem remaining_interrupted {n : Nat} (h : r.Interrupted) (hn : n < 2 ^ 64) :
    remaining n r = some ((n + 1) % 2 ^ 64) := by
  obtain ⟨hret, hagain⟩ := h
  have hword : wordOf 32 (-1) = -1 := by decide
  have hhuge : ((-1 : Int) % 2 ^ 64).toNat = 2 ^ 64 - 1 := by decide
  rw [remaining, hret, hword, hagain, if_neg (fun hleft => Bool.noConfusion hleft.2), hhuge, Nat.max_eq_left (by omega)]
  rfl

theorem remaining_failed (n : Nat) (h : r.Failed) : remaining n r = none := by
  obtain ⟨hret, hagain⟩ := h
  have hword : wordOf 32 (-1) = -1 := by decide
  rw [remaining, hret, hword, hagain]
  exact if_pos ⟨by decide, rfl⟩

/-- A call that took some bytes, or none, is the last one. -/
theorem remaining_taken {n : Nat} (hnonneg : 0 ≤ r.ret) (hle : r.ret ≤ n)
    (hmost : r.ret ≤ 0x7ffff000) (hn : n < 2 ^ 64) : remaining n r = some 0 := by
  obtain ⟨k, hk⟩ := Int.eq_ofNat_of_zero_le hnonneg
  have hword : wordOf 32 k = k := (wordOf_eq_self_iff (by decide)).2 (by omega)
  have hmod : ((k : Int) % 2 ^ 64).toNat = k := by
    rw [Int.emod_eq_of_lt (by omega) (by omega), Int.toNat_natCast]
  have hgone : (n + (2 ^ 64 - n)) % 2 ^ 64 = 0 := by omega
  rw [remaining, hk, hword, if_neg (fun hleft => by omega), hmod, Nat.max_eq_right (by omega), hgone]

/-- What a documented call is. -/
theorem documented_cases (h : -1 ≤ r.ret) : r.Interrupted ∨ r.Failed ∨ 0 ≤ r.ret := by
  rcases Int.lt_or_le r.ret 0 with hneg | hnonneg
  · have hret : r.ret = -1 := by omega
    cases hagain : r.again with
    | true => exact .inl ⟨hret, hagain⟩
    | false => exact .inr (.inl ⟨hret, hagain⟩)
  · exact .inr (.inr hnonneg)

/-! ## The loop -/

section Loop

variable {memory : Nat → UInt8} {write : Nat → Nat → WriteReturn}

/-- More calls than are made do not matter. -/
theorem writeLoop_mono {fuel i n : Nat} {r : Bool × Bytes} (h : writeLoop memory write fuel i n = some r)
    (more : Nat) : writeLoop memory write (fuel + more) i n = some r := by
  induction fuel generalizing i n r with
  | zero => exact nomatch h
  | succ fuel ih =>
    rw [Nat.succ_add]
    rw [writeLoop] at h ⊢
    by_cases hzero : n = 0
    · rw [if_pos hzero] at h ⊢
      exact h
    · rw [if_neg hzero] at h ⊢
      dsimp only at h ⊢
      cases hleft : remaining n (write i n) with
      | none =>
        rw [hleft] at h
        exact h
      | some n' =>
        rw [hleft] at h
        obtain ⟨r', hlater, hr⟩ := Option.map_eq_some_iff.1 h
        dsimp only
        rw [ih hlater]
        exact congrArg some hr

/-- A run has one result. -/
theorem writeLoop_unique {fuel fuel' i n : Nat} {r r' : Bool × Bytes}
    (h : writeLoop memory write fuel i n = some r) (h' : writeLoop memory write fuel' i n = some r') :
    r = r' := by
  have hmore := writeLoop_mono h fuel'
  rw [Nat.add_comm, writeLoop_mono h' fuel] at hmore
  exact (Option.some.inj hmore).symm

/-- Each interrupted call makes the rest longer by one byte. -/
theorem writeLoop_interrupted {i n k : Nat} (hn : 0 < n) (hroom : n + k < 2 ^ 64)
    (hall : ∀ j < k, (write (i + j) (n + j)).Interrupted) (fuel : Nat) :
    writeLoop memory write (fuel + k) i n = writeLoop memory write fuel (i + k) (n + k) := by
  induction k generalizing i n with
  | zero => rfl
  | succ k ih =>
    have hfirst := hall 0 (Nat.succ_pos k)
    rw [Nat.add_zero, Nat.add_zero] at hfirst
    have hlater : ∀ j < k, (write (i + 1 + j) (n + 1 + j)).Interrupted := by
      intro j hj
      rw [Nat.add_assoc i, Nat.add_assoc n, Nat.add_comm 1 j]
      exact hall (j + 1) (Nat.succ_lt_succ hj)
    have hnothing : region memory (write i n).ret.toNat = [] := by
      rw [hfirst.1]
      rfl
    rw [← Nat.add_assoc, writeLoop, if_neg (Nat.ne_of_gt hn), remaining_interrupted hfirst (by omega),
      Nat.mod_eq_of_lt (by omega), hnothing]
    dsimp only
    rw [@ih (i + 1) (n + 1) (Nat.succ_pos n) (by omega) hlater, Nat.add_right_comm i, Nat.add_right_comm n]
    cases writeLoop memory write fuel (i + k + 1) (n + k + 1) with
    | none => rfl
    | some r => rfl

/-- How a run ends: at the first call that was not interrupted, or when `n_data` has gone around. -/
theorem writeLoop_ends {n : Nat} (hn : 0 < n) (hlt : n < 2 ^ 64)
    (hwrite : ∀ i n, -1 ≤ (write i n).ret ∧ (write i n).ret ≤ n ∧ (write i n).ret ≤ 0x7ffff000) :
    (∃ fuel i, n + i < 2 ^ 64 ∧ (∀ j < i, (write j (n + j)).Interrupted) ∧
      (((write i (n + i)).Failed ∧ writeLoop memory write fuel 0 n = some (false, [])) ∨
        (0 ≤ (write i (n + i)).ret ∧
          writeLoop memory write fuel 0 n = some (true, region memory (write i (n + i)).ret.toNat)))) ∨
      ((∀ i, n + i < 2 ^ 64 → (write i (n + i)).Interrupted) ∧
        ∃ fuel, writeLoop memory write fuel 0 n = some (true, [])) := by
  by_cases hall : ∀ i, n + i < 2 ^ 64 → (write i (n + i)).Interrupted
  · refine .inr ⟨hall, 2 + (2 ^ 64 - 1 - n), ?_⟩
    have hlast : n + (2 ^ 64 - 1 - n) = 2 ^ 64 - 1 := by omega
    have hearlier := @writeLoop_interrupted memory write 0 n (2 ^ 64 - 1 - n) hn (by omega)
      (fun j hj => by
        rw [Nat.zero_add]
        exact hall j (by omega)) 2
    have hinterrupted := hall (2 ^ 64 - 1 - n) (by omega)
    rw [hlast] at hinterrupted
    have hnothing : region memory (write (2 ^ 64 - 1 - n) (2 ^ 64 - 1)).ret.toNat = [] := by
      rw [hinterrupted.1]
      rfl
    rw [hearlier, hlast, Nat.zero_add, writeLoop, if_neg (by decide),
      remaining_interrupted hinterrupted (by decide), hnothing]
    rfl
  · -- the first call that was not interrupted
    have hsome : ∃ i, n + i < 2 ^ 64 ∧ ¬ (write i (n + i)).Interrupted := by
      by_contra hnone
      exact hall fun i hi => by_contra fun hnot => hnone ⟨i, hi, hnot⟩
    have hfound := Nat.find_spec hsome
    have hbefore : ∀ j < Nat.find hsome, (write j (n + j)).Interrupted := by
      intro j hj
      have hroom : n + j < 2 ^ 64 := by omega
      exact by_contra fun hnot => Nat.find_min hsome hj ⟨hroom, hnot⟩
    generalize Nat.find hsome = i at hfound hbefore
    obtain ⟨hroom, hnot⟩ := hfound
    obtain ⟨hlow, hle, hmost⟩ := hwrite i (n + i)
    have hearlier := @writeLoop_interrupted memory write 0 n i hn hroom
      (fun j hj => by
        rw [Nat.zero_add]
        exact hbefore j hj) 2
    refine .inl ⟨2 + i, i, hroom, hbefore, ?_⟩
    rw [hearlier, Nat.zero_add, writeLoop, if_neg (by omega)]
    rcases documented_cases hlow with hinterrupted | hfailed | hnonneg
    · exact absurd hinterrupted hnot
    · refine .inl ⟨hfailed, ?_⟩
      rw [remaining_failed _ hfailed, hfailed.1]
      rfl
    · refine .inr ⟨hnonneg, ?_⟩
      rw [remaining_taken hnonneg hle hmost hroom]
      dsimp only
      rw [writeLoop, if_pos rfl, Option.map_some, append_nil]

end Loop

/-! ## Durable writes -/

variable {memory : Nat → UInt8} {calls : SyncCalls} {nData : Nat}

/-- Every write ends. -/
theorem writeSyncClose_ends (hdocumented : calls.Documented) (hlt : nData < 2 ^ 64) (opened : Bool) :
    ∃ fuel r, writeSyncClose memory calls fuel opened nData = some r := by
  cases opened with
  | false => exact ⟨0, _, rfl⟩
  | true =>
    have hloop : ∃ fuel r, writeLoop memory calls.write fuel 0 nData = some r := by
      rcases Nat.eq_zero_or_pos nData with rfl | hpos
      · exact ⟨1, _, rfl⟩
      · rcases @writeLoop_ends memory calls.write nData hpos hlt hdocumented with
          ⟨fuel, i, -, -, ⟨-, hend⟩ | ⟨-, hend⟩⟩ | ⟨-, fuel, hend⟩
        · exact ⟨fuel, _, hend⟩
        · exact ⟨fuel, _, hend⟩
        · exact ⟨fuel, _, hend⟩
    obtain ⟨fuel, r, hend⟩ := hloop
    refine ⟨fuel, (r.1 && !calls.fsync && !calls.close, r.2), ?_⟩
    rw [writeSyncClose, if_pos rfl, hend]
    rfl

/-- A file that was renamed onto another one holds what was written. -/
theorem renamed_of_whole
    (hwhole : ∀ fuel opened bytes, writeSyncClose memory calls fuel opened nData = some (true, bytes) →
      bytes = region memory nData)
    {fuel : Nat} {files files' : Files} {filename : Path} {mkstemp : Nat → MkstempCall} {unlink rename : Bool}
    (hfiles : files.WellFormed)
    (h : writeToFile memory calls fuel files filename mkstemp unlink rename nData = some (true, files')) :
    files'.read filename = some (region memory nData) := by
  rw [writeToFile] at h
  obtain ⟨⟨ok, bytes⟩, hclose, hend⟩ := Option.map_eq_some_iff.1 h
  cases ok with
  | false => exact nomatch hend
  | true =>
    have hbytes := hwhole _ _ _ hclose
    cases hmade : gMkstemp files filename mkstemp 100 0 with
    | mk created template =>
      rw [hmade] at hclose hend
      cases created with
      | none => exact nomatch hclose
      | some created =>
        obtain ⟨htemplate, rfl⟩ := gMkstemp_some hmade
        dsimp only at hend
        rw [Option.map_some, Option.getD_some, if_pos rfl, Directory.fill_put] at hend
        cases rename with
        | true => exact nomatch hend
        | false =>
          rw [hfiles.rename_put htemplate] at hend
          obtain ⟨-, rfl⟩ := Prod.mk.inj hend
          rw [hfiles.read_put, Function.update_self, hbytes]

/-- A write is durable exactly if there is nothing to write, the file cannot be synced or closed, or the first
call that is not interrupted either fails or takes all of the data. -/
theorem durable_write_iff (memory : Nat → UInt8) (calls : SyncCalls) (hdocumented : calls.Documented)
    (nData : Nat) (hlt : nData < 2 ^ 64) :
    Durable memory calls nData ↔
      nData = 0 ∨ calls.fsync = true ∨ calls.close = true ∨ WholeAtOnce calls.write nData := by
  constructor
  · intro h
    by_contra hnot
    obtain ⟨hsome, hrest⟩ := not_or.1 hnot
    obtain ⟨hsync, hrest⟩ := not_or.1 hrest
    obtain ⟨hclose, hbroken⟩ := not_or.1 hrest
    rw [Bool.not_eq_true] at hsync hclose
    have hpos := Nat.pos_of_ne_zero hsome
    -- a loop that ends well says that the file is complete
    have hsaid : ∀ fuel bytes, writeLoop memory calls.write fuel 0 nData = some (true, bytes) →
        bytes.length = nData := by
      intro fuel bytes hloop
      have hbytes := h.whole fuel true bytes (by
        rw [writeSyncClose, if_pos rfl, hloop, hsync, hclose]
        rfl)
      rw [hbytes, length_region]
    rcases @writeLoop_ends memory calls.write nData hpos hlt hdocumented with
      ⟨fuel, i, hroom, hbefore, ⟨hfailed, -⟩ | ⟨hnonneg, hend⟩⟩ | ⟨-, fuel, hend⟩
    · exact hbroken ⟨i, hroom, hbefore, .inl hfailed⟩
    · have hlength := hsaid fuel _ hend
      rw [length_region] at hlength
      exact hbroken ⟨i, hroom, hbefore, .inr (by omega)⟩
    · have hlength := hsaid fuel _ hend
      rw [length_nil] at hlength
      exact hsome hlength.symm
  · intro hwhen
    have hwhole : ∀ fuel opened bytes, writeSyncClose memory calls fuel opened nData = some (true, bytes) →
        bytes = region memory nData := by
      intro fuel opened bytes hclose
      cases opened with
      | false => exact nomatch hclose
      | true =>
        rw [writeSyncClose, if_pos rfl] at hclose
        obtain ⟨⟨ok, taken⟩, hloop, hend⟩ := Option.map_eq_some_iff.1 hclose
        obtain ⟨hgood, rfl⟩ := Prod.mk.inj hend
        rw [Bool.and_eq_true, Bool.and_eq_true, Bool.not_eq_true', Bool.not_eq_true'] at hgood
        obtain ⟨⟨hok, hsync⟩, hclosed⟩ := hgood
        dsimp only at hok ⊢
        subst hok
        rcases Nat.eq_zero_or_pos nData with rfl | hpos
        · have hnothing : writeLoop memory calls.write 1 0 0 = some (true, []) := rfl
          exact congrArg Prod.snd (writeLoop_unique hloop hnothing)
        · rcases hwhen with hzero | hfails | hfails | ⟨i, hroom, hbefore, hthen⟩
          · omega
          · rw [hfails] at hsync
            exact nomatch hsync
          · rw [hfails] at hclosed
            exact nomatch hclosed
          · have hearlier := fun fuel => @writeLoop_interrupted memory calls.write 0 nData i hpos hroom
              (fun j hj => by
                rw [Nat.zero_add]
                exact hbefore j hj) fuel
            have hlast := hearlier 2
            rw [Nat.zero_add, writeLoop, if_neg (by omega)] at hlast
            rcases hthen with hfailed | htook
            · rw [remaining_failed _ hfailed] at hlast
              exact nomatch congrArg Prod.fst (writeLoop_unique hloop hlast)
            · obtain ⟨-, hle, hmost⟩ := hdocumented i (nData + i)
              rw [remaining_taken (by omega) hle hmost hroom] at hlast
              dsimp only at hlast
              rw [writeLoop, if_pos rfl, Option.map_some, append_nil, htook, Int.toNat_natCast] at hlast
              exact congrArg Prod.snd (writeLoop_unique hloop hlast)
    exact ⟨writeSyncClose_ends hdocumented hlt, hwhole,
      fun fuel files files' filename mkstemp unlink rename hfiles h => renamed_of_whole hwhole hfiles h⟩

/-- A memory that holds `abcabc...`. -/
def lettersFrom (i : Nat) : UInt8 := UInt8.ofNat (97 + i % 3)

/-- Calls of which the first is interrupted, and the others take three bytes. -/
def interruptedOnce : SyncCalls where
  write i n := if i = 0 then ⟨-1, true⟩ else ⟨(min n 3 : Nat), false⟩
  fsync := false
  close := false

theorem documented_interruptedOnce : interruptedOnce.Documented := by
  intro i n
  cases i with
  | zero =>
    change (-1 : Int) ≤ -1 ∧ (-1 : Int) ≤ n ∧ (-1 : Int) ≤ 0x7ffff000
    omega
  | succ i =>
    change (-1 : Int) ≤ (min n 3 : Nat) ∧ ((min n 3 : Nat) : Int) ≤ n ∧ ((min n 3 : Nat) : Int) ≤ 0x7ffff000
    omega

theorem durable_write_sample : Durable lettersFrom interruptedOnce 3 :=
  (durable_write_iff lettersFrom interruptedOnce documented_interruptedOnce 3 (by decide)).2
    (.inr (.inr (.inr ⟨1, by decide, by decide, .inr (by decide)⟩)))

/-- Calls of which each takes one byte. -/
def byteByByte : SyncCalls where
  write _ n := ⟨(min n 1 : Nat), false⟩
  fsync := false
  close := false

/-- A call that takes the first of three bytes is the last one, and the write is said to have succeeded. -/
theorem short_write_not_durable :
    byteByByte.Documented ∧ writeSyncClose lettersFrom byteByByte 2 true 3 = some (true, [0x61]) ∧
      region lettersFrom 3 = [0x61, 0x62, 0x63] ∧ ¬ Durable lettersFrom byteByByte 3 := by
  have hdocumented : byteByByte.Documented := by
    intro i n
    change (-1 : Int) ≤ (min n 1 : Nat) ∧ ((min n 1 : Nat) : Int) ≤ n ∧ ((min n 1 : Nat) : Int) ≤ 0x7ffff000
    omega
  have hrun : writeSyncClose lettersFrom byteByByte 2 true 3 = some (true, [0x61]) := by decide
  refine ⟨hdocumented, hrun, by decide, fun h => ?_⟩
  exact absurd (h.whole 2 true [0x61] hrun) (by decide)

/-! ## The loop without the widths -/

/-- What a call returns that is asked for `n` bytes. -/
def returned (c : Option WriteCall) (n : Nat) : WriteReturn :=
  match c with
  | none => ⟨n, false⟩
  | some .interrupted => ⟨-1, true⟩
  | some .error => ⟨-1, false⟩
  | some (.wrote k) => ⟨(min k n : Nat), false⟩

theorem region_of_list {bytes : Bytes} {n : Nat} (h : n ≤ bytes.length) :
    region (fun i => bytes.getD i 0) n = bytes.take n := by
  apply ext_getElem
  · rw [length_region, length_take, Nat.min_eq_left h]
  · intro i hi hi'
    rw [length_region] at hi
    rw [getElem_take]
    simp [region, getD_eq_getElem?_getD, getElem?_eq_getElem (show i < bytes.length by omega)]

/-- A call that takes something of what is left is the last one. -/
theorem writeLoop_takes {memory : Bytes} {write : Nat → Nat → WriteReturn} {i n k : Nat}
    (hreturn : write i (n + 1) = ⟨k, false⟩) (hk : k ≤ n + 1) (hmemory : k ≤ memory.length)
    (hsmall : n + 1 < 0x7ffff000) (fuel : Nat) :
    writeLoop (fun j => memory.getD j 0) write (fuel + 2) i (n + 1) = some (true, memory.take k) := by
  have hleft : remaining (n + 1) ⟨(k : Nat), false⟩ = some 0 :=
    remaining_taken (Int.natCast_nonneg k) (Int.ofNat_le.2 hk) (by dsimp only; omega) (by omega)
  rw [writeLoop, if_neg (Nat.succ_ne_zero n), hreturn, hleft]
  dsimp only
  rw [Int.toNat_natCast, region_of_list hmemory, writeLoop, if_pos rfl, Option.map_some, append_nil]

/-- Below `2 ^ 31` the loop does what `Gkm.writeLoop` says. -/
theorem writeLoop_refined {memory : Bytes} (list : List WriteCall) (write : Nat → Nat → WriteReturn)
    (i n : Nat) (hwrite : ∀ j m, write (i + j) m = returned list[j]? m) (hsmall : n + list.length < 0x7ffff000)
    {r : Bool × Bytes} (h : Gkm.writeLoop memory n list = .ok r) :
    writeLoop (fun j => memory.getD j 0) write (list.length + 2) i n = some r := by
  induction list generalizing i n with
  | nil =>
    cases n with
    | zero =>
      rw [Gkm.writeLoop] at h
      exact congrArg some (Except.ok.inj h)
    | succ n =>
      rw [Gkm.writeLoop] at h
      split at h
      · cases h
      · rename_i hmemory
        refine (writeLoop_takes (hwrite 0 (n + 1)) (Nat.le_refl _) (Nat.le_of_not_lt hmemory) hsmall _).trans ?_
        exact congrArg some (Except.ok.inj h)
  | cons c list ih =>
    rw [length_cons] at hsmall
    cases n with
    | zero =>
      rw [Gkm.writeLoop] at h
      exact congrArg some (Except.ok.inj h)
    | succ n =>
      have hreturn : write i (n + 1) = returned (some c) (n + 1) := hwrite 0 (n + 1)
      rw [length_cons]
      cases c with
      | interrupted =>
        have hlater : ∀ j m, write (i + 1 + j) m = returned list[j]? m := by
          intro j m
          rw [Nat.add_assoc, Nat.add_comm 1 j]
          exact hwrite (j + 1) m
        rw [Gkm.writeLoop, Nat.mod_eq_of_lt (by omega)] at h
        have hnext := ih (i + 1) (n + 2) hlater (by omega) h
        have hleft : remaining (n + 1) (returned (some .interrupted) (n + 1)) = some (n + 2) := by
          rw [remaining_interrupted ⟨rfl, rfl⟩ (by omega), Nat.mod_eq_of_lt (by omega)]
        rw [writeLoop, if_neg (Nat.succ_ne_zero n), hreturn, hleft]
        dsimp only
        rw [hnext]
        rfl
      | error =>
        have hleft : remaining (n + 1) (returned (some .error) (n + 1)) = none := remaining_failed _ ⟨rfl, rfl⟩
        rw [Gkm.writeLoop] at h
        rw [writeLoop, if_neg (Nat.succ_ne_zero n), hreturn, hleft]
        exact congrArg some (Except.ok.inj h)
      | wrote k =>
        rw [Gkm.writeLoop] at h
        split at h
        · cases h
        · rename_i hmemory
          refine (writeLoop_takes hreturn (Nat.min_le_right _ _) (by omega) (by omega) _).trans ?_
          exact congrArg some (Except.ok.inj h)

theorem writeLoop_refined_sample :
    writeLoop (fun j => [0x61, 0x62, 0x63].getD j 0)
        (fun i m => returned ([.interrupted, .wrote 2][i]?) m) 4 0 2 = some (true, [0x61, 0x62]) :=
  writeLoop_refined [.interrupted, .wrote 2] (fun i m => returned ([.interrupted, .wrote 2][i]?) m) 0 2
    (fun j m => by rw [Nat.zero_add]) (by decide) rfl

end MateKeyring.Gkm.DurableWrite
