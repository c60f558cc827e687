import MateKeyring.Egg.SecureRuns

/-!
# What new memory holds

Memory is given out with zeros: `sec_alloc` fills it, and `sec_realloc` fills what the memory grows by
when it takes words from the neighbor or moves the bytes. When the cell is long enough already,
`sec_realloc` fills nothing. A cell may be longer than what was asked for (`WASTE`), and a cell that was
joined from others still holds the pointers to them where their ends were; memory that grows over such a
pointer is given out with it.
-/

set_option autoImplicit false

namespace MateKeyring.Egg

variable {sys : System} {w w' : Client} {cs : Nat → List ItemPtr} {p : Ptr}

/-! ## Runs of given calls -/

instance (w : Client) (call : Call) : Decidable (call.Legal w) :=
  match call with
  | .alloc _ _ | .realloc none _ _ | .free none _ => .isTrue trivial
  | .realloc (some p) _ _ | .free (some p) _ => inferInstanceAs (Decidable (w.live p ≠ none))
  | .write p offset bytes =>
    decidable_of_iff (∃ n ∈ w.live p, offset + bytes.length ≤ n) Iff.rfl

/-- The calls in turn, as long as each one is legal and is answered. -/
def Client.run (sys : System) : Client → List Call → Option Client
  | w, [] => some w
  | w, call :: calls =>
    if call.Legal w then
      match w.step sys call with
      | .ok (_, w') => w'.run sys calls
      | .error _ => none
    else none

theorem Reachable.run {calls : List Call} (hw : Reachable sys w) (hrun : w.run sys calls = some w') :
    Reachable sys w' := by
  induction calls generalizing w with
  | nil =>
    obtain rfl : w = w' := Option.some.inj hrun
    exact hw
  | cons call calls ih =>
    rw [Client.run] at hrun
    split at hrun
    · next hlegal =>
        split at hrun
        · next r w₁ hstep => exact ih (.step hw hlegal hstep) hrun
        · cases hrun
    · cases hrun

/-! ## Growing -/

/-- The cell of the memory is long enough for `n` bytes, and a pointer to a cell was left in the bytes
that the memory grows by. -/
def GrowsOverGuard (h : Heap) (p : Ptr) (m n : Nat) : Prop :=
  n ≤ 0xffffffff / 2 ∧ ∃ b cell, h.blockOf p = some b ∧ cellOfMemory h b p.word = .ok cell ∧
    secSizeToWords n + 2 ≤ (h.cells cell).nWords ∧
    ∃ i, m ≤ i ∧ i < n ∧ ∃ c k, b.mem (8 * p.word + i) = .fragment c k

/-- In a cell that is in use, the bytes behind the memory are zero or belong to a pointer. -/
theorem growsOverGuard_iff {h : Heap} {b : Block} {t : ItemPtr} {m : Nat} (hok : HeapOk sys h cs)
    (hb : b ∈ h.blocks) (hpage : b.words = p.page) (hg : Given h.cells (cs b.words) t p.word m)
    (n : Nat) :
    GrowsOverGuard h p m n ↔ n ≤ 0xffffffff / 2 ∧ secSizeToWords n + 2 ≤ (h.cells t).nWords ∧
      ∃ i, m ≤ i ∧ i < n ∧ h.read p i ≠ .byte 0 := by
  have hbok := hok.each b hb
  have hblock := hok.blockOf_eq hb hpage (hbok.given_lt hg)
  have hcell := cellOfMemory_eq hbok.tiles hok.pools (hok.cellsInUse hb t hg.mem) hg
  constructor
  · rintro ⟨hsane, b', cell, hblock', hcell', hlong, i, hmi, hin, c, k, hmem⟩
    rw [hblock] at hblock'
    cases hblock'
    rw [hcell] at hcell'
    cases hcell'
    refine ⟨hsane, hlong, i, hmi, hin, ?_⟩
    rw [hok.read_eq hb hpage hg, hmem]
    intro hbyte
    cases hbyte
  · rintro ⟨hsane, hlong, i, hmi, hin, hread⟩
    refine ⟨hsane, b, t, hblock, hcell, hlong, i, hmi, hin, ?_⟩
    rw [hok.read_eq hb hpage hg] at hread
    have hword := hg.words
    have hallocated := hg.allocated
    have hsize := le_secSizeToWords n
    have hwithin : (h.cells t).Within (8 * p.word + i) := ⟨by omega, by omega⟩
    exact ((hbok.kept t hg.mem).clean _ hwithin (.inr (by omega))).resolve_left hread

/-- What `egg_secure_realloc_full` gives out is zero from byte `m` on, or the memory grew over a pointer
in its cell. -/
theorem grown_zero_iff (hok : ClientOk sys w cs) {m : Nat} (hlive : w.live p = some m)
    (hblock : (w.heap.blockOf p).isSome) (n : Nat) (fallback : Bool) :
    (∀ q w', w.step sys (.realloc (some p) n fallback) = .ok (some q, w') →
        ∀ i, m ≤ i → i < n → w'.heap.read q i = .byte 0) ↔
      ¬ GrowsOverGuard w.heap p m n := by
  obtain hzero | hlen := Nat.eq_zero_or_pos n
  · -- no byte at all
    subst hzero
    constructor
    · rintro - ⟨-, -, -, -, -, -, i, -, hi, -⟩
      exact absurd hi (Nat.not_lt_zero i)
    · exact fun _ q w' _ i _ hi => absurd hi (Nat.not_lt_zero i)
  have hflag : (w.heap.blockOf p).isNone → fallback = true := by
    intro hnone
    rw [Option.isNone_iff_eq_none.1 hnone] at hblock
    cases hblock
  have hat := (hok.live p m).1 hlive
  obtain ⟨b, hb, hpage, t, hg, -⟩ | ⟨-, contents, hcontents, -⟩ := id hat
  swap
  · rw [hok.heap.blockOf_none hcontents] at hblock
    cases hblock
  rw [growsOverGuard_iff hok.heap hb hpage hg]
  rcases eggSecureReallocFull_spec hok.heap hat hlen.ne' hflag with
    ⟨h', cs', hrun, -, -, hshort⟩ | ⟨q, h', cs', hrun, -, -, hread⟩
  · have hstep : w.step sys (.realloc (some p) n fallback) =
        .ok (none, { heap := h', live := reallocated w.live p n none }) := by
      unfold Client.step
      dsimp only
      rw [hrun]
      rfl
    constructor
    · rintro - ⟨hsane, hlong, -⟩
      exact hshort hsane b hb hpage t hg hlong
    · intro _ q w' hstep'
      rw [hstep] at hstep'
      cases hstep'
  · have hstep : w.step sys (.realloc (some p) n fallback) =
        .ok (some q, { heap := h', live := reallocated w.live p n (some q) }) := by
      unfold Client.step
      dsimp only
      rw [hrun]
      rfl
    have hread := hread b hb hpage t hg
    constructor
    · rintro hzero ⟨-, hlong, i, hmi, hin, hne⟩
      have heq := hread i hmi hin
      rw [if_pos hlong] at heq
      exact hne (heq.symm.trans (hzero q _ hstep i hmi hin))
    · intro hnot q' w' hstep' i hmi hin
      rw [hstep] at hstep'
      cases hstep'
      change h'.read q i = _
      rw [hread i hmi hin]
      split
      · next hlong =>
          by_contra hne
          refine hnot ⟨?_, hlong, i, hmi, hin, hne⟩
          by_contra hinsane
          -- a length that is insane is refused
          unfold eggSecureReallocFull at hrun
          rw [if_pos (not_le.1 hinsane)] at hrun
          cases hrun
      · rfl

/-- In every state that is reached, memory that is allocated holds zeros, and what memory of a block
grows by holds zeros if and only if it does not grow over a pointer in its own cell. -/
theorem secure_memory_zeroed_iff (hw : Reachable sys w) :
    (∀ length fallback p w', w.step sys (.alloc length fallback) = .ok (some p, w') →
      ∀ i < length, w'.heap.read p i = .byte 0) ∧
    ∀ p m n fallback, w.live p = some m → (w.heap.blockOf p).isSome →
      ((∀ q w', w.step sys (.realloc (some p) n fallback) = .ok (some q, w') →
          ∀ i, m ≤ i → i < n → w'.heap.read q i = .byte 0) ↔
        ¬ GrowsOverGuard w.heap p m n) := by
  obtain ⟨cs, hok⟩ := hw.ok
  refine ⟨fun length fallback p w' hstep => ?_, fun p m n fallback hlive hblock =>
    grown_zero_iff hok hlive hblock n fallback⟩
  unfold Client.step at hstep
  dsimp only at hstep
  rcases eggSecureAllocFull_spec hok.heap length fallback with ⟨h', cs', hrun, -⟩ |
    ⟨q, h', cs', hrun, -, halloc, -⟩
  · rw [hrun] at hstep
    cases hstep
  · rw [hrun] at hstep
    cases hstep
    exact halloc.zero

/-- Two cells are joined between two others; the joined one is used for eight bytes. -/
def joinedCalls : List Call :=
  [.alloc 8 false, .alloc 8 false, .alloc 8 false, .free (some ⟨1, 1⟩) false,
    .free (some ⟨1, 4⟩) false, .alloc 8 false]

theorem joined_client : ∃ w w', Reachable sampleSystem w ∧ w.live ⟨1, 1⟩ = some 8 ∧
    (w.heap.blockOf ⟨1, 1⟩).isSome ∧
    w.step sampleSystem (.realloc (some ⟨1, 1⟩) 16 false) = .ok (some ⟨1, 1⟩, w') ∧
    w'.heap.read ⟨1, 1⟩ 8 ≠ .byte 0 := by
  have hrun : ((Client.start.run sampleSystem joinedCalls).bind fun w =>
      (w.step sampleSystem (.realloc (some ⟨1, 1⟩) 16 false)).toOption.map fun r =>
        (w.live ⟨1, 1⟩, (w.heap.blockOf ⟨1, 1⟩).isSome, r.1, r.2.heap.read ⟨1, 1⟩ 8)) =
      some (some 8, true, some ⟨1, 1⟩, .fragment ⟨0, 199⟩ 0) := by decide +kernel
  obtain ⟨w, hw, hafter⟩ := Option.bind_eq_some_iff.1 hrun
  obtain ⟨⟨r, w'⟩, hstep, hvalues⟩ := Option.map_eq_some_iff.1 hafter
  obtain ⟨hlive, hvalues⟩ := Prod.mk.inj hvalues
  obtain ⟨hblock, hvalues⟩ := Prod.mk.inj hvalues
  obtain ⟨hr, hread⟩ := Prod.mk.inj hvalues
  refine ⟨w, w', Reachable.run .start hw, hlive, hblock, ?_, ?_⟩
  · subst hr
    cases hok : w.step sampleSystem (.realloc (some ⟨1, 1⟩) 16 false) with
    | error fault =>
      rw [hok] at hstep
      cases hstep
    | ok r =>
      rw [hok] at hstep
      exact congrArg Except.ok (Option.some.inj hstep)
  · rw [hread]
    intro hbyte
    cases hbyte

theorem secure_memory_zeroed_at_joined : ∃ w, Reachable sampleSystem w ∧ w.live ⟨1, 1⟩ = some 8 ∧
    GrowsOverGuard w.heap ⟨1, 1⟩ 8 16 := by
  obtain ⟨w, w', hw, hlive, hblock, hstep, hread⟩ := joined_client
  refine ⟨w, hw, hlive, ?_⟩
  by_contra hnot
  have hzero := ((secure_memory_zeroed_iff hw).2 _ 8 16 false hlive hblock).2 hnot
  exact hread (hzero _ w' hstep 8 (le_refl 8) (by omega))

/-- Memory of eight bytes grows to sixteen in a cell that was joined from two: the ninth byte is a part
of a pointer. -/
theorem realloc_grows_over_guard : ¬ ∀ (sys : System) (w : Client), Reachable sys w →
    ∀ p m n fallback, w.live p = some m → (w.heap.blockOf p).isSome →
      ∀ q w', w.step sys (.realloc (some p) n fallback) = .ok (some q, w') →
        ∀ i, m ≤ i → i < n → w'.heap.read q i = .byte 0 := by
  intro hzero
  obtain ⟨w, w', hw, hlive, hblock, hstep, hread⟩ := joined_client
  exact hread (hzero _ w hw _ 8 16 false hlive hblock _ w' hstep 8 (le_refl 8) (by omega))

end MateKeyring.Egg
