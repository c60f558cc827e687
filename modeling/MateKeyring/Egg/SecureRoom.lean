import MateKeyring.Egg.SecureZero

/-!
# When there is memory

`sec_block_create` takes the length that is asked for as the size of the block, in whole pages.
`sec_alloc` wants two words more, for the pointers before and after the memory. A length that leaves
less than two words in its last page does not fit into the block that is created for it: the call
returns null, and the empty block stays in `all_blocks`, from where only `sec_free` would take it away.
-/

set_option autoImplicit false

namespace MateKeyring.Egg

variable {sys : System} {w w' : Client} {cs : Nat → List ItemPtr} {h h' : Heap} {p : Ptr} {length : Nat}

/-! ## The cells of a block -/

/-- The pointers in the first words of the cells say which cells there are. -/
theorem Tiles.unique {cells : ItemPtr → Cell} {mem : Nat → MemVal} {s e : Nat} {xs ys : List ItemPtr}
    (hx : Tiles cells mem s xs e) (hy : Tiles cells mem s ys e) : xs = ys := by
  induction xs generalizing s ys with
  | nil =>
    obtain rfl : s = e := hx
    cases ys with
    | nil => rfl
    | cons y ys =>
      obtain ⟨-, hguarded, hrest⟩ := hy
      have hle := hrest.le
      have hlong := hguarded.long
      omega
  | cons x xs ih =>
    obtain ⟨hword, hguarded, hrest⟩ := hx
    cases ys with
    | nil =>
      obtain rfl : s = e := hy
      have hle := hrest.le
      have hlong := hguarded.long
      omega
    | cons y ys =>
      obtain ⟨hword', hguarded', hrest'⟩ := hy
      have hread := readWord_eq_some.2 hguarded.first
      rw [hword, ← hword', readWord_eq_some.2 hguarded'.first] at hread
      cases hread
      rw [ih hrest hrest']

/-- A block has an unused cell that is long enough. -/
def Heap.HasRoom (h : Heap) (length : Nat) : Prop :=
  ∃ b ∈ h.blocks, ∃ cs, BlockOk h.cells b cs ∧ Egg.HasRoom h.cells cs length

/-- Another block has one. -/
def Heap.HasRoomBeside (h : Heap) (page length : Nat) : Prop :=
  ∃ b ∈ h.blocks, b.words ≠ page ∧ ∃ cs, BlockOk h.cells b cs ∧ Egg.HasRoom h.cells cs length

theorem HeapOk.room_iff (hok : HeapOk sys h cs) {b : Block} (hb : b ∈ h.blocks) (length : Nat) :
    (∃ xs, BlockOk h.cells b xs ∧ HasRoom h.cells xs length) ↔ HasRoom h.cells (cs b.words) length := by
  constructor
  · rintro ⟨xs, hxs, hroom⟩
    rwa [(hok.each b hb).tiles.unique hxs.tiles]
  · exact fun hroom => ⟨_, hok.each b hb, hroom⟩

theorem HeapOk.allocatable_iff (hok : HeapOk sys h cs) (length : Nat) :
    Allocatable sys h cs length ↔ h.HasRoom length ∨ LeavesRoom sys length :=
  or_congr_left (exists_congr fun _ => and_congr_right fun hb => (hok.room_iff hb length).symm)

/-- The memory is made longer in its block, or there is a cell for it in another block, or there would
be one in a new block. -/
def Heap.HasRoomToMove (sys : System) (h : Heap) (p : Ptr) (length : Nat) : Prop :=
  ∀ b, h.blockOf p = some b → (∃ r b' h', secRealloc sys h b p.word length = .ok (some r, b', h')) ∨
    h.HasRoomBeside p.page length ∨ LeavesRoom sys length

theorem HeapOk.roomToMove_iff (hok : HeapOk sys h cs) (p : Ptr) (length : Nat) :
    RoomToMove sys h cs p length ↔ h.HasRoomToMove sys p length :=
  forall_congr' fun _ => imp_congr_right fun _ => or_congr_right <| or_congr_left <|
    exists_congr fun _ => and_congr_right fun hb => and_congr_right fun _ =>
      (hok.room_iff hb length).symm

/-- A length of whole pages leaves no room for the two pointers. -/
theorem not_leavesRoom_of_dvd (hbig : defaultBlockSize ≤ length) (hdvd : getpagesize sys ∣ length) :
    ¬ LeavesRoom sys length := by
  have hpos : 0 < getpagesize sys := Nat.two_pow_pos _
  have hpages : wholePages sys length = length := by
    obtain ⟨k, rfl⟩ := hdvd
    unfold wholePages
    rw [Nat.add_sub_assoc hpos, Nat.mul_add_div hpos, Nat.div_eq_of_lt (by omega), Nat.add_zero,
      Nat.mul_comm]
  have hsize := le_secSizeToWords length
  unfold LeavesRoom newWords
  rw [if_neg (not_lt.2 hbig), hpages]
  omega

/-! ## Runs -/

/-- Only memory at finitely many addresses is in use. -/
theorem Reachable.live_bounded (hw : Reachable sys w) :
    ∃ top, ∀ p : Ptr, top ≤ p.page → w.live p = none := by
  have hset : ∀ (live : Ptr → Option Nat) (q : Ptr) (v : Option Nat),
      (∃ top, ∀ p : Ptr, top ≤ p.page → live p = none) →
        ∃ top, ∀ p : Ptr, top ≤ p.page → Function.update live q v p = none := by
    rintro live q v ⟨top, htop⟩
    refine ⟨top + q.page + 1, fun p hp => ?_⟩
    have hne : p ≠ q := fun heq => by rw [heq] at hp; omega
    rw [Function.update_of_ne hne]
    exact htop p (by omega)
  induction hw with
  | start => exact ⟨0, fun _ _ => rfl⟩
  | @step w₀ w₁ call r _ _ hstep ih =>
    have halloc : ∀ (length : Nat) (r : Option Ptr),
        ∃ top, ∀ p : Ptr, top ≤ p.page → allocated w₀.live length r p = none := by
      intro length r
      cases r with
      | none => exact ih
      | some q => exact hset _ q _ ih
    cases call with
    | alloc length fallback =>
      obtain ⟨⟨r', h'⟩, -, heq⟩ := bind_eq_ok.1 hstep
      cases heq
      exact halloc length _
    | realloc memory length fallback =>
      cases memory with
      | none =>
        obtain ⟨⟨r', h'⟩, -, heq⟩ := bind_eq_ok.1 hstep
        cases heq
        exact halloc length _
      | some q =>
        obtain ⟨⟨r', h'⟩, -, heq⟩ := bind_eq_ok.1 hstep
        cases heq
        cases r with
        | some q' => exact hset _ q' _ (hset _ q _ ih)
        | none =>
          dsimp only [reallocated]
          split
          · exact hset _ q _ ih
          · exact ih
    | free memory fallback =>
      cases memory with
      | none =>
        obtain ⟨h', -, heq⟩ := bind_eq_ok.1 hstep
        cases heq
        exact ih
      | some q =>
        obtain ⟨h', -, heq⟩ := bind_eq_ok.1 hstep
        cases heq
        exact hset _ q _ ih
    | write q offset bytes =>
      cases hstep
      exact ih

/-- Where the system maps and locks pages, no call of `pool_alloc` and `sec_acquire_pages` fails. -/
theorem ClientOk.available (hok : ClientOk sys w cs) (hw : Reachable sys w)
    (hgrants : sys.Grants w.heap.calls) : Available sys w.heap := by
  obtain ⟨top, htop⟩ := hw.live_bounded
  refine ⟨hgrants, top, fun base hbase => ?_⟩
  by_contra hne
  obtain ⟨contents, hcontents⟩ := Option.ne_none_iff_exists'.1 hne
  have hlive : w.live ⟨base, 0⟩ = some contents.length :=
    (hok.live _ _).2 (.inr ⟨rfl, contents, hcontents, rfl⟩)
  rw [htop ⟨base, 0⟩ hbase] at hlive
  cases hlive

/-- `egg_secure_alloc_full` without the flag for memory outside: it returns memory and leaves no block
without memory in use behind, if and only if a cell is long enough or the new one would be. -/
theorem alloc_iff_room (hw : Reachable sys w) (hgrants : sys.Grants w.heap.calls)
    (hsane : Sane length) :
    (∃ p w', w.step sys (.alloc length false) = .ok (some p, w') ∧ NoNewEmpty w.heap w'.heap) ↔
      w.heap.HasRoom length ∨ LeavesRoom sys length := by
  obtain ⟨cs, hok⟩ := hw.ok
  have havail := hok.available hw hgrants
  rw [← hok.heap.allocatable_iff length]
  rcases eggSecureAllocFull_spec hok.heap length false with ⟨h', cs', hrun, -, hfails⟩ |
    ⟨p, h', cs', hrun, -, -, -, hroom⟩
  · rw [if_pos hsane] at hfails
    constructor
    · rintro ⟨p, w', hstep, -⟩
      obtain ⟨⟨r, h''⟩, hrun', heq⟩ := bind_eq_ok.1 hstep
      rw [hrun] at hrun'
      cases hrun'
      cases heq
    · exact fun hroom => absurd hroom (hfails havail).1
  · obtain ⟨hroom, hempty⟩ := hroom rfl
    refine iff_of_true ⟨p, ⟨h', allocated w.live length (some p)⟩, ?_, hempty⟩ hroom
    unfold Client.step
    dsimp only
    rw [hrun]
    rfl

/-- The lengths that a call asks for fit: into a cell that there is, or into a new block. -/
def Call.Roomy (sys : System) (w : Client) : Call → Prop
  | .alloc length _ | .realloc none length _ =>
    Sane length → w.heap.HasRoom length ∨ LeavesRoom sys length
  | .realloc (some p) length _ => Sane length → w.heap.HasRoomToMove sys p length
  | .free _ _ | .write _ _ _ => True

/-- The states that a client may come to with such calls. -/
inductive RoomyReachable (sys : System) : Client → Prop
  | start : RoomyReachable sys .start
  | step {w w' : Client} {call : Call} {r : Option Ptr} : RoomyReachable sys w → call.Legal w →
      call.Roomy sys w → w.step sys call = .ok (r, w') → RoomyReachable sys w'

theorem RoomyReachable.reachable (hw : RoomyReachable sys w) : Reachable sys w := by
  induction hw with
  | start => exact .start
  | step _ hlegal _ hstep ih => exact .step ih hlegal hstep

section

variable (hok : ClientOk sys w cs) (havail : Available sys w.heap) {fallback : Bool} {r : Option Ptr}

include hok havail

theorem alloc_noNewEmpty (hroom : Sane length → w.heap.HasRoom length ∨ LeavesRoom sys length)
    (hrun : eggSecureAllocFull sys w.heap length fallback = .ok (r, h')) : NoNewEmpty w.heap h' := by
  rcases eggSecureAllocFull_spec hok.heap length fallback with ⟨h₁, cs₁, hrun₁, -, hfails⟩ |
    ⟨p, h₁, cs₁, hrun₁, hlen, -, hempty, -⟩
  · rw [hrun₁] at hrun
    cases hrun
    split at hfails
    · next hsane =>
        exact absurd ((hok.heap.allocatable_iff length).2 (hroom hsane)) (hfails havail).1
    · exact hfails
  · rw [hrun₁] at hrun
    cases hrun
    by_cases hsane : Sane length
    · exact hempty havail ((hok.heap.allocatable_iff length).2 (hroom hsane))
    · -- an insane length is refused
      unfold eggSecureAllocFull at hrun₁
      rw [if_pos (not_le.1 fun hle => hsane ⟨hlen, hle⟩)] at hrun₁
      cases hrun₁

theorem realloc_noNewEmpty (hlive : w.live p ≠ none)
    (hroom : Sane length → w.heap.HasRoomToMove sys p length)
    (hstep : w.step sys (.realloc (some p) length fallback) = .ok (r, w')) :
    NoNewEmpty w.heap w'.heap := by
  obtain ⟨m, hm⟩ := Option.ne_none_iff_exists'.1 hlive
  have hat := (hok.live p m).1 hm
  obtain ⟨⟨r', h'⟩, hrun, heq⟩ := bind_eq_ok.1 hstep
  cases heq
  by_cases hinsane : length > 0xffffffff / 2
  · unfold eggSecureReallocFull at hrun
    rw [if_pos hinsane] at hrun
    cases hrun
    exact fun _ hb _ => hb
  by_cases hflag : (w.heap.blockOf p).isNone → fallback = true
  · by_cases hlen : length = 0
    · -- it is `free`
      obtain ⟨h₁, cs₁, hfree, -, hempty⟩ := eggSecureFreeFull_spec hok.heap hat hflag
      unfold eggSecureReallocFull at hrun
      rw [if_neg hinsane] at hrun
      dsimp only at hrun
      rw [if_pos hlen, hfree] at hrun
      cases hrun
      exact hempty
    · have hroom' : Sane length → RoomToMove sys w.heap cs p length := fun hsane =>
        (hok.heap.roomToMove_iff p length).2 (hroom hsane)
      rcases eggSecureReallocFull_spec hok.heap hat hlen hflag with ⟨h₁, cs₁, hrun₁, -, hempty, -⟩ |
        ⟨q, h₁, cs₁, hrun₁, -, hempty, -⟩
      · rw [hrun₁] at hrun
        cases hrun
        exact hempty havail hroom'
      · rw [hrun₁] at hrun
        cases hrun
        exact hempty havail hroom'
  · -- memory from outside, without the flag for it
    rw [Classical.not_imp, Option.isNone_iff_eq_none, Bool.not_eq_true] at hflag
    unfold eggSecureReallocFull at hrun
    rw [if_neg hinsane] at hrun
    dsimp only at hrun
    split at hrun
    · unfold eggSecureFreeFull at hrun
      dsimp only at hrun
      rw [hflag.1, hflag.2] at hrun
      cases hrun
    · rw [hflag.1, hflag.2] at hrun
      cases hrun

end

/-- A call leaves no block without memory in use behind, if the lengths fit. -/
theorem step_noNewEmpty (hw : Reachable sys w) (hgrants : sys.Grants w.heap.calls) {call : Call}
    {r : Option Ptr} (hlegal : call.Legal w) (hroomy : call.Roomy sys w)
    (hstep : w.step sys call = .ok (r, w')) : NoNewEmpty w.heap w'.heap := by
  obtain ⟨cs, hok⟩ := hw.ok
  have havail := hok.available hw hgrants
  cases call with
  | alloc length fallback =>
    obtain ⟨⟨r', h'⟩, hrun, heq⟩ := bind_eq_ok.1 hstep
    cases heq
    exact alloc_noNewEmpty hok havail hroomy hrun
  | realloc memory length fallback =>
    cases memory with
    | none =>
      obtain ⟨⟨r', h'⟩, hrun, heq⟩ := bind_eq_ok.1 hstep
      cases heq
      rw [eggSecureReallocFull_none] at hrun
      exact alloc_noNewEmpty hok havail hroomy hrun
    | some p => exact realloc_noNewEmpty hok havail hlegal hroomy hstep
  | free memory fallback =>
    cases memory with
    | none =>
      cases hstep
      exact fun _ hb _ => hb
    | some p =>
      obtain ⟨n, hn⟩ := Option.ne_none_iff_exists'.1 hlegal
      obtain ⟨h', hrun, heq⟩ := bind_eq_ok.1 hstep
      cases heq
      by_cases hflag : (w.heap.blockOf p).isNone → fallback = true
      · obtain ⟨h₁, cs₁, hfree, -, hempty⟩ :=
          eggSecureFreeFull_spec hok.heap ((hok.live p n).1 hn) hflag
        rw [hfree] at hrun
        cases hrun
        exact hempty
      · rw [Classical.not_imp, Option.isNone_iff_eq_none, Bool.not_eq_true] at hflag
        unfold eggSecureFreeFull at hrun
        dsimp only at hrun
        rw [hflag.1, hflag.2] at hrun
        cases hrun
  | write p offset bytes =>
    obtain ⟨n, hn, -⟩ := hlegal
    cases hstep
    exact copy_noNewEmpty hok.heap ((hok.live p n).1 hn) offset bytes.length _

/-- Where the lengths fit, every block has memory in use. -/
theorem RoomyReachable.used_ne (hw : RoomyReachable sys w) (hgrants : sys.Grants 0) :
    ∀ b ∈ w.heap.blocks, b.used ≠ 0 := by
  induction hw with
  | start => exact fun b hb => absurd hb List.not_mem_nil
  | step hw hlegal hroomy hstep ih =>
    intro b hb hunused
    have hempty := step_noNewEmpty hw.reachable (hgrants.mono (Nat.zero_le _)) hlegal hroomy hstep
    exact ih b (hempty b hb hunused) hunused

/-- Where the system does not fail: in every state that is reached, memory of a sane length is given out
and no block without memory in use is left behind, if and only if a cell is long enough or a new block
has room for the length with its two pointers; and where the lengths always fit, every block has memory
in use. -/
theorem secure_alloc_succeeds_iff :
    (∀ w, Reachable sys w → sys.Grants w.heap.calls → ∀ length, 0 < length → length ≤ 0x7fffffff →
      ((∃ p w', w.step sys (.alloc length false) = .ok (some p, w') ∧ NoNewEmpty w.heap w'.heap) ↔
        w.heap.HasRoom length ∨ LeavesRoom sys length)) ∧
    (sys.Grants 0 → ∀ w, RoomyReachable sys w → ∀ b ∈ w.heap.blocks, b.used ≠ 0) :=
  ⟨fun _ hw hgrants _ hpos hle => alloc_iff_room hw hgrants ⟨hpos.ne', hle⟩,
    fun hgrants _ hw => hw.used_ne hgrants⟩

open Classical in
/-- Pages are mapped at the number of the call, or else at any address that is left. -/
noncomputable def grantingSystem : System where
  shift := 12
  large := sampleSystem.large
  mmap n mapped :=
    if h : mapped n = false then some ⟨n, h⟩
    else if h' : ∃ base, mapped base = false then some ⟨h'.choose, h'.choose_spec⟩
    else none
  mlock _ := true
  realloc _ _ := none
  garbage _ := []

theorem grantingSystem_grants : grantingSystem.Grants 0 := by
  intro k _
  refine ⟨rfl, fun mapped hmapped => ?_⟩
  obtain ⟨top, htop⟩ := hmapped
  change (if h : mapped k = false then _ else _ : Option _).isSome = true
  split
  · rfl
  · rw [dif_pos ⟨top, htop top le_rfl⟩]
    rfl

theorem secure_alloc_succeeds_at_start : ∃ p w',
    Client.start.step grantingSystem (.alloc 5 false) = .ok (some p, w') ∧
      NoNewEmpty startHeap w'.heap := by
  have hroom : LeavesRoom grantingSystem 5 := by
    change 3 ≤ (16384 + 2 ^ 12 - 1) / 2 ^ 12 * 2 ^ 12 / 8
    decide
  exact (secure_alloc_succeeds_iff.1 .start .start grantingSystem_grants 5 (by decide) (by decide)).2
    (.inr hroom)

/-- 16384 bytes, in pages of 4096: the call fails although the system does not. -/
theorem alloc_16384_fails : ¬ ∀ (sys : System) (w : Client), Reachable sys w →
    sys.Grants w.heap.calls → ∀ length, 0 < length → length ≤ 0x7fffffff →
      ∃ p w', w.step sys (.alloc length false) = .ok (some p, w') ∧ NoNewEmpty w.heap w'.heap := by
  intro hsucceeds
  have hgiven := hsucceeds grantingSystem .start .start grantingSystem_grants 16384 (by decide) (by decide)
  rcases (alloc_iff_room .start grantingSystem_grants ⟨by decide, by decide⟩).1 hgiven with
    ⟨b, hb, -⟩ | hleaves
  · exact absurd hb List.not_mem_nil
  · exact not_leavesRoom_of_dvd le_rfl ⟨4, rfl⟩ hleaves

end MateKeyring.Egg
