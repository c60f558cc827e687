import MateKeyring.Egg.SecureHeap

/-!
# Runs of a client of secure memory

A client allocates, reallocates, frees and writes; it keeps the addresses it was given with the
lengths it asked for. It is legal to use only such an address, and to write only inside of its memory.
`Store` is the memory as the client should see it: bytes at addresses, with no blocks and no cells.
In every reachable state the heap is well formed, and every call does to the bytes what `Store.Step`
says.
-/

set_option autoImplicit false

namespace MateKeyring.Egg

open List
open Function (update update_of_ne update_self)

/-! ## Clients -/

/-- The heap, and the memory that the client has. -/
structure Client where
  heap : Heap
  live : Ptr → Option Nat

/-- What a client does. -/
inductive Call where
  | alloc (length : Nat) (fallback : Bool)
  | realloc (memory : Option Ptr) (length : Nat) (fallback : Bool)
  | free (memory : Option Ptr) (fallback : Bool)
  | write (memory : Ptr) (offset : Nat) (bytes : Bytes)

/-- No memory was asked for yet. -/
def startHeap : Heap :=
  { pools := [], cells := fun _ => zeroCell, blocks := [], malloced := fun _ => none, calls := 0 }

def Client.start : Client := { heap := startHeap, live := fun _ => none }

/-- The addresses, after memory was asked for. -/
def allocated (live : Ptr → Option Nat) (length : Nat) : Option Ptr → Ptr → Option Nat
  | none => live
  | some p => update live p (some length)

/-- The addresses, after `realloc` of memory at `p`. -/
def reallocated (live : Ptr → Option Nat) (p : Ptr) (length : Nat) : Option Ptr → Ptr → Option Nat
  | none => if length = 0 then update live p none else live
  | some q => update (update live p none) q (some length)

/-- One call, with the address it returns. -/
def Client.step (sys : System) (w : Client) : Call → Checked (Option Ptr × Client)
  | .alloc length fallback => do
      let (r, h) ← eggSecureAllocFull sys w.heap length fallback
      pure (r, { heap := h, live := allocated w.live length r })
  | .realloc none length fallback => do
      let (r, h) ← eggSecureReallocFull sys w.heap none length fallback
      pure (r, { heap := h, live := allocated w.live length r })
  | .realloc (some p) length fallback => do
      let (r, h) ← eggSecureReallocFull sys w.heap (some p) length fallback
      pure (r, { heap := h, live := reallocated w.live p length r })
  | .free none fallback => do
      let h ← eggSecureFreeFull sys w.heap none fallback
      pure (none, { w with heap := h })
  | .free (some p) fallback => do
      let h ← eggSecureFreeFull sys w.heap (some p) fallback
      pure (none, { heap := h, live := update w.live p none })
  | .write p offset bytes =>
    pure (none, { w with
      heap := w.heap.copy p offset (fun i => .byte (bytes.getD i 0)) bytes.length })

/-- The memory that a call is about is the client's own. -/
def Call.Legal (w : Client) : Call → Prop
  | .alloc _ _ | .realloc none _ _ | .free none _ => True
  | .realloc (some p) _ _ | .free (some p) _ => w.live p ≠ none
  | .write p offset bytes => ∃ n, w.live p = some n ∧ offset + bytes.length ≤ n

/-- Memory outside is given back without the flag for it: `ASSERT (0 && "memory does does not belong
to mate-keyring")`. -/
def Call.Mismatched (w : Client) : Call → Prop
  | .realloc (some p) length fallback =>
    fallback = false ∧ length ≤ 0xffffffff / 2 ∧ w.heap.blockOf p = none
  | .free (some p) fallback => fallback = false ∧ w.heap.blockOf p = none
  | _ => False

/-- The states that a client may come to. -/
inductive Reachable (sys : System) : Client → Prop
  | start : Reachable sys .start
  | step {w w' : Client} {call : Call} {r : Option Ptr} : Reachable sys w → call.Legal w →
      w.step sys call = .ok (r, w') → Reachable sys w'

/-! ## The memory as the client sees it -/

/-- The bytes at the addresses that are in use. -/
abbrev Store := Ptr → Option (List MemVal)

def Client.contents (w : Client) : Store :=
  fun p => (w.live p).map fun n => (List.range n).map (w.heap.read p)

/-- Bytes are written over those from an offset on. -/
def overwrite (old : List MemVal) (offset : Nat) (bytes : Bytes) : List MemVal :=
  old.take offset ++ bytes.map MemVal.byte ++ old.drop (offset + bytes.length)

/-- New memory holds zeros, at an address that was not in use. -/
def Store.Alloc (m : Store) (length : Nat) : Option Ptr → Store → Prop
  | none, m' => m' = m
  | some p, m' =>
    length ≠ 0 ∧ m p = none ∧ m' = update m p (some (replicate length (.byte 0)))

/-- What a call does to the bytes, when it returns `r`. -/
def Store.Step (m : Store) : Call → Option Ptr → Store → Prop
  | .alloc length _, r, m' => m.Alloc length r m'
  | .realloc none length _, r, m' => m.Alloc length r m'
  | .realloc (some p) length _, none, m' =>
    -- to no bytes it is `free`, and else it failed
    m' = if length = 0 then update m p none else m
  | .realloc (some p) length _, some q, m' =>
    ∃ old new, m p = some old ∧ new.length = length ∧
      new.take (min old.length length) = old.take (min old.length length) ∧
      (m q = none ∨ q = p) ∧ m' = update (update m p none) q (some new)
  | .free none _, _, m' => m' = m
  | .free (some p) _, _, m' => m' = update m p none
  | .write p offset bytes, _, m' =>
    ∃ old, m p = some old ∧ m' = update m p (some (overwrite old offset bytes))

/-- The call is about the memory at this address. -/
def Call.Names (p : Ptr) : Call → Prop
  | .realloc (some q) _ _ | .free (some q) _ | .write q _ _ => q = p
  | _ => False

/-! ## One call -/

variable {sys : System} {w w' : Client} {h' : Heap} {cs cs' : Nat → List ItemPtr} {p q : Ptr}

/-- The heap is well formed, and the client's memory is what is in use. -/
structure ClientOk (sys : System) (w : Client) (cs : Nat → List ItemPtr) : Prop where
  heap : HeapOk sys w.heap cs
  live : ∀ p n, w.live p = some n ↔ LiveAt w.heap cs p n

theorem Client.contents_none (hp : w.live p = none) : w.contents p = none := by
  rw [Client.contents, hp]
  rfl

theorem Client.contents_some {n : Nat} (hp : w.live p = some n) :
    w.contents p = some ((List.range n).map (w.heap.read p)) := by
  rw [Client.contents, hp]
  rfl

/-- Memory that a function leaves alone has the bytes it had. -/
theorem Effect.contents {old : Ptr → Prop} {new : Ptr → Nat → Prop} {live : Ptr → Option Nat}
    (heffect : Effect sys w.heap cs h' cs' old new) (hok : ClientOk sys w cs) (hold : ¬ old p)
    (hlive : live p = w.live p) : Client.contents { heap := h', live } p = w.contents p := by
  cases hp : w.live p with
  | none => rw [Client.contents_none hp, Client.contents_none (hlive.trans hp)]
  | some n =>
    obtain ⟨-, hread⟩ := heffect.kept p n ((hok.live p n).1 hp) hold
    rw [Client.contents_some hp, Client.contents_some (hlive.trans hp), Option.some.injEq]
    exact map_congr_left fun i hi => hread i (mem_range.1 hi)

theorem Quiet.client (heffect : Quiet sys w.heap cs h' cs') (hok : ClientOk sys w cs) :
    ClientOk sys { w with heap := h' } cs' ∧ Client.contents { w with heap := h' } = w.contents := by
  refine ⟨⟨heffect.ok, fun p n => ?_⟩, funext fun p => heffect.contents hok not_false rfl⟩
  rw [hok.live p n]
  constructor
  · exact fun hp => (heffect.kept p n hp not_false).1
  · exact fun hp => (heffect.only p n hp).elim False.elim And.left

theorem Allocates.client {length : Nat} (halloc : Allocates sys w.heap cs h' cs' p length)
    (hok : ClientOk sys w cs) :
    ClientOk sys { heap := h', live := update w.live p (some length) } cs' ∧ w.contents p = none ∧
      Client.contents { heap := h', live := update w.live p (some length) } =
        update w.contents p (some (replicate length (.byte 0))) := by
  have hnone : w.live p = none :=
    Option.eq_none_iff_forall_not_mem.2 fun n hn => halloc.fresh n ((hok.live p n).1 hn)
  refine ⟨⟨halloc.effect.ok, fun q n => ?_⟩, Client.contents_none hnone, funext fun q => ?_⟩
  · by_cases hq : q = p
    · subst hq
      dsimp only
      rw [update_self, Option.some.injEq]
      constructor
      · rintro rfl
        exact halloc.live
      · exact fun hlive => halloc.effect.ok.live_unique halloc.live hlive
    · dsimp only
      rw [update_of_ne hq, hok.live q n]
      constructor
      · exact fun hlive => (halloc.effect.kept q n hlive not_false).1
      · exact fun hlive => (halloc.effect.only q n hlive).elim (fun hnew => absurd hnew.1 hq) And.left
  · by_cases hq : q = p
    · subst hq
      rw [Client.contents_some (update_self ..), update_self, Option.some.injEq]
      refine eq_replicate_iff.2 ⟨by simp, fun v hv => ?_⟩
      obtain ⟨i, hi, rfl⟩ := mem_map.1 hv
      exact halloc.zero i (mem_range.1 hi)
    · rw [update_of_ne hq]
      exact halloc.effect.contents hok not_false (update_of_ne hq ..)

theorem Frees.client (hfrees : Frees sys w.heap cs h' cs' p) (hok : ClientOk sys w cs) :
    ClientOk sys { heap := h', live := update w.live p none } cs' ∧
      Client.contents { heap := h', live := update w.live p none } = update w.contents p none := by
  refine ⟨⟨hfrees.ok, fun q n => ?_⟩, funext fun q => ?_⟩
  · by_cases hq : q = p
    · subst hq
      dsimp only
      rw [update_self]
      constructor
      · exact fun hnone => by cases hnone
      · exact fun hlive => (hfrees.only q n hlive).elim False.elim fun hlive => absurd rfl hlive.2
    · dsimp only
      rw [update_of_ne hq, hok.live q n]
      constructor
      · exact fun hlive => (hfrees.kept q n hlive hq).1
      · exact fun hlive => (hfrees.only q n hlive).elim False.elim And.left
  · by_cases hq : q = p
    · subst hq
      rw [Client.contents_none (update_self ..), update_self]
    · rw [update_of_ne hq]
      exact hfrees.contents hok hq (update_of_ne hq ..)

theorem Reallocates.client {m n : Nat} (hre : Reallocates sys w.heap cs h' cs' p q m n)
    (hok : ClientOk sys w cs) :
    ClientOk sys { heap := h', live := reallocated w.live p n (some q) } cs' ∧
      (w.contents q = none ∨ q = p) ∧
      Client.contents { heap := h', live := reallocated w.live p n (some q) } =
        update (update w.contents p none) q
          (some ((List.range n).map (h'.read q))) := by
  have hfresh : w.live q = none ∨ q = p := by
    cases hq : w.live q with
    | none => exact .inl rfl
    | some k => exact .inr (hre.fresh k ((hok.live q k).1 hq))
  refine ⟨⟨hre.effect.ok, fun r k => ?_⟩, hfresh.imp_left Client.contents_none, funext fun r => ?_⟩
  · dsimp only [reallocated]
    by_cases hr : r = q
    · subst hr
      rw [update_self, Option.some.injEq]
      constructor
      · rintro rfl
        exact hre.live
      · exact fun hlive => hre.effect.ok.live_unique hre.live hlive
    · rw [update_of_ne hr]
      by_cases hrp : r = p
      · subst hrp
        rw [update_self]
        constructor
        · exact fun hnone => by cases hnone
        · exact fun hlive => (hre.effect.only r k hlive).elim (fun hnew => absurd hnew.1 hr)
            fun hlive => absurd rfl hlive.2
      · rw [update_of_ne hrp, hok.live r k]
        constructor
        · exact fun hlive => (hre.effect.kept r k hlive hrp).1
        · exact fun hlive => (hre.effect.only r k hlive).elim (fun hnew => absurd hnew.1 hr) And.left
  · by_cases hr : r = q
    · subst hr
      rw [Client.contents_some (update_self ..), update_self]
    · rw [update_of_ne hr]
      by_cases hrp : r = p
      · subst hrp
        rw [update_self, Client.contents_none]
        exact (update_of_ne hr ..).trans (update_self ..)
      · rw [update_of_ne hrp]
        exact hre.effect.contents hok hrp
          ((update_of_ne hr ..).trans (update_of_ne hrp ..))

theorem getElem?_overwrite (old : List MemVal) (offset : Nat) (bytes : Bytes) {n i : Nat}
    (hlength : old.length = n) (hfits : offset + bytes.length ≤ n) :
    (overwrite old offset bytes)[i]? =
      if offset ≤ i ∧ i < offset + bytes.length then some (.byte (bytes.getD (i - offset) 0))
      else old[i]? := by
  have htake : (old.take offset).length = offset := by rw [length_take]; omega
  unfold overwrite
  by_cases hbefore : i < offset
  · rw [if_neg (by omega), append_assoc, getElem?_append_left (by omega),
      getElem?_take_of_lt hbefore]
  · by_cases hin : i < offset + bytes.length
    · have hi : i - offset < bytes.length := by omega
      rw [if_pos (by omega), append_assoc, getElem?_append_right (by omega), htake,
        getElem?_append_left (by rw [length_map]; exact hi), getElem?_map,
        getD_eq_getElem?_getD, getElem?_eq_getElem hi]
      rfl
    · have hlen : (old.take offset ++ bytes.map MemVal.byte).length = offset + bytes.length := by
        rw [length_append, htake, length_map]
      rw [if_neg (by omega), getElem?_append_right (by omega), getElem?_drop, hlen]
      congr 1
      omega

/-- The client writes into its memory. -/
theorem write_client (hok : ClientOk sys w cs) {n offset : Nat} {bytes : Bytes}
    (hp : w.live p = some n) (hfits : offset + bytes.length ≤ n) :
    ClientOk sys
        { w with heap := w.heap.copy p offset (fun i => .byte (bytes.getD i 0)) bytes.length } cs ∧
      Client.contents
          { w with heap := w.heap.copy p offset (fun i => .byte (bytes.getD i 0)) bytes.length } =
        update w.contents p
          (some (overwrite ((List.range n).map (w.heap.read p)) offset bytes)) := by
  obtain ⟨heffect, hlive, hread⟩ := copy_spec hok.heap offset ((hok.live p n).1 hp) hfits
    (fun i => .byte (bytes.getD i 0))
  refine ⟨⟨heffect.ok, fun q k => ?_⟩, funext fun q => ?_⟩
  · by_cases hq : q = p
    · subst hq
      rw [hp, Option.some.injEq]
      constructor
      · rintro rfl
        exact hlive
      · exact fun hlive' => heffect.ok.live_unique hlive hlive'
    · rw [hok.live q k]
      constructor
      · exact fun hlive => (heffect.kept q k hlive hq).1
      · exact fun hlive => (heffect.only q k hlive).elim (fun hnew => absurd hnew.1 hq) And.left
  · by_cases hq : q = p
    · subst hq
      rw [update_self]
      unfold Client.contents
      rw [hp, Option.map_some, Option.some.injEq]
      refine ext_getElem? fun i => ?_
      rw [getElem?_overwrite _ _ _ (by rw [length_map, length_range]) hfits]
      rw [getElem?_map, getElem?_map]
      by_cases hi : i < n
      · rw [getElem?_range hi, Option.map_some, Option.map_some, hread i hi]
        split
        · rfl
        · rfl
      · rw [getElem?_eq_none (by rw [length_range]; omega), if_neg (by omega)]
        rfl
    · rw [update_of_ne hq]
      exact heffect.contents hok hq rfl

/-- What a legal call does, in a state that is well formed. -/
structure Stepped (sys : System) (w : Client) (call : Call) (r : Option Ptr) (w' : Client) : Prop where
  step : w.step sys call = .ok (r, w')
  ok : ∃ cs, ClientOk sys w' cs
  contents : w.contents.Step call r w'.contents

theorem alloc_stepped (hok : ClientOk sys w cs) (length : Nat) (fallback : Bool) :
    ∃ r w', Stepped sys w (.alloc length fallback) r w' := by
  rcases eggSecureAllocFull_spec hok.heap length fallback with ⟨h', cs', hrun, hquiet, -⟩ |
    ⟨p, h', cs', hrun, hlen, halloc, -⟩
  · obtain ⟨hok', hcontents⟩ := hquiet.client hok
    refine ⟨none, { w with heap := h' }, ?_, ⟨cs', hok'⟩, hcontents⟩
    unfold Client.step
    dsimp only
    rw [hrun]
    rfl
  · obtain ⟨hok', hnone, hcontents⟩ := halloc.client hok
    refine ⟨some p, _, ?_, ⟨cs', hok'⟩, hlen, hnone, hcontents⟩
    unfold Client.step
    dsimp only
    rw [hrun]
    rfl

/-- Without memory `realloc` is `alloc`. -/
theorem eggSecureReallocFull_none (sys : System) (h : Heap) (length : Nat) (fallback : Bool) :
    eggSecureReallocFull sys h none length fallback = eggSecureAllocFull sys h length fallback := by
  unfold eggSecureReallocFull
  split
  · next hinsane =>
      unfold eggSecureAllocFull
      rw [if_pos hinsane]
  · rfl

theorem free_stepped (hok : ClientOk sys w cs) (hlive : w.live p ≠ none) (fallback : Bool) :
    (∃ w', Stepped sys w (.free (some p) fallback) none w') ∨
      (Call.free (some p) fallback).Mismatched w ∧
        w.step sys (.free (some p) fallback) = .error .assertion := by
  obtain ⟨n, hn⟩ := Option.ne_none_iff_exists'.1 hlive
  by_cases hflag : w.heap.blockOf p = none ∧ fallback = false
  · obtain ⟨hnone, rfl⟩ := hflag
    refine .inr ⟨⟨rfl, hnone⟩, ?_⟩
    unfold Client.step eggSecureFreeFull
    dsimp only
    rw [hnone]
    rfl
  · left
    have hflag' : (w.heap.blockOf p).isNone → fallback = true := by
      intro hnone
      simpa [Option.isNone_iff_eq_none.1 hnone] using hflag
    obtain ⟨h', cs', hrun, hfrees, -⟩ := eggSecureFreeFull_spec hok.heap ((hok.live p n).1 hn) hflag'
    obtain ⟨hok', hcontents⟩ := Frees.client hfrees hok
    refine ⟨_, ?_, ⟨cs', hok'⟩, hcontents⟩
    unfold Client.step
    dsimp only
    rw [hrun]
    rfl

theorem realloc_stepped (hok : ClientOk sys w cs) (hlive : w.live p ≠ none) (length : Nat)
    (fallback : Bool) :
    (∃ r w', Stepped sys w (.realloc (some p) length fallback) r w') ∨
      (Call.realloc (some p) length fallback).Mismatched w ∧
        w.step sys (.realloc (some p) length fallback) = .error .assertion := by
  obtain ⟨n, hn⟩ := Option.ne_none_iff_exists'.1 hlive
  by_cases hinsane : length > 0xffffffff / 2
  · -- it fails before it looks at the memory
    have hlen : length ≠ 0 := by omega
    refine .inl ⟨none, w, ?_, ⟨cs, hok⟩, (if_neg hlen).symm⟩
    unfold Client.step eggSecureReallocFull
    dsimp only [reallocated]
    rw [if_pos hinsane, if_neg hlen]
    rfl
  by_cases hlen : length = 0
  · subst hlen
    have heq : w.step sys (.realloc (some p) 0 fallback) = w.step sys (.free (some p) fallback) := by
      unfold Client.step eggSecureReallocFull
      dsimp only [reallocated]
      rw [if_neg hinsane, if_pos rfl]
      cases eggSecureFreeFull sys w.heap (some p) fallback with
      | error _ => rfl
      | ok h => rfl
    rcases free_stepped hok hlive fallback with ⟨w', hstep⟩ | ⟨⟨hflag, hnone⟩, herror⟩
    · exact .inl ⟨none, w', heq.trans hstep.step, hstep.ok, hstep.contents⟩
    · exact .inr ⟨⟨hflag, Nat.zero_le _, hnone⟩, heq.trans herror⟩
  by_cases hflag : w.heap.blockOf p = none ∧ fallback = false
  · obtain ⟨hnone, rfl⟩ := hflag
    refine .inr ⟨⟨rfl, not_lt.1 hinsane, hnone⟩, ?_⟩
    unfold Client.step eggSecureReallocFull
    dsimp only
    rw [if_neg hinsane, if_neg hlen, hnone]
    rfl
  left
  have hflag' : (w.heap.blockOf p).isNone → fallback = true := by
    intro hnone
    simpa [Option.isNone_iff_eq_none.1 hnone] using hflag
  rcases eggSecureReallocFull_spec hok.heap ((hok.live p n).1 hn) hlen hflag' with
    ⟨h', cs', hrun, hquiet, -⟩ | ⟨q, h', cs', hrun, hre, -⟩
  · obtain ⟨hok', hcontents⟩ := hquiet.client hok
    refine ⟨none, { w with heap := h' }, ?_, ⟨cs', hok'⟩, hcontents.trans (if_neg hlen).symm⟩
    unfold Client.step
    dsimp only [reallocated]
    rw [hrun, if_neg hlen]
    rfl
  · obtain ⟨hok', hfresh, hcontents⟩ := hre.client hok
    refine ⟨some q, _, ?_, ⟨cs', hok'⟩, _, _, Client.contents_some hn, ?_, ?_, hfresh, hcontents⟩
    · unfold Client.step
      dsimp only
      rw [hrun]
      rfl
    · rw [length_map, length_range]
    · rw [length_map, length_range, ← map_take, ← map_take, take_range, take_range]
      refine (map_congr_left fun i hi => ?_).trans (by congr 2; omega)
      have := mem_range.1 hi
      exact hre.read i (by omega) (by omega)

/-- Every legal call is answered, unless it is mismatched. -/
theorem step_spec (hok : ClientOk sys w cs) {call : Call} (hlegal : call.Legal w) :
    (∃ r w', Stepped sys w call r w') ∨
      call.Mismatched w ∧ w.step sys call = .error .assertion := by
  cases call with
  | alloc length fallback => exact .inl (alloc_stepped hok length fallback)
  | realloc memory length fallback =>
    cases memory with
    | none =>
      obtain ⟨r, w', hstep⟩ := alloc_stepped hok length fallback
      refine .inl ⟨r, w', ?_, hstep.ok, hstep.contents⟩
      unfold Client.step
      dsimp only
      rw [eggSecureReallocFull_none]
      exact hstep.step
    | some p => exact realloc_stepped hok hlegal length fallback
  | free memory fallback =>
    cases memory with
    | none => exact .inl ⟨none, w, rfl, ⟨cs, hok⟩, rfl⟩
    | some p => exact (free_stepped hok hlegal fallback).imp_left fun ⟨w', hstep⟩ => ⟨none, w', hstep⟩
  | write p offset bytes =>
    obtain ⟨n, hn, hfits⟩ := hlegal
    obtain ⟨hok', hcontents⟩ := write_client hok hn hfits
    exact .inl ⟨none, _, rfl, ⟨cs, hok'⟩, _, Client.contents_some hn, hcontents⟩

/-! ## Runs -/

theorem start_ok (sys : System) : ClientOk sys .start fun _ => [] := by
  have hnone : ∀ b, b ∉ (Client.start).heap.blocks := fun b hb => by cases hb
  refine ⟨⟨⟨(fun pool hpool => by cases hpool), nodup_nil⟩, fun b hb => absurd hb (hnone b),
    fun b hb => absurd hb (hnone b), fun b hb => absurd hb (hnone b), fun b hb => absurd hb (hnone b),
    nodup_nil, fun b hb => absurd hb (hnone b), fun b hb => absurd hb (hnone b)⟩,
    fun p n => ⟨(fun hp => by cases hp), ?_⟩⟩
  rintro (⟨b, hb, -⟩ | ⟨-, contents, hcontents, -⟩)
  · exact absurd hb (hnone b)
  · cases hcontents

/-- The invariant holds in every state that is reached. -/
theorem Reachable.ok (hw : Reachable sys w) : ∃ cs, ClientOk sys w cs := by
  induction hw with
  | start => exact ⟨_, start_ok sys⟩
  | step _ hlegal hstep ih =>
    obtain ⟨cs, hok⟩ := ih
    rcases step_spec hok hlegal with ⟨r, w', hstepped⟩ | ⟨-, herror⟩
    · rw [hstepped.step] at hstep
      cases hstep
      exact hstepped.ok
    · rw [herror] at hstep
      cases hstep

/-- The check of a block runs through. -/
theorem secValidate_spec {h : Heap} {b : Block} {cs rest : List ItemPtr} {fuel word : Nat}
    (hok : BlockOk h.cells b cs) (hpools : PoolsOk h.pools) (huse : ∀ c ∈ cs, InUse h.pools c)
    (hrest : ∀ c ∈ rest, c ∈ cs) (htiles : Tiles h.cells b.mem word rest b.nWords) (hne : rest ≠ [])
    (hfuel : rest.length ≤ fuel) : secValidate h b fuel word = .ok () := by
  induction rest generalizing fuel word with
  | nil => exact absurd rfl hne
  | cons c rest ih =>
    obtain ⟨fuel, rfl⟩ : ∃ f, fuel = f + 1 := ⟨fuel - 1, by rw [length_cons] at hfuel; omega⟩
    have hc : c ∈ cs := hrest c mem_cons_self
    have hbounds := htiles.bounds (c := c) mem_cons_self
    obtain ⟨hword, hguarded, htiles⟩ := htiles
    have hlong := hguarded.long
    have hread : readWord b.mem word = some c := hword ▸ readWord_eq_some.2 hguarded.first
    unfold secValidate
    rw [cAssert_of_true (by omega : word < b.nWords), ok_bind, hread]
    dsimp only
    rw [cAssert_of_true (poolValid_of_inUse hpools (huse c hc)), ok_bind, hguarded.check, ok_bind]
    have hnext : (if word + (h.cells c).nWords = b.nWords then pure ()
        else secValidate h b fuel (word + (h.cells c).nWords)) = (.ok () : Checked Unit) := by
      split
      · rfl
      · next hlast =>
          refine ih (forall_mem_cons.1 hrest).2 htiles ?_ ?_
          · rintro rfl
            exact hlast htiles
          · rw [length_cons] at hfuel
            omega
    by_cases hlive : (h.cells c).allocated > 0
    · obtain ⟨hloose, hloose'⟩ := hok.loose c hc hlive.ne'
      rw [if_pos hlive, cAssert_of_true hloose, ok_bind, cAssert_of_true hloose', ok_bind,
        cAssert_of_true (hok.kept c hc).fits, ok_bind]
      exact hnext
    · obtain ⟨rs, hring, hrs⟩ := hok.ring
      obtain ⟨⟨next, -, hn, hn'⟩, prev, -, hp, hp'⟩ := hring.links ((hrs c).2 ⟨hc, by omega⟩)
      rw [if_neg hlive, hn, hp, Option.bind_some, Option.bind_some, hn', hp',
        cAssert_of_true rfl, ok_bind]
      exact hnext

/-- The memory that cells of a block are used for is the client's. -/
theorem ClientOk.live_block (hok : ClientOk sys w cs) {b : Block} (hb : b ∈ w.heap.blocks)
    (word n : Nat) :
    w.live ⟨b.words, word⟩ = some n ↔ ∃ t, Given w.heap.cells (cs b.words) t word n ∧ n ≠ 0 := by
  rw [hok.live]
  constructor
  · rintro (⟨x, hx, hpage, t, hg, hn⟩ | ⟨-, contents, hcontents, -⟩)
    · obtain rfl := hok.heap.block_inj hx hb hpage
      exact ⟨t, hg, hn⟩
    · have hnone := hok.heap.malloced b hb
      rw [hcontents] at hnone
      cases hnone
  · rintro ⟨t, hg, hn⟩
    exact .inl ⟨b, hb, rfl, t, hg, hn⟩

/-- Two addresses that the client has are those of memory that does not overlap. -/
theorem ClientOk.disjoint (hok : ClientOk sys w cs) {m n : Nat} (hp : w.live p = some m)
    (hq : w.live q = some n) (hne : p ≠ q) (hpage : p.page = q.page) :
    8 * p.word + m ≤ 8 * q.word ∨ 8 * q.word + n ≤ 8 * p.word := by
  obtain ⟨page, word⟩ := p
  obtain ⟨page', word'⟩ := q
  obtain rfl : page = page' := hpage
  rcases (hok.live _ _).1 hp with ⟨b, hb, rfl, t, hg, hm⟩ | ⟨hword, contents, hcontents, -⟩
  · obtain ⟨t', hg', -⟩ := (hok.live_block hb word' n).1 hq
    have hbok := hok.heap.each b hb
    have htt : t ≠ t' := by
      rintro rfl
      exact hne (congrArg _ (hg.words.symm.trans hg'.words))
    have hfits := (hbok.kept t hg.mem).fits
    have hfits' := (hbok.kept t' hg'.mem).fits
    have hlong := (hbok.tiles.guarded hg.mem).long
    have hlong' := (hbok.tiles.guarded hg'.mem).long
    have hword : (w.heap.cells t).words + 1 = word := hg.words
    have hword' : (w.heap.cells t').words + 1 = word' := hg'.words
    have hallocated := hg.allocated
    have hallocated' := hg'.allocated
    rcases hbok.tiles.disjoint hg.mem hg'.mem htt with hle | hle
    · exact .inl (by dsimp only; omega)
    · exact .inr (by dsimp only; omega)
  · exfalso
    rcases (hok.live _ _).1 hq with ⟨b, hb, hb', -⟩ | ⟨hword', -⟩
    · have hnone := hok.heap.malloced b hb
      rw [hb', hcontents] at hnone
      cases hnone
    · exact hne (congrArg _ (hword.trans hword'.symm))

/-- Pages are mapped at the number of the call. -/
def sampleSystem : System where
  shift := 12
  large := le_refl 12
  mmap n mapped := if h : mapped n = false then some ⟨n, h⟩ else none
  mlock _ := true
  realloc n mapped := if h : mapped n = false then some ⟨n, h⟩ else none
  garbage _ := []

/-- A client that has five bytes, in a new block. -/
theorem sample_client : ∃ w, Reachable sampleSystem w ∧
    w.live = update (fun _ => none) ⟨1, 1⟩ (some 5) ∧
    ∃ b ∈ w.heap.blocks, b.words = 1 ∧ b.nWords = 2048 := by
  have hanswer : (eggSecureAllocFull sampleSystem startHeap 5 false).toOption.map
      (fun r => (r.1, r.2.blocks.map fun b => (b.words, b.nWords))) =
      some (some ⟨1, 1⟩, [(1, 2048)]) := by decide +kernel
  cases hrun : eggSecureAllocFull sampleSystem startHeap 5 false with
  | error fault =>
    rw [hrun] at hanswer
    cases hanswer
  | ok r =>
    obtain ⟨r, h⟩ := r
    rw [hrun] at hanswer
    obtain ⟨rfl, hblocks⟩ := Prod.mk.inj (Option.some.inj hanswer)
    have hstep : Client.start.step sampleSystem (.alloc 5 false) =
        .ok (some ⟨1, 1⟩, ⟨h, allocated Client.start.live 5 (some ⟨1, 1⟩)⟩) := by
      unfold Client.step
      change (eggSecureAllocFull sampleSystem startHeap 5 false >>= _) = _
      rw [hrun]
      rfl
    have hlegal : (Call.alloc 5 false).Legal .start := trivial
    refine ⟨_, .step .start hlegal hstep, rfl, ?_⟩
    obtain ⟨b, hb, heq⟩ := mem_map.1 (hblocks.symm ▸ mem_singleton_self (1, 2048))
    exact ⟨b, hb, Prod.mk.inj heq⟩

/-- In every state that is reached, each block is well formed, its cells in use are the memory of the
client, the checks of `sec_validate` hold and memory does not overlap. A further legal call does not
run into an assertion, but for memory from outside that is given back without the flag for it. -/
theorem secure_heap_well_formed (hw : Reachable sys w) :
    (∃ cs : Nat → List ItemPtr, ∀ b ∈ w.heap.blocks, BlockOk w.heap.cells b (cs b.words) ∧
      ∀ word n, w.live ⟨b.words, word⟩ = some n ↔
        ∃ t, Given w.heap.cells (cs b.words) t word n ∧ n ≠ 0) ∧
    (∀ b ∈ w.heap.blocks, secValidate w.heap b b.nWords 0 = .ok ()) ∧
    (∀ p q m n, w.live p = some m → w.live q = some n → p ≠ q → p.page = q.page →
      8 * p.word + m ≤ 8 * q.word ∨ 8 * q.word + n ≤ 8 * p.word) ∧
    ∀ call : Call, call.Legal w →
      (∃ r w', w.step sys call = .ok (r, w')) ∨
        call.Mismatched w ∧ w.step sys call = .error .assertion := by
  obtain ⟨cs, hok⟩ := hw.ok
  refine ⟨⟨cs, fun b hb => ⟨hok.heap.each b hb, hok.live_block hb⟩⟩, fun b hb => ?_,
    fun p q m n => hok.disjoint, fun call hlegal => ?_⟩
  · have hbok := hok.heap.each b hb
    have hlength := hbok.tiles.length_le
    refine secValidate_spec hbok hok.heap.pools (hok.heap.cellsInUse hb) (fun _ => id) hbok.tiles ?_
      (by omega)
    intro hnil
    have hzero : 0 = b.nWords := by
      have htiles := hbok.tiles
      rwa [hnil] at htiles
    exact absurd hzero (hok.heap.aligned b hb).2.ne
  · rcases step_spec hok hlegal with ⟨r, w', hstep⟩ | herror
    · exact .inl ⟨r, w', hstep.step⟩
    · exact .inr herror

theorem secure_heap_well_formed_sample : ∃ w, Reachable sampleSystem w ∧ w.heap.blocks ≠ [] ∧
    ∀ b ∈ w.heap.blocks, secValidate w.heap b b.nWords 0 = .ok () := by
  obtain ⟨w, hw, -, b, hb, -⟩ := sample_client
  exact ⟨w, hw, ne_nil_of_mem hb, (secure_heap_well_formed hw).2.1⟩

/-- A call leaves the memory that it does not name as it is. -/
theorem Store.Step.frame {m m' : Store} {call : Call} {r : Option Ptr} (hstep : m.Step call r m')
    (hnames : ¬ call.Names p) (hp : m p ≠ none) : m' p = m p := by
  have halloc : ∀ length, m.Alloc length r m' → m' p = m p := by
    intro length halloc
    cases r with
    | none => exact congrFun halloc p
    | some q =>
      obtain ⟨-, hq, rfl⟩ := halloc
      exact update_of_ne (fun heq : p = q => hp (heq ▸ hq)) ..
  cases call with
  | alloc length fallback => exact halloc length hstep
  | realloc memory length fallback =>
    cases memory with
    | none => exact halloc length hstep
    | some q =>
      have hpq : p ≠ q := fun heq => hnames heq.symm
      cases r with
      | none =>
        have hstep : m' = if length = 0 then update m q none else m := hstep
        rw [hstep]
        split
        · exact update_of_ne hpq ..
        · rfl
      | some q' =>
        obtain ⟨old, new, -, -, -, hfresh, rfl⟩ := hstep
        have hpq' : p ≠ q' := by
          rintro rfl
          exact hfresh.elim hp hpq
        rw [update_of_ne hpq', update_of_ne hpq]
  | free memory fallback =>
    cases memory with
    | none => exact congrFun hstep p
    | some q =>
      have hstep : m' = update m q none := hstep
      rw [hstep, update_of_ne fun heq => hnames heq.symm]
  | write q offset bytes =>
    obtain ⟨old, -, rfl⟩ := hstep
    exact update_of_ne (fun heq => hnames heq.symm) ..

/-- Each legal call does to the bytes of the client what `Store.Step` says: those of memory that it
does not name stay, `realloc` keeps the first bytes, and one that fails changes nothing. -/
theorem secure_memory_contents (hw : Reachable sys w) {call : Call} (hlegal : call.Legal w) :
    (∃ r w', w.step sys call = .ok (r, w') ∧ w.contents.Step call r w'.contents ∧
      ∀ p, ¬ call.Names p → w.contents p ≠ none → w'.contents p = w.contents p) ∨
    call.Mismatched w ∧ w.step sys call = .error .assertion := by
  obtain ⟨cs, hok⟩ := hw.ok
  rcases step_spec hok hlegal with ⟨r, w', hstep⟩ | herror
  · exact .inl ⟨r, w', hstep.step, hstep.contents, fun p => hstep.contents.frame⟩
  · exact .inr herror

theorem secure_memory_contents_sample : ∃ w, Reachable sampleSystem w ∧
    ∃ r w', w.step sampleSystem (.realloc (some ⟨1, 1⟩) 9 true) = .ok (r, w') ∧
      w.contents.Step (.realloc (some ⟨1, 1⟩) 9 true) r w'.contents := by
  obtain ⟨w, hw, hlive, -⟩ := sample_client
  have hlegal : (Call.realloc (some ⟨1, 1⟩) 9 true).Legal w := by
    change w.live _ ≠ none
    rw [hlive, update_self]
    exact Option.some_ne_none 5
  refine ⟨w, hw, ?_⟩
  rcases secure_memory_contents hw hlegal with ⟨r, w', hstep, hcontents, -⟩ | ⟨hmismatched, -⟩
  · exact ⟨r, w', hstep, hcontents⟩
  · cases hmismatched.1

/-- In every state that is reached, a byte of a block that is not in memory of the client is zero or
a part of a pointer to a cell. -/
theorem no_secret_left (hw : Reachable sys w) {b : Block} (hb : b ∈ w.heap.blocks) {a : Nat}
    (ha : a < 8 * b.nWords)
    (hout : ∀ word n, w.live ⟨b.words, word⟩ = some n → a < 8 * word ∨ 8 * word + n ≤ a) :
    b.mem a = .byte 0 ∨ ∃ cell i, b.mem a = .fragment cell i := by
  obtain ⟨cs, hok⟩ := hw.ok
  have hbok := hok.heap.each b hb
  obtain ⟨c, hc, hwithin⟩ := hbok.tiles.cover (Nat.zero_le a) ha
  refine (hbok.kept c hc).clean a hwithin ?_
  by_cases hzero : (w.heap.cells c).allocated = 0
  · omega
  · exact hout _ _ ((hok.live_block hb _ _).2 ⟨c, ⟨hc, rfl, rfl⟩, hzero⟩)

theorem no_secret_left_sample : ∃ w, Reachable sampleSystem w ∧ ∃ b ∈ w.heap.blocks,
    b.mem 13 = .byte 0 ∨ ∃ cell i, b.mem 13 = .fragment cell i := by
  obtain ⟨w, hw, hlive, b, hb, -, hnWords⟩ := sample_client
  refine ⟨w, hw, b, hb, no_secret_left hw hb (by omega) fun word n hn => ?_⟩
  by_cases heq : (⟨b.words, word⟩ : Ptr) = ⟨1, 1⟩
  · rw [hlive, heq, update_self] at hn
    cases hn
    obtain rfl := (Ptr.mk.inj heq).2
    exact .inr (by omega)
  · rw [hlive, update_of_ne heq] at hn
    cases hn

end MateKeyring.Egg
