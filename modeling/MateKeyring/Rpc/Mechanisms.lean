import MateKeyring.Rpc.Outs

/-!
# Taking mechanisms out of a list

`gkm_rpc_mechanism_list_purge` goes through an array of mechanism types and moves what follows over each one that
is not supported. `purgeFrom_filters` is the loop when another element can be read behind the array: what is
left are the supported mechanisms, in order. Without one the `memmove` reads behind the array, whichever
mechanism is taken out (`purge_right_iff`).
-/

set_option autoImplicit false

namespace MateKeyring.Rpc.Module

open List

/-! ## A turn of the loop -/

theorem mechCount_of_lt {n : Nat} (h : n < 2 ^ 31) : mechCount n = n := by
  have hdef : mechCount n = _ := Int.bmod_def n (2 ^ 32)
  split at hdef
  · omega
  · omega

theorem purgeFrom_end (mechs : List Nat) {n i : Nat} (h : ¬ (i : Int) < mechCount n) :
    purgeFrom mechs n i = .ok (mechs, n) := by
  unfold purgeFrom
  rw [dif_neg h]

section

variable {mechs : List Nat} {n i mech : Nat} (h : (i : Int) < mechCount n) (hmech : mechs[i]? = some mech)

include h hmech

/-- A supported mechanism stays. -/
theorem purgeFrom_keeps (hsup : gkmRpcMechanismIsSupported mech = true) :
    purgeFrom mechs n i = purgeFrom mechs n (i + 1) := by
  have hturn : purgeFrom mechs n i = _ := purgeFrom.eq_def mechs n i
  rw [dif_pos h, hmech] at hturn
  dsimp only at hturn
  rw [if_pos hsup] at hturn
  exact hturn

/-- The elements behind the one at `i` are moved over it. -/
theorem purgeFrom_moves (hsup : ¬ gkmRpcMechanismIsSupported mech = true) (hroom : n < mechs.length) :
    purgeFrom mechs n i =
      purgeFrom (mechs.take i ++ (mechs.drop (i + 1)).take (n - i) ++ mechs.drop n) (n - 1) i := by
  have hturn : purgeFrom mechs n i = _ := purgeFrom.eq_def mechs n i
  rw [dif_pos h, hmech] at hturn
  dsimp only at hturn
  rw [if_neg hsup, if_pos hroom] at hturn
  exact hturn

end

/-! ## With an element behind the array -/

/-- **The loop** leaves the supported mechanisms in order, counts them, and changes nothing behind the array. -/
theorem purgeFrom_filters (pre mid post : List Nat) (hroom : post ≠ []) (hsmall : pre.length + mid.length < 2 ^ 31) :
    ∃ gone, gone.length + (mid.filter gkmRpcMechanismIsSupported).length = mid.length ∧
      purgeFrom (pre ++ (mid ++ post)) (pre.length + mid.length) pre.length =
        .ok (pre ++ mid.filter gkmRpcMechanismIsSupported ++ gone ++ post,
          pre.length + (mid.filter gkmRpcMechanismIsSupported).length) := by
  induction mid generalizing pre post with
  | nil =>
    refine ⟨[], rfl, ?_⟩
    rw [purgeFrom_end _ (by rw [mechCount_of_lt hsmall, length_nil]; omega)]
    simp
  | cons mech mid ih =>
    rw [length_cons] at hsmall ⊢
    have hcount : (pre.length : Int) < mechCount (pre.length + (mid.length + 1)) := by
      rw [mechCount_of_lt hsmall]
      omega
    have hmech : (pre ++ (mech :: mid ++ post))[pre.length]? = some mech := by simp
    by_cases hsup : gkmRpcMechanismIsSupported mech = true
    · obtain ⟨gone, hgone, hrun⟩ := ih (pre ++ [mech]) post hroom (by rw [length_append, length_singleton]; omega)
      rw [filter_cons_of_pos hsup, purgeFrom_keeps hcount hmech hsup]
      refine ⟨gone, by rw [length_cons, ← hgone, Nat.add_assoc], ?_⟩
      simpa [Nat.add_assoc, Nat.add_comm 1] using hrun
    · -- the first element behind the array is copied into its last place
      obtain ⟨next, rest, rfl⟩ := exists_cons_of_ne_nil hroom
      obtain ⟨gone, hgone, hrun⟩ := ih pre (next :: next :: rest) (by simp) (by omega)
      rw [filter_cons_of_neg hsup, purgeFrom_moves hcount hmech hsup (by simp)]
      refine ⟨gone ++ [next], by rw [length_append, length_singleton]; omega, ?_⟩
      have hbehind : (pre ++ (mech :: mid ++ next :: rest)).drop (pre.length + 1) = mid ++ next :: rest :=
        drop_length_add_append _
      have hend : (pre ++ (mech :: mid ++ next :: rest)).drop (pre.length + (mid.length + 1)) = next :: rest :=
        (drop_length_add_append _).trans drop_left
      rw [hbehind, hend, Nat.add_sub_cancel_left, take_left, take_length_add_append,
        show pre.length + (mid.length + 1) - 1 = pre.length + mid.length from rfl, append_assoc,
        append_assoc]
      refine hrun.trans ?_
      simp

theorem purgeFrom_filters_desCbc :
    ∃ gone : List Nat, gone.length + ([0x122, 1].filter gkmRpcMechanismIsSupported).length = 2 ∧
      purgeFrom [1, 0x122, 1, 7] 3 1 =
        .ok ([1] ++ [0x122, 1].filter gkmRpcMechanismIsSupported ++ gone ++ [7],
          1 + ([0x122, 1].filter gkmRpcMechanismIsSupported).length) :=
  purgeFrom_filters [1] [0x122, 1] [7] (by simp) (by decide)

/-! ## The array alone -/

/-- The supported ones of an array are left in order and counted, without a look behind the array. -/
def PurgeRight (mechs : List Nat) : Prop :=
  ∃ left n, gkmRpcMechanismListPurge mechs mechs.length = .ok (left, n) ∧
    n = (mechs.filter gkmRpcMechanismIsSupported).length ∧
    left.take n = mechs.filter gkmRpcMechanismIsSupported

/-- With nothing behind the array no element is ever moved. -/
theorem purgeFrom_inside {mechs left : List Nat} {n i m : Nat} (hn : n = mechs.length)
    (h : purgeFrom mechs n i = .ok (left, m)) : left = mechs ∧ m = n := by
  induction mechs, n, i using purgeFrom.induct with
  | case1 mechs n i hlt hnone =>
    unfold purgeFrom at h
    rw [dif_pos hlt, hnone] at h
    cases h
  | case2 mechs n i hlt mech hmech hsup ih =>
    rw [purgeFrom_keeps hlt hmech hsup] at h
    exact ih hn h
  | case3 mechs n i hlt mech hmech hsup hroom ih => omega
  | case4 mechs n i hlt mech hmech hsup hroom =>
    unfold purgeFrom at h
    rw [dif_pos hlt, hmech] at h
    dsimp only at h
    rw [if_neg hsup, if_neg hroom] at h
    cases h
  | case5 mechs n i hlt =>
    rw [purgeFrom_end mechs hlt] at h
    cases h
    exact ⟨rfl, rfl⟩

/-- Supported mechanisms are only looked at. -/
theorem purgeFrom_supported {mechs : List Nat} {n i : Nat} (hn : n = mechs.length)
    (hall : ∀ mech ∈ mechs, gkmRpcMechanismIsSupported mech = true) :
    purgeFrom mechs n i = .ok (mechs, n) := by
  induction mechs, n, i using purgeFrom.induct with
  | case1 mechs n i hlt hnone =>
    have hinside := lt_of_lt_mechCount hlt
    rw [List.getElem?_eq_none_iff] at hnone
    omega
  | case2 mechs n i hlt mech hmech hsup ih =>
    rw [purgeFrom_keeps hlt hmech hsup]
    exact ih hn hall
  | case3 mechs n i hlt mech hmech hsup hroom ih => omega
  | case4 mechs n i hlt mech hmech hsup hroom => exact absurd (hall mech (mem_of_getElem? hmech)) hsup
  | case5 mechs n i hlt => exact purgeFrom_end mechs hlt

theorem supported_of_purgeRight {mechs : List Nat} (h : PurgeRight mechs) :
    ∀ mech ∈ mechs, gkmRpcMechanismIsSupported mech = true := by
  obtain ⟨left, n, hrun, hn, -⟩ := h
  obtain ⟨-, hall⟩ := purgeFrom_inside rfl hrun
  rw [hall] at hn
  exact length_filter_eq_length_iff.1 hn.symm

theorem purgeRight_of_supported {mechs : List Nat}
    (h : ∀ mech ∈ mechs, gkmRpcMechanismIsSupported mech = true) : PurgeRight mechs := by
  have hfilter : mechs.filter gkmRpcMechanismIsSupported = mechs := filter_eq_self.2 h
  refine ⟨mechs, mechs.length, purgeFrom_supported rfl h, ?_, ?_⟩
  · rw [hfilter]
  · rw [hfilter, take_length]

/-- **Mechanism filtering.** It is right and stays inside the array if and only if there is nothing to take
out. -/
theorem purge_right_iff (mechs : List Nat) :
    PurgeRight mechs ↔ ∀ mech ∈ mechs, gkmRpcMechanismIsSupported mech = true :=
  ⟨supported_of_purgeRight, purgeRight_of_supported⟩

/-- `CKM_DES_CBC` needs a parameter, and is taken out of an array of its own. -/
theorem des_cbc_read_behind : ¬ PurgeRight [0x122] := by
  intro h
  have hsup := supported_of_purgeRight h 0x122 (mem_singleton.2 rfl)
  exact absurd hsup (by decide)

end MateKeyring.Rpc.Module
