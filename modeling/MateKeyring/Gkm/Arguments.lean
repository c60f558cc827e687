import Mathlib.Data.List.Basic
import MateKeyring.Egg.Padding
import MateKeyring.Lib.CText

/-!
# The arguments of a module

`parse_arguments` of `gkm-module.c` and of `gkm-rpc-module.c` copies a string and takes it apart in place: what is read
at `src` is written at `at`, which stands behind it, and every argument is handed on from `arg`. A quote and a space
are read and not written, and the escape of another character within quotes writes three characters for two
(`Room`). The invariant is how the memory splits at the three places (`Split`).

The arguments that are meant are read off the string by itself: `symbols` says what each of its characters stands for,
and `tokens` are the texts between the spaces, without those that are empty.
-/

set_option autoImplicit false

namespace MateKeyring.Gkm.Arguments

open List
open Lib (strchr strchr_append inRange ascii)
open Egg (octetAt)

/-- `\` -/
abbrev backslash : UInt8 := 0x5c

/-! ## Scanning in place -/

/-- The variables of `parse_arguments`. `pos` is `at`, `given` are the texts that were handed to `parse_argument`, and
`writes` are the places that were written at `at`, with where `src` stood. -/
structure Scan where
  mem : Bytes
  src : Nat
  pos : Nat
  arg : Nat
  quote : UInt8
  given : List Bytes
  writes : List (Nat × Nat)

namespace Scan

/-- `*src` -/
def current (m : Scan) : Checked UInt8 := octetAt m.mem m.src

/-- `src++` -/
def next (m : Scan) : Scan := { m with src := m.src + 1 }

/-- `*at = b` -/
def write (m : Scan) (b : UInt8) : Checked Scan :=
  if m.pos < m.mem.length then
    .ok { m with mem := m.mem.set m.pos b, writes := m.writes ++ [(m.pos, m.src)] }
  else .error .outOfBounds

/-- `*at++ = b` -/
def put (m : Scan) (b : UInt8) : Checked Scan := do
  let m ← m.write b
  pure { m with pos := m.pos + 1 }

/-- `*at++ = *src++` -/
def copy (m : Scan) : Checked Scan := do
  let c ← m.current
  let m ← m.put c
  pure m.next

/-- The doubled backslash, in front of a character that is not the quote. -/
def double (m : Scan) (d : UInt8) : Checked Scan := if d ≠ m.quote then m.put backslash else .ok m

/-- `parse_argument (arg)`, which leaves what `parse` gives in the place of the text and its null character. -/
def hand (parse : Bytes → Checked Bytes) (m : Scan) : Checked Scan :=
  match strchr 0 (m.mem.drop m.arg) with
  | none => .error .outOfBounds
  | some (text, behind) => do
      let left ← parse text
      pure { m with mem := m.mem.take m.arg ++ left ++ behind, given := m.given ++ [text] }

end Scan

/-- What a turn of the loop comes to: another one, the end of the string, or `goto done`. -/
inductive Turn where
  | more (m : Scan)
  | ended (m : Scan)
  | cut (m : Scan)

section Loop

variable (isspace : UInt8 → Bool) (parse : Bytes → Checked Bytes)

/-- A turn of the loop. -/
def scanTurn (m : Scan) : Checked Turn := do
  let c ← m.current
  if c = 0 then pure (.ended m)
  -- matching quote
  else if m.quote = c then pure (.more { m.next with quote := 0 })
  -- inside of quotes
  else if m.quote ≠ 0 then
    if c = backslash then do
      let m ← m.copy
      let d ← m.current
      if d = 0 then pure (.cut m)
      else do
        let m ← m.double d
        let m ← m.copy
        pure (.more m)
    else do
      let m ← m.copy
      pure (.more m)
  -- space, not inside of quotes
  else if isspace c then do
    let m ← m.write 0
    let m ← m.hand parse
    pure (.more { m.next with arg := m.pos })
  else if c = 0x27 ∨ c = 0x22 then pure (.more { m.next with quote := c })
  else if c = backslash then do
    let m ← m.copy
    let d ← m.current
    if d = 0 then pure (.cut m)
    else do
      let m ← m.copy
      pure (.more m)
  else do
    let m ← m.copy
    pure (.more m)

/-- The loop; `none` is that it is not at an end. -/
def scanLoop : Nat → Scan → Checked (Option Turn)
  | 0, _ => .ok none
  | fuel + 1, m => do
      match ← scanTurn isspace parse m with
      | .more m => scanLoop fuel m
      | .ended m => pure (some (.ended m))
      | .cut m => pure (some (.cut m))

/-- The copy of a string, with the variables at its start. -/
def scanStart (string : Bytes) : Scan :=
  { mem := string ++ [0], src := 0, pos := 0, arg := 0, quote := 0, given := [], writes := [] }

end Loop

/-! ## The two functions -/

/-- `g_ascii_isspace` -/
def gAsciiIsspace (c : UInt8) : Bool := c == 0x20 || c == 0x09 || c == 0x0a || c == 0x0c || c == 0x0d

/-- `strcspn (arg, ":=")`, as the name and what stands behind the separator. -/
def splitArgument (text : Bytes) : Bytes × Option Bytes :=
  let name := text.takeWhile fun c => c != 0x3a && c != 0x3d
  match text.drop name.length with
  | [] => (name, none)
  | _ :: value => (name, some value)

/-- `g_strstrip` of a text, with its null character: the text moves to the front, and null characters take the place of
the spaces behind it. -/
def gStrstrip (text : Bytes) : Bytes :=
  let chug := text.dropWhile gAsciiIsspace
  let chomp := (chug.reverse.dropWhile gAsciiIsspace).reverse
  chomp ++ (replicate (chug.length - chomp.length) 0 ++ 0 :: (text ++ [0]).drop (chug.length + 1))

/-- What `parse_argument` of `gkm-module.c` leaves of a text and its null character. -/
def parseArgument (text : Bytes) : Checked Bytes :=
  match splitArgument text with
  | (name, none) => .ok (gStrstrip name)
  | (name, some value) => .ok (gStrstrip name ++ gStrstrip value)

/-- What `parse_argument` of `gkm-rpc-module.c` leaves of a text and its null character. It duplicates the value of
`socket`, which is a null pointer when there is none. -/
def rpcParseArgument (text : Bytes) : Checked Bytes :=
  match splitArgument text with
  | (name, none) => if name = ascii "socket" then .error .nullPointer else .ok (name ++ [0])
  | (name, some value) => .ok (name ++ 0 :: (value ++ [0]))

/-- What is done behind the loop, `finish` with a text that is not empty. -/
def afterLoop (finish : Scan → Checked Scan) : Option Turn → Checked (Option Scan)
  | some (.ended m) => if m.pos ≠ m.arg then (finish m).map some else .ok (some m)
  | some (.cut m) => .ok (some m)
  | some (.more _) => .ok none
  | none => .ok none

/-- `parse_arguments` of `gkm-module.c`. -/
def parseArguments (string : Bytes) : Checked (Option Scan) := do
  let turn ← scanLoop gAsciiIsspace parseArgument (string.length + 1) (scanStart string)
  afterLoop (fun m => do
    let m ← m.write 0
    m.hand parseArgument) turn

/-- `parse_arguments` of `gkm-rpc-module.c`, which writes no null character behind the last argument. -/
def rpcParseArguments (string : Bytes) : Checked (Option Scan) := do
  let turn ← scanLoop Lib.isSpace rpcParseArgument (string.length + 1) (scanStart string)
  afterLoop (fun m => m.hand rpcParseArgument) turn

/-! ## The arguments of a string -/

/-- What characters of the string stand for: a quote, a space that separates, a character, an escaped character with
its backslash, one whose backslash is doubled, and a backslash that the string ends with. -/
inductive Symbol where
  | mark
  | space
  | char (c : UInt8)
  | escape (c : UInt8)
  | extra (c : UInt8)
  | cut
  deriving DecidableEq

section Symbols

variable (isspace : UInt8 → Bool)

/-- The symbols of a string, within these quotes or within none. -/
def symbols : UInt8 → Bytes → List Symbol
  | _, [] => []
  | quote, c :: s =>
    if quote = c then .mark :: symbols 0 s
    else if c = backslash then
      match s with
      | [] => [.cut]
      | d :: s => (if quote ≠ 0 ∧ d ≠ quote then .extra d else .escape d) :: symbols quote s
    else if quote ≠ 0 then .char c :: symbols quote s
    else if isspace c then .space :: symbols 0 s
    else if c = 0x27 ∨ c = 0x22 then .mark :: symbols c s
    else .char c :: symbols 0 s

end Symbols

/-- What a symbol adds to a text. -/
def Symbol.bytes : Symbol → Bytes
  | .mark | .space | .cut => []
  | .char c => [c]
  | .escape c => [backslash, c]
  | .extra c => [backslash, backslash, c]

/-- The texts that end at a space, and the one at the end of the string, unless it ends with a backslash. -/
def pieces : Bytes → List Symbol → List Bytes × Option Bytes
  | text, [] => ([], some text)
  | text, .space :: syms => (text :: (pieces [] syms).1, (pieces [] syms).2)
  | _, .cut :: _ => ([], none)
  | text, sym :: syms => pieces (text ++ sym.bytes) syms

/-- The arguments that are meant. -/
def tokens (isspace : UInt8 → Bool) (string : Bytes) : List Bytes :=
  let p := pieces [] (symbols isspace 0 string)
  (p.1 ++ p.2.toList).filter (· ≠ [])

/-- The quotes and spaces so far, and `n` more, are at least as many as the characters with a doubled backslash. -/
def Room : Nat → List Symbol → Prop
  | _, [] => True
  | n, .mark :: syms => Room (n + 1) syms
  | n, .space :: syms => Room (n + 1) syms
  | n, .extra _ :: syms => 0 < n ∧ Room (n - 1) syms
  | n, .char _ :: syms => Room n syms
  | n, .escape _ :: syms => Room n syms
  | _, .cut :: _ => True

/-- By how many they are more at the end. -/
def leftOver : Nat → List Symbol → Nat
  | n, [] => n
  | n, .mark :: syms => leftOver (n + 1) syms
  | n, .space :: syms => leftOver (n + 1) syms
  | n, .extra _ :: syms => leftOver (n - 1) syms
  | n, .char _ :: syms => leftOver n syms
  | n, .escape _ :: syms => leftOver n syms
  | n, .cut :: _ => n

/-! ## One turn -/

/-- The memory in front of `arg`, the text so far, the characters that were read and not written over, and those that
are unread. A text that is not empty has no null character behind it before the end. Nothing was written in front of
what was read. -/
structure Split (m : Scan) (quote : UInt8) (given : List Bytes) (front text gap rest : Bytes) : Prop where
  mem_eq : m.mem = front ++ (text ++ (gap ++ (rest ++ [0])))
  arg_eq : m.arg = front.length
  pos_eq : m.pos = front.length + text.length
  src_eq : m.src = front.length + text.length + gap.length
  quote_eq : m.quote = quote
  given_eq : m.given = given
  text_noNul : 0 ∉ text
  rest_noNul : 0 ∉ rest
  gap_noNul : 0 ∉ gap.tail
  fresh : text ≠ [] → 0 ∉ gap
  within : ∀ w ∈ m.writes, w.1 ≤ w.2

variable {m : Scan} {quote : UInt8} {given : List Bytes} {front text gap rest : Bytes} {b c d : UInt8}

theorem octetAt_behind (front text gap tail : Bytes) (b : UInt8) :
    octetAt (front ++ (text ++ (gap ++ b :: tail))) (front.length + text.length + gap.length) = .ok b := by
  have hlength : front.length + text.length + gap.length = (front ++ (text ++ gap)).length := by
    simp only [length_append, Nat.add_assoc]
  have hsplit : front ++ (text ++ (gap ++ b :: tail)) = front ++ (text ++ gap) ++ b :: tail := by
    simp only [append_assoc]
  rw [octetAt, hlength, hsplit, getElem?_append_right (Nat.le_refl _), Nat.sub_self]
  rfl

theorem Split.current_nil (h : Split m quote given front text gap []) : m.current = .ok 0 := by
  rw [Scan.current, h.mem_eq, h.src_eq]
  exact octetAt_behind front text gap [] 0

theorem Split.current_cons (h : Split m quote given front text gap (c :: rest)) : m.current = .ok c := by
  rw [Scan.current, h.mem_eq, h.src_eq]
  exact octetAt_behind front text gap (rest ++ [0]) c

/-- What is written takes the place of the first character behind the text. -/
theorem Split.write (h : Split m quote given front text gap rest) (b : UInt8) :
    m.write b = .ok { m with
      mem := front ++ (text ++ b :: (gap ++ (rest ++ [0])).tail)
      writes := m.writes ++ [(m.pos, m.src)] } := by
  have hlt : m.pos < m.mem.length := by
    rw [h.mem_eq, h.pos_eq]
    simp only [length_append, length_singleton]
    omega
  have hne : gap ++ (rest ++ [0]) ≠ [] := by simp
  have hset : m.mem.set m.pos b = front ++ (text ++ b :: (gap ++ (rest ++ [0])).tail) := by
    obtain ⟨x, tail, htail⟩ := exists_cons_of_ne_nil hne
    rw [h.mem_eq, h.pos_eq, htail, tail_cons]
    simp
  rw [Scan.write, if_pos hlt, hset]

/-- The place that is written is not in front of the place that is read. -/
theorem Split.within_snoc (h : Split m quote given front text gap rest) :
    ∀ w ∈ m.writes ++ [(m.pos, m.src)], w.1 ≤ w.2 := by
  intro w hw
  rcases mem_append.1 hw with hw | hw
  · exact h.within w hw
  · rw [mem_singleton.1 hw, h.pos_eq, h.src_eq]
    exact Nat.le_add_right _ _

theorem not_mem_cons (h : (0 : UInt8) ∉ c :: rest) : 0 ≠ c ∧ 0 ∉ rest := by
  rwa [mem_cons, not_or] at h

theorem not_mem_snoc (h : 0 ∉ rest) (hc : 0 ≠ c) : 0 ∉ rest ++ [c] :=
  not_mem_append h fun hmem => hc (mem_singleton.1 hmem)

/-- What is read joins what was not written over. -/
theorem Split.tail_snoc (h : Split m quote given front text gap (c :: rest)) : 0 ∉ (gap ++ [c]).tail := by
  cases gap with
  | nil => exact not_mem_nil
  | cons g gap => exact not_mem_snoc h.gap_noNul (not_mem_cons h.rest_noNul).1

theorem tail_append_singleton (gap : Bytes) (c : UInt8) (rest : Bytes) :
    (gap ++ c :: (rest ++ [0])).tail = (gap ++ [c]).tail ++ (rest ++ [0]) := by
  cases gap with
  | nil => rfl
  | cons g gap => simp

theorem Split.copy (h : Split m quote given front text gap (c :: rest)) :
    ∃ m', m.copy = .ok m' ∧ Split m' quote given front (text ++ [c]) (gap ++ [c]).tail rest := by
  obtain ⟨hc, hrest⟩ := not_mem_cons h.rest_noNul
  have hcopy : m.copy = .ok { m with
      mem := front ++ (text ++ c :: (gap ++ (c :: rest ++ [0])).tail)
      src := m.src + 1
      pos := m.pos + 1
      writes := m.writes ++ [(m.pos, m.src)] } := by
    rw [Scan.copy, h.current_cons]
    simp only [ok_bind, Scan.put, h.write c]
    rfl
  refine ⟨_, hcopy, ?_⟩
  · constructor
    · simp only [tail_append_singleton, append_assoc, cons_append, nil_append]
    · exact h.arg_eq
    · simp only [h.pos_eq, length_append, length_singleton]
      omega
    · simp only [h.src_eq, length_append, length_singleton, length_tail]
      omega
    · exact h.quote_eq
    · exact h.given_eq
    · exact not_mem_snoc h.text_noNul hc
    · exact hrest
    · exact fun hmem => h.tail_snoc (mem_of_mem_tail hmem)
    · exact fun _ => h.tail_snoc
    · exact h.within_snoc

/-- A backslash more is written where a character was read and not written over. -/
theorem Split.put (h : Split m quote given front text (b :: gap) (d :: rest)) (hc : c ≠ 0) :
    ∃ m', m.put c = .ok m' ∧ Split m' quote given front (text ++ [c]) gap (d :: rest) := by
  have hput : m.put c = .ok { m with
      mem := front ++ (text ++ c :: (gap ++ (d :: rest ++ [0])))
      pos := m.pos + 1
      writes := m.writes ++ [(m.pos, m.src)] } := by
    simp only [Scan.put, h.write c]
    rfl
  refine ⟨_, hput, ?_⟩
  · constructor
    · simp only [cons_append, append_assoc, nil_append]
    · exact h.arg_eq
    · simp only [h.pos_eq, length_append, length_singleton]
      omega
    · simp only [h.src_eq, length_append, length_cons, length_nil]
      omega
    · exact h.quote_eq
    · exact h.given_eq
    · exact not_mem_snoc h.text_noNul hc.symm
    · exact h.rest_noNul
    · exact fun hmem => h.gap_noNul (mem_of_mem_tail hmem)
    · exact fun _ => h.gap_noNul
    · exact h.within_snoc

/-- A character that is read and not written. -/
theorem Split.skip (h : Split m quote given front text gap (c :: rest)) (quote' : UInt8) :
    Split { m.next with quote := quote' } quote' given front text (gap ++ [c]) rest := by
  obtain ⟨hc, hrest⟩ := not_mem_cons h.rest_noNul
  constructor
  · simp only [Scan.next, h.mem_eq, append_assoc, cons_append, nil_append]
  · exact h.arg_eq
  · exact h.pos_eq
  · simp only [Scan.next, h.src_eq, length_append, length_singleton]
    omega
  · rfl
  · exact h.given_eq
  · exact h.text_noNul
  · exact hrest
  · exact h.tail_snoc
  · exact fun htext => not_mem_snoc (h.fresh htext) hc
  · exact h.within

/-- A text that is ended and handed on. -/
theorem Split.hand (parse : Bytes → Checked Bytes) (h : Split m quote given front text gap rest) :
    ∃ m', m.write 0 = .ok m' ∧
      m'.hand parse = (parse text >>= fun left => .ok { m' with
        mem := front ++ (left ++ (gap ++ (rest ++ [0])).tail), given := given ++ [text] }) ∧
      m'.pos = m.pos ∧ m'.src = m.src ∧ m'.quote = m.quote ∧ m'.writes = m.writes ++ [(m.pos, m.src)] := by
  have hstr : strchr 0 ((front ++ (text ++ (0 : UInt8) :: (gap ++ (rest ++ [0])).tail)).drop m.arg) =
      some (text, (gap ++ (rest ++ [0])).tail) := by
    rw [h.arg_eq, drop_left, strchr_append h.text_noNul]
  have htake : (front ++ (text ++ (0 : UInt8) :: (gap ++ (rest ++ [0])).tail)).take m.arg = front := by
    rw [h.arg_eq, take_left]
  refine ⟨_, h.write 0, ?_, rfl, rfl, rfl, rfl⟩
  rw [Scan.hand]
  simp only [hstr, htake, h.given_eq, append_assoc]
  rfl

/-- Behind a space a new text begins. -/
theorem Split.space {parse : Bytes → Checked Bytes} {left : Bytes}
    (hparse : parse text = .ok left) (hlength : left.length = text.length + 1)
    (h : Split m quote given front text gap (c :: rest)) :
    ∃ m' m'' front' gap', m.write 0 = .ok m' ∧ m'.hand parse = .ok m'' ∧ gap'.length = gap.length + 1 ∧
      Split { m''.next with arg := m''.pos } quote (given ++ [text]) front' [] gap' rest := by
  obtain ⟨m', hwrite, hhand, hpos, hsrc, hquote, hwrites⟩ := h.hand parse
  obtain ⟨-, hrest⟩ := not_mem_cons h.rest_noNul
  rw [hparse, ok_bind] at hhand
  -- the last octet that is left of the text is behind the new `arg`
  obtain ⟨region, z, rfl⟩ : ∃ region z, left = region ++ [z] := by
    rcases eq_nil_or_concat' left with rfl | hconcat
    · exact absurd hlength (by simp)
    · exact hconcat
  rw [length_append, length_singleton] at hlength
  refine ⟨m', _, front ++ region, z :: (gap ++ [c]).tail, hwrite, hhand, ?_, ?_⟩
  · simp only [length_cons, length_tail, length_append, length_nil]
    omega
  · constructor
    · simp only [Scan.next, cons_append, tail_append_singleton, append_assoc, nil_append]
    · simp only [hpos, h.pos_eq, length_append]
      omega
    · simp only [Scan.next, hpos, h.pos_eq, length_append, length_nil]
      omega
    · simp only [Scan.next, hsrc, h.src_eq, length_append, length_cons, length_nil, length_tail]
      omega
    · exact hquote.trans h.quote_eq
    · rfl
    · exact not_mem_nil
    · exact hrest
    · exact h.tail_snoc
    · exact fun htext => absurd rfl htext
    · intro w hw
      exact h.within_snoc w (hwrites ▸ hw)

/-! ## What was written stays on record -/

theorem write_writes {m' : Scan} (h : m.write b = .ok m') : m'.writes = m.writes ++ [(m.pos, m.src)] := by
  rw [Scan.write] at h
  split at h
  · cases h
    rfl
  · cases h

theorem put_writes {m' : Scan} (h : m.put b = .ok m') : m'.writes = m.writes ++ [(m.pos, m.src)] := by
  obtain ⟨m'', hwrite, heq⟩ := bind_eq_ok.1 h
  cases heq
  have hwrites := write_writes hwrite
  exact hwrites

theorem copy_writes {m' : Scan} (h : m.copy = .ok m') : m'.writes = m.writes ++ [(m.pos, m.src)] := by
  obtain ⟨c, -, h⟩ := bind_eq_ok.1 h
  obtain ⟨m'', hput, heq⟩ := bind_eq_ok.1 h
  cases heq
  have hwrites := put_writes hput
  exact hwrites

theorem hand_writes {parse : Bytes → Checked Bytes} {m' : Scan} (h : m.hand parse = .ok m') :
    m'.writes = m.writes := by
  rw [Scan.hand] at h
  split at h
  · cases h
  · obtain ⟨left, -, heq⟩ := bind_eq_ok.1 h
    cases heq
    rfl

/-- The variables that a turn leaves. -/
def Turn.scan : Turn → Scan
  | .more m => m
  | .ended m => m
  | .cut m => m

section Records

variable {isspace : UInt8 → Bool} {parse : Bytes → Checked Bytes}

theorem turn_writes {turn : Turn} (h : scanTurn isspace parse m = .ok turn) : m.writes <+: turn.scan.writes := by
  have hcopy : ∀ {m m' : Scan}, m.copy = .ok m' → m.writes <+: m'.writes :=
    fun h => ⟨_, (copy_writes h).symm⟩
  obtain ⟨c, -, h⟩ := bind_eq_ok.1 h
  split at h
  · cases h
    exact prefix_rfl
  split at h
  · cases h
    exact prefix_rfl
  split at h
  · split at h
    · obtain ⟨m', hm', h⟩ := bind_eq_ok.1 h
      obtain ⟨d, -, h⟩ := bind_eq_ok.1 h
      split at h
      · cases h
        exact hcopy hm'
      · obtain ⟨m'', hm'', h⟩ := bind_eq_ok.1 h
        obtain ⟨m₃, hm₃, h⟩ := bind_eq_ok.1 h
        cases h
        refine ((hcopy hm').trans ?_).trans (hcopy hm₃)
        rw [Scan.double] at hm''
        split at hm''
        · exact ⟨_, (put_writes hm'').symm⟩
        · cases hm''
          exact prefix_rfl
    · obtain ⟨m', hm', h⟩ := bind_eq_ok.1 h
      cases h
      exact hcopy hm'
  split at h
  · obtain ⟨m', hm', h⟩ := bind_eq_ok.1 h
    obtain ⟨m'', hm'', h⟩ := bind_eq_ok.1 h
    cases h
    have hhand := hand_writes hm''
    exact ⟨_, (hhand.trans (write_writes hm')).symm⟩
  split at h
  · cases h
    exact prefix_rfl
  split at h
  · obtain ⟨m', hm', h⟩ := bind_eq_ok.1 h
    obtain ⟨d, -, h⟩ := bind_eq_ok.1 h
    split at h
    · cases h
      exact hcopy hm'
    · obtain ⟨m'', hm'', h⟩ := bind_eq_ok.1 h
      cases h
      exact (hcopy hm').trans (hcopy hm'')
  · obtain ⟨m', hm', h⟩ := bind_eq_ok.1 h
    cases h
    exact hcopy hm'

theorem loop_writes {fuel : Nat} {turn : Turn} (h : scanLoop isspace parse fuel m = .ok (some turn)) :
    m.writes <+: turn.scan.writes := by
  induction fuel generalizing m with
  | zero => cases h
  | succ fuel ih =>
    rw [scanLoop] at h
    obtain ⟨turn', hturn, h⟩ := bind_eq_ok.1 h
    have hprefix := turn_writes hturn
    cases turn' with
    | more m' => exact hprefix.trans (ih h)
    | ended m' =>
      cases h
      exact hprefix
    | cut m' =>
      cases h
      exact hprefix

end Records

/-! ## The turns -/

section Turns

variable {isspace : UInt8 → Bool} {parse : Bytes → Checked Bytes}

/-- Where a turn goes on: the text and the room behind it, and what is unread. -/
def GoesOn (isspace : UInt8 → Bool) (parse : Bytes → Checked Bytes) (m : Scan) (quote : UInt8)
    (given : List Bytes) (text : Bytes) (room : Nat) (rest : Bytes) : Prop :=
  ∃ m' front gap, scanTurn isspace parse m = .ok (.more m') ∧ gap.length = room ∧
    Split m' quote given front text gap rest

theorem turn_copy (h : Split m quote given front text gap (c :: rest)) :
    ∃ m' gap', m.copy = .ok m' ∧ gap'.length = gap.length ∧
      Split m' quote given front (text ++ [c]) gap' rest := by
  obtain ⟨m', hcopy, hsplit⟩ := h.copy
  refine ⟨m', _, hcopy, ?_, hsplit⟩
  rw [length_tail, length_append, length_singleton, Nat.add_sub_cancel]

/-- The end of the string. -/
theorem turn_ended (h : Split m quote given front text gap []) : scanTurn isspace parse m = .ok (.ended m) := by
  rw [scanTurn, h.current_nil]
  rfl

/-- The quote that matches. -/
theorem turn_close (h : Split m quote given front text gap (quote :: rest)) :
    GoesOn isspace parse m 0 given text (gap.length + 1) rest := by
  obtain ⟨hc, -⟩ := not_mem_cons h.rest_noNul
  refine ⟨_, front, gap ++ [quote], ?_, ?_, h.skip 0⟩
  · rw [scanTurn, h.current_cons]
    simp only [ok_bind, if_neg hc.symm, if_pos h.quote_eq]
    rfl
  · rw [length_append, length_singleton]

/-- A quote that opens. -/
theorem turn_open (h : Split m 0 given front text gap (c :: rest)) (hspace : isspace c = false)
    (hc : c = 0x27 ∨ c = 0x22) : GoesOn isspace parse m c given text (gap.length + 1) rest := by
  obtain ⟨hzero, -⟩ := not_mem_cons h.rest_noNul
  refine ⟨_, front, gap ++ [c], ?_, ?_, h.skip c⟩
  · rw [scanTurn, h.current_cons]
    simp only [ok_bind, if_neg hzero.symm, h.quote_eq, if_neg hzero, ne_eq, not_true_eq_false, if_false, hspace,
      Bool.false_eq_true, if_pos hc]
    rfl
  · rw [length_append, length_singleton]

/-- A space that is not within quotes. -/
theorem turn_space {left : Bytes} (hparse : parse text = .ok left) (hlength : left.length = text.length + 1)
    (h : Split m 0 given front text gap (c :: rest)) (hspace : isspace c = true) :
    GoesOn isspace parse m 0 (given ++ [text]) [] (gap.length + 1) rest := by
  obtain ⟨hzero, -⟩ := not_mem_cons h.rest_noNul
  obtain ⟨m', m'', front', gap', hwrite, hhand, hgap, hsplit⟩ := h.space hparse hlength
  refine ⟨_, front', gap', ?_, hgap, hsplit⟩
  rw [scanTurn, h.current_cons]
  simp only [ok_bind, if_neg hzero.symm, h.quote_eq, if_neg hzero, ne_eq, not_true_eq_false, if_false, hspace, if_true,
    hwrite, hhand]
  rfl

/-- A space at which the text cannot be handed on. -/
theorem turn_space_faults {f : Fault} (hparse : parse text = .error f) (h : Split m 0 given front text gap (c :: rest))
    (hspace : isspace c = true) : scanTurn isspace parse m = .error f := by
  obtain ⟨hzero, -⟩ := not_mem_cons h.rest_noNul
  obtain ⟨m', hwrite, hhand, -⟩ := h.hand parse
  rw [hparse] at hhand
  rw [scanTurn, h.current_cons]
  simp only [ok_bind, if_neg hzero.symm, h.quote_eq, if_neg hzero, ne_eq, not_true_eq_false, if_false, hspace, if_true,
    hwrite, hhand]
  rfl

/-- A character within quotes, or without a meaning of its own. -/
theorem turn_char (h : Split m quote given front text gap (c :: rest)) (hquote : quote ≠ c) (hc : c ≠ backslash)
    (hplain : quote ≠ 0 ∨ isspace c = false ∧ ¬ (c = 0x27 ∨ c = 0x22)) :
    GoesOn isspace parse m quote given (text ++ [c]) gap.length rest := by
  obtain ⟨hzero, -⟩ := not_mem_cons h.rest_noNul
  obtain ⟨m', gap', hcopy, hgap, hsplit⟩ := turn_copy h
  refine ⟨m', front, gap', ?_, hgap, hsplit⟩
  rw [scanTurn, h.current_cons]
  simp only [ok_bind, if_neg hzero.symm, h.quote_eq, if_neg hquote, if_neg hc, hcopy]
  by_cases hq : quote = 0
  · obtain ⟨hspace, hmark⟩ := hplain.resolve_left (not_not_intro hq)
    simp only [hq, ne_eq, not_true_eq_false, if_false, hspace, Bool.false_eq_true, if_neg hmark]
    rfl
  · simp only [ne_eq, hq, not_false_eq_true, if_true]
    rfl

/-- A backslash and the quote, or any character where there are no quotes. -/
theorem turn_escape (hbackslash : isspace backslash = false)
    (h : Split m quote given front text gap (backslash :: d :: rest)) (hquote : quote ≠ backslash)
    (hd : quote = 0 ∨ d = quote) : GoesOn isspace parse m quote given (text ++ [backslash, d]) gap.length rest := by
  obtain ⟨m', gap', hcopy, hgap, hsplit⟩ := turn_copy h
  obtain ⟨m'', gap'', hcopy', hgap', hsplit'⟩ := turn_copy hsplit
  obtain ⟨hzero, -⟩ := not_mem_cons hsplit.rest_noNul
  rw [append_assoc] at hsplit'
  refine ⟨m'', front, gap'', ?_, hgap'.trans hgap, hsplit'⟩
  rw [scanTurn, h.current_cons]
  simp only [ok_bind, if_neg (by decide : ¬ backslash = 0), h.quote_eq, if_neg hquote, hcopy, hsplit.current_cons,
    if_neg hzero.symm]
  rcases hd with rfl | rfl
  · simp only [ne_eq, not_true_eq_false, if_false, hbackslash, Bool.false_eq_true,
      if_neg (by decide : ¬ (backslash = 0x27 ∨ backslash = 0x22)), if_true, hcopy']
    rfl
  · simp only [ne_eq, hzero.symm, not_false_eq_true, if_true, Scan.double, hsplit.quote_eq, not_true_eq_false, if_false, ok_bind, hcopy']
    rfl

/-- A backslash within quotes and another character than the quote, where there is room for one more. -/
theorem turn_extra (h : Split m quote given front text (b :: gap) (backslash :: d :: rest)) (hquote : quote ≠ backslash)
    (hzero : quote ≠ 0) (hd : d ≠ quote) :
    GoesOn isspace parse m quote given (text ++ [backslash, backslash, d]) gap.length rest := by
  obtain ⟨m', gap', hcopy, hgap, hsplit⟩ := turn_copy h
  obtain ⟨hd0, -⟩ := not_mem_cons hsplit.rest_noNul
  obtain ⟨g, gap', rfl⟩ : ∃ g gap'', gap' = g :: gap'' := by
    cases gap' with
    | nil => cases hgap
    | cons g gap' => exact ⟨g, gap', rfl⟩
  obtain ⟨m'', hput, hsplit'⟩ := hsplit.put (c := backslash) (by decide)
  obtain ⟨m₃, gap'', hcopy', hgap', hsplit''⟩ := turn_copy hsplit'
  rw [append_assoc, append_assoc] at hsplit''
  refine ⟨m₃, front, gap'', ?_, ?_, hsplit''⟩
  · rw [scanTurn, h.current_cons]
    simp only [ok_bind, if_neg (by decide : ¬ backslash = 0), h.quote_eq, if_neg hquote, ne_eq, hzero,
      not_false_eq_true, if_true, hcopy, hsplit.current_cons, if_neg hd0.symm, Scan.double, hsplit.quote_eq, hd, hput,
      hcopy']
    rfl
  · rw [hgap']
    exact Nat.succ.inj hgap

/-- Without room the place that is written gets in front of the place that is read. -/
theorem turn_overruns (h : Split m quote given front text [] (backslash :: d :: rest)) (hquote : quote ≠ backslash)
    (hzero : quote ≠ 0) (hd : d ≠ quote) {turn : Turn} (hturn : scanTurn isspace parse m = .ok turn) :
    ∃ m', turn = .more m' ∧ ∃ w ∈ m'.writes, w.2 < w.1 := by
  obtain ⟨m', hcopy, hsplit⟩ := h.copy
  obtain ⟨hd0, -⟩ := not_mem_cons hsplit.rest_noNul
  have hput : m'.put backslash = .ok { m' with
      mem := front ++ (text ++ [backslash] ++ backslash :: (([backslash].tail : Bytes) ++ (d :: rest ++ [0])).tail)
      pos := m'.pos + 1
      writes := m'.writes ++ [(m'.pos, m'.src)] } := by
    simp only [Scan.put, hsplit.write backslash]
    rfl
  rw [scanTurn, h.current_cons] at hturn
  simp only [ok_bind, if_neg (by decide : ¬ backslash = 0), h.quote_eq, if_neg hquote, ne_eq, hzero,
    not_false_eq_true, if_true, hcopy, hsplit.current_cons, if_neg hd0.symm, Scan.double, hsplit.quote_eq, hd, hput]
    at hturn
  obtain ⟨m'', hm'', heq⟩ := bind_eq_ok.1 hturn
  cases heq
  refine ⟨m'', rfl, (m'.pos + 1, m'.src), ?_, ?_⟩
  · rw [copy_writes hm'']
    exact mem_append_right _ (mem_singleton_self _)
  · -- the two places were the same
    have hpos := hsplit.pos_eq
    have hsrc := hsplit.src_eq
    simp only [nil_append, tail_cons, length_nil, Nat.add_zero] at hsrc
    show m'.src < m'.pos + 1
    omega

/-- A backslash that the string ends with. -/
theorem turn_cut (hbackslash : isspace backslash = false) (h : Split m quote given front text gap [backslash])
    (hquote : quote ≠ backslash) :
    ∃ m', scanTurn isspace parse m = .ok (.cut m') ∧ m'.given = given ∧ ∀ w ∈ m'.writes, w.1 ≤ w.2 := by
  obtain ⟨m', gap', hcopy, hgap, hsplit⟩ := turn_copy h
  refine ⟨m', ?_, hsplit.given_eq, hsplit.within⟩
  rw [scanTurn, h.current_cons]
  simp only [ok_bind, if_neg (by decide : ¬ backslash = 0), h.quote_eq, if_neg hquote, hcopy, hsplit.current_nil]
  by_cases hq : quote = 0
  · simp only [hq, ne_eq, not_true_eq_false, if_false, hbackslash, Bool.false_eq_true,
      if_neg (by decide : ¬ (backslash = 0x27 ∨ backslash = 0x22)), if_true]
    rfl
  · simp only [ne_eq, hq, not_false_eq_true, if_true]
    rfl

end Turns

/-! ## The whole string -/

/-- What a symbol does to the text and to the room behind it, and what it ends. -/
inductive After : Symbol → Bytes → Nat → Bytes → Nat → List Bytes → Prop where
  | mark (text : Bytes) (room : Nat) : After .mark text room text (room + 1) []
  | space (text : Bytes) (room : Nat) : After .space text room [] (room + 1) [text]
  | char (c : UInt8) (text : Bytes) (room : Nat) : After (.char c) text room (text ++ [c]) room []
  | escape (c : UInt8) (text : Bytes) (room : Nat) : After (.escape c) text room (text ++ [backslash, c]) room []
  | extra (c : UInt8) (text : Bytes) (room : Nat) :
      After (.extra c) text (room + 1) (text ++ [backslash, backslash, c]) room []

section

variable {sym : Symbol} {text' : Bytes} {room room' : Nat} {ended : List Bytes}
  (h : After sym text room text' room' ended) (syms : List Symbol)

include h syms

theorem After.pieces_eq :
    pieces text (sym :: syms) = (ended ++ (pieces text' syms).1, (pieces text' syms).2) := by
  cases h with
  | mark =>
    show pieces (text ++ []) syms = _
    rw [append_nil]
    rfl
  | space => rfl
  | char => rfl
  | escape => rfl
  | extra => rfl

theorem After.room_iff : Room room (sym :: syms) ↔ Room room' syms := by
  cases h with
  | mark => rfl
  | space => rfl
  | char => rfl
  | escape => rfl
  | extra => exact and_iff_right (Nat.succ_pos _)

theorem After.leftOver_eq : leftOver room (sym :: syms) = leftOver room' syms := by
  cases h with
  | mark => rfl
  | space => rfl
  | char => rfl
  | escape => rfl
  | extra => rfl

end

section Runs

variable {isspace : UInt8 → Bool} {parse : Bytes → Checked Bytes}

/-- `parse_argument` does not fault for the text. -/
def Parses (parse : Bytes → Checked Bytes) (text : Bytes) : Prop := ∃ left, parse text = .ok left

theorem not_parses {f : Fault} (h : parse text = .error f) : ¬ Parses parse text := by
  rintro ⟨left, hleft⟩
  rw [h] at hleft
  cases hleft

/-- A turn does what the next symbol says, or it overruns for want of room, or the text cannot be handed on. -/
theorem turn_cases (hbackslash : isspace backslash = false)
    (hparse : ∀ text left, parse text = .ok left → left.length = text.length + 1) (hquote : quote ≠ backslash)
    (h : Split m quote given front text gap (c :: rest)) :
    (∃ sym text' room' ended quote' rest',
      symbols isspace quote (c :: rest) = sym :: symbols isspace quote' rest' ∧
      After sym text gap.length text' room' ended ∧ (∀ t ∈ ended, Parses parse t) ∧ quote' ≠ backslash ∧
      rest'.length ≤ rest.length ∧ GoesOn isspace parse m quote' (given ++ ended) text' room' rest') ∨
    (symbols isspace quote (c :: rest) = [.cut] ∧
      ∃ m', scanTurn isspace parse m = .ok (.cut m') ∧ m'.given = given ∧ ∀ w ∈ m'.writes, w.1 ≤ w.2) ∨
    (∃ d syms, symbols isspace quote (c :: rest) = .extra d :: syms ∧ gap = [] ∧
      ∀ turn, scanTurn isspace parse m = .ok turn → ∃ m', turn = .more m' ∧ ∃ w ∈ m'.writes, w.2 < w.1) ∨
    (∃ syms, symbols isspace quote (c :: rest) = .space :: syms ∧ ¬ Parses parse text ∧
      ∃ f, scanTurn isspace parse m = .error f) := by
  have hnone : ∀ t ∈ ([] : List Bytes), Parses parse t := fun _ h => absurd h not_mem_nil
  rw [symbols.eq_def]
  dsimp only
  split
  · rename_i heq
    subst heq
    refine .inl ⟨_, _, _, _, 0, rest, rfl, After.mark text gap.length, hnone, by decide, Nat.le_refl _, ?_⟩
    rw [append_nil]
    exact turn_close h
  rename_i hclose
  split
  · rename_i heq
    subst heq
    cases rest with
    | nil => exact .inr (.inl ⟨rfl, turn_cut hbackslash h hquote⟩)
    | cons d rest =>
      by_cases hextra : quote ≠ 0 ∧ d ≠ quote
      · simp only [if_pos hextra]
        cases gap with
        | nil =>
          refine .inr (.inr (.inl ⟨d, _, rfl, rfl, fun turn hturn => ?_⟩))
          exact turn_overruns h hquote hextra.1 hextra.2 hturn
        | cons g gap =>
          refine .inl ⟨_, _, _, _, quote, rest, rfl, After.extra d text gap.length, hnone, hquote, Nat.le_succ _, ?_⟩
          rw [append_nil]
          exact turn_extra h hquote hextra.1 hextra.2
      · simp only [if_neg hextra]
        refine .inl ⟨_, _, _, _, quote, rest, rfl, After.escape d text gap.length, hnone, hquote, Nat.le_succ _, ?_⟩
        rw [append_nil]
        apply turn_escape hbackslash h hquote
        rw [Decidable.not_and_iff_not_or_not] at hextra
        exact hextra.imp Decidable.not_not.1 Decidable.not_not.1
  rename_i hslash
  split
  · rename_i hzero
    refine .inl ⟨_, _, _, _, quote, rest, rfl, After.char c text gap.length, hnone, hquote, Nat.le_refl _, ?_⟩
    rw [append_nil]
    exact turn_char h hclose hslash (.inl hzero)
  rename_i hzero
  obtain rfl : quote = 0 := Decidable.not_not.1 hzero
  split
  · rename_i hspace
    cases hleft : parse text with
    | error f =>
      exact .inr (.inr (.inr ⟨_, rfl, not_parses hleft, f, turn_space_faults hleft h hspace⟩))
    | ok left =>
      refine .inl ⟨_, _, _, _, 0, rest, rfl, After.space text gap.length, ?_, by decide, Nat.le_refl _,
        turn_space hleft (hparse _ _ hleft) h hspace⟩
      intro t ht
      rw [mem_singleton.1 ht]
      exact ⟨left, hleft⟩
  rename_i hspace
  split
  · rename_i hmark
    refine .inl ⟨_, _, _, _, c, rest, rfl, After.mark text gap.length, hnone, hslash, Nat.le_refl _, ?_⟩
    rw [append_nil]
    exact turn_open h (Bool.eq_false_iff.2 hspace) hmark
  · rename_i hmark
    refine .inl ⟨_, _, _, _, 0, rest, rfl, After.char c text gap.length, hnone, hquote, Nat.le_refl _, ?_⟩
    rw [append_nil]
    exact turn_char h hclose hslash (.inr ⟨Bool.eq_false_iff.2 hspace, hmark⟩)

/-- What the loop comes to where there is room: every text that a space ends was handed on, and the last one is there
if the string does not end with a backslash. -/
def LoopRight (given : List Bytes) (text : Bytes) (room : Nat) (syms : List Symbol) (turn : Turn) : Prop :=
  match (pieces text syms).2 with
  | none => ∃ m, turn = .cut m ∧ m.given = given ++ (pieces text syms).1 ∧ ∀ w ∈ m.writes, w.1 ≤ w.2
  | some last =>
    ∃ m quote front gap, turn = .ended m ∧ gap.length = leftOver room syms ∧
      Split m quote (given ++ (pieces text syms).1) front last gap []

theorem After.loopRight {sym : Symbol} {text' : Bytes} {room room' : Nat} {ended : List Bytes}
    (h : After sym text room text' room' ended) {syms : List Symbol} {turn : Turn}
    (hright : LoopRight (given ++ ended) text' room' syms turn) : LoopRight given text room (sym :: syms) turn := by
  rw [LoopRight] at hright ⊢
  rw [h.pieces_eq, h.leftOver_eq]
  rwa [append_assoc] at hright

section

variable (hbackslash : isspace backslash = false)
  (hparse : ∀ text left, parse text = .ok left → left.length = text.length + 1)
  {fuel : Nat} (hquote : quote ≠ backslash) (h : Split m quote given front text gap rest)

include hbackslash hparse hquote h

theorem loop_right (hfuel : rest.length < fuel) (hroom : Room gap.length (symbols isspace quote rest))
    (hfine : ∀ t ∈ (pieces text (symbols isspace quote rest)).1, Parses parse t) :
    ∃ turn, scanLoop isspace parse fuel m = .ok (some turn) ∧
      LoopRight given text gap.length (symbols isspace quote rest) turn := by
  induction fuel generalizing m quote given front text gap rest with
  | zero => exact absurd hfuel (Nat.not_lt_zero _)
  | succ fuel ih =>
    cases rest with
    | nil =>
      refine ⟨.ended m, ?_, m, quote, front, gap, rfl, rfl, ?_⟩
      · rw [scanLoop, turn_ended h]
        rfl
      · rw [symbols, pieces, append_nil]
        exact h
    | cons c rest =>
      rcases turn_cases hbackslash hparse hquote h with
        ⟨sym, text', room', ended, quote', rest', hsyms, hafter, -, hquote', hle, m', front', gap', hturn, hgap,
          hsplit⟩ | ⟨hsyms, m', hturn, hgiven, hwithin⟩ | ⟨d, syms, hsyms, hgap, -⟩ | ⟨syms, hsyms, hbad, -⟩
      · -- one symbol, and those behind it
        rw [hsyms, hafter.room_iff, ← hgap] at hroom
        rw [hsyms, hafter.pieces_eq] at hfine
        rw [length_cons] at hfuel
        obtain ⟨turn, hloop, hright⟩ := ih hquote' hsplit (by omega) hroom
          fun t ht => hfine t (mem_append_right _ ht)
        rw [hgap] at hright
        refine ⟨turn, ?_, ?_⟩
        · rw [scanLoop, hturn]
          exact hloop
        · rw [hsyms]
          exact hafter.loopRight hright
      · refine ⟨.cut m', ?_, ?_⟩
        · rw [scanLoop, hturn]
          rfl
        · rw [hsyms]
          refine ⟨m', rfl, ?_, hwithin⟩
          rw [hgiven, pieces, append_nil]
      · rw [hsyms, hgap] at hroom
        exact absurd hroom.1 (Nat.lt_irrefl 0)
      · rw [hsyms] at hfine
        exact absurd (hfine text mem_cons_self) hbad

/-- Where the loop comes to an end, the texts that end at a space were handed on. -/
theorem loop_parses (hroom : Room gap.length (symbols isspace quote rest)) {turn : Turn}
    (hturn : scanLoop isspace parse fuel m = .ok (some turn)) :
    ∀ t ∈ (pieces text (symbols isspace quote rest)).1, Parses parse t := by
  induction fuel generalizing m quote given front text gap rest with
  | zero => cases hturn
  | succ fuel ih =>
    rw [scanLoop] at hturn
    obtain ⟨turn', hturn', hloop⟩ := bind_eq_ok.1 hturn
    cases rest with
    | nil => exact fun t ht => absurd ht not_mem_nil
    | cons c rest =>
      rcases turn_cases hbackslash hparse hquote h with
        ⟨sym, text', room', ended, quote', rest', hsyms, hafter, hended, hquote', -, m', front', gap', hmore, hgap,
          hsplit⟩ | ⟨hsyms, -⟩ | ⟨d, syms, hsyms, hgap, -⟩ | ⟨syms, -, -, f, hfault⟩
      · rw [hsyms, hafter.room_iff, ← hgap] at hroom
        rw [hmore] at hturn'
        cases hturn'
        rw [hsyms, hafter.pieces_eq]
        exact fun t ht => (mem_append.1 ht).elim (hended t) (ih hquote' hsplit hroom hloop t)
      · rw [hsyms]
        exact fun t ht => absurd ht not_mem_nil
      · rw [hsyms, hgap] at hroom
        exact absurd hroom.1 (Nat.lt_irrefl 0)
      · rw [hfault] at hturn'
        cases hturn'

theorem loop_overruns (hroom : ¬ Room gap.length (symbols isspace quote rest)) {turn : Turn}
    (hturn : scanLoop isspace parse fuel m = .ok (some turn)) : ∃ w ∈ turn.scan.writes, w.2 < w.1 := by
  induction fuel generalizing m quote given front text gap rest with
  | zero => cases hturn
  | succ fuel ih =>
    rw [scanLoop] at hturn
    obtain ⟨turn', hturn', hloop⟩ := bind_eq_ok.1 hturn
    cases rest with
    | nil => exact absurd trivial hroom
    | cons c rest =>
      rcases turn_cases hbackslash hparse hquote h with
        ⟨sym, text', room', ended, quote', rest', hsyms, hafter, -, hquote', -, m', front', gap', hmore, hgap,
          hsplit⟩ | ⟨hsyms, -⟩ | ⟨d, syms, -, -, hover⟩ | ⟨syms, -, -, f, hfault⟩
      · rw [hsyms, hafter.room_iff, ← hgap] at hroom
        rw [hmore] at hturn'
        cases hturn'
        exact ih hquote' hsplit hroom hloop
      · rw [hsyms] at hroom
        exact absurd trivial hroom
      · obtain ⟨m', rfl, w, hw, hlt⟩ := hover turn' hturn'
        exact ⟨w, (loop_writes hloop).subset hw, hlt⟩
      · rw [hfault] at hturn'
        cases hturn'

end

end Runs

/-! ## What is handed on -/

/-- The place that is written is never in front of the place that is read, and these are the arguments. -/
def Right (run : Checked (Option Scan)) (arguments : List Bytes) : Prop :=
  ∃ m, run = .ok (some m) ∧ (∀ w ∈ m.writes, w.1 ≤ w.2) ∧ m.given = arguments

/-- There is room for every doubled backslash, and no space that is not within quotes ends an empty text. -/
def Clean (isspace : UInt8 → Bool) (string : Bytes) : Prop :=
  Room 0 (symbols isspace 0 string) ∧ [] ∉ (pieces [] (symbols isspace 0 string)).1

/-- The string does not end within an argument, or as much was written of it as was read. -/
def EndsAlike (isspace : UInt8 → Bool) (string : Bytes) : Prop :=
  (pieces [] (symbols isspace 0 string)).2.getD [] = [] ∨ leftOver 0 (symbols isspace 0 string) = 0

theorem filter_eq_iff (texts : List Bytes) : texts = texts.filter (· ≠ []) ↔ [] ∉ texts := by
  rw [eq_comm, filter_eq_self]
  constructor
  · intro hall hmem
    exact absurd (hall [] hmem) (by decide)
  · intro hmem text htext
    apply decide_eq_true
    rintro rfl
    exact hmem htext

/-- The texts of the spaces, and another one, are the arguments if that is the last one and none of the others is
empty. -/
theorem snoc_eq_filter_iff {texts : List Bytes} {given last : Bytes} (hlast : last ≠ []) :
    texts ++ [given] = (texts ++ [last]).filter (· ≠ []) ↔ given = last ∧ [] ∉ texts := by
  have hkept : [last].filter (· ≠ []) = [last] := by
    apply filter_eq_self.2
    intro text htext
    rw [mem_singleton.1 htext]
    exact decide_eq_true hlast
  rw [filter_append, hkept]
  constructor
  · intro h
    obtain ⟨htexts, hgiven⟩ := append_inj' h rfl
    exact ⟨(List.cons.inj hgiven).1, (filter_eq_iff texts).1 htexts⟩
  · rintro ⟨rfl, hmem⟩
    rw [← (filter_eq_iff texts).2 hmem]

theorem split_start {string : Bytes} (h : 0 ∉ string) : Split (scanStart string) 0 [] [] [] [] string where
  mem_eq := rfl
  arg_eq := rfl
  pos_eq := rfl
  src_eq := rfl
  quote_eq := rfl
  given_eq := rfl
  text_noNul := not_mem_nil
  rest_noNul := h
  gap_noNul := not_mem_nil
  fresh := fun htext => absurd rfl htext
  within := fun _ hw => absurd hw not_mem_nil

theorem length_gStrstrip (text : Bytes) : (gStrstrip text).length = text.length + 1 := by
  have hchug := length_dropWhile_le gAsciiIsspace text
  have hchomp := length_dropWhile_le gAsciiIsspace (text.dropWhile gAsciiIsspace).reverse
  rw [length_reverse] at hchomp
  simp only [gStrstrip, length_append, length_replicate, length_cons, length_drop,
    length_reverse, length_nil]
  omega

theorem length_splitArgument (text : Bytes) :
    (splitArgument text).1.length + ((splitArgument text).2.map (·.length + 1)).getD 0 = text.length := by
  have hle := ( takeWhile_prefix (l := text) fun c : UInt8 => c != 0x3a && c != 0x3d).length_le
  have hdrop := @length_drop _ (text.takeWhile fun c => c != 0x3a && c != 0x3d).length text
  rw [splitArgument]
  split <;> rename_i heq
  · rw [heq, length_nil] at hdrop
    simp only [Option.map_none, Option.getD_none]
    omega
  · rw [heq, length_cons] at hdrop
    simp only [Option.map_some, Option.getD_some]
    omega

theorem length_parseArgument (text left : Bytes) (h : parseArgument text = .ok left) :
    left.length = text.length + 1 := by
  have hlength := length_splitArgument text
  rw [parseArgument] at h
  split at h <;> rename_i heq <;> cases h
  · simp only [heq, Option.map_none, Option.getD_none] at hlength
    rw [length_gStrstrip]
    omega
  · simp only [heq, Option.map_some, Option.getD_some] at hlength
    rw [length_append, length_gStrstrip, length_gStrstrip]
    omega

theorem parses_parseArgument (text : Bytes) : Parses parseArgument text := by
  rw [Parses, parseArgument]
  split
  · exact ⟨_, rfl⟩
  · exact ⟨_, rfl⟩

theorem length_rpcParseArgument (text left : Bytes) (h : rpcParseArgument text = .ok left) :
    left.length = text.length + 1 := by
  have hlength := length_splitArgument text
  rw [rpcParseArgument] at h
  split at h <;> rename_i heq
  · split at h
    · cases h
    · cases h
      simp only [heq, Option.map_none, Option.getD_none] at hlength
      rw [length_append, length_singleton]
      omega
  · cases h
    simp only [heq, Option.map_some, Option.getD_some] at hlength
    simp only [length_append, length_cons, length_nil]
    omega

/-- A text without a value is its name. -/
theorem splitArgument_none {text name : Bytes} (h : splitArgument text = (name, none)) : name = text := by
  have hlength := length_splitArgument text
  rw [h, Option.map_none, Option.getD_none, Nat.add_zero] at hlength
  have hprefix : (splitArgument text).1 <+: text := by
    rw [splitArgument]
    split
    · exact takeWhile_prefix _
    · exact takeWhile_prefix _
  rw [h] at hprefix
  exact hprefix.eq_of_length hlength

/-- `parse_argument` of `gkm-rpc-module.c` does not get over a `socket` alone. -/
theorem parses_rpcParseArgument_iff (text : Bytes) : Parses rpcParseArgument text ↔ text ≠ ascii "socket" := by
  constructor
  · rintro ⟨left, hleft⟩ rfl
    cases hleft
  · intro hne
    rw [Parses, rpcParseArgument]
    split <;> rename_i heq
    · rw [splitArgument_none heq, if_neg hne]
      exact ⟨_, rfl⟩
    · exact ⟨_, rfl⟩

/-- What a call behind the loop does: the text is handed on, or it cannot be. -/
def Finishes (parse : Bytes → Checked Bytes) (given : List Bytes) (text : Bytes)
    (run : Checked Scan) : Prop :=
  (Parses parse text ∧ ∃ m, run = .ok m ∧ m.given = given ++ [text] ∧ ∀ w ∈ m.writes, w.1 ≤ w.2) ∨
    (¬ Parses parse text ∧ ∃ f, run = .error f)

/-- The text that is left at the end, with a null character behind it. -/
theorem hand_terminated {parse : Bytes → Checked Bytes}
    (h : Split m quote given front text gap []) : Finishes parse given text (m.write 0 >>= Scan.hand parse) := by
  obtain ⟨m', hwrite, hhand, -, -, -, hwrites⟩ := h.hand parse
  rw [hwrite, ok_bind, hhand]
  cases hleft : parse text with
  | error f => exact .inr ⟨not_parses hleft, f, rfl⟩
  | ok left => exact .inl ⟨⟨left, hleft⟩, _, rfl, rfl, fun w hw => h.within_snoc w (hwrites ▸ hw)⟩

/-- Without one the text goes on to the end of the string. -/
theorem hand_unterminated {parse : Bytes → Checked Bytes}
    (h : Split m quote given front text gap []) (htext : text ≠ []) :
    Finishes parse given (text ++ gap) (m.hand parse) := by
  have hnoNul : 0 ∉ text ++ gap := not_mem_append h.text_noNul (h.fresh htext)
  have hstr : strchr 0 (m.mem.drop m.arg) = some (text ++ gap, []) := by
    rw [h.mem_eq, h.arg_eq, drop_left, nil_append, ← append_assoc]
    exact strchr_append hnoNul
  have hhand : m.hand parse = (parse (text ++ gap) >>= fun left => .ok { m with
      mem := m.mem.take m.arg ++ left ++ [], given := given ++ [text ++ gap] }) := by
    rw [Scan.hand, hstr, ← h.given_eq]
    rfl
  rw [hhand]
  cases hleft : parse (text ++ gap) with
  | error f => exact .inr ⟨not_parses hleft, f, rfl⟩
  | ok left => exact .inl ⟨⟨left, hleft⟩, _, rfl, rfl, h.within⟩

theorem pos_ne_arg_iff (h : Split m quote given front text gap rest) : m.pos ≠ m.arg ↔ text ≠ [] := by
  rw [h.pos_eq, h.arg_eq, ne_eq, ne_eq, ← length_eq_zero_iff]
  omega

/-- A run that ends in an overrun is not right. -/
theorem not_right_of_overrun {run : Checked (Option Scan)} {arguments : List Bytes}
    (h : ∀ m, run = .ok (some m) → ∃ w ∈ m.writes, w.2 < w.1) : ¬ Right run arguments := by
  rintro ⟨m, hrun, hwithin, -⟩
  obtain ⟨w, hw, hlt⟩ := h m hrun
  exact absurd (hwithin w hw) (Nat.not_le.2 hlt)

/-- A run that never overruns is right if these are the texts. -/
theorem right_iff_of_run {run : Checked (Option Scan)} {arguments : List Bytes} {m : Scan}
    (hrun : run = .ok (some m)) (hwithin : ∀ w ∈ m.writes, w.1 ≤ w.2) :
    Right run arguments ↔ m.given = arguments := by
  constructor
  · rintro ⟨m', hrun', -, hgiven⟩
    rw [hrun] at hrun'
    cases hrun'
    exact hgiven
  · intro hgiven
    exact ⟨m, hrun, hwithin, hgiven⟩

/-- The texts are handed on, and the last one among the arguments. -/
theorem parses_tokens_iff {parse : Bytes → Checked Bytes} {texts : List Bytes}
    {last : Bytes} (hlast : last ≠ []) (hmem : [] ∉ texts) :
    (∀ t ∈ (texts ++ [last]).filter (· ≠ []), Parses parse t) ↔ (∀ t ∈ texts, Parses parse t) ∧ Parses parse last := by
  rw [← (snoc_eq_filter_iff hlast).2 ⟨rfl, hmem⟩, forall_mem_append, forall_mem_singleton]

/-- The end of a run, for a `finish` that hands on the last text, and with it the rest of the string if it writes no
null character. -/
theorem scan_right_iff {isspace : UInt8 → Bool} {parse : Bytes → Checked Bytes}
    {finish : Scan → Checked Scan} {unterminated : Bool} {string : Bytes}
    (hslash : isspace backslash = false)
    (hparse : ∀ text left, parse text = .ok left → left.length = text.length + 1)
    (hrecord : ∀ m m', finish m = .ok m' → m.writes <+: m'.writes)
    (hfinish : ∀ m quote given front text gap, Split m quote given front text gap [] → text ≠ [] →
      Finishes parse given (text ++ if unterminated then gap else []) (finish m)) (h : 0 ∉ string) :
    Right (scanLoop isspace parse (string.length + 1) (scanStart string) >>= afterLoop finish)
        (tokens isspace string) ↔
      Clean isspace string ∧ (unterminated = true → EndsAlike isspace string) ∧
        ∀ t ∈ tokens isspace string, Parses parse t := by
  have hstart := split_start h
  by_cases hroom : Room 0 (symbols isspace 0 string)
  · by_cases hfine : ∀ t ∈ (pieces [] (symbols isspace 0 string)).1, Parses parse t
    · obtain ⟨turn, hloop, hright⟩ := loop_right hslash hparse (by decide) hstart (Nat.lt_succ_self _) hroom hfine
      rw [hloop, ok_bind, Clean, and_iff_right hroom, EndsAlike, tokens]
      rw [LoopRight, nil_append] at hright
      generalize pieces [] (symbols isspace 0 string) = p at hright hfine ⊢
      obtain ⟨ended, last⟩ := p
      cases last with
      | none =>
        obtain ⟨m, rfl, hgiven, hwithin⟩ := hright
        have hrun : afterLoop finish (some (.cut m)) = .ok (some m) := rfl
        rw [right_iff_of_run hrun hwithin, hgiven, Option.toList_none, append_nil, filter_eq_iff]
        exact (and_iff_left ⟨fun _ => .inl rfl, fun t ht => hfine t (mem_of_mem_filter ht)⟩).symm
      | some last =>
        obtain ⟨m, quote, front, gap, rfl, hgap, hsplit⟩ := hright
        have hleft : gap.length = leftOver 0 (symbols isspace 0 string) := hgap
        by_cases htext : last = []
        · -- no text is left
          have hpos : ¬ m.pos ≠ m.arg := fun hne => (pos_ne_arg_iff hsplit).1 hne htext
          have hrun : afterLoop finish (some (.ended m)) = .ok (some m) := if_neg hpos
          rw [right_iff_of_run hrun hsplit.within, hsplit.given_eq, htext]
          have hdrop : (ended ++ (some []).toList).filter (· ≠ []) = ended.filter (· ≠ []) := by simp
          rw [hdrop, filter_eq_iff]
          exact (and_iff_left ⟨fun _ => .inl rfl, fun t ht => hfine t (mem_of_mem_filter ht)⟩).symm
        · have halike : (unterminated = true → last = [] ∨ gap.length = 0) ↔
              last ++ (if unterminated then gap else []) = last := by
            rw [or_iff_right htext, append_right_eq_self, length_eq_zero_iff]
            cases unterminated with
            | false => simp
            | true => simp
          have hended := hfinish m quote _ front last gap hsplit htext
          rw [← hleft, Option.getD_some, Option.toList_some, halike, afterLoop,
            if_pos ((pos_ne_arg_iff hsplit).2 htext)]
          generalize last ++ (if unterminated then gap else []) = handed at hended ⊢
          rcases hended with ⟨hparses, m', hm', hgiven, hwithin⟩ | ⟨hbad, f, hf⟩
          · have hrun : (finish m).map some = .ok (some m') := by rw [hm', Except.map]
            rw [right_iff_of_run hrun hwithin, hgiven, snoc_eq_filter_iff htext]
            constructor
            · rintro ⟨rfl, hmem⟩
              exact ⟨hmem, rfl, (parses_tokens_iff htext hmem).2 ⟨hfine, hparses⟩⟩
            · rintro ⟨hmem, hsame, -⟩
              exact ⟨hsame, hmem⟩
          · refine iff_of_false ?_ ?_
            · rintro ⟨m', hrun, -⟩
              rw [hf] at hrun
              cases hrun
            · rintro ⟨hmem, rfl, hall⟩
              exact hbad ((parses_tokens_iff htext hmem).1 hall).2
    · refine iff_of_false ?_ ?_
      · rintro ⟨m, hrun, -⟩
        obtain ⟨turn, hloop, hafter⟩ := bind_eq_ok.1 hrun
        cases turn with
        | none => cases hafter
        | some turn => exact hfine (loop_parses hslash hparse (by decide) hstart hroom hloop)
      · rintro ⟨⟨-, hmem⟩, -, hall⟩
        refine hfine fun t ht => hall t (mem_filter.2 ⟨mem_append_left _ ht, decide_eq_true ?_⟩)
        rintro rfl
        exact hmem ht
  · refine iff_of_false (not_right_of_overrun fun m hrun => ?_) fun hclean => hroom hclean.1.1
    obtain ⟨turn, hloop, hafter⟩ := bind_eq_ok.1 hrun
    cases turn with
    | none => cases hafter
    | some turn =>
      obtain ⟨w, hw, hlt⟩ := loop_overruns hslash hparse (by decide) hstart hroom hloop
      refine ⟨w, ?_, hlt⟩
      cases turn with
      | more m' => cases hafter
      | cut m' =>
        cases hafter
        exact hw
      | ended m' =>
        rw [afterLoop] at hafter
        split at hafter
        · cases hm : finish m' with
          | error f =>
            rw [hm] at hafter
            cases hafter
          | ok m'' =>
            rw [hm] at hafter
            cases hafter
            exact (hrecord _ _ hm).subset hw
        · cases hafter
          exact hw

/-- Both functions hand on the arguments that are meant exactly where there is room for every doubled backslash and no
space ends an empty text, and that of the RPC module where moreover the last argument ends with the string and no
argument is `socket` alone. -/
theorem parse_arguments_right_iff {string : Bytes} (h : 0 ∉ string) :
    (Right (parseArguments string) (tokens gAsciiIsspace string) ↔ Clean gAsciiIsspace string) ∧
    (Right (rpcParseArguments string) (tokens Lib.isSpace string) ↔
      Clean Lib.isSpace string ∧ EndsAlike Lib.isSpace string ∧ ascii "socket" ∉ tokens Lib.isSpace string) := by
  constructor
  · have hright := @scan_right_iff gAsciiIsspace parseArgument (fun m => do
        let m ← m.write 0
        m.hand parseArgument) false string (by decide) length_parseArgument ?_ ?_ h
    · rw [and_iff_left ⟨fun h => absurd h Bool.false_ne_true, fun t _ => parses_parseArgument t⟩] at hright
      exact hright
    · intro m m' hfinish
      obtain ⟨m'', hwrite, hhand⟩ := bind_eq_ok.1 hfinish
      exact ⟨_, (hand_writes hhand).trans (write_writes hwrite) |>.symm⟩
    · intro m quote given front text gap hsplit htext
      rw [if_neg Bool.false_ne_true, append_nil]
      exact hand_terminated hsplit
  · have hright := @scan_right_iff Lib.isSpace rpcParseArgument (fun m => m.hand rpcParseArgument) true string
      (by decide) length_rpcParseArgument ?_ ?_ h
    · rw [forall_prop_of_true rfl] at hright
      refine hright.trans (and_congr_right fun _ => and_congr_right fun _ => ?_)
      simp only [parses_rpcParseArgument_iff]
      exact ⟨fun hall hmem => hall _ hmem rfl, fun hnot t ht heq => hnot (heq ▸ ht)⟩
    · intro m m' hfinish
      exact ⟨[], by rw [hand_writes hfinish, append_nil]⟩
    · intro m quote given front text gap hsplit htext
      exact hand_unterminated hsplit htext

/-- Two arguments, one of them with a quoted space and an escape that the opening quote makes room for. -/
theorem parse_arguments_right_sample :
    Right (parseArguments [0x61, 0x20, 0x22, 0x20, 0x5c, 0x63, 0x22, 0x20])
        [[0x61], [0x20, 0x5c, 0x5c, 0x63]] ∧
      Right (rpcParseArguments [0x61, 0x20, 0x22, 0x20, 0x5c, 0x63, 0x22, 0x20])
        [[0x61], [0x20, 0x5c, 0x5c, 0x63]] := by
  have hright := @parse_arguments_right_iff [0x61, 0x20, 0x22, 0x20, 0x5c, 0x63, 0x22, 0x20] (by decide)
  have hroom : 0 < 2 ∧ True := ⟨by decide, trivial⟩
  exact ⟨hright.1.2 ⟨hroom, by decide⟩, hright.2.2 ⟨⟨hroom, by decide⟩, .inl rfl, by decide⟩⟩

/-- Of two doubled backslashes within quotes, the second is written over the character that is to be read, and then on
behind the end of the memory. -/
theorem escapes_overrun :
    ¬ Right (parseArguments [0x22, 0x5c, 0x61, 0x5c, 0x62, 0x22])
      (tokens gAsciiIsspace [0x22, 0x5c, 0x61, 0x5c, 0x62, 0x22]) := by
  rintro ⟨m, hrun, -⟩
  have hfault : parseArguments [0x22, 0x5c, 0x61, 0x5c, 0x62, 0x22] = .error .outOfBounds := rfl
  rw [hfault] at hrun
  cases hrun

end MateKeyring.Gkm.Arguments
