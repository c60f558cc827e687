import MateKeyring.Gkm.Arguments
import MateKeyring.Lib.Base64
import MateKeyring.Mate2.File
import MateKeyring.Ssh.PublicBlob

/-!
# The line of a public key

`gkm_ssh_openssh_parse_public_key`. Blank lines and lines with a `#` are skipped; the first octet behind them is
looked at also where there is none (`Skipped`). The line has a key type, the key in base64, and a comment. All that is
behind the key type is decoded, so that the octets of the comment come behind those of the key. A whole key is not
changed by them, but one that is cut short can be completed. The comment is given without the blanks in front of it,
and only to its first null character.
-/

set_option autoImplicit false

namespace MateKeyring.Ssh.Openssh

open Lib Egg List
open Gkm.Arguments (gAsciiIsspace)
open Mate2 (GkmDataResult)

/-! ## Parsing -/

/-- The loop that looks for a key line; `none` is that there is none. The fuel is for the lines. -/
def lookForKeyLine : Nat → Bytes → Checked (Option Bytes)
  | 0, _ => .ok none
  | fuel + 1, data =>
    match data.dropWhile gAsciiIsspace with
    -- `data[0]` is looked at, and not `n_data`
    | [] => .error .outOfBounds
    | c :: rest =>
      if c ≠ 0x23 then .ok (some (c :: rest))
      else
        match strchr 0x0a (c :: rest) with
        | none => .ok none
        | some (_, next) => lookForKeyLine fuel next

/-- What there is before the first newline. -/
def firstLine (data : Bytes) : Bytes :=
  match strchr 0x0a data with
  | none => data
  | some (line, _) => line

/-- `' '` or `'\t'` -/
def isBlank (c : UInt8) : Bool := c == 0x20 || c == 0x09

/-- `g_strndup` -/
def gStrndup (data : Bytes) : Bytes := data.takeWhile (· ≠ 0)

/-- `g_base64_decode_step` into the memory of `g_malloc (n_data * 3 / 4)`. -/
def decodeInto (data : Bytes) : Checked Bytes :=
  if (Base64.decode data).length ≤ data.length * 3 / 4 then .ok (Base64.decode data) else .error .outOfBounds

/-- What `gkm_ssh_openssh_parse_public_key` returns and sets. -/
structure Parsed where
  result : GkmDataResult
  sexp : Option PublicKey
  comment : Option Bytes
  deriving DecidableEq, Repr

variable (scan : MpiScan)

/-- What follows the key type. -/
def parseBase64 (rest : Bytes) : Checked Parsed := do
  let data := rest.dropWhile isBlank
  let decoded ← decodeInto data
  let key ← readBlob scan decoded
  match key with
  | none => pure ⟨.failure, none, none⟩
  | some key =>
    -- the next space is where the base64 ends
    let left := (data.dropWhile (· ≠ 0x20)).dropWhile isBlank
    pure ⟨.success, some key, if left = [] then none else some (gStrndup left)⟩

/-- The line of a key. -/
def parseLine (line : Bytes) : Checked Parsed :=
  match strchr 0x20 line with
  | none => .ok ⟨.unrecognized, none, none⟩
  | some (keytype, rest) =>
    match keytypeToAlgo (gStrndup keytype) with
    | none => .ok ⟨.unrecognized, none, none⟩
    | some _ => parseBase64 scan (0x20 :: rest)

/-- `gkm_ssh_openssh_parse_public_key` -/
def gkmSshOpensshParsePublicKey (data : Bytes) : Checked Parsed := do
  let found ← lookForKeyLine (data.length + 1) data
  match found with
  | none => pure ⟨.unrecognized, none, none⟩
  | some data => parseLine scan (firstLine data)

/-! ## Lines that are skipped -/

/-- Blanks, and whole lines with a `#`. -/
inductive Skipped : Bytes → Prop
  | nil : Skipped []
  | blank {c data} : gAsciiIsspace c = true → Skipped data → Skipped (c :: data)
  | comment {text data} : 0x0a ∉ text → Skipped data → Skipped (0x23 :: text ++ 0x0a :: data)

/-- Data that does not start with a blank or with `#`. -/
def StartsLine (data : Bytes) : Prop := ∃ c rest, data = c :: rest ∧ gAsciiIsspace c = false ∧ c ≠ 0x23

section Looking

variable {before data rest : Bytes}

theorem lookForKeyLine_end {fuel : Nat} (hdrop : data.dropWhile gAsciiIsspace = []) :
    lookForKeyLine (fuel + 1) data = .error .outOfBounds := by
  rw [lookForKeyLine, hdrop]

theorem lookForKeyLine_line {fuel : Nat} {c : UInt8} (hdrop : data.dropWhile gAsciiIsspace = c :: rest)
    (hc : c ≠ 0x23) : lookForKeyLine (fuel + 1) data = .ok (some (c :: rest)) := by
  rw [lookForKeyLine, hdrop]
  exact if_pos hc

theorem lookForKeyLine_comment {fuel : Nat} {text next : Bytes}
    (hdrop : data.dropWhile gAsciiIsspace = 0x23 :: (text ++ 0x0a :: next)) (htext : 0x0a ∉ text) :
    lookForKeyLine (fuel + 1) data = lookForKeyLine fuel next := by
  have hline : strchr 0x0a (0x23 :: (text ++ 0x0a :: next)) = some (0x23 :: text, next) := by
    have hnot : (0x0a : UInt8) ∉ 0x23 :: text := by
      rw [mem_cons, not_or]
      exact ⟨by decide, htext⟩
    exact strchr_append hnot
  rw [lookForKeyLine, hdrop]
  dsimp only
  rw [if_neg (not_not.2 rfl), hline]

theorem dropWhile_startsLine (h : StartsLine rest) : rest.dropWhile gAsciiIsspace = rest := by
  obtain ⟨c, rest, rfl, hspace, -⟩ := h
  exact dropWhile_cons_of_neg (by rw [hspace]; exact Bool.false_ne_true)

/-- What is skipped: blanks, and then nothing or a whole line. -/
theorem Skipped.blanks (h : Skipped before) (rest : Bytes) :
    (before ++ rest).dropWhile gAsciiIsspace = rest.dropWhile gAsciiIsspace ∨
      ∃ text next, 0x0a ∉ text ∧ Skipped next ∧ next.length < before.length ∧
        (before ++ rest).dropWhile gAsciiIsspace = 0x23 :: (text ++ 0x0a :: (next ++ rest)) := by
  induction h with
  | nil => exact .inl rfl
  | @blank c data hspace hdata ih =>
    rw [cons_append, dropWhile_cons_of_pos hspace]
    rcases ih with ih | ⟨text, next, htext, hnext, hlength, hdrop⟩
    · exact .inl ih
    · exact .inr ⟨text, next, htext, hnext, by rw [length_cons]; omega, hdrop⟩
  | @comment text data htext hdata ih =>
    refine .inr ⟨text, data, htext, hdata, ?_, ?_⟩
    · simp only [length_append, length_cons]
      omega
    · rw [append_assoc, cons_append, cons_append]
      exact dropWhile_cons_of_neg (by decide)

/-- The loop stops at the first line that is not skipped. -/
theorem lookForKeyLine_found (hrest : StartsLine rest) (fuel : Nat) (hbefore : Skipped before)
    (hfuel : before.length < fuel) : lookForKeyLine fuel (before ++ rest) = .ok (some rest) := by
  induction fuel generalizing before with
  | zero => exact absurd hfuel (Nat.not_lt_zero _)
  | succ fuel ih =>
    rcases hbefore.blanks rest with hdrop | ⟨text, next, htext, hnext, hlength, hdrop⟩
    · rw [dropWhile_startsLine hrest] at hdrop
      obtain ⟨c, tail, rfl, -, hc⟩ := hrest
      exact lookForKeyLine_line hdrop hc
    · rw [lookForKeyLine_comment hdrop htext]
      exact ih hnext (by omega)

/-- Where everything is skipped an octet behind the data is looked at. -/
theorem lookForKeyLine_faults (fuel : Nat) (hdata : Skipped data) (hfuel : data.length < fuel) :
    lookForKeyLine fuel data = .error .outOfBounds := by
  induction fuel generalizing data with
  | zero => exact absurd hfuel (Nat.not_lt_zero _)
  | succ fuel ih =>
    have hblanks := hdata.blanks []
    simp only [append_nil, dropWhile_nil] at hblanks
    rcases hblanks with hdrop | ⟨text, next, htext, hnext, hlength, hdrop⟩
    · exact lookForKeyLine_end hdrop
    · rw [lookForKeyLine_comment hdrop htext]
      exact ih hnext (by omega)

/-- Blanks in front of what is skipped. -/
theorem skipped_append {blanks : Bytes} (h : ∀ c ∈ blanks, gAsciiIsspace c = true) (hdata : Skipped data) :
    Skipped (blanks ++ data) := by
  induction blanks with
  | nil => exact hdata
  | cons c blanks ih =>
    exact .blank (h c mem_cons_self) (ih (forall_mem_cons.1 h).2)

/-- What the loop finds. -/
theorem lookForKeyLine_cases (fuel : Nat) (data : Bytes) (hfuel : data.length < fuel) :
    Skipped data ∨ lookForKeyLine fuel data = .ok none ∨
      ∃ before rest, data = before ++ rest ∧ Skipped before ∧ StartsLine rest ∧
        lookForKeyLine fuel data = .ok (some rest) := by
  induction fuel generalizing data with
  | zero => exact absurd hfuel (Nat.not_lt_zero _)
  | succ fuel ih =>
    have hsplit := takeWhile_append_dropWhile (p := gAsciiIsspace) (l := data)
    have hblanks : ∀ c ∈ data.takeWhile gAsciiIsspace, gAsciiIsspace c = true := fun c hc =>
      mem_takeWhile_imp hc
    generalize data.takeWhile gAsciiIsspace = blanks at hsplit hblanks
    cases hdrop : data.dropWhile gAsciiIsspace with
    | nil =>
      rw [hdrop] at hsplit
      rw [← hsplit]
      exact .inl (skipped_append hblanks .nil)
    | cons c tail =>
      have hc : gAsciiIsspace c = false := by
        have hhead := head?_dropWhile_not gAsciiIsspace data
        rw [hdrop] at hhead
        exact hhead
      rw [hdrop] at hsplit
      by_cases hhash : c = 0x23
      · subst hhash
        cases hline : strchr 0x0a (0x23 :: tail) with
        | none =>
          refine .inr (.inl ?_)
          rw [lookForKeyLine, hdrop]
          dsimp only
          rw [if_neg (not_not.2 rfl), hline]
        | some line =>
          obtain ⟨text, htext, hnewline⟩ : ∃ text, tail = text ++ 0x0a :: line.2 ∧ 0x0a ∉ text := by
            have heq := eq_of_strchr hline
            have hnot := not_mem_of_strchr hline
            obtain ⟨first, next⟩ := line
            cases first with
            | nil => exact absurd (List.cons.inj heq).1 (by decide)
            | cons b text =>
              rw [mem_cons, not_or] at hnot
              exact ⟨text, (List.cons.inj heq).2, hnot.2⟩
          generalize line.2 = next at htext
          subst htext
          have hdata : data = blanks ++ (0x23 :: text ++ 0x0a :: next) := hsplit.symm
          have hlength := congrArg List.length hdata
          simp only [length_append, length_cons] at hlength
          have hwhole : ∀ {before : Bytes}, Skipped before →
              Skipped (blanks ++ (0x23 :: text ++ 0x0a :: before)) := fun hbefore =>
            skipped_append hblanks (.comment hnewline hbefore)
          rw [lookForKeyLine_comment hdrop hnewline]
          rcases ih next (by omega) with hnext | hnone | ⟨before, rest, rfl, hbefore, hrest, hfound⟩
          · exact .inl (hdata ▸ hwhole hnext)
          · exact .inr (.inl hnone)
          · refine .inr (.inr ⟨_, rest, ?_, hwhole hbefore, hrest, hfound⟩)
            simp only [hdata, append_assoc, cons_append]
      · refine .inr (.inr ⟨blanks, c :: tail, hsplit.symm, ?_, ⟨c, tail, rfl, hc, hhash⟩,
          lookForKeyLine_line hdrop hhash⟩)
        rw [← append_nil blanks]
        exact skipped_append hblanks .nil

end Looking

/-! ## Any input -/

/-- The octets behind a key type that is known start with a name that is not. -/
def LineUnknown (line : Bytes) : Prop :=
  ∃ keytype rest, line = keytype ++ 0x20 :: rest ∧ 0x20 ∉ keytype ∧ (keytypeToAlgo (gStrndup keytype)).isSome ∧
    NamesUnknown (Base64.decode rest)

/-- The key line of the data does. -/
def DataUnknown (data : Bytes) : Prop :=
  ∃ before line, data = before ++ line ∧ Skipped before ∧ StartsLine line ∧ LineUnknown (firstLine line)

variable {scan}

theorem decodeInto_eq (data : Bytes) : decodeInto data = .ok (Base64.decode data) :=
  if_pos (Base64.length_decode_le data)

theorem rank_blank {c : UInt8} (h : isBlank c = true) : Base64.rank c = none := by
  rw [isBlank, Bool.or_eq_true, beq_iff_eq, beq_iff_eq] at h
  rcases h with rfl | rfl
  · decide
  · decide

/-- The blanks in front of the base64 do not matter. -/
theorem decode_blanks (rest : Bytes) :
    Base64.decode ((0x20 :: rest).dropWhile isBlank) = Base64.decode rest := by
  rw [Base64.decode_dropWhile fun _ => rank_blank]
  rfl

theorem parseBase64_ok_iff {rest : Bytes} :
    (∃ r, parseBase64 scan (0x20 :: rest) = .ok r) ↔ ¬ NamesUnknown (Base64.decode rest) := by
  rw [parseBase64]
  dsimp only
  rw [decodeInto_eq, ok_bind, decode_blanks]
  rcases readBlob_cases scan (Base64.decode rest) with ⟨hnames, hrun⟩ | ⟨hnames, key, hrun⟩
  · rw [hrun]
    exact iff_of_false (fun ⟨r, h⟩ => nomatch h) (not_not.2 hnames)
  · rw [hrun, ok_bind]
    refine iff_of_true ?_ hnames
    cases key with
    | none => exact ⟨_, rfl⟩
    | some key => exact ⟨_, rfl⟩

theorem parseLine_ok_iff {line : Bytes} : (∃ r, parseLine scan line = .ok r) ↔ ¬ LineUnknown line := by
  rw [parseLine]
  cases hspace : strchr 0x20 line with
  | none =>
    refine iff_of_true ⟨_, rfl⟩ ?_
    rintro ⟨keytype, rest, rfl, hkeytype, -⟩
    rw [strchr_append hkeytype] at hspace
    exact nomatch hspace
  | some parts =>
    obtain ⟨keytype, rest⟩ := parts
    have hline := eq_of_strchr hspace
    have hkeytype := not_mem_of_strchr hspace
    dsimp only at hline hkeytype ⊢
    have hparts : ∀ {keytype' rest'}, line = keytype' ++ 0x20 :: rest' → 0x20 ∉ keytype' →
        keytype' = keytype ∧ rest' = rest := by
      intro keytype' rest' hline' hkeytype'
      rw [hline', strchr_append hkeytype'] at hspace
      exact Prod.mk.inj (Option.some.inj hspace)
    cases halgo : keytypeToAlgo (gStrndup keytype) with
    | none =>
      refine iff_of_true ⟨_, rfl⟩ ?_
      rintro ⟨keytype', rest', hline', hkeytype', hknown, -⟩
      obtain ⟨rfl, -⟩ := hparts hline' hkeytype'
      rw [halgo] at hknown
      exact Bool.false_ne_true hknown
    | some algo =>
      refine parseBase64_ok_iff.trans (not_congr ⟨fun hnames => ?_, ?_⟩)
      · exact ⟨keytype, rest, hline, hkeytype, by rw [halgo]; rfl, hnames⟩
      · rintro ⟨keytype', rest', hline', hkeytype', -, hnames⟩
        obtain ⟨-, rfl⟩ := hparts hline' hkeytype'
        exact hnames

/-- Only the octets of the input are read exactly if there is a line that is not skipped, and its blob starts with a
known name where one is looked for. -/
theorem parse_ok_iff (scan : MpiScan) {data : Bytes} :
    (∃ r, gkmSshOpensshParsePublicKey scan data = .ok r) ↔ ¬ Skipped data ∧ ¬ DataUnknown data := by
  rw [gkmSshOpensshParsePublicKey]
  by_cases hskipped : Skipped data
  · rw [lookForKeyLine_faults _ hskipped (Nat.lt_succ_self _)]
    exact iff_of_false (fun ⟨r, h⟩ => nomatch h) (fun h => h.1 hskipped)
  · have hfound : ∀ {before line}, data = before ++ line → Skipped before → StartsLine line →
        lookForKeyLine (data.length + 1) data = .ok (some line) := by
      rintro before line rfl hbefore hline
      exact lookForKeyLine_found hline _ hbefore (by rw [length_append]; omega)
    rcases lookForKeyLine_cases (data.length + 1) data (Nat.lt_succ_self _) with h | hnone |
      ⟨before, line, hdata, hbefore, hline, hsome⟩
    · exact absurd h hskipped
    · rw [hnone]
      refine iff_of_true ⟨_, rfl⟩ ⟨hskipped, ?_⟩
      rintro ⟨before, line, hdata, hbefore, hline, -⟩
      rw [hfound hdata hbefore hline] at hnone
      exact nomatch hnone
    · rw [hsome, ok_bind]
      refine parseLine_ok_iff.trans ⟨fun h => ⟨hskipped, ?_⟩, fun h hunknown => ?_⟩
      · rintro ⟨before', line', hdata', hbefore', hline', hunknown⟩
        rw [hfound hdata' hbefore' hline'] at hsome
        cases hsome
        exact h hunknown
      · exact h.2 ⟨before, line, hdata, hbefore, hline, hunknown⟩

/-! ## The comment -/

/-- The octets have the form of a key, or start with a whole string that is no name of an algorithm. -/
def Decided (scan : MpiScan) (blob : Bytes) : Prop := HasKey scan blob ∨ NamesUnknown blob

/-- A line of a key with a comment, with what is before it and behind it. -/
structure KeyLine where
  before : Bytes
  keytype : Bytes
  base64 : Bytes
  comment : Bytes
  behind : Bytes
  skipped : Skipped before
  starts : StartsLine keytype
  keytype_plain : 0x20 ∉ keytype ∧ 0x0a ∉ keytype
  padded : Base64.Padded base64
  comment_ne : comment ≠ []
  comment_plain : 0x0a ∉ comment
  ends : behind = [] ∨ ∃ rest, behind = 0x0a :: rest

namespace KeyLine

/-- The line with its comment. -/
def text (line : KeyLine) : Bytes :=
  line.before ++ (line.keytype ++ 0x20 :: (line.base64 ++ 0x20 :: line.comment) ++ line.behind)

/-- The line without the comment. -/
def bare (line : KeyLine) : Bytes := line.before ++ (line.keytype ++ 0x20 :: line.base64 ++ line.behind)

/-- The comment cannot be taken for something else: it starts with no blank, and has no null character. -/
def Clean (line : KeyLine) : Prop := (∀ c ∈ line.comment.head?, isBlank c = false) ∧ 0 ∉ line.comment

/-- The key type is not known, or the octets of the comment do not complete the key or the name, and where there is
a key the comment is clean. -/
def Independent (scan : MpiScan) (line : KeyLine) : Prop :=
  keytypeToAlgo (gStrndup line.keytype) = none ∨
    ((Decided scan (Base64.decode line.base64 ++ Base64.decode line.comment) →
        Decided scan (Base64.decode line.base64)) ∧
      (HasKey scan (Base64.decode line.base64) → line.Clean))

end KeyLine

/-- With the comment. -/
def Parsed.withComment (comment : Bytes) (parsed : Parsed) : Parsed :=
  if parsed.sexp.isSome then { parsed with comment := some comment } else parsed

/-- The input is all that is read, and the line gives the key of the line without the comment, which has none, and
the comment. -/
structure PublicKeyRight (scan : MpiScan) (data : Bytes) (line : KeyLine) : Prop where
  inside : ∃ r, gkmSshOpensshParsePublicKey scan data = .ok r
  same : gkmSshOpensshParsePublicKey scan line.text =
    (gkmSshOpensshParsePublicKey scan line.bare).map (Parsed.withComment line.comment)
  bare : ∀ parsed, gkmSshOpensshParsePublicKey scan line.bare = .ok parsed → parsed.comment = none

section Comment

variable {line : KeyLine}

theorem firstLine_eq {text behind : Bytes} (htext : 0x0a ∉ text)
    (hends : behind = [] ∨ ∃ rest, behind = 0x0a :: rest) :
    firstLine (text ++ behind) = text := by
  rw [firstLine]
  rcases hends with rfl | ⟨rest, rfl⟩
  · rw [append_nil, strchr_eq_none htext]
  · rw [strchr_append htext]

/-- The parser comes to the line. -/
theorem parse_line_eq (scan : MpiScan) (line : KeyLine) {rest : Bytes} (hrest : 0x0a ∉ rest) :
    gkmSshOpensshParsePublicKey scan (line.before ++ (line.keytype ++ 0x20 :: rest ++ line.behind)) =
      if keytypeToAlgo (gStrndup line.keytype) = none then .ok ⟨.unrecognized, none, none⟩
      else parseBase64 scan (0x20 :: rest) := by
  have hstarts : StartsLine (line.keytype ++ 0x20 :: rest ++ line.behind) := by
    obtain ⟨c, tail, hkeytype, hspace, hhash⟩ := line.starts
    exact ⟨c, _, by rw [hkeytype]; rfl, hspace, hhash⟩
  have hplain : 0x0a ∉ line.keytype ++ 0x20 :: rest := by
    rw [mem_append, mem_cons, not_or, not_or]
    exact ⟨line.keytype_plain.2, by decide, hrest⟩
  rw [gkmSshOpensshParsePublicKey, lookForKeyLine_found hstarts _ line.skipped (by rw [length_append]; omega),
    ok_bind]
  dsimp only
  rw [firstLine_eq hplain line.ends, parseLine, strchr_append line.keytype_plain.1]
  dsimp only
  cases keytypeToAlgo (gStrndup line.keytype) with
  | none => rw [if_pos rfl]
  | some algo => rw [if_neg (Option.some_ne_none _)]

/-- The comment that is given behind a key. -/
def commentOf (rest : Bytes) : Option Bytes :=
  let left := (((0x20 :: rest).dropWhile isBlank).dropWhile (· ≠ 0x20)).dropWhile isBlank
  if left = [] then none else some (gStrndup left)

theorem parseBase64_eq (rest : Bytes) :
    parseBase64 scan (0x20 :: rest) = (readBlob scan (Base64.decode rest)).map fun key =>
      match key with
      | none => ⟨.failure, none, none⟩
      | some key => ⟨.success, some key, commentOf rest⟩ := by
  rw [parseBase64]
  dsimp only
  rw [decodeInto_eq, ok_bind, decode_blanks]
  cases readBlob scan (Base64.decode rest) with
  | error fault => rfl
  | ok key =>
    cases key with
    | none => rfl
    | some key => rfl

section

variable {text : Bytes} (h : Base64.Padded text)

include h

/-- Base64 has no blank. -/
theorem not_blank_of_padded {c : UInt8} (hc : c ∈ text) : isBlank c = false := by
  by_contra hblank
  have hranked := h.ranked c hc
  rw [rank_blank (Bool.eq_true_of_not_eq_false hblank)] at hranked
  exact Bool.false_ne_true hranked

theorem padded_plain : 0x20 ∉ text ∧ 0x0a ∉ text := by
  constructor
  · intro hc
    exact nomatch not_blank_of_padded h hc
  · intro hc
    have hranked := h.ranked _ hc
    have hnone : Base64.rank 0x0a = none := by decide
    rw [hnone] at hranked
    exact Bool.false_ne_true hranked

/-- What stands behind the base64. -/
theorem dropWhile_base64 (hne : text ≠ []) {left : Bytes}
    (hleft : left = [] ∨ ∃ rest, left = 0x20 :: rest) :
    ((0x20 :: (text ++ left)).dropWhile isBlank).dropWhile (· ≠ 0x20) = left := by
  obtain ⟨c, tail, rfl⟩ := exists_cons_of_ne_nil hne
  have hc := not_blank_of_padded h mem_cons_self
  have hblanks : (0x20 :: (c :: tail ++ left)).dropWhile isBlank = c :: tail ++ left := by
    rw [dropWhile_cons_of_pos (by decide)]
    exact dropWhile_cons_of_neg (by rw [hc]; exact Bool.false_ne_true)
  have hspaces : ∀ b ∈ c :: tail, (decide (b ≠ 0x20)) = true := fun b hb =>
    decide_eq_true fun heq => (padded_plain h).1 (heq ▸ hb)
  rw [hblanks, dropWhile_append_of_pos hspaces]
  rcases hleft with rfl | ⟨rest, rfl⟩
  · rfl
  · exact dropWhile_cons_of_neg (by decide)

end

theorem commentOf_text (hne : line.base64 ≠ []) :
    commentOf (line.base64 ++ 0x20 :: line.comment) =
      if line.comment.dropWhile isBlank = [] then none else some (gStrndup (line.comment.dropWhile isBlank)) := by
  have hdrop := dropWhile_base64 line.padded hne (.inr ⟨line.comment, rfl⟩)
  rw [commentOf, hdrop, dropWhile_cons_of_pos (by decide)]

/-- The comment is given exactly if it is clean. -/
theorem commentOf_eq_iff (hne : line.base64 ≠ []) :
    commentOf (line.base64 ++ 0x20 :: line.comment) = some line.comment ↔ line.Clean := by
  rw [commentOf_text hne]
  constructor
  · intro h
    split at h
    · exact nomatch h
    · have hsame := Option.some.inj h
      have hdropped : line.comment.dropWhile isBlank = line.comment := by
        have hsuffix := dropWhile_suffix (l := line.comment) isBlank
        have htaken := ( takeWhile_prefix (l := line.comment.dropWhile isBlank) (· ≠ 0)).length_le
        have hlength := congrArg List.length hsame
        exact hsuffix.eq_of_length_le (by rw [← hlength]; exact htaken)
      rw [hdropped] at hsame
      constructor
      · intro c hc
        have hhead := head?_dropWhile_not isBlank line.comment
        rw [hdropped, Option.mem_def.1 hc] at hhead
        exact hhead
      · intro hzero
        have hall := takeWhile_eq_self_iff.1 hsame 0 hzero
        exact absurd hall (by decide)
  · rintro ⟨hhead, hzero⟩
    have hdropped : line.comment.dropWhile isBlank = line.comment := by
      obtain ⟨c, tail, hcomment⟩ := exists_cons_of_ne_nil line.comment_ne
      rw [hcomment] at hhead ⊢
      exact dropWhile_cons_of_neg (by rw [hhead c rfl]; exact Bool.false_ne_true)
    rw [hdropped, if_neg line.comment_ne]
    exact congrArg some (takeWhile_of_zero_not_mem hzero)

/-- The comment is kept apart from the key exactly if they are independent. -/
theorem same_iff (line : KeyLine) :
    gkmSshOpensshParsePublicKey scan line.text =
      (gkmSshOpensshParsePublicKey scan line.bare).map (Parsed.withComment line.comment) ↔ line.Independent scan := by
  have hbase64 := padded_plain line.padded
  have hrest : 0x0a ∉ line.base64 ++ 0x20 :: line.comment := by
    rw [mem_append, mem_cons, not_or, not_or]
    exact ⟨hbase64.2, by decide, line.comment_plain⟩
  have htext := parse_line_eq scan line hrest
  have hbare := parse_line_eq scan line hbase64.2
  have hdecode : Base64.decode (line.base64 ++ 0x20 :: line.comment) =
      Base64.decode line.base64 ++ Base64.decode line.comment := Base64.decode_append line.padded _
  rw [KeyLine.text, KeyLine.bare, htext, hbare]
  by_cases hkeytype : keytypeToAlgo (gStrndup line.keytype) = none
  · rw [if_pos hkeytype, if_pos hkeytype]
    exact iff_of_true rfl (.inl hkeytype)
  · rw [if_neg hkeytype, if_neg hkeytype, parseBase64_eq, parseBase64_eq, hdecode, KeyLine.Independent,
      or_iff_right hkeytype]
    rcases readBlob_cases scan (Base64.decode line.base64) with ⟨hnames, hrun⟩ | ⟨hknown, key, hrun⟩
    · -- the name is freed with the comment and without it
      have hmore : readBlob scan (Base64.decode line.base64 ++ Base64.decode line.comment) = .error .outOfBounds := by
        rcases readBlob_cases scan (Base64.decode line.base64 ++ Base64.decode line.comment) with ⟨-, h⟩ | ⟨h, -⟩
        · exact h
        · exact absurd (hnames.append _) h
      have hnone : ¬ HasKey scan (Base64.decode line.base64) := by
        rw [hasKey_iff, hrun]
        rintro ⟨key, hkey⟩
        exact nomatch hkey
      rw [hmore, hrun]
      exact iff_of_true rfl ⟨fun _ => .inr hnames, fun hkey => absurd hkey hnone⟩
    · cases key with
      | none =>
        have hnone : ¬ HasKey scan (Base64.decode line.base64) := by
          rw [hasKey_iff, hrun]
          rintro ⟨key, hkey⟩
          exact nomatch hkey
        have hopen : ¬ Decided scan (Base64.decode line.base64) := not_or.2 ⟨hnone, hknown⟩
        rw [hrun, and_iff_left fun hkey => absurd hkey hnone, Decided, hasKey_iff]
        rcases readBlob_cases scan (Base64.decode line.base64 ++ Base64.decode line.comment) with
          ⟨hnames, hmore⟩ | ⟨hnames, key, hmore⟩
        · rw [hmore]
          exact iff_of_false (fun h => nomatch h) fun h => hopen (h (.inr hnames))
        · rw [hmore]
          cases key with
          | none =>
            refine iff_of_true rfl ?_
            rintro (⟨key, hkey⟩ | h)
            · exact nomatch hkey
            · exact absurd h hnames
          | some key => exact iff_of_false (fun h => nomatch h) fun h => hopen (h (.inl ⟨key, rfl⟩))
      | some key =>
        have hne : line.base64 ≠ [] := by
          intro hempty
          rw [hempty] at hrun
          exact nomatch hrun
        have hclean := commentOf_eq_iff hne
        have hkey : HasKey scan (Base64.decode line.base64) := hasKey_iff.2 ⟨key, hrun⟩
        rw [readBlob_append scan hrun, hrun]
        constructor
        · intro h
          exact ⟨fun _ => .inl hkey, fun _ => hclean.1 (congrArg Parsed.comment (Except.ok.inj h))⟩
        · rintro ⟨-, h⟩
          show Except.ok (⟨.success, some key, commentOf _⟩ : Parsed) =
            .ok ⟨.success, some key, some line.comment⟩
          rw [hclean.2 (h hkey)]

/-- Without a comment none is given. -/
theorem bare_comment (line : KeyLine) {parsed : Parsed} (h : gkmSshOpensshParsePublicKey scan line.bare = .ok parsed) :
    parsed.comment = none := by
  rw [KeyLine.bare, parse_line_eq scan line (padded_plain line.padded).2] at h
  split at h
  · cases h
    rfl
  · rw [parseBase64_eq] at h
    cases hkey : readBlob scan (Base64.decode line.base64) with
    | error fault =>
      rw [hkey] at h
      cases h
    | ok key =>
      rw [hkey] at h
      cases h
      cases key with
      | none => rfl
      | some key =>
        have hne : line.base64 ≠ [] := by
          intro hempty
          rw [hempty] at hkey
          exact nomatch hkey
        have hdrop := dropWhile_base64 line.padded hne (.inl rfl)
        rw [append_nil] at hdrop
        show commentOf line.base64 = none
        rw [commentOf, hdrop]
        rfl

end Comment

/-- The parser is right exactly for an input that has a line that is not skipped, with a known name in its blob, and
for a line whose comment is independent of its key. -/
theorem public_key_right_iff (scan : MpiScan) (data : Bytes) (line : KeyLine) :
    PublicKeyRight scan data line ↔ (¬ Skipped data ∧ ¬ DataUnknown data) ∧ line.Independent scan := by
  rw [← parse_ok_iff scan, ← same_iff]
  exact ⟨fun h => ⟨h.inside, h.same⟩, fun h => ⟨h.1, h.2, fun _ => bare_comment line⟩⟩

/-- `ssh-rsa AAAA me` -/
def sampleLine : KeyLine where
  before := []
  keytype := ascii "ssh-rsa"
  base64 := ascii "AAAA"
  comment := ascii "me"
  behind := []
  skipped := .nil
  starts := ⟨0x73, ascii "sh-rsa", rfl, rfl, by decide⟩
  keytype_plain := by decide
  padded := ⟨all_eq_true.1 rfl, rfl⟩
  comment_ne := by decide
  comment_plain := by decide
  ends := .inl rfl

/-- Behind an empty line an octet is looked at that is not there. -/
theorem blank_line_read_outside : ¬ PublicKeyRight (fun _ => none) [0x0a] sampleLine := by
  intro h
  exact ((parse_ok_iff _).1 h.inside).1 (.blank rfl .nil)

end MateKeyring.Ssh.Openssh
