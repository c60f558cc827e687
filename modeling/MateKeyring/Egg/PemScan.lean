import MateKeyring.Egg.PemRoundTrip

/-!
# Any text as PEM

A text is a run of whole blocks up to a place where no block begins or where one has no end that belongs to it
(`PemBlocks`). Elsewhere the reader comes to a type without characters, which it asserts not to be, or compares
beyond the end of the text. The table of headers is emptied between blocks and not taken away, so that a block
without headers has a table of none behind a block with some.
-/

set_option autoImplicit false

namespace MateKeyring.Egg.Pem

open List
open Lib (strstrLen)

variable {headers : Option Headers}

/-! ## The blocks of a text -/

/-- The text has a line that begins a block of this type, and this is what is behind it. -/
def Begins (data stype beg : Bytes) : Prop :=
  ∃ before pref rest, strstrLen prefBegin data = some (before, pref) ∧
    strstrLen suff (pref.drop prefBegin.length) = some (stype, rest) ∧ newline ∉ stype ∧ beg = rest.drop suff.length

/-- Two texts that have different characters at some place. -/
def Differ (s t : Bytes) : Prop := ¬ s <+: t ∧ ¬ t <+: s

/-- The text is a run of whole blocks, with their types. -/
inductive PemBlocks : Bytes → List (Bytes × Bytes) → Prop
  | noBegin {data : Bytes} (hbegin : ∀ stype beg, ¬ Begins data stype beg) : PemBlocks data []
  | noEnd {data stype beg : Bytes} (hbegin : Begins data stype beg) (hne : stype ≠ [])
      (hend : strstrLen prefEnd beg = none) : PemBlocks data []
  | otherEnd {data stype beg block rest : Bytes} (hbegin : Begins data stype beg) (hne : stype ≠ [])
      (hend : strstrLen prefEnd beg = some (block, prefEnd ++ rest)) (hother : Differ rest (stype ++ suff)) :
      PemBlocks data []
  | block {data stype beg block rest : Bytes} {blocks : List (Bytes × Bytes)}
      (hbegin : Begins data stype beg) (hne : stype ≠ [])
      (hend : strstrLen prefEnd beg = some (block, prefEnd ++ (stype ++ suff ++ rest)))
      (hmore : PemBlocks ((prefEnd ++ (stype ++ suff ++ rest)).drop suff.length) blocks) :
      PemBlocks data ((stype, block) :: blocks)

/-- The blocks that the loop of `egg_openssl_pem_parse` comes to. -/
def blocksFrom : Nat → Bytes → List (Bytes × Bytes)
  | 0, _ => []
  | fuel + 1, data =>
    match pemFindBegin data with
    | .ok (some (stype, beg)) =>
      match pemFindEnd beg stype with
      | .ok (some (block, pref)) => (stype, block) :: blocksFrom fuel (pref.drop suff.length)
      | _ => []
    | _ => []

/-- What the callback is called with for a block by itself. -/
def ownCallback (b : Bytes × Bytes) : Option Callback :=
  match pemParseBlock b.2 none with
  | .ok (some decoded, headers) => some { type := b.1, data := decoded, headers }
  | _ => none

/-- The reader comes to an end, in the text and in each block, without a fault, and each block has the callback
that it has by itself. -/
structure PemRight (data : Bytes) : Prop where
  headers_end : ∀ b ∈ blocksFrom data.length data, ∀ fuel, b.2.length ≤ fuel →
    headerEnd fuel b.2 = headerEnd b.2.length b.2
  callbacks : ∃ calls, (∀ fuel, data.length ≤ fuel → parseFrom fuel data none = .ok calls) ∧
    calls = (blocksFrom data.length data).filterMap ownCallback

/-- There are bytes in a block. -/
def Decodes (block : Bytes) : Prop := Lib.Base64.decode ((headerEnd block.length block).getD block) ≠ []

/-- There is a header before the blank line of a block. -/
def HasHeader (block : Bytes) : Prop :=
  ∃ hend, headerEnd block.length block = some hend ∧ colon ∈ block.take (block.length - hend.length)

/-- If the first of two blocks has headers, so has the second. -/
def HeadersFollow (b b' : Bytes × Bytes) : Prop :=
  Decodes b.2 → HasHeader b.2 → Decodes b'.2 → HasHeader b'.2

variable {data stype beg block rest : Bytes}

/-! ## The line that begins a block -/

theorem newline_not_mem_prefBegin : newline ∉ prefBegin := by decide

/-- What the reader finds of a block that begins. -/
theorem pemFindBegin_of_begins (h : Begins data stype beg) :
    pemFindBegin data = if stype = [] then .error .assertion else .ok (some (stype, beg)) := by
  obtain ⟨before, pref, rest, hpref, hsuff, hline, rfl⟩ := h
  have hplace : pref.take prefBegin.length = prefBegin :=
    (prefix_iff_eq_take.1 (Lib.strstrLen_some hpref).at_place).symm
  have hno : newline ∉ pref.take prefBegin.length ++ stype := by
    rw [hplace]
    exact not_mem_append newline_not_mem_prefBegin hline
  rw [pemFindBegin, hpref]
  dsimp only
  rw [hsuff]
  dsimp only
  rw [if_neg hno]
  by_cases hne : stype = []
  · rw [if_pos hne, cAssert, if_neg (not_not.2 hne)]
    rfl
  · rw [if_neg hne, cAssert_of_true hne]
    rfl

theorem pemFindBegin_of_not (h : ∀ stype beg, ¬ Begins data stype beg) : pemFindBegin data = .ok none := by
  rw [pemFindBegin]
  cases hpref : strstrLen prefBegin data with
  | none => rfl
  | some r =>
    dsimp only
    cases hsuff : strstrLen suff (r.2.drop prefBegin.length) with
    | none => rfl
    | some t =>
      dsimp only
      split
      · rfl
      · next hline =>
          have hline' : newline ∉ t.1 := fun hmem => hline (mem_append_right _ hmem)
          exact absurd ⟨r.1, r.2, t.2, hpref, hsuff, hline', rfl⟩ (h t.1 _)

/-- A line that begins a block takes some of the text. -/
theorem Begins.length_lt (h : Begins data stype beg) : beg.length < data.length := by
  obtain ⟨before, pref, rest, hpref, hsuff, -, rfl⟩ := h
  obtain ⟨rfl, ⟨t, rfl⟩, -, -⟩ := Lib.strstrLen_some hpref
  rw [drop_left] at hsuff
  obtain ⟨rfl, -, -, -⟩ := Lib.strstrLen_some hsuff
  have hlength : prefBegin.length = 11 := rfl
  rw [length_drop, length_append, length_append, length_append, hlength]
  omega

/-! ## The line that ends a block -/

/-- One comparison goes on where the other ends. -/
theorem startsWith_both {α : Type} (s t : Bytes) (d : Bytes) (found other : α) :
    (do
      if ← startsWith d s then
        if ← startsWith (d.drop s.length) t then pure found else pure other
      else pure other) =
    (do if ← startsWith d (s ++ t) then pure found else pure other : Checked α) := by
  induction s generalizing d with
  | nil => cases d <;> rfl
  | cons x s ih =>
    cases d with
    | nil => rfl
    | cons c d =>
      rw [cons_append, startsWith, startsWith]
      by_cases hc : c = x
      · rw [if_pos hc, if_pos hc, length_cons, drop_succ_cons]
        exact ih d
      · rw [if_neg hc, if_neg hc]
        rfl

theorem startsWith_of_differ {s t : Bytes} (h : Differ s t) : startsWith s t = .ok false := by
  induction t generalizing s with
  | nil => exact absurd nil_prefix h.2
  | cons x t ih =>
    cases s with
    | nil => exact absurd nil_prefix h.1
    | cons c s =>
      rw [startsWith]
      by_cases hc : c = x
      · subst hc
        rw [if_pos rfl]
        apply ih
        exact ⟨fun hp => h.1 (cons_prefix_cons.2 ⟨rfl, hp⟩), fun hp => h.2 (cons_prefix_cons.2 ⟨rfl, hp⟩)⟩
      · rw [if_neg hc]

/-- A text that ends too early is read beyond its end. -/
theorem startsWith_of_short {s t : Bytes} (h : s <+: t) (hne : s ≠ t) :
    startsWith s t = .error .outOfBounds := by
  induction t generalizing s with
  | nil => exact absurd (prefix_nil.1 h) hne
  | cons x t ih =>
    cases s with
    | nil => rfl
    | cons c s =>
      obtain ⟨rfl, hp⟩ := cons_prefix_cons.1 h
      rw [startsWith, if_pos rfl]
      exact ih hp fun heq => hne (congrArg _ heq)

/-- The end of a block, compared with the type and the suffix as one. -/
theorem pemFindEnd_of_found (hend : strstrLen prefEnd beg = some (block, prefEnd ++ rest)) :
    pemFindEnd beg stype =
      (do if ← startsWith rest (stype ++ suff) then pure (some (block, prefEnd ++ rest)) else pure none) := by
  rw [pemFindEnd, hend]
  dsimp only
  rw [drop_left]
  exact startsWith_both stype suff rest _ _

theorem found_end {pref : Bytes} (hend : strstrLen prefEnd beg = some (block, pref)) :
    ∃ rest, pref = prefEnd ++ rest := by
  obtain ⟨t, ht⟩ := (Lib.strstrLen_some hend).at_place
  exact ⟨t, ht.symm⟩

theorem length_next_lt (hbegin : Begins data stype beg) (hend : strstrLen prefEnd beg = some (block, prefEnd ++ rest)) :
    ((prefEnd ++ rest).drop suff.length).length < data.length := by
  have hlt := hbegin.length_lt
  have heq := congrArg List.length (Lib.strstrLen_some hend).eq
  rw [length_append] at heq
  rw [length_drop]
  omega

/-! ## Headers -/

theorem length_skipSpace_le {x p : Bytes} (h : skipSpace x = .inr p) : p.length ≤ x.length := by
  induction x with
  | nil => rw [← Sum.inr.inj h]
  | cons c x ih =>
    rw [skipSpace] at h
    split at h
    · split at h
      · cases h
      · exact Nat.le_succ_of_le (ih h)
    · rw [← Sum.inr.inj h]

/-- The search for the headers comes to an end: a line end is passed each time. -/
theorem headerEnd_stable {fuel fuel' : Nat} {p : Bytes} (h : p.length ≤ fuel) (h' : p.length ≤ fuel') :
    headerEnd fuel p = headerEnd fuel' p := by
  induction fuel generalizing fuel' p with
  | zero =>
    obtain rfl := length_eq_zero_iff.1 (Nat.le_zero.1 h)
    cases fuel' <;> rfl
  | succ fuel ih =>
    cases fuel' with
    | zero =>
      obtain rfl := length_eq_zero_iff.1 (Nat.le_zero.1 h')
      rfl
    | succ fuel' =>
      rw [headerEnd, headerEnd]
      have hle := (dropWhile_suffix (l := p) (· ≠ newline)).length_le
      cases hline : p.dropWhile (· ≠ newline) with
      | nil => rfl
      | cons c x =>
        rw [hline, length_cons] at hle
        dsimp only
        cases hskip : skipSpace x with
        | inl hend => rfl
        | inr p' =>
          have hshort := length_skipSpace_le hskip
          exact ih (by omega) (by omega)

theorem mem_dropWhile {α : Type} {p : α → Bool} {c : α} {s : List α} (hc : c ∈ s) (hp : p c = false) :
    c ∈ s.dropWhile p := by
  rw [← takeWhile_append_dropWhile (p := p) (l := s)] at hc
  refine (mem_append.1 hc).resolve_left fun hmem => ?_
  rw [mem_takeWhile_imp hmem] at hp
  exact absurd hp (by decide)

theorem colon_mem_strstrip {s : Bytes} (h : colon ∈ s) : colon ∈ strstrip s := by
  rw [strstrip, List.rdropWhile, mem_reverse]
  apply mem_dropWhile _ rfl
  rw [mem_reverse]
  exact mem_dropWhile h rfl

/-- A line without a colon is passed over. -/
theorem parseHeaderLine_of_not {line : Bytes} (h : colon ∉ line) (result : Option Headers) :
    parseHeaderLine result line = result := by
  have hdrop : (strstrip line).dropWhile (· ≠ colon) = [] := by
    rw [dropWhile_eq_nil_iff]
    intro c hc
    have hne : c ≠ colon := fun he => h ((strstrip_isInfix line).subset (he ▸ hc))
    exact decide_eq_true hne
  rw [parseHeaderLine]
  rw [hdrop]

/-- A line with a colon is a header, and does the same to no table and to an empty one. -/
theorem parseHeaderLine_of_mem {line : Bytes} (h : colon ∈ line) :
    ∃ t, parseHeaderLine none line = some t ∧ parseHeaderLine (some eggOpensslHeadersNew) line = some t := by
  have hmem : colon ∈ (strstrip line).dropWhile (· ≠ colon) :=
    mem_dropWhile (colon_mem_strstrip h) (decide_eq_false (not_not.2 rfl))
  rw [parseHeaderLine, parseHeaderLine]
  cases hdrop : (strstrip line).dropWhile (· ≠ colon) with
  | nil =>
    rw [hdrop] at hmem
    exact absurd hmem not_mem_nil
  | cons c value => exact ⟨_, rfl, rfl⟩

/-- The headers of a block for a table that may be there already. -/
def carry (headers own : Option Headers) : Option Headers :=
  if headers.isSome then some (own.getD eggOpensslHeadersNew) else own

theorem foldl_isSome (lines : List Bytes) (t : Headers) :
    (lines.foldl parseHeaderLine (some t)).isSome := by
  induction lines generalizing t with
  | nil => rfl
  | cons line lines ih =>
    rw [foldl_cons]
    have hline : ∃ t', parseHeaderLine (some t) line = some t' := by
      rw [parseHeaderLine]
      split
      · exact ⟨t, rfl⟩
      · exact ⟨_, rfl⟩
    obtain ⟨t', ht'⟩ := hline
    rw [ht']
    exact ih t'

/-- An empty table makes no difference to the headers, but for being there. -/
theorem foldl_carry (lines : List Bytes) :
    lines.foldl parseHeaderLine (some eggOpensslHeadersNew) =
      carry (some eggOpensslHeadersNew) (lines.foldl parseHeaderLine none) := by
  induction lines with
  | nil => rfl
  | cons line lines ih =>
    rw [foldl_cons, foldl_cons]
    by_cases hcolon : colon ∈ line
    · obtain ⟨t, hnone, hsome⟩ := parseHeaderLine_of_mem hcolon
      obtain ⟨t', ht'⟩ := Option.isSome_iff_exists.1 (foldl_isSome lines t)
      rw [hnone, hsome, ht']
      rfl
    · rw [parseHeaderLine_of_not hcolon, parseHeaderLine_of_not hcolon]
      exact ih

/-- There is a table just if some line has a colon. -/
theorem foldl_isSome_iff (lines : List Bytes) :
    (lines.foldl parseHeaderLine none).isSome ↔ ∃ line ∈ lines, colon ∈ line := by
  induction lines with
  | nil => exact iff_of_false Bool.false_ne_true fun ⟨line, hline, _⟩ => absurd hline not_mem_nil
  | cons line lines ih =>
    rw [foldl_cons, exists_mem_cons_iff]
    by_cases hcolon : colon ∈ line
    · obtain ⟨t, hnone, -⟩ := parseHeaderLine_of_mem hcolon
      rw [hnone]
      exact iff_of_true (foldl_isSome lines t) (.inl hcolon)
    · rw [parseHeaderLine_of_not hcolon, ih, or_iff_right hcolon]

theorem exists_mem_splitOn {c : UInt8} {s : Bytes} (hc : c ∈ s) (hne : c ≠ newline) :
    ∃ l ∈ s.splitOn newline, c ∈ l := by
  induction s with
  | nil => exact absurd hc not_mem_nil
  | cons x s ih =>
    rw [splitOn_cons_eq_if_modifyHead]
    by_cases hx : x = newline
    · rw [if_pos (beq_iff_eq.2 hx)]
      have hc' : c ∈ s := (mem_cons.1 hc).resolve_left fun he => hne (he.trans hx)
      obtain ⟨l, hl, hcl⟩ := ih hc'
      exact ⟨l, mem_cons_of_mem _ hl, hcl⟩
    · rw [if_neg (fun h => hx (beq_iff_eq.1 h))]
      cases hsplit : s.splitOn newline with
      | nil => exact absurd hsplit (splitOn_ne_nil newline s)
      | cons first others =>
        rcases mem_cons.1 hc with rfl | hc
        · exact ⟨c :: first, mem_cons_self, mem_cons_self⟩
        · obtain ⟨l, hl, hcl⟩ := ih hc
          rw [hsplit] at hl
          rcases mem_cons.1 hl with rfl | hl
          · exact ⟨x :: l, mem_cons_self, mem_cons_of_mem x hcl⟩
          · exact ⟨l, mem_cons_of_mem _ hl, hcl⟩

/-- There is a table just if the text of the headers has a colon. -/
theorem parseHeaderLines_isSome_iff (text : Bytes) :
    (parseHeaderLines text none).isSome ↔ colon ∈ text := by
  rw [parseHeaderLines, foldl_isSome_iff]
  constructor
  · rintro ⟨line, hline, hcolon⟩
    exact (mem_splitOn hline).2.subset hcolon
  · intro hcolon
    exact exists_mem_splitOn hcolon (by decide)

/-- The table between two blocks. -/
def Emptied (headers : Option Headers) : Prop := headers = none ∨ headers = some eggOpensslHeadersNew

theorem parseHeaderLines_carry (h : Emptied headers) (text : Bytes) :
    parseHeaderLines text headers = carry headers (parseHeaderLines text none) := by
  rcases h with rfl | rfl
  · rfl
  · exact foldl_carry _

/-- A block is parsed as by itself, but for a table that is there already. -/
theorem pemParseBlock_carry (hne : block ≠ []) (h : Emptied headers) (stype : Bytes) :
    pemParseBlock block headers =
      .ok (match ownCallback (stype, block) with
        | none => (none, headers)
        | some c => (some c.data, carry headers c.headers)) := by
  rw [ownCallback, pemParseBlock, pemParseBlock, cAssert_of_true hne, ok_bind, ok_bind]
  dsimp only
  split
  · rfl
  · cases headerEnd block.length block with
    | none =>
      rcases h with rfl | rfl <;> rfl
    | some hend =>
      dsimp only
      rw [parseHeaderLines_carry h]
      rfl

theorem ownCallback_isSome_iff (stype block : Bytes) :
    (ownCallback (stype, block)).isSome ↔ Decodes block := by
  by_cases hne : block = []
  · subst hne
    exact iff_of_false Bool.false_ne_true fun h => h rfl
  · rw [ownCallback, pemParseBlock, cAssert_of_true hne, ok_bind, Decodes]
    by_cases hdecode : Lib.Base64.decode ((headerEnd block.length block).getD block) = []
    · rw [if_pos hdecode]
      exact iff_of_false Bool.false_ne_true (not_not.2 hdecode)
    · rw [if_neg hdecode]
      refine iff_of_true ?_ hdecode
      cases headerEnd block.length block <;> rfl

/-- A callback has a table just if the block has a header. -/
theorem headers_isSome_iff {stype : Bytes} {c : Callback} (h : ownCallback (stype, block) = some c) :
    c.headers.isSome ↔ HasHeader block := by
  have hne : block ≠ [] := by
    rintro rfl
    cases h
  rw [ownCallback, pemParseBlock, cAssert_of_true hne, ok_bind] at h
  dsimp only at h
  split at h
  · rename_i heq
    split at heq
    · cases heq
    · cases hend : headerEnd block.length block with
      | none =>
        rw [hend] at heq
        cases heq
        cases h
        refine iff_of_false Bool.false_ne_true ?_
        rintro ⟨e, he, -⟩
        cases hend.symm.trans he
      | some hend' =>
        rw [hend] at heq
        cases heq
        cases h
        rw [parseHeaderLines_isSome_iff]
        constructor
        · intro hcolon
          exact ⟨hend', hend, hcolon⟩
        · rintro ⟨e, he, hcolon⟩
          rw [Option.some.inj (hend.symm.trans he)]
          exact hcolon
  · cases h

/-! ## The loop -/

/-- The callbacks for some blocks, with the table from before. -/
def callbacksFrom : Option Headers → List (Bytes × Bytes) → List Callback
  | _, [] => []
  | headers, b :: blocks =>
    match ownCallback b with
    | none => callbacksFrom headers blocks
    | some c =>
      { c with headers := carry headers c.headers } ::
        callbacksFrom ((carry headers c.headers).map fun _ => eggOpensslHeadersNew) blocks

theorem emptied_map (headers : Option Headers) : Emptied (headers.map fun _ => eggOpensslHeadersNew) := by
  cases headers with
  | none => exact .inl rfl
  | some t => exact .inr rfl

theorem ownCallback_type {b : Bytes × Bytes} {c : Callback} (h : ownCallback b = some c) : c.type = b.1 := by
  rw [ownCallback] at h
  split at h
  · rw [← Option.some.inj h]
  · exact nomatch h

/-- In a run of whole blocks the loop comes to each of them. -/
theorem parseFrom_of_blocks {blocks : List (Bytes × Bytes)} (h : PemBlocks data blocks) {fuel : Nat}
    (hfuel : data.length ≤ fuel) (hheaders : Emptied headers) :
    parseFrom fuel data headers = .ok (callbacksFrom headers blocks) ∧ blocksFrom fuel data = blocks := by
  induction h generalizing fuel headers with
  | noBegin hbegin =>
    cases fuel with
    | zero => exact ⟨rfl, rfl⟩
    | succ fuel =>
      rw [parseFrom, blocksFrom, pemFindBegin_of_not hbegin]
      exact ⟨rfl, rfl⟩
  | noEnd hbegin hne hend =>
    cases fuel with
    | zero => exact absurd (hbegin.length_lt.trans_le hfuel) (Nat.not_lt_zero _)
    | succ fuel =>
      rw [parseFrom, blocksFrom, pemFindBegin_of_begins hbegin, if_neg hne, ok_bind]
      dsimp only
      rw [pemFindEnd, hend]
      exact ⟨rfl, rfl⟩
  | otherEnd hbegin hne hend hother =>
    cases fuel with
    | zero => exact absurd (hbegin.length_lt.trans_le hfuel) (Nat.not_lt_zero _)
    | succ fuel =>
      rw [parseFrom, blocksFrom, pemFindBegin_of_begins hbegin, if_neg hne, ok_bind]
      dsimp only
      rw [pemFindEnd_of_found hend, startsWith_of_differ hother]
      exact ⟨rfl, rfl⟩
  | @block data stype beg block rest blocks hbegin hne hend hmore ih =>
    cases fuel with
    | zero => exact absurd (hbegin.length_lt.trans_le hfuel) (Nat.not_lt_zero _)
    | succ fuel =>
      have hnext := length_next_lt hbegin hend
      have hsame : startsWith (stype ++ suff ++ rest) (stype ++ suff) = .ok true := startsWith_append _ rest
      rw [parseFrom, blocksFrom, pemFindBegin_of_begins hbegin, if_neg hne, ok_bind]
      dsimp only
      rw [pemFindEnd_of_found hend, hsame, ok_bind, if_pos rfl]
      have hfuel' : ((prefEnd ++ (stype ++ suff ++ rest)).drop suff.length).length ≤ fuel := by omega
      refine ⟨?_, congrArg _ (ih hfuel' hheaders).2⟩
      show (if block = [] then _ else _) = _
      rw [callbacksFrom]
      by_cases hblock : block = []
      · subst hblock
        rw [if_pos rfl]
        exact (ih hfuel' hheaders).1
      · rw [if_neg hblock, pemParseBlock_carry hblock hheaders stype, ok_bind]
        cases hown : ownCallback (stype, block) with
        | none => exact (ih hfuel' hheaders).1
        | some c =>
          dsimp only
          rw [(ih hfuel' (emptied_map _)).1, ok_bind, ownCallback_type hown]
          rfl

/-- Where the loop ends without a fault, the text is a run of whole blocks. -/
theorem blocks_of_parseFrom {fuel : Nat} {data : Bytes} {calls : List Callback}
    (hfuel : data.length ≤ fuel) (h : parseFrom fuel data headers = .ok calls) : ∃ blocks, PemBlocks data blocks := by
  induction fuel generalizing data headers calls with
  | zero =>
    obtain rfl := length_eq_zero_iff.1 (Nat.le_zero.1 hfuel)
    refine ⟨[], .noBegin ?_⟩
    intro stype beg hbegin
    exact Nat.not_lt_zero _ hbegin.length_lt
  | succ fuel ih =>
    rw [parseFrom] at h
    by_cases hbegin : ∃ stype beg, Begins data stype beg
    · obtain ⟨stype, beg, hbegin⟩ := hbegin
      rw [pemFindBegin_of_begins hbegin] at h
      by_cases hne : stype = []
      · rw [if_pos hne] at h
        cases h
      · rw [if_neg hne, ok_bind] at h
        dsimp only at h
        cases hend : strstrLen prefEnd beg with
        | none => exact ⟨[], .noEnd hbegin hne hend⟩
        | some r =>
          obtain ⟨block, pref⟩ := r
          obtain ⟨rest, rfl⟩ := found_end hend
          rw [pemFindEnd_of_found hend] at h
          by_cases hwhole : stype ++ suff <+: rest
          · obtain ⟨rest, rfl⟩ := hwhole
            have hnext := length_next_lt hbegin hend
            have hsame : startsWith (stype ++ suff ++ rest) (stype ++ suff) = .ok true := startsWith_append _ rest
            rw [hsame, ok_bind, if_pos rfl] at h
            have hmore : ∃ headers calls,
                parseFrom fuel ((prefEnd ++ (stype ++ suff ++ rest)).drop suff.length) headers = .ok calls := by
              change (if block = [] then _ else _) = _ at h
              split at h
              · exact ⟨_, _, h⟩
              · cases hparse : pemParseBlock block headers with
                | error fault => rw [hparse] at h; cases h
                | ok parsed =>
                  obtain ⟨decoded, headers'⟩ := parsed
                  rw [hparse, ok_bind] at h
                  cases decoded with
                  | none => exact ⟨_, _, h⟩
                  | some decoded =>
                    dsimp only at h
                    cases hcalls : parseFrom fuel ((prefEnd ++ (stype ++ suff ++ rest)).drop suff.length)
                        (headers'.map fun _ => eggOpensslHeadersNew) with
                    | error fault => rw [hcalls] at h; cases h
                    | ok calls => exact ⟨_, _, hcalls⟩
            obtain ⟨headers', calls', hcalls⟩ := hmore
            obtain ⟨blocks, hblocks⟩ := ih (by omega) hcalls
            exact ⟨_, .block hbegin hne hend hblocks⟩
          · by_cases hshort : rest <+: stype ++ suff
            · -- the comparison goes beyond the end
              have hne' : rest ≠ stype ++ suff := fun heq => hwhole (heq ▸ prefix_refl _)
              rw [startsWith_of_short hshort hne'] at h
              cases h
            · exact ⟨[], .otherEnd hbegin hne hend ⟨hshort, hwhole⟩⟩
    · exact ⟨[], .noBegin fun stype beg hb => hbegin ⟨stype, beg, hb⟩⟩

/-! ## The callbacks -/

/-- Behind a table every block is to have headers. -/
theorem callbacksFrom_some_iff (blocks : List (Bytes × Bytes)) :
    callbacksFrom (some eggOpensslHeadersNew) blocks = blocks.filterMap ownCallback ↔
      ∀ b ∈ blocks, Decodes b.2 → HasHeader b.2 := by
  induction blocks with
  | nil => exact iff_of_true rfl fun b hb => absurd hb not_mem_nil
  | cons b blocks ih =>
    rw [callbacksFrom, forall_mem_cons]
    cases hown : ownCallback b with
    | none =>
      rw [filterMap_cons_none hown, ih]
      have hno : ¬ Decodes b.2 := by
        rw [← ownCallback_isSome_iff b.1, Prod.mk.eta, hown]
        exact Bool.false_ne_true
      exact (and_iff_right fun hd => absurd hd hno).symm
    | some c =>
      have hyes : Decodes b.2 := by
        rw [← ownCallback_isSome_iff b.1, Prod.mk.eta, hown]
        rfl
      have hheader := @headers_isSome_iff b.2 b.1 c hown
      rw [filterMap_cons_some hown, List.cons.injEq]
      refine and_congr ?_ ih
      rw [forall_prop_of_true hyes, ← hheader]
      obtain ⟨type, data, headers⟩ := c
      cases headers with
      | none => exact iff_of_false (fun h => nomatch (Callback.mk.inj h).2.2) Bool.false_ne_true
      | some t => exact iff_of_true rfl rfl

/-- From no table on, no block without headers is to follow one with headers. -/
theorem callbacksFrom_none_iff (blocks : List (Bytes × Bytes)) :
    callbacksFrom none blocks = blocks.filterMap ownCallback ↔ blocks.Pairwise HeadersFollow := by
  induction blocks with
  | nil => exact iff_of_true rfl List.Pairwise.nil
  | cons b blocks ih =>
    rw [callbacksFrom, pairwise_cons]
    cases hown : ownCallback b with
    | none =>
      rw [filterMap_cons_none hown, ih]
      have hno : ¬ Decodes b.2 := by
        rw [← ownCallback_isSome_iff b.1, Prod.mk.eta, hown]
        exact Bool.false_ne_true
      exact (and_iff_right fun b' _ hd => absurd hd hno).symm
    | some c =>
      have hyes : Decodes b.2 := by
        rw [← ownCallback_isSome_iff b.1, Prod.mk.eta, hown]
        rfl
      have hheader := @headers_isSome_iff b.2 b.1 c hown
      have hself : ({ type := c.type, data := c.data, headers := carry none c.headers } : Callback) = c := rfl
      rw [filterMap_cons_some hown, List.cons.injEq, and_iff_right hself]
      obtain ⟨type, data, headers⟩ := c
      cases headers with
      | none =>
        have hplain : ¬ HasHeader b.2 := fun hh => Bool.false_ne_true (hheader.2 hh)
        have hfree : ∀ b' ∈ blocks, HeadersFollow b b' := fun b' _ _ hh => absurd hh hplain
        rw [and_iff_right hfree]
        exact ih
      | some t =>
        -- the table stays
        have hhas : HasHeader b.2 := hheader.1 rfl
        refine (callbacksFrom_some_iff blocks).trans ?_
        constructor
        · intro hall
          exact ⟨fun b' hb' _ _ => hall b' hb', pairwise_of_forall_mem_list fun x _ y hy _ _ => hall y hy⟩
        · rintro ⟨hfirst, -⟩ b' hb'
          exact hfirst b' hb' hyes hhas

/-- The reader is right for a run of whole blocks in which no block without headers follows one with headers, and
for no other text. -/
theorem pem_parse_right_iff (data : Bytes) :
    PemRight data ↔ ∃ blocks, PemBlocks data blocks ∧ blocks.Pairwise HeadersFollow := by
  constructor
  · rintro ⟨-, calls, hcalls, hown⟩
    obtain ⟨blocks, hblocks⟩ := blocks_of_parseFrom (Nat.le_refl _) (hcalls _ (Nat.le_refl _))
    obtain ⟨hparse, hfrom⟩ := parseFrom_of_blocks hblocks (Nat.le_refl _) (.inl rfl)
    refine ⟨blocks, hblocks, (callbacksFrom_none_iff blocks).1 ?_⟩
    rw [← hfrom, ← hown, hfrom]
    exact Except.ok.inj (hparse.symm.trans (hcalls _ (Nat.le_refl _)))
  · rintro ⟨blocks, hblocks, hfollow⟩
    refine ⟨fun b _ fuel hfuel => headerEnd_stable hfuel (Nat.le_refl _), callbacksFrom none blocks,
      fun fuel hfuel => (parseFrom_of_blocks hblocks hfuel (.inl rfl)).1, ?_⟩
    rw [(parseFrom_of_blocks hblocks (Nat.le_refl _) (.inl rfl)).2]
    exact (callbacksFrom_none_iff blocks).2 hfollow

/-- A line that begins a block of no type. -/
theorem empty_type_asserted : ¬ PemRight (prefBegin ++ suff) := by
  rintro ⟨-, calls, hcalls, -⟩
  exact nomatch hcalls 16 (Nat.le_refl _)

end MateKeyring.Egg.Pem
