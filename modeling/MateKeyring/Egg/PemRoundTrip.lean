import MateKeyring.Egg.Pem

/-!
# PEM text that is written and read again

`Entry` is what the writer is given. A type and headers that the reader can give back at all are
`TypeOk` and `HeaderOk`: whatever it reads, it returns no other (`parseFrom_range`). Of entries with
such types and headers the reader finds all but one kind (`Swallowed`): without headers, and with
base64 text that ends at the end of a line, for there the writer leaves a blank line.
-/

set_option autoImplicit false

namespace MateKeyring.Egg.Pem

open List
open Lib (isSpace strstrLen)

variable {headers : List (Bytes × Bytes)} {fuel : Nat} {header : Bytes × Bytes}
  {data : Bytes} {result : Option Headers} {s : Bytes} {c : UInt8}

/-! ## The lines of the writer -/

/-- Base64 text in lines of 64 characters, with the line end that closes it. -/
def lines64 (enc : Bytes) : Bytes :=
  if enc.length < 64 then enc ++ [newline] else enc.take 64 ++ newline :: lines64 (enc.drop 64)
  termination_by enc.length
  decreasing_by rw [length_drop]; omega

theorem insertIdx_append (pre s : Bytes) (i : Nat) (hi : i ≤ s.length) (c : UInt8) :
    (pre ++ s).insertIdx (pre.length + i) c = pre ++ (s.take i ++ c :: s.drop i) := by
  induction pre with
  | nil =>
    rw [nil_append, nil_append, length_nil, Nat.zero_add]
    induction i generalizing s with
    | zero => rfl
    | succ i ih =>
      cases s with
      | nil => simp at hi
      | cons x s => exact congrArg (x :: ·) (ih s (Nat.le_of_succ_le_succ hi))
  | cons x pre ih =>
    rw [length_cons, Nat.add_right_comm]
    exact congrArg (x :: ·) ih

theorem breakLines_eq (pre enc : Bytes) (hfuel : enc.length < fuel) :
    breakLines fuel (pre.length + 64) (pre ++ (enc ++ [newline])) = pre ++ lines64 enc := by
  induction fuel generalizing pre enc with
  | zero => omega
  | succ fuel ih =>
    rw [breakLines, lines64]
    by_cases hlong : enc.length < 64
    · rw [if_neg (by simp; omega), if_pos hlong]
    · have hsplit : (enc ++ [newline]).take 64 ++ newline :: (enc ++ [newline]).drop 64 =
          enc.take 64 ++ [newline] ++ (enc.drop 64 ++ [newline]) := by
        rw [take_append_of_le_length (by omega), drop_append_of_le_length (by omega), append_assoc]
        rfl
      have hnext := ih (pre ++ (enc.take 64 ++ [newline])) (enc.drop 64)
        (by rw [length_drop]; omega)
      have hlen : (pre ++ (enc.take 64 ++ [newline])).length = pre.length + 65 := by
        simp [Nat.min_eq_left (by omega : 64 ≤ enc.length)]
      rw [hlen] at hnext
      rw [if_pos (by simp; omega), if_neg hlong, insertIdx_append _ _ _ (by simp; omega), hsplit,
        ← append_assoc pre, Nat.add_assoc (pre.length + 64)]
      refine (congrArg (fun i => breakLines fuel i _) (by omega)).trans (hnext.trans ?_)
      simp

/-- The writer puts line ends into the text, and nothing else. -/
theorem filter_lines64 {p : UInt8 → Bool} (hp : p newline = false) (enc : Bytes) :
    (lines64 enc).filter p = enc.filter p := by
  induction enc using lines64.induct with
  | case1 enc hshort => rw [lines64, if_pos hshort, filter_append]; simp [hp]
  | case2 enc hlong ih =>
    rw [lines64, if_neg hlong, filter_append, filter_cons_of_neg (by simp [hp]), ih,
      ← filter_append, take_append_drop]

theorem mem_lines64 {enc : Bytes} (hc : c ∈ lines64 enc) : c = newline ∨ c ∈ enc := by
  induction enc using lines64.induct with
  | case1 enc hshort =>
    rw [lines64, if_pos hshort, mem_append, mem_singleton] at hc
    exact hc.symm
  | case2 enc hlong ih =>
    rw [lines64, if_neg hlong, mem_append, mem_cons] at hc
    rcases hc with hc | hc | hc
    · exact .inr (mem_of_mem_take hc)
    · exact .inl hc
    · exact (ih hc).imp_right mem_of_mem_drop

/-! ## Looking for the blank line -/

theorem all_ne_newline {u : Bytes} (hu : newline ∉ u) : ∀ c ∈ u, decide (c ≠ newline) = true :=
  fun _ hc => decide_eq_true fun heq => hu (heq ▸ hc)

theorem headerEnd_line {u x : Bytes} (hu : newline ∉ u) :
    headerEnd (fuel + 1) (u ++ newline :: x) =
      (skipSpace x).elim some (fun p => headerEnd fuel p) := by
  have hdrop : (u ++ newline :: x).dropWhile (· ≠ newline) = newline :: x := by
    rw [dropWhile_append_of_pos (all_ne_newline hu)]
    rfl
  rw [headerEnd, hdrop]
  dsimp only
  cases skipSpace x with
  | inl hend => rfl
  | inr p => rfl

theorem headerEnd_none {u : Bytes} (hu : newline ∉ u) : headerEnd fuel u = none := by
  cases fuel with
  | zero => rfl
  | succ fuel =>
    have hdrop : u.dropWhile (· ≠ newline) = [] := dropWhile_eq_nil_iff.2 (all_ne_newline hu)
    rw [headerEnd, hdrop]

theorem skipSpace_of_not (hc : isSpace c = false) (x : Bytes) :
    skipSpace (c :: x) = .inr (c :: x) := by
  rw [skipSpace, hc]
  rfl

/-- In text without headers a blank line is found when the last line is full. -/
theorem headerEnd_lines64 {u enc : Bytes} (hu : newline ∉ u) (henc : ∀ c ∈ enc, isSpace c = false)
    (hfuel : enc.length < fuel) :
    headerEnd fuel (u ++ newline :: lines64 enc) =
      if enc.length % 64 = 0 then some [newline] else none := by
  have hline : ∀ s : Bytes, (∀ c ∈ s, isSpace c = false) → newline ∉ s := by
    intro s hs hmem
    exact absurd (hs _ hmem) (by decide)
  induction fuel generalizing u enc with
  | zero => omega
  | succ fuel ih =>
    rw [headerEnd_line hu, lines64]
    by_cases hshort : enc.length < 64
    · rw [if_pos hshort]
      cases enc with
      | nil => rfl
      | cons c enc =>
        rw [cons_append, skipSpace_of_not (henc c mem_cons_self), if_neg (by
          rw [length_cons] at hshort ⊢; omega)]
        change headerEnd fuel (c :: enc ++ [newline]) = none
        obtain ⟨fuel, rfl⟩ : ∃ f, fuel = f + 1 := ⟨fuel - 1, by
          rw [length_cons] at hfuel; omega⟩
        rw [headerEnd_line (hline _ henc)]
        exact headerEnd_none not_mem_nil
    · rw [if_neg hshort]
      have htake : ∀ c ∈ enc.take 64, isSpace c = false := fun c hc => henc c (mem_of_mem_take hc)
      have hskip : skipSpace (enc.take 64 ++ newline :: lines64 (enc.drop 64)) =
          .inr (enc.take 64 ++ newline :: lines64 (enc.drop 64)) := by
        cases enc with
        | nil => simp at hshort
        | cons c enc => exact skipSpace_of_not (henc c mem_cons_self) _
      rw [hskip]
      change headerEnd fuel _ = _
      rw [ih (hline _ htake) (fun c hc => henc c (mem_of_mem_drop hc))
        (by rw [length_drop]; omega), length_drop]
      congr 1
      exact propext (by omega)

/-! ## Headers -/

/-- There is no white space at the two ends. -/
structure Trimmed (s : Bytes) : Prop where
  head : ∀ c ∈ s.head?, asciiIsSpace c = false
  last : ∀ c ∈ s.getLast?, asciiIsSpace c = false

theorem trimmed_singleton (h : asciiIsSpace c = false) : Trimmed [c] :=
  ⟨fun _ hc => Option.some.inj hc ▸ h, fun _ hc => Option.some.inj hc ▸ h⟩

theorem dropWhile_of_head (h : ∀ c ∈ s.head?, asciiIsSpace c = false) :
    s.dropWhile asciiIsSpace = s := by
  cases s with
  | nil => rfl
  | cons c s => rw [dropWhile_cons, h c rfl]; rfl

theorem rdropWhile_of_last (h : ∀ c ∈ s.getLast?, asciiIsSpace c = false) :
    s.rdropWhile asciiIsSpace = s := by
  refine rdropWhile_eq_self_iff.2 fun hne hspace => ?_
  rw [h _ (getLast?_eq_getLast_of_ne_nil hne)] at hspace
  cases hspace

theorem Trimmed.strip (h : Trimmed s) : strstrip s = s := by
  rw [strstrip, dropWhile_of_head h.head, rdropWhile_of_last h.last]

theorem trimmed_strstrip (s : Bytes) : Trimmed (strstrip s) := by
  have hdrop : ∀ c ∈ (s.dropWhile asciiIsSpace).head?, asciiIsSpace c = false := by
    intro c hc
    have := head?_dropWhile_not asciiIsSpace s
    rw [Option.mem_def.1 hc] at this
    simpa using this
  refine ⟨fun c hc => hdrop c ?_, fun c hc => ?_⟩
  · obtain ⟨t, ht⟩ := rdropWhile_prefix (l := s.dropWhile asciiIsSpace) (p := asciiIsSpace)
    rw [strstrip] at hc
    rw [← ht, head?_append, Option.mem_def.1 hc]
    rfl
  · have hne : strstrip s ≠ [] := by
      rintro hnil
      rw [hnil] at hc
      cases hc
    have hnot := rdropWhile_last_not asciiIsSpace (s.dropWhile asciiIsSpace) hne
    rw [Option.mem_def, getLast?_eq_getLast_of_ne_nil hne, Option.some.injEq] at hc
    rw [← hc]
    exact Bool.eq_false_iff.2 hnot

/-- A header that the reader can return. -/
structure HeaderOk (header : Bytes × Bytes) : Prop where
  name : newline ∉ header.1 ∧ colon ∉ header.1 ∧ Trimmed header.1
  value : newline ∉ header.2 ∧ Trimmed header.2
  plain : ¬ prefEnd <:+: header.1 ∧ ¬ prefEnd <:+: header.2

/-- The line of a header, without its end. -/
def headerLine (header : Bytes × Bytes) : Bytes :=
  header.1 ++ colon :: 0x20 :: header.2

theorem appendEachHeader_eq (header : Bytes × Bytes) :
    appendEachHeader header = headerLine header ++ [newline] := by
  simp [appendEachHeader, headerLine]

theorem HeaderOk.line (h : HeaderOk header) : newline ∉ headerLine header := by
  have hcolon : newline ≠ colon := by decide
  have hspace : newline ≠ 0x20 := by decide
  simp [headerLine, h.name.1, h.value.1, hcolon, hspace]

/-- White space before a header ends at its colon at the latest. -/
theorem skipSpace_headerLine (h : HeaderOk header) (rest : Bytes) :
    ∃ u, newline ∉ u ∧ skipSpace (headerLine header ++ newline :: rest) = .inr (u ++ newline :: rest) := by
  obtain ⟨name, value⟩ := header
  have hvalue : newline ∉ colon :: 0x20 :: value := by
    have hcolon : newline ≠ colon := by decide
    have hspace : newline ≠ 0x20 := by decide
    simp [h.value.1, hcolon, hspace]
  have hname : newline ∉ name := h.name.1
  rw [headerLine]
  clear h
  induction name with
  | nil => exact ⟨colon :: 0x20 :: value, hvalue, rfl⟩
  | cons c name ih =>
    have hc : c ≠ newline := fun heq => hname (heq ▸ mem_cons_self)
    have hname' : newline ∉ name := fun hmem => hname (mem_cons_of_mem _ hmem)
    cases hspace : isSpace c with
    | true =>
      obtain ⟨u, hu, hskip⟩ := ih hname'
      refine ⟨u, hu, ?_⟩
      rw [cons_append, cons_append, skipSpace, hspace, if_pos rfl, if_neg hc]
      exact hskip
    | false =>
      refine ⟨c :: name ++ colon :: 0x20 :: value, ?_, skipSpace_of_not hspace _⟩
      exact not_mem_append hname hvalue

theorem not_mem_ne_colon (hs : colon ∉ s) : ∀ c ∈ s, decide (c ≠ colon) = true :=
  fun _ hc => decide_eq_true fun heq => hs (heq ▸ hc)

/-- The line of a header is read back. -/
theorem parseHeaderLine_headerLine (h : HeaderOk header) (result : Option Headers) :
    parseHeaderLine result (headerLine header) =
      some (Function.update (result.getD eggOpensslHeadersNew) header.1 (some header.2)) := by
  obtain ⟨name, value⟩ := header
  have hhead : ∀ rest : Bytes, ∀ c ∈ (name ++ colon :: rest).head?, asciiIsSpace c = false := by
    intro rest c hc
    cases name with
    | nil =>
      obtain rfl : colon = c := Option.some.inj hc
      rfl
    | cons x name => exact h.name.2.2.head c hc
  obtain ⟨rest, hstrip, hrest⟩ : ∃ rest, strstrip (headerLine (name, value)) = name ++ colon :: rest ∧
      strstrip rest = value := by
    cases hvalue : value with
    | nil =>
      -- the blank before an empty value is stripped
      refine ⟨[], ?_, rfl⟩
      rw [strstrip, dropWhile_of_head (s := headerLine (name, [])) (hhead _)]
      have heq : headerLine (name, []) = name ++ [colon] ++ [0x20] := by simp [headerLine]
      rw [heq, rdropWhile_concat_pos _ _ _ rfl, rdropWhile_of_last]
      intro c hc
      rw [Option.mem_def, getLast?_concat, Option.some.injEq] at hc
      rw [← hc]
      rfl
    | cons x rest =>
      have hne : x :: rest ≠ [] := cons_ne_nil x rest
      refine ⟨0x20 :: x :: rest, ?_, ?_⟩
      · refine Trimmed.strip ⟨hhead _, fun c hc => h.value.2.last c ?_⟩
        rw [hvalue]
        rw [headerLine, Option.mem_def] at hc
        simpa using hc
      · rw [strstrip, dropWhile_cons_of_pos rfl, ← hvalue]
        exact h.value.2.strip
  unfold parseHeaderLine
  dsimp only
  rw [hstrip, dropWhile_append_of_pos (not_mem_ne_colon h.name.2.1),
    takeWhile_append_of_pos (not_mem_ne_colon h.name.2.1), dropWhile_cons_of_neg (by decide),
    takeWhile_cons_of_neg (by decide), append_nil, h.name.2.2.strip]
  dsimp only
  rw [hrest]

theorem parseHeaderLine_nil (result : Option Headers) : parseHeaderLine result [] = result := rfl

/-- The table of a list of headers. -/
def table (headers : List (Bytes × Bytes)) : Headers := fun name => headers.lookup name

theorem splitOn_headers (hok : ∀ h ∈ headers, HeaderOk h) :
    (headers.flatMap appendEachHeader).splitOn newline = headers.map headerLine ++ [[]] := by
  induction headers with
  | nil => rfl
  | cons x headers ih =>
    rw [flatMap_cons, appendEachHeader_eq, append_assoc, singleton_append,
      splitOn_append_cons_self_of_not_mem (hok x mem_cons_self).line,
      ih (forall_mem_cons.1 hok).2]
    rfl

theorem foldl_headerLine (hok : ∀ h ∈ headers, HeaderOk h) (hnodup : (headers.map Prod.fst).Nodup)
    (result : Option Headers) (name : Bytes) :
    ((headers.map headerLine).foldl parseHeaderLine result).getD eggOpensslHeadersNew name =
      (headers.lookup name).or (result.getD eggOpensslHeadersNew name) := by
  induction headers generalizing result with
  | nil => rfl
  | cons x headers ih =>
    obtain ⟨hx, hnodup⟩ := nodup_cons.1 hnodup
    rw [map_cons, foldl_cons, parseHeaderLine_headerLine (hok x mem_cons_self),
      ih (forall_mem_cons.1 hok).2 hnodup, Option.getD_some]
    obtain ⟨n, v⟩ := x
    by_cases hname : name = n
    · have hnone : headers.lookup name = none :=
        lookup_eq_none_iff.2 fun y hy => bne_iff_ne.2 fun heq =>
          hx (mem_map.2 ⟨y, hy, heq.symm.trans hname⟩)
      rw [hnone, lookup_cons, beq_iff_eq.2 hname, hname, Function.update_self]
      rfl
    · rw [Function.update_of_ne hname, lookup_cons, beq_eq_false_iff_ne.2 hname]

/-- The lines of the headers, behind a line end, are read back. -/
theorem parseHeaderLines_eq (hok : ∀ h ∈ headers, HeaderOk h) (hnodup : (headers.map Prod.fst).Nodup)
    (hresult : result.getD eggOpensslHeadersNew = eggOpensslHeadersNew) :
    (parseHeaderLines (newline :: headers.flatMap appendEachHeader) result).getD eggOpensslHeadersNew =
      table headers := by
  have hlines : (newline :: headers.flatMap appendEachHeader).splitOn newline =
      [] :: (headers.map headerLine ++ [[]]) := by
    rw [← splitOn_headers hok]
    have hnil : newline ∉ ([] : Bytes) := not_mem_nil
    exact splitOn_append_cons_self_of_not_mem hnil _
  rw [parseHeaderLines, hlines, foldl_cons, parseHeaderLine_nil, foldl_append, foldl_cons,
    parseHeaderLine_nil, foldl_nil]
  funext name
  rw [foldl_headerLine hok hnodup, hresult]
  exact Option.or_none

/-- The search for the blank line passes over the headers. -/
theorem headerEnd_headers {u body : Bytes} (hok : ∀ h ∈ headers, HeaderOk h) (hu : newline ∉ u)
    (hfuel : headers.length < fuel) :
    headerEnd fuel (u ++ newline :: (headers.flatMap appendEachHeader ++ newline :: body)) =
      some (newline :: body) := by
  induction headers generalizing fuel u with
  | nil =>
    obtain ⟨fuel, rfl⟩ : ∃ f, fuel = f + 1 := ⟨fuel - 1, by omega⟩
    rw [headerEnd_line hu]
    rfl
  | cons x headers ih =>
    obtain ⟨fuel, rfl⟩ : ∃ f, fuel = f + 1 := ⟨fuel - 1, by omega⟩
    have hx := hok x mem_cons_self
    obtain ⟨u', hu', hskip⟩ := skipSpace_headerLine hx
      (headers.flatMap appendEachHeader ++ newline :: body)
    rw [headerEnd_line hu, flatMap_cons, appendEachHeader_eq, append_assoc, append_assoc,
      singleton_append, hskip]
    exact ih (forall_mem_cons.1 hok).2 hu' (by
      rw [length_cons] at hfuel; omega)

/-! ## Types -/

/-- A type that the reader can return. -/
structure TypeOk (type : Bytes) : Prop where
  nonempty : type ≠ []
  line : newline ∉ type
  plain : ¬ suff <:+: type
  last : type.getLast? ≠ some 0x2d

/-- Before the five dashes there are no other five dashes. -/
theorem TypeOk.first {type : Bytes} (h : TypeOk type) (rest : Bytes) {k : Nat}
    (hk : k < type.length) : ¬ suff <+: (type ++ (suff ++ rest)).drop k := by
  intro hpre
  rw [drop_append_of_le_length hk.le] at hpre
  have hlen : (type.drop k).length = type.length - k := length_drop
  by_cases hin : suff.length ≤ (type.drop k).length
  · exact h.plain ((prefix_of_prefix_length_le hpre (prefix_append _ _) hin).isInfix.trans
      (drop_suffix k type).isInfix)
  · -- they begin in the type, which then ends in one of them
    have hdrop : type.drop k <+: suff :=
      prefix_of_prefix_length_le (prefix_append _ _) hpre (by omega)
    have hne : type.drop k ≠ [] := fun hnil => by rw [hnil] at hlen; simp at hlen; omega
    have hlast : (type.drop k).getLast hne ∈ suff := hdrop.subset (getLast_mem hne)
    have hdash : (type.drop k).getLast hne = 0x2d := by simpa [suff] using hlast
    refine h.last ?_
    rw [getLast_drop] at hdash
    rw [getLast?_eq_getLast_of_ne_nil h.nonempty, hdash]

theorem typeOk_of_first {type rest : Bytes} (hne : type ≠ []) (hline : newline ∉ type)
    (hplace : suff <+: rest) (hfirst : ∀ k < type.length, ¬ suff <+: (type ++ rest).drop k) :
    TypeOk type := by
  refine ⟨hne, hline, fun hin => ?_, fun hlast => ?_⟩
  · obtain ⟨a, b, rfl⟩ := hin
    refine hfirst a.length (by simp [suff]) ?_
    rw [append_assoc, append_assoc, drop_left]
    exact prefix_append _ _
  · obtain ⟨init, rfl⟩ := getLast?_eq_some_iff.1 hlast
    refine hfirst init.length (by simp) ?_
    obtain ⟨t, rfl⟩ := hplace
    rw [append_assoc, drop_left]
    exact ⟨0x2d :: t, rfl⟩

theorem prefBegin_last : prefBegin = prefBegin.dropLast ++ [0x20] := by decide

theorem prefEnd_last : prefEnd = prefEnd.dropLast ++ [0x20] := by decide

/-- The beginning of a block is found behind text without one. -/
theorem pemFindBegin_eq {text type : Bytes} (htext : ¬ prefBegin <:+: text) (hnull : 0 ∉ text)
    (htype : TypeOk type) (htnull : 0 ∉ type) (rest : Bytes) :
    pemFindBegin (text ++ (prefBegin ++ (type ++ (suff ++ rest)))) = .ok (some (type, rest)) := by
  have hbegin : strstrLen prefBegin (text ++ (prefBegin ++ (type ++ (suff ++ rest)))) =
      some (text, prefBegin ++ (type ++ (suff ++ rest))) := by
    refine Lib.strstrLen_eq (by decide) (prefix_append _ _) hnull fun k hk => ?_
    change ¬ prefBegin <+: _
    rw [prefBegin_last] at htext ⊢
    exact Lib.not_prefix_drop (by decide) htext (prefix_append _ _) hk
  have hsuff : strstrLen suff (type ++ (suff ++ rest)) = some (type, suff ++ rest) :=
    Lib.strstrLen_eq (by decide) (prefix_append _ _) htnull fun k hk => htype.first rest hk
  rw [pemFindBegin, hbegin]
  dsimp only
  rw [drop_left, take_left, hsuff]
  dsimp only
  rw [if_neg (not_mem_append (by decide) htype.line), cAssert_of_true htype.nonempty, drop_left]
  rfl

theorem startsWith_append (s rest : Bytes) : startsWith (s ++ rest) s = .ok true := by
  induction s with
  | nil => cases rest <;> rfl
  | cons c s ih => rw [cons_append, startsWith, if_pos rfl, ih]

/-- The end of a block is found where it stands. -/
theorem pemFindEnd_eq {block type : Bytes} (hblock : ¬ prefEnd <:+: block) (hnull : 0 ∉ block)
    (rest : Bytes) :
    pemFindEnd (block ++ (prefEnd ++ (type ++ (suff ++ rest)))) type =
      .ok (some (block, prefEnd ++ (type ++ (suff ++ rest)))) := by
  have hend : strstrLen prefEnd (block ++ (prefEnd ++ (type ++ (suff ++ rest)))) =
      some (block, prefEnd ++ (type ++ (suff ++ rest))) := by
    refine Lib.strstrLen_eq (by decide) (prefix_append _ _) hnull fun k hk => ?_
    change ¬ prefEnd <+: _
    rw [prefEnd_last] at hblock ⊢
    exact Lib.not_prefix_drop (by decide) hblock (prefix_append _ _) hk
  rw [pemFindEnd, hend]
  dsimp only
  rw [drop_left, startsWith_append, drop_left]
  change (do if ← startsWith (suff ++ rest) suff then _ else _) = _
  rw [startsWith_append]
  rfl

/-! ## Entries -/

/-- What the writer is given: some bytes, a type and a table of headers, which are strings of C. -/
structure Entry where
  data : Bytes
  type : Bytes
  headers : List (Bytes × Bytes)
  data_ne : data ≠ []
  type_text : 0 ∉ type
  headers_text : ∀ h ∈ headers, 0 ∉ h.1 ∧ 0 ∉ h.2
  names : (headers.map Prod.fst).Nodup

/-- The reader can return its type and its headers. -/
structure EntryOk (e : Entry) : Prop where
  type : TypeOk e.type
  headers : ∀ h ∈ e.headers, HeaderOk h

/-- There are no headers, and the last line of the base64 text is a full one. -/
def Swallowed (e : Entry) : Prop := e.headers = [] ∧ (e.data.length + 2) / 3 % 16 = 0

/-- The text between the two lines with the type. -/
def Entry.block (e : Entry) : Bytes :=
  newline :: ((if e.headers = [] then [] else e.headers.flatMap appendEachHeader ++ [newline]) ++
    lines64 (Lib.Base64.encode e.data))

/-- All that is written for an entry. -/
def Entry.text (e : Entry) : Bytes :=
  prefBegin ++ (e.type ++ (suff ++ (e.block ++ (prefEnd ++ (e.type ++ (suff ++ [newline]))))))

theorem eggOpensslPemWrite_eq (e : Entry) :
    eggOpensslPemWrite e.data e.type e.headers = .ok e.text := by
  have hlength := Lib.Base64.length_encode e.data
  have hestimate : (Lib.Base64.encode e.data ++ [newline]).length ≤
      e.data.length * 4 / 3 + e.data.length * 4 / (3 * 65) + 7 := by
    rw [length_append, hlength, length_singleton]
    omega
  have hlines : breakLines (Lib.Base64.encode e.data ++ [newline]).length 64
      (Lib.Base64.encode e.data ++ [newline]) = lines64 (Lib.Base64.encode e.data) :=
    breakLines_eq [] _ (by simp)
  rw [eggOpensslPemWrite, cAssert_of_true hestimate, hlines, Entry.text, Entry.block]
  by_cases hheaders : e.headers = []
  · rw [if_neg (not_not.2 hheaders), if_pos hheaders]
    simp [bind, Except.bind, pure, Except.pure]
  · rw [if_pos hheaders, if_neg hheaders]
    simp [bind, Except.bind, pure, Except.pure]

theorem rank_lines64 (hc : c ∈ lines64 (Lib.Base64.encode data)) :
    c = newline ∨ (Lib.Base64.rank c).isSome :=
  (mem_lines64 hc).imp_right Lib.Base64.rank_of_mem_encode

/-- The bytes are decoded from the lines of the base64 text. -/
theorem decode_lines64 (data : Bytes) :
    Lib.Base64.decode (newline :: lines64 (Lib.Base64.encode data)) = data := by
  refine Lib.Base64.decode_encode ?_
  rw [filter_cons_of_neg (by decide), filter_lines64 (by decide)]
  exact filter_eq_self.2 fun c hc => Lib.Base64.rank_of_mem_encode hc

theorem not_infix_headers {rest : Bytes} (hok : ∀ h ∈ headers, HeaderOk h)
    (hrest : ¬ prefEnd <:+: rest) :
    ¬ prefEnd <:+: headers.flatMap appendEachHeader ++ rest := by
  induction headers with
  | nil => exact hrest
  | cons x headers ih =>
    have hx := hok x mem_cons_self
    rw [flatMap_cons, appendEachHeader_eq, append_assoc, append_assoc, singleton_append]
    intro hin
    rcases Lib.infix_append_cons (by decide) hin with hin | hin
    · rcases Lib.infix_append_cons (by decide) hin with hin | hin
      · exact hx.plain.1 hin
      · exact hx.plain.2 (Lib.infix_of_cons (by decide) hin)
    · exact ih (forall_mem_cons.1 hok).2 hin

variable {e : Entry}

theorem not_infix_block (hok : EntryOk e) : ¬ prefEnd <:+: e.block := by
  have hbody : ¬ prefEnd <:+: lines64 (Lib.Base64.encode e.data) := by
    intro hin
    have hdash : (0x2d : UInt8) ∈ lines64 (Lib.Base64.encode e.data) := hin.subset (by decide)
    rcases rank_lines64 hdash with heq | hrank
    · exact absurd heq (by decide)
    · exact absurd hrank (by decide)
  intro hin
  have hin := Lib.infix_of_cons (by decide) hin
  by_cases hheaders : e.headers = []
  · rw [if_pos hheaders] at hin
    exact hbody hin
  · rw [if_neg hheaders, append_assoc] at hin
    refine not_infix_headers hok.headers (fun hin => ?_) hin
    exact hbody (Lib.infix_of_cons (by decide) hin)

theorem null_not_mem_block (e : Entry) : 0 ∉ e.block := by
  intro hmem
  have hbody : 0 ∉ lines64 (Lib.Base64.encode e.data) := by
    intro hmem
    rcases rank_lines64 hmem with heq | hrank
    · exact absurd heq (by decide)
    · exact absurd hrank (by decide)
  rcases mem_cons.1 hmem with heq | hmem
  · exact absurd heq (by decide)
  rcases mem_append.1 hmem with hmem | hmem
  · by_cases hheaders : e.headers = []
    · rw [if_pos hheaders] at hmem
      cases hmem
    · rw [if_neg hheaders] at hmem
      rcases mem_append.1 hmem with hmem | hmem
      · obtain ⟨x, hx, hmem⟩ := mem_flatMap.1 hmem
        have hcolon : (0 : UInt8) ≠ colon := by decide
        have hnewline : (0 : UInt8) ≠ newline := by decide
        simp [appendEachHeader, e.headers_text x hx, hcolon, hnewline] at hmem
      · exact absurd hmem (by decide)
  · exact hbody hmem

theorem not_isSpace_encode (hc : c ∈ Lib.Base64.encode data) : isSpace c = false := by
  have hrank := Lib.Base64.rank_of_mem_encode hc
  by_contra hspace
  have hall : ∀ n < 256, isSpace (UInt8.ofNat n) = true →
      (Lib.Base64.rank (UInt8.ofNat n)).isSome = false := by decide +kernel
  have hc := hall c.toNat c.toNat_lt
  rw [UInt8.ofNat_toNat, hrank] at hc
  cases hc (Bool.eq_true_of_not_eq_false hspace)

theorem length_le_lines64 (enc : Bytes) : enc.length ≤ (lines64 enc).length := by
  induction enc using lines64.induct with
  | case1 enc hshort =>
    rw [lines64, if_pos hshort, length_append]
    omega
  | case2 enc hlong ih =>
    rw [lines64, if_neg hlong, length_append, length_cons, length_take]
    rw [length_drop] at ih
    omega

theorem length_le_headers (headers : List (Bytes × Bytes)) :
    headers.length ≤ (headers.flatMap appendEachHeader).length := by
  induction headers with
  | nil => exact le_rfl
  | cons x headers ih =>
    rw [flatMap_cons, length_append, length_cons, appendEachHeader_eq,
      length_append, length_singleton]
    omega

/-- The reader gives back the bytes and the headers of an entry, unless it is swallowed. -/
theorem pemParseBlock_eq (hok : EntryOk e) {headers : Option Headers}
    (hheaders : headers.getD eggOpensslHeadersNew = eggOpensslHeadersNew) :
    (Swallowed e ∧ pemParseBlock e.block headers = .ok (none, headers)) ∨
    ¬ Swallowed e ∧ ∃ headers', pemParseBlock e.block headers = .ok (some e.data, headers') ∧
      headers'.getD eggOpensslHeadersNew = table e.headers := by
  have hlength := Lib.Base64.length_encode e.data
  have hne : e.block ≠ [] := cons_ne_nil _ _
  rw [pemParseBlock, cAssert_of_true hne, ok_bind]
  dsimp only
  by_cases hnone : e.headers = []
  · have hblock : e.block = newline :: lines64 (Lib.Base64.encode e.data) := by
      rw [Entry.block, if_pos hnone, nil_append]
    have hend : headerEnd e.block.length e.block =
        if (Lib.Base64.encode e.data).length % 64 = 0 then some [newline] else none := by
      rw [hblock]
      refine headerEnd_lines64 (u := []) not_mem_nil (fun c hc => not_isSpace_encode hc) ?_
      rw [length_cons]
      exact Nat.lt_succ_of_le (length_le_lines64 _)
    by_cases hfull : (e.data.length + 2) / 3 % 16 = 0
    · -- what is behind the blank line is the end of the block
      left
      have hmod : (Lib.Base64.encode e.data).length % 64 = 0 := by omega
      rw [hend, if_pos hmod]
      exact ⟨⟨hnone, hfull⟩, rfl⟩
    · right
      have hmod : ¬ (Lib.Base64.encode e.data).length % 64 = 0 := by omega
      rw [hend, if_neg hmod, Option.getD_none, hblock, decode_lines64, if_neg e.data_ne]
      refine ⟨fun h => hfull h.2, headers, rfl, ?_⟩
      rw [hheaders, hnone]
      rfl
  · right
    have hblock : e.block = newline :: e.headers.flatMap appendEachHeader ++
        newline :: lines64 (Lib.Base64.encode e.data) := by
      rw [Entry.block, if_neg hnone]
      simp
    have hend : headerEnd e.block.length e.block =
        some (newline :: lines64 (Lib.Base64.encode e.data)) := by
      rw [hblock]
      refine headerEnd_headers (u := []) hok.headers not_mem_nil ?_
      have := length_le_headers e.headers
      simp only [length_append, length_cons]
      omega
    rw [hend, Option.getD_some, decode_lines64, if_neg e.data_ne]
    refine ⟨fun h => hnone h.1, _, rfl, ?_⟩
    rw [hblock, length_append, Nat.add_sub_cancel, take_left]
    exact parseHeaderLines_eq hok.headers e.names hheaders

/-! ## Whole texts -/

/-- Entries are written one after another, each behind some text; then there is some more text. -/
def writeAll (last : Bytes) : List (Bytes × Entry) → Checked Bytes
  | [] => .ok last
  | (text, e) :: entries => do
      let written ← eggOpensslPemWrite e.data e.type e.headers
      let others ← writeAll last entries
      pure (text ++ written ++ others)

/-- The type, the bytes and the table of headers. -/
def Entry.content (e : Entry) : Bytes × Bytes × Headers := (e.type, e.data, table e.headers)

/-- What a callback is given; no table is one without headers. -/
def Callback.content (call : Callback) : Bytes × Bytes × Headers :=
  (call.type, call.data, call.headers.getD eggOpensslHeadersNew)

/-- All entries are read back, each once and in order. -/
def RoundTrips (entries : List (Bytes × Entry)) (last : Bytes) : Prop :=
  ∃ text calls, writeAll last entries = .ok text ∧ eggOpensslPemParse text = .ok calls ∧
    calls.map Callback.content = entries.map fun x => x.2.content

instance : DecidablePred Swallowed := fun _ => inferInstanceAs (Decidable (_ ∧ _))

/-- What is read back: nothing behind a null character, and of the others all that are not swallowed. -/
def survivors : List (Bytes × Entry) → List (Bytes × Bytes × Headers)
  | [] => []
  | (text, e) :: entries =>
    if 0 ∈ text then []
    else if Swallowed e then survivors entries
    else e.content :: survivors entries

theorem writeAll_cons (last text : Bytes) (e : Entry) (entries : List (Bytes × Entry)) :
    writeAll last ((text, e) :: entries) =
      (writeAll last entries).map fun others => text ++ (e.text ++ others) := by
  rw [writeAll, eggOpensslPemWrite_eq, ok_bind]
  cases writeAll last entries with
  | error fault => rfl
  | ok others => exact congrArg Except.ok (append_assoc ..)

/-- Text before a block that is not taken for the beginning of one. -/
structure Junk (pre : Bytes) : Prop where
  null : 0 ∉ pre
  plain : ∀ text, ¬ prefBegin <:+: text → ¬ prefBegin <:+: pre ++ text

theorem junk_nil : Junk [] := ⟨not_mem_nil, fun _ => id⟩

/-- From the middle of an end on, no beginning is seen. -/
theorem junk_end {type : Bytes} (htype : TypeOk type) (hnull : 0 ∉ type) :
    Junk (prefEnd.drop suff.length ++ (type ++ (suff ++ [newline]))) := by
  refine ⟨?_, fun text htext hin => ?_⟩
  · exact not_mem_append (by decide) (not_mem_append hnull (by decide))
  have heq : prefEnd.drop suff.length ++ (type ++ (suff ++ [newline])) ++ text =
      (prefEnd.drop suff.length ++ type ++ suff) ++ newline :: text := by simp
  rw [heq] at hin
  rcases Lib.infix_append_cons (by decide) hin with hin | hin
  · rw [prefBegin_last] at hin
    have hin := Lib.infix_of_append (by decide) hin
    rw [← prefBegin_last] at hin
    -- none of the four characters before the type is a dash
    have hin : prefBegin <:+: type := Lib.infix_of_cons (by decide) (Lib.infix_of_cons (by decide)
      (Lib.infix_of_cons (by decide) (Lib.infix_of_cons (by decide) hin)))
    exact htype.plain ((prefix_append suff _).isInfix.trans hin)
  · exact htext hin

theorem parseFrom_none {headers : Option Headers} (h : strstrLen prefBegin data = none) :
    parseFrom fuel data headers = .ok [] := by
  cases fuel with
  | zero => rfl
  | succ fuel =>
    rw [parseFrom, pemFindBegin, h]
    rfl

/-- Entries that the reader can return are read back, but for those that are swallowed. -/
theorem parseFrom_written {entries : List (Bytes × Entry)} {last text : Bytes}
    (pre : Bytes) (fuel : Nat) (headers : Option Headers) (hwritten : writeAll last entries = .ok text)
    (hok : ∀ x ∈ entries, EntryOk x.2) (htexts : ∀ x ∈ entries, ¬ prefBegin <:+: x.1)
    (hlast : ¬ prefBegin <:+: last) (hpre : Junk pre)
    (hheaders : headers.getD eggOpensslHeadersNew = eggOpensslHeadersNew)
    (hfuel : entries.length ≤ fuel) :
    ∃ calls, parseFrom fuel (pre ++ text) headers = .ok calls ∧
      calls.map Callback.content = survivors entries := by
  induction entries generalizing pre text fuel headers with
  | nil =>
    cases hwritten
    exact ⟨[], parseFrom_none (Lib.strstrLen_none (hpre.plain last hlast)), rfl⟩
  | cons x entries ih =>
    obtain ⟨between, e⟩ := x
    obtain ⟨fuel, rfl⟩ : ∃ f, fuel = f + 1 := ⟨fuel - 1, by rw [length_cons] at hfuel; omega⟩
    have hbetween := hpre.plain between (htexts _ mem_cons_self)
    have heok : EntryOk e := hok _ mem_cons_self
    rw [writeAll_cons] at hwritten
    cases hothers : writeAll last entries with
    | error fault =>
      rw [hothers] at hwritten
      cases hwritten
    | ok others =>
      rw [hothers] at hwritten
      cases hwritten
      rw [← append_assoc, survivors]
      by_cases hnull : 0 ∈ between
      · rw [if_pos hnull]
        exact ⟨[], parseFrom_none (Lib.strstrLen_null (by decide) hbetween
          (mem_append_right pre hnull)), rfl⟩
      · rw [if_neg hnull]
        have htail : pre ++ between ++ (e.text ++ others) =
            pre ++ between ++ (prefBegin ++ (e.type ++ (suff ++ (e.block ++ (prefEnd ++
              (e.type ++ (suff ++ (newline :: others)))))))) := by simp [Entry.text]
        have hnext : (prefEnd ++ (e.type ++ (suff ++ (newline :: others)))).drop suff.length =
            prefEnd.drop suff.length ++ (e.type ++ (suff ++ [newline])) ++ others := by
          rw [drop_append_of_le_length (by decide)]
          simp
        have hmore := fun headers hheaders => ih (prefEnd.drop suff.length ++ (e.type ++
          (suff ++ [newline]))) fuel headers hothers
          (forall_mem_cons.1 hok).2
          (forall_mem_cons.1 htexts).2 (junk_end heok.type e.type_text) hheaders
          (by rw [length_cons] at hfuel; omega)
        rw [htail, parseFrom, pemFindBegin_eq hbetween (not_mem_append hpre.null hnull) heok.type
          e.type_text, ok_bind]
        dsimp only
        rw [pemFindEnd_eq (not_infix_block heok) (null_not_mem_block e), ok_bind]
        dsimp only
        have hne : e.block ≠ [] := cons_ne_nil _ _
        rw [if_neg hne, hnext]
        rcases pemParseBlock_eq heok hheaders with ⟨hswallowed, hparse⟩ |
          ⟨hnot, headers', hparse, htable⟩
        · rw [hparse, ok_bind, if_pos hswallowed]
          exact hmore headers hheaders
        · obtain ⟨calls, hcalls, hcontents⟩ := hmore (headers'.map fun _ => eggOpensslHeadersNew)
            (by cases headers' <;> rfl)
          rw [hparse, ok_bind, if_neg hnot]
          dsimp only
          rw [hcalls]
          refine ⟨_, rfl, ?_⟩
          rw [map_cons, hcontents, Callback.content, htable]
          rfl

/-! ## What the reader can return -/

theorem pemFindBegin_range {data type beg : Bytes}
    (h : pemFindBegin data = .ok (some (type, beg))) : TypeOk type := by
  rw [pemFindBegin] at h
  cases hpref : strstrLen prefBegin data with
  | none =>
    rw [hpref] at h
    cases h
  | some r =>
    rw [hpref] at h
    dsimp only at h
    cases hsuff : strstrLen suff (r.2.drop prefBegin.length) with
    | none =>
      rw [hsuff] at h
      cases h
    | some t =>
      obtain ⟨stype, rest⟩ := t
      rw [hsuff] at h
      dsimp only at h
      split at h
      · cases h
      · next hline =>
          by_cases hne : stype = []
          · rw [cAssert, if_neg (not_not.2 hne)] at h
            cases h
          · rw [cAssert_of_true hne, ok_bind] at h
            cases h
            obtain ⟨-, hplace, -, hfirst⟩ := Lib.strstrLen_some hsuff
            exact typeOk_of_first hne (fun hmem => hline (mem_append_right _ hmem)) hplace hfirst

theorem pemFindEnd_range {data type block pref : Bytes}
    (h : pemFindEnd data type = .ok (some (block, pref))) : ¬ prefEnd <:+: block := by
  rw [pemFindEnd] at h
  cases hpref : strstrLen prefEnd data with
  | none =>
    rw [hpref] at h
    cases h
  | some r =>
    obtain ⟨block', pref'⟩ := r
    have hblock : block' = block := by
      rw [hpref] at h
      dsimp only at h
      cases hs : startsWith (pref'.drop prefEnd.length) type with
      | error fault => rw [hs] at h; cases h
      | ok same =>
        rw [hs, ok_bind] at h
        cases same with
        | false => cases h
        | true =>
          rw [if_pos rfl] at h
          cases hs' : startsWith ((pref'.drop prefEnd.length).drop type.length) suff with
          | error fault => rw [hs'] at h; cases h
          | ok same' =>
            rw [hs', ok_bind] at h
            cases same' with
            | false => cases h
            | true => cases h; rfl
    obtain ⟨-, -, -, hfirst⟩ := Lib.strstrLen_some hpref
    rintro ⟨a, b, hab⟩
    rw [← hblock] at hab
    subst hab
    refine hfirst a.length (by simp [prefEnd]) ?_
    rw [append_assoc, append_assoc, drop_left]
    exact prefix_append _ _

theorem mem_splitOn {s l : Bytes} (hl : l ∈ s.splitOn newline) : newline ∉ l ∧ l <:+: s := by
  -- for the first line, that it stands at the beginning
  have hfirst : (∀ l ∈ (s.splitOn newline).head?, l <+: s) ∧
      ∀ l ∈ s.splitOn newline, newline ∉ l ∧ l <:+: s := by
    clear hl
    induction s with
    | nil => simp
    | cons c s ih =>
      obtain ⟨hhead, hall⟩ := ih
      have hcons : ∀ l ∈ s.splitOn newline, newline ∉ l ∧ l <:+: c :: s := fun l hl =>
        ⟨(hall l hl).1, infix_cons (hall l hl).2⟩
      rw [splitOn_cons_eq_if_modifyHead]
      by_cases hc : c = newline
      · rw [if_pos (beq_iff_eq.2 hc)]
        refine ⟨fun l hl => ?_, fun l hl => ?_⟩
        · cases hl
          exact nil_prefix
        · rcases mem_cons.1 hl with rfl | hl
          · exact ⟨not_mem_nil, nil_infix⟩
          · exact hcons l hl
      · rw [if_neg (fun h => hc (beq_iff_eq.1 h))]
        cases hsplit : s.splitOn newline with
        | nil => exact absurd hsplit (splitOn_ne_nil newline s)
        | cons first others =>
          rw [hsplit] at hhead hall hcons
          have hpre : c :: first <+: c :: s := cons_prefix_cons.2 ⟨rfl, hhead first rfl⟩
          refine ⟨fun l hl => ?_, fun l hl => ?_⟩
          · cases hl
            exact hpre
          · rcases mem_cons.1 hl with rfl | hl
            · refine ⟨fun hmem => ?_, hpre.isInfix⟩
              rcases mem_cons.1 hmem with heq | hmem
              · exact hc heq.symm
              · exact (hall first mem_cons_self).1 hmem
            · exact hcons l (mem_cons_of_mem _ hl)
  exact hfirst.2 l hl

theorem strstrip_isInfix (s : Bytes) : strstrip s <:+: s :=
  ( rdropWhile_prefix (l := s.dropWhile asciiIsSpace) (p := asciiIsSpace)).isInfix.trans
    (dropWhile_suffix _).isInfix

/-- Every header of the table is one that the reader can return. -/
def TableOk (headers : Option Headers) : Prop :=
  ∀ name value, headers.getD eggOpensslHeadersNew name = some value → HeaderOk (name, value)

theorem parseHeaderLine_range {line : Bytes} (hline : newline ∉ line) (hplain : ¬ prefEnd <:+: line)
    (hresult : TableOk result) : TableOk (parseHeaderLine result line) := by
  rw [parseHeaderLine]
  generalize hstrip : strstrip line = stripped
  have hin : stripped <:+: line := hstrip ▸ strstrip_isInfix line
  cases hdrop : stripped.dropWhile (· ≠ colon) with
  | nil => exact hresult
  | cons c value =>
    have hname : strstrip (stripped.takeWhile (· ≠ colon)) <:+: stripped :=
      (strstrip_isInfix _).trans ( takeWhile_prefix _).isInfix
    have hvalue : strstrip value <:+: stripped := by
      refine (strstrip_isInfix _).trans (List.IsInfix.trans ?_ (dropWhile_suffix (· ≠ colon)).isInfix)
      rw [hdrop]
      exact infix_cons (infix_refl value)
    intro n v hnv
    rw [Option.getD_some] at hnv
    by_cases hn : n = strstrip (stripped.takeWhile (· ≠ colon))
    · subst hn
      rw [Function.update_self] at hnv
      cases hnv
      refine ⟨⟨fun hmem => hline ((hname.trans hin).subset hmem), fun hmem => ?_, trimmed_strstrip _⟩,
        ⟨fun hmem => hline ((hvalue.trans hin).subset hmem), trimmed_strstrip _⟩,
        fun h => hplain (h.trans (hname.trans hin)), fun h => hplain (h.trans (hvalue.trans hin))⟩
      have := mem_takeWhile_imp ((strstrip_isInfix _).subset hmem)
      simp at this
    · rw [Function.update_of_ne hn] at hnv
      exact hresult n v hnv

theorem parseHeaderLines_range {text : Bytes} (hplain : ¬ prefEnd <:+: text) (hresult : TableOk result) :
    TableOk (parseHeaderLines text result) := by
  have hlines : ∀ l ∈ text.splitOn newline, newline ∉ l ∧ ¬ prefEnd <:+: l := fun l hl =>
    ⟨(mem_splitOn hl).1, fun h => hplain (h.trans (mem_splitOn hl).2)⟩
  rw [parseHeaderLines]
  generalize text.splitOn newline = lines at hlines
  induction lines generalizing result with
  | nil => exact hresult
  | cons l lines ih =>
    obtain ⟨hl, hl'⟩ := hlines l mem_cons_self
    exact ih (parseHeaderLine_range hl hl' hresult) (forall_mem_cons.1 hlines).2

theorem pemParseBlock_range {block : Bytes} {headers headers' : Option Headers}
    {decoded : Option Bytes} (hplain : ¬ prefEnd <:+: block) (hheaders : TableOk headers)
    (h : pemParseBlock block headers = .ok (decoded, headers')) :
    TableOk headers' ∧ (decoded = none → headers' = headers) := by
  rw [pemParseBlock] at h
  by_cases hne : block = []
  · rw [cAssert, if_neg (not_not.2 hne)] at h
    cases h
  rw [cAssert_of_true hne, ok_bind] at h
  dsimp only at h
  split at h
  · cases h
    exact ⟨hheaders, fun _ => rfl⟩
  · cases hend : headerEnd block.length block with
    | none =>
      rw [hend] at h
      cases h
      exact ⟨hheaders, fun hnone => by cases hnone⟩
    | some hend' =>
      rw [hend] at h
      cases h
      refine ⟨parseHeaderLines_range (fun hin => hplain ?_) hheaders, fun hnone => by cases hnone⟩
      exact hin.trans ( take_prefix _ _).isInfix

theorem tableOk_of_empty {headers : Option Headers}
    (h : headers.getD eggOpensslHeadersNew = eggOpensslHeadersNew) : TableOk headers := by
  intro name value hvalue
  rw [h] at hvalue
  cases hvalue

/-- Whatever is read, a callback is given a type and headers of the kinds `TypeOk` and `HeaderOk`. -/
theorem parseFrom_range {headers : Option Headers} {calls : List Callback}
    (h : parseFrom fuel data headers = .ok calls)
    (hheaders : headers.getD eggOpensslHeadersNew = eggOpensslHeadersNew) :
    ∀ call ∈ calls, TypeOk call.type ∧ TableOk call.headers := by
  induction fuel generalizing data headers calls with
  | zero =>
    cases h
    exact fun call hcall => by cases hcall
  | succ fuel ih =>
    rw [parseFrom] at h
    cases hbegin : pemFindBegin data with
    | error fault => rw [hbegin] at h; cases h
    | ok found =>
      rw [hbegin, ok_bind] at h
      cases found with
      | none =>
        cases h
        exact fun call hcall => by cases hcall
      | some found =>
        obtain ⟨type, beg⟩ := found
        dsimp only at h
        cases hend : pemFindEnd beg type with
        | error fault => rw [hend] at h; cases h
        | ok found =>
          rw [hend, ok_bind] at h
          cases found with
          | none =>
            cases h
            exact fun call hcall => by cases hcall
          | some found =>
            obtain ⟨block, pref⟩ := found
            dsimp only at h
            split at h
            · exact ih h hheaders
            · cases hparse : pemParseBlock block headers with
              | error fault => rw [hparse] at h; cases h
              | ok parsed =>
                obtain ⟨decoded, headers'⟩ := parsed
                rw [hparse, ok_bind] at h
                obtain ⟨htable, hsame⟩ := pemParseBlock_range (pemFindEnd_range hend)
                  (tableOk_of_empty hheaders) hparse
                cases decoded with
                | none =>
                  obtain rfl := hsame rfl
                  exact ih h hheaders
                | some decoded =>
                  dsimp only at h
                  cases hmore : parseFrom fuel (pref.drop suff.length)
                      (headers'.map fun _ => eggOpensslHeadersNew) with
                  | error fault => rw [hmore] at h; cases h
                  | ok others =>
                    rw [hmore] at h
                    cases h
                    intro call hcall
                    rcases mem_cons.1 hcall with rfl | hcall
                    · exact ⟨pemFindBegin_range hbegin, htable⟩
                    · exact ih hmore (by cases headers' <;> rfl) call hcall

/-! ## The round trip -/

theorem length_survivors_le (entries : List (Bytes × Entry)) :
    (survivors entries).length ≤ entries.length := by
  induction entries with
  | nil => exact le_rfl
  | cons x entries ih =>
    obtain ⟨text, e⟩ := x
    rw [survivors, length_cons]
    split
    · exact Nat.zero_le _
    · split
      · omega
      · rw [length_cons]
        omega

theorem survivors_eq_iff (entries : List (Bytes × Entry)) :
    survivors entries = entries.map (fun x => x.2.content) ↔
      ∀ x ∈ entries, 0 ∉ x.1 ∧ ¬ Swallowed x.2 := by
  induction entries with
  | nil => simp [survivors]
  | cons x entries ih =>
    obtain ⟨text, e⟩ := x
    rw [survivors, map_cons, forall_mem_cons]
    by_cases hnull : 0 ∈ text
    · rw [if_pos hnull]
      exact ⟨(fun h => by cases h), fun h => absurd hnull h.1.1⟩
    · rw [if_neg hnull]
      by_cases hswallowed : Swallowed e
      · rw [if_pos hswallowed]
        refine ⟨fun h => ?_, fun h => absurd hswallowed h.1.2⟩
        have hlength := congrArg List.length h
        rw [length_cons, length_map] at hlength
        have := length_survivors_le entries
        omega
      · rw [if_neg hswallowed, List.cons.injEq, ih]
        exact ⟨fun h => ⟨⟨hnull, hswallowed⟩, h.2⟩, fun h => ⟨rfl, h.2⟩⟩

/-- The writer does not fail, and writes something for each entry. -/
theorem writeAll_ok (last : Bytes) (entries : List (Bytes × Entry)) :
    ∃ text, writeAll last entries = .ok text ∧ entries.length ≤ text.length := by
  induction entries with
  | nil => exact ⟨last, rfl, Nat.zero_le _⟩
  | cons x entries ih =>
    obtain ⟨text, e⟩ := x
    obtain ⟨others, hothers, hlength⟩ := ih
    rw [writeAll_cons, hothers]
    refine ⟨_, rfl, ?_⟩
    simp only [length_append, length_cons, Entry.text, Entry.block]
    omega

theorem lookup_of_mem (hnodup : (headers.map Prod.fst).Nodup) {h : Bytes × Bytes}
    (hh : h ∈ headers) : headers.lookup h.1 = some h.2 := by
  induction headers with
  | nil => cases hh
  | cons x headers ih =>
    obtain ⟨n, v⟩ := x
    obtain ⟨hx, hothers⟩ := nodup_cons.1 hnodup
    rcases mem_cons.1 hh with rfl | hh
    · exact lookup_cons_self
    · have hne : h.1 ≠ n := fun heq => hx (mem_map.2 ⟨h, hh, heq⟩)
      rw [lookup_cons, beq_eq_false_iff_ne.2 hne]
      exact ih hothers hh

/-- An entry that a callback is given the content of is one that the reader can return. -/
theorem entryOk_of_content {call : Callback} (h : call.content = e.content) (htype : TypeOk call.type)
    (htable : TableOk call.headers) : EntryOk e := by
  obtain ⟨heq, h⟩ := Prod.mk.inj h
  obtain ⟨-, hheaders⟩ := Prod.mk.inj h
  refine ⟨heq ▸ htype, fun x hx => htable x.1 x.2 ?_⟩
  rw [hheaders]
  exact lookup_of_mem e.names hx

/-- Entries between texts without a beginning or an end are read back exactly when the reader can
return the type and the headers of each, no entry without headers has base64 text that fills its last
line, and there is no null character before an entry. -/
theorem pem_round_trip_iff (entries : List (Bytes × Entry)) (last : Bytes)
    (htexts : ∀ x ∈ entries, ¬ prefBegin <:+: x.1 ∧ ¬ prefEnd <:+: x.1)
    (hlast : ¬ prefBegin <:+: last ∧ ¬ prefEnd <:+: last) :
    RoundTrips entries last ↔ ∀ x ∈ entries, EntryOk x.2 ∧ ¬ Swallowed x.2 ∧ 0 ∉ x.1 := by
  obtain ⟨text, hwritten, hlength⟩ := writeAll_ok last entries
  have hread : (∀ x ∈ entries, EntryOk x.2) → ∃ calls, eggOpensslPemParse text = .ok calls ∧
      calls.map Callback.content = survivors entries := fun hok =>
    parseFrom_written [] _ _ hwritten hok (fun x hx => (htexts x hx).1) hlast.1 junk_nil rfl hlength
  constructor
  · rintro ⟨text', calls, hwritten', hparse, hcontents⟩
    rw [hwritten] at hwritten'
    cases hwritten'
    have hok : ∀ x ∈ entries, EntryOk x.2 := by
      intro x hx
      obtain ⟨call, hcall, heq⟩ : ∃ call ∈ calls, call.content = x.2.content := by
        refine mem_map.1 ?_
        rw [hcontents]
        exact mem_map_of_mem hx
      obtain ⟨htype, htable⟩ := parseFrom_range hparse rfl call hcall
      exact entryOk_of_content heq htype htable
    obtain ⟨calls', hparse', hsurvivors⟩ := hread hok
    rw [hparse] at hparse'
    cases hparse'
    have hall := (survivors_eq_iff entries).1 (hsurvivors.symm.trans hcontents)
    exact fun x hx => ⟨hok x hx, (hall x hx).2, (hall x hx).1⟩
  · intro hall
    obtain ⟨calls, hparse, hsurvivors⟩ := hread fun x hx => (hall x hx).1
    refine ⟨text, calls, hwritten, hparse, hsurvivors.trans ?_⟩
    exact (survivors_eq_iff entries).2 fun x hx => ⟨(hall x hx).2.2, (hall x hx).2.1⟩

/-- Five bytes of the type `A` with a header. -/
def sampleEntry : Entry where
  data := [1, 2, 3, 4, 5]
  type := [0x41]
  headers := [([0x4e], [0x76])]
  data_ne := by decide
  type_text := by decide
  headers_text := by decide
  names := by decide

theorem sampleEntry_ok : EntryOk sampleEntry := by
  refine ⟨⟨by decide, by decide, by decide, by decide⟩, fun h hh => ?_⟩
  rw [mem_singleton.1 hh]
  exact ⟨⟨by decide, by decide, trimmed_singleton rfl⟩, ⟨by decide, trimmed_singleton rfl⟩, by decide, by decide⟩

theorem pem_round_trip_sample : RoundTrips [([0x78], sampleEntry)] [0x79] := by
  refine (pem_round_trip_iff [([0x78], sampleEntry)] [0x79] (by decide) (by decide)).2 fun x hx => ?_
  rw [mem_singleton.1 hx]
  exact ⟨sampleEntry_ok, by decide, by decide⟩

/-- 48 bytes of the type `A`: their base64 text is one full line. -/
def fullLineEntry : Entry where
  data := replicate 48 0x41
  type := [0x41]
  headers := []
  data_ne := by decide
  type_text := by decide
  headers_text := by decide
  names := by decide

/-- They are written, and not read back. -/
theorem full_line_is_lost : ¬ RoundTrips [([], fullLineEntry)] [] := by
  have hlost : ((writeAll [] [([], fullLineEntry)]).bind eggOpensslPemParse).toOption.map List.length =
      some 0 := by decide +kernel
  rintro ⟨text, calls, hwritten, hparse, hcontents⟩
  rw [hwritten] at hlost
  change (eggOpensslPemParse text).toOption.map List.length = some 0 at hlost
  rw [hparse] at hlost
  have hlength := congrArg List.length hcontents
  rw [length_map, Option.some.inj hlost] at hlength
  cases hlength

end MateKeyring.Egg.Pem
