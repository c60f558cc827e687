import MateKeyring.Gpg.Agent

/-!
# The discipline of requests and replies

What the client reads is the output cut at the ends of lines. A line of the client is `Answered` when
that is some data lines, which decode to the passphrase, and one final line. The conversation is
`Permitted` when a passphrase is sent or cleared only after a line that named the display of the daemon
and was accepted.

`conversation_disciplined` has the condition: the memory of the call was zero, and every line is `Fit`
for the state it arrives in.
-/

set_option autoImplicit false

namespace MateKeyring.Gpg

open Lib Egg List

variable {r : Request} {call : Call}

/-! ## What the client reads -/

/-- The value of a hex digit. -/
def assuanDigit (c : UInt8) : Option Nat := hexcUpper.findIdx? (· == gAsciiToupper c)

/-- The bytes of a data line: a percent sign is followed by two hex digits, and neither it nor the end
of a line stands for itself. -/
def assuanData : Bytes → Option Bytes
  | [] => some []
  | c :: s =>
    if c = newline ∨ c = carriageReturn then none
    else if c = percent then
      match s with
      | a :: b :: s => do
          let high ← assuanDigit a
          let low ← assuanDigit b
          let data ← assuanData s
          pure (UInt8.ofNat (high * 16 + low) :: data)
      | _ => none
    else (assuanData s).map (c :: ·)

/-- The passphrase that is sent as data. -/
def Event.data : Event → Option Bytes
  | .sent true password => some password
  | _ => none

/-- What a line of the client is answered with: data lines, which decode to the passphrases that are
sent as data, and one final line. -/
def Answered (t : Turn) : Prop :=
  ∃ (payloads : List Bytes) (final : Bytes),
    t.out.splitOn newline = payloads.map (ascii "D " ++ ·) ++ [final, []] ∧
    (ascii "OK " <+: final ∨ ascii "ERR " <+: final) ∧
    payloads.map assuanData = (t.events.filterMap Event.data).map some

/-- The option `display=` of a request, and the display that it names. -/
def Request.namedDisplay (r : Request) : Option Bytes :=
  match splitArgument r.behind r.args with
  | none => none
  | some option =>
    if r.is "OPTION" && asciiStrncaseEq option (ascii "display=") (ascii "display=").length then
      some (option.drop (ascii "display=").length)
    else none

/-- A line that named the display of the daemon, and was accepted. -/
def Accepted (rt : Request × Turn) : Prop :=
  ∃ display ours, rt.1.namedDisplay = some display ∧ rt.1.display = some ours ∧
    x11DisplaysEq display ours = true ∧ rt.2.out = gkdGpgAgentSendReply true none

/-- A passphrase is sent or cleared only after a line that was accepted. -/
def Permitted (turns : List (Request × Turn)) : Prop :=
  ∀ before rt after, turns = before ++ rt :: after → rt.2.events ≠ [] → ∃ a ∈ before, Accepted a

/-- What is asked of a conversation. The lines that are handled are the first ones. -/
structure Disciplined (requests : List Request) (turns : List (Request × Turn)) : Prop where
  handled : turns.map Prod.fst <+: requests
  answered : ∀ rt ∈ turns, rt.1.stripped ≠ [] → Answered rt.2
  permitted : Permitted turns

/-! ## The condition -/

/-- No byte of a passphrase has a meaning in a data line. -/
def Plain (password : Bytes) : Prop :=
  newline ∉ password ∧ carriageReturn ∉ password ∧ percent ∉ password

instance (password : Bytes) : Decidable (Plain password) :=
  inferInstanceAs (Decidable (_ ∧ _ ∧ _))

/-- The passphrase that a request finds: the first saved one that can be read, or what is entered. -/
def Request.password (r : Request) : Option Bytes → Option Bytes
  | none => r.prompted
  | some keyid =>
    ((r.savedItems (ascii "keyid" ++ [0] ++ keyid ++ [0] ++ ascii "source" ++ [0] ++
      ascii "mate-keyring:gpg-agent" ++ [0])).findSome? id).or r.prompted

/-- The key whose passphrase is asked for, as data or not. -/
def Request.askedKey (r : Request) (asData : Bool) : Option (Option Bytes) :=
  match splitArguments r.behind 4 r.args with
  | (flags, [some keyid, some _, some _, some _]) =>
    if r.is "GET_PASSPHRASE" && flags.passAsData == asData then
      some (if isNullArgument keyid then none else some keyid)
    else none
  | _ => none

/-- The lines that do not reach a branch that goes wrong: a display is named only when the daemon has
one, a passphrase that is sent as data is plain and its length an `int`, the digits of another one have
room, and a request to clear one says which. -/
structure Fit (r : Request) (call : Call) : Prop where
  display : r.namedDisplay ≠ none → r.display ≠ none
  data : call.terminalOk = true → ∀ keyid password, r.askedKey true = some keyid →
    r.password keyid = some password → Plain (cString password) ∧ (cString password).length < 2 ^ 31
  digits : call.terminalOk = true → ∀ keyid password, r.askedKey false = some keyid →
    r.password keyid = some password → (cString password).length * 2 < encodedSize password
  clear : call.terminalOk = true → r.is "CLEAR_PASSPHRASE" = true →
    splitArgument r.behind r.args ≠ none

/-- Every line is `Fit` for the state in which it arrives. -/
def FitLines : Call → List Request → Prop
  | _, [] => True
  | call, r :: rs => Fit r call ∧
      ∀ turn, processLine r call = .ok turn → turn.cont = true → FitLines turn.call rs

/-! ## Lines -/

theorem splitOn_line {s : Bytes} (h : newline ∉ s) (rest : Bytes) :
    (s ++ [newline] ++ rest).splitOn newline = s :: rest.splitOn newline := by
  rw [append_assoc]
  exact splitOn_append_cons_self_of_not_mem h rest

/-- What is written of a string is the start of it. -/
theorem writeAll_prefix (s : Bytes) : writeAll s <+: s :=
  ( take_prefix _ _).trans ( takeWhile_prefix _)

/-- A string whose length is an `int` is written. -/
theorem writeAll_eq {s : Bytes} (h : (cString s).length < 2 ^ 31) : writeAll s = cString s := by
  have hlength : ((cString s).length : Int).bmod (2 ^ 32) = (cString s).length := by
    rw [Int.bmod_def]
    omega
  rw [writeAll, hlength, Int.toNat_natCast, take_length]

/-- A reply is one final line. -/
theorem splitOn_reply (ok : Bool) {response : Option Bytes} (h : ∀ s ∈ response, newline ∉ s) :
    ∃ final, (gkdGpgAgentSendReply ok response).splitOn newline = [final, []] ∧
      (ascii "OK " <+: final ∨ ascii "ERR " <+: final) := by
  have hresponse : newline ∉ (response.map writeAll).getD [] := by
    cases response with
    | none => simp
    | some s =>
      rw [Option.map_some, Option.getD_some]
      exact fun hmem => h s rfl (( writeAll_prefix s).subset hmem)
  have hline : newline ∉ ascii (if ok then "OK " else "ERR ") ++ (response.map writeAll).getD [] := by
    rw [mem_append]
    rintro (hmem | hmem)
    · cases ok <;> revert hmem <;> decide
    · exact hresponse hmem
  refine ⟨ascii (if ok then "OK " else "ERR ") ++ (response.map writeAll).getD [], ?_, ?_⟩
  · have h := splitOn_line hline []
    rw [append_nil] at h
    exact h
  · cases ok
    · exact .inr (prefix_append _ _)
    · exact .inl (prefix_append _ _)

/-- A turn with one reply and no data is an answer. -/
theorem answered_reply {t : Turn} (ok : Bool) (response : Option Bytes)
    (hout : t.out = gkdGpgAgentSendReply ok response) (h : ∀ s ∈ response, newline ∉ s)
    (hevents : t.events.filterMap Event.data = []) : Answered t := by
  obtain ⟨final, hsplit, hfinal⟩ := splitOn_reply ok h
  refine ⟨[], final, ?_, hfinal, ?_⟩
  · rw [hout, hsplit]
    rfl
  · rw [hevents]
    rfl

theorem answered_replyOnly (call : Call) (ok : Bool) {response : Option String}
    (h : ∀ s ∈ response, newline ∉ ascii s) : Answered (replyOnly call ok response) := by
  refine answered_reply ok (response.map ascii) rfl ?_ rfl
  intro s hs
  obtain ⟨text, htext, rfl⟩ := Option.map_eq_some_iff.1 hs
  exact h text htext

/-- The digits of `encode_password` do not end a line. -/
theorem newline_not_mem_digits (password : Bytes) : newline ∉ password.flatMap (hexByte hexcLower) := by
  have hdigit : ∀ i, hexcLower.getD i 0 ≠ newline := by
    intro i
    by_cases hi : i < 16
    · exact (by decide : ∀ i < 16, hexcLower.getD i 0 ≠ newline) i hi
    · have hlen : hexcLower.length = 16 := by decide
      rw [getD_eq_getElem?_getD, getElem?_eq_none (by omega)]
      decide
  intro hmem
  obtain ⟨b, -, hb⟩ := mem_flatMap.1 hmem
  simp only [hexByte, mem_cons, not_mem_nil, or_false] at hb
  rcases hb with hb | hb
  · exact hdigit _ hb.symm
  · exact hdigit _ hb.symm

/-- A byte without a meaning stands for itself. -/
theorem assuanData_cons {c : UInt8} (hnl : c ≠ newline) (hcr : c ≠ carriageReturn) (hpc : c ≠ percent)
    (s : Bytes) : assuanData (c :: s) = (assuanData s).map (c :: ·) := by
  have hline : ¬(c = newline ∨ c = carriageReturn) := not_or.2 ⟨hnl, hcr⟩
  -- the equations of `assuanData` look at the two bytes behind a percent sign
  match s with
  | [] => simp only [assuanData, if_neg hline, if_neg hpc]
  | [_] => simp only [assuanData, if_neg hline, if_neg hpc]
  | _ :: _ :: _ => rw [assuanData, if_neg hline, if_neg hpc]

/-- A plain passphrase stands for itself. -/
theorem assuanData_plain {s : Bytes} (h : Plain s) : assuanData s = some s := by
  induction s with
  | nil => rfl
  | cons c s ih =>
    obtain ⟨hnl, hcr, hpc⟩ := h
    rw [mem_cons, not_or] at hnl hcr hpc
    rw [assuanData_cons (Ne.symm hnl.1) (Ne.symm hcr.1) (Ne.symm hpc.1), ih ⟨hnl.2, hcr.2, hpc.2⟩]
    rfl

/-- A plain passphrase as data is a data line that decodes to it, and a final line; the digits of one
are a final line. -/
theorem answered_replyPassword (call : Call) {flags : Flags} {password : Bytes}
    (hdata : flags.passAsData = true → Plain (cString password) ∧ (cString password).length < 2 ^ 31)
    (hdigits : flags.passAsData = false → (cString password).length * 2 < encodedSize password) :
    ∃ turn, replyPassword call flags password = .ok turn ∧ turn.call = call ∧ Answered turn := by
  unfold replyPassword
  cases hflag : flags.passAsData with
  | true =>
    obtain ⟨hplain, hlength⟩ := hdata hflag
    obtain ⟨final, hsplit, hfinal⟩ := splitOn_reply true (fun s (hs : s ∈ none) => nomatch hs)
    have hline : newline ∉ ascii "D " ++ cString password := by
      rw [mem_append]
      rintro (hmem | hmem)
      · revert hmem
        decide
      · exact hplain.1 hmem
    refine ⟨_, rfl, rfl, [cString password], final, ?_, hfinal, ?_⟩
    · show (gkdGpgAgentSendData password ++ _).splitOn newline = _
      rw [gkdGpgAgentSendData, writeAll_eq hlength, splitOn_line hline, hsplit]
      rfl
    · simp [assuanData_plain hplain, Event.data]
  | false =>
    have hroom := hdigits hflag
    have hencoded : encodePassword password = .ok ((cString password).flatMap (hexByte hexcLower)) := by
      rw [encodePassword, if_neg (by omega), if_neg (by omega)]
    rw [if_neg Bool.false_ne_true, hencoded, ok_bind]
    refine ⟨_, rfl, rfl, answered_reply true (some _) rfl ?_ rfl⟩
    intro s hs
    cases hs
    exact newline_not_mem_digits _

/-! ## Handlers -/

/-- What a handler does with a line: it is answered, and what it does to passphrases and to the call
is allowed. -/
structure Handled (r : Request) (call : Call) (turn : Turn) : Prop where
  answered : Answered turn
  events : turn.events ≠ [] → call.terminalOk = true
  call : turn.call.terminalOk = true → call.terminalOk = true ∨ Accepted (r, turn)

/-- A handler that only replies leaves the call as it is. -/
theorem handled_replyOnly (r : Request) (call : Call) (ok : Bool) {response : Option String}
    (h : ∀ s ∈ response, newline ∉ ascii s) : Handled r call (replyOnly call ok response) where
  answered := answered_replyOnly call ok h
  events hne := absurd rfl hne
  call htrue := .inl htrue

theorem handled_options (his : r.is "OPTION" = true) (hdisplay : r.namedDisplay ≠ none → r.display ≠ none) :
    ∃ turn, gkdGpgAgentOpsOptions r call r.args = .ok turn ∧ Handled r call turn := by
  unfold gkdGpgAgentOpsOptions
  cases hoption : splitArgument r.behind r.args with
  | none => exact ⟨_, rfl, handled_replyOnly r call _ (by decide)⟩
  | some option =>
    dsimp only
    by_cases hname : asciiStrncaseEq option (ascii "display=") (ascii "display=").length = true
    · have hnamed : r.namedDisplay = some (option.drop (ascii "display=").length) := by
        simp only [Request.namedDisplay, hoption, his, hname, Bool.and_self, if_true]
      rw [if_pos hname]
      cases hours : r.display with
      | none => exact absurd hours (hdisplay (by simp [hnamed]))
      | some ours =>
        dsimp only
        by_cases heq : x11DisplaysEq (option.drop (ascii "display=").length) ours = true
        · rw [if_pos heq]
          refine ⟨_, rfl, answered_replyOnly _ _ (by simp), fun hne => absurd rfl hne, ?_⟩
          exact fun _ => .inr ⟨_, ours, hnamed, hours, heq, rfl⟩
        · rw [if_neg heq]
          exact ⟨_, rfl, handled_replyOnly r call _ (by decide)⟩
    · rw [if_neg hname]
      exact ⟨_, rfl, handled_replyOnly r call _ (by simp)⟩

/-- `do_get_password` finds the passphrase of the request, and never fails: a key that is null is
neither looked up nor saved. -/
theorem doGetPassword_eq (r : Request) (keyid : Option Bytes) :
    doGetPassword r keyid = .ok (r.password keyid) := by
  cases keyid with
  | none =>
    cases hprompted : r.prompted with
    | none => simp [doGetPassword, doLookupPassword, Request.password, hprompted]
    | some password =>
      simp [doGetPassword, doLookupPassword, doSavePassword, Request.password, hprompted]
  | some keyid =>
    have hlookup : doLookupPassword r (some keyid) = .ok ((r.savedItems (ascii "keyid" ++ [0] ++
        keyid ++ [0] ++ ascii "source" ++ [0] ++ ascii "mate-keyring:gpg-agent" ++ [0])).findSome?
        id) := rfl
    simp only [doGetPassword, hlookup, Request.password]
    cases findSome? id (r.savedItems _) with
    | some password => rfl
    | none =>
      cases r.prompted with
      | none => rfl
      | some password => rfl

theorem handled_getpass (his : r.is "GET_PASSPHRASE" = true) (hfit : Fit r call) :
    ∃ turn, gkdGpgAgentOpsGetpass r call r.args = .ok turn ∧ Handled r call turn := by
  unfold gkdGpgAgentOpsGetpass
  by_cases hok : call.terminalOk = true
  · rw [if_pos hok]
    split
    · rename_i flags keyid errmsg prompt description hsplit
      rw [doGetPassword_eq]
      cases hpassword : r.password (if isNullArgument keyid then none else some keyid) with
      | none => exact ⟨_, rfl, handled_replyOnly r call _ (by decide)⟩
      | some password =>
        have hasked : r.askedKey flags.passAsData = some (if isNullArgument keyid then none else some keyid) := by
          simp only [Request.askedKey, hsplit, his, beq_self_eq_true, Bool.and_self, if_true]
        obtain ⟨turn, hturn, -, hanswered⟩ := answered_replyPassword call
          (fun hdata => hfit.data hok _ password (by rwa [hdata] at hasked) hpassword)
          (fun hdata => hfit.digits hok _ password (by rwa [hdata] at hasked) hpassword)
        exact ⟨turn, hturn, hanswered, fun _ => hok, fun _ => .inl hok⟩
    · exact ⟨_, rfl, handled_replyOnly r call _ (by decide)⟩
  · rw [if_neg hok]
    exact ⟨_, rfl, handled_replyOnly r call _ (by decide)⟩

theorem handled_clrpass (his : r.is "CLEAR_PASSPHRASE" = true) (hfit : Fit r call) :
    ∃ turn, gkdGpgAgentOpsClrpass r call r.args = .ok turn ∧ Handled r call turn := by
  unfold gkdGpgAgentOpsClrpass
  by_cases hok : call.terminalOk = true
  · rw [if_pos hok]
    cases hkeyid : splitArgument r.behind r.args with
    | none => exact absurd hkeyid (hfit.clear hok his)
    | some keyid =>
      refine ⟨_, rfl, answered_reply true none rfl (by simp) rfl, fun _ => hok, fun _ => .inl hok⟩
  · rw [if_neg hok]
    exact ⟨_, rfl, handled_replyOnly r call _ (by decide)⟩

theorem handled_getinfo (r : Request) (call : Call) (request : Bytes) :
    Handled r call (gkdGpgAgentOpsGetinfo call request) := by
  unfold gkdGpgAgentOpsGetinfo
  split
  · split
    · exact handled_replyOnly r call _ (by decide)
    · exact handled_replyOnly r call _ (by decide)
    · split
      · exact handled_replyOnly r call _ (by decide)
      · split
        · exact handled_replyOnly r call _ (by simp)
        · exact handled_replyOnly r call _ (by decide)
  · exact handled_replyOnly r call _ (by decide)

/-- A line that is fit is handled. -/
theorem processLine_handled (hfit : Fit r call) (hne : r.stripped ≠ []) :
    ∃ turn, processLine r call = .ok turn ∧ Handled r call turn := by
  unfold processLine
  rw [if_neg hne]
  split
  · exact handled_options ‹_› hfit.display
  split
  · exact handled_getpass ‹_› hfit
  split
  · exact handled_clrpass ‹_› hfit
  split
  · exact ⟨_, rfl, handled_getinfo r call r.args⟩
  split
  · exact ⟨_, rfl, handled_replyOnly r call _ (by simp)⟩
  split
  · refine ⟨_, rfl, answered_reply true (some (ascii "closing connection")) rfl (by decide) rfl, ?_, ?_⟩
    · exact fun hne => absurd rfl hne
    · exact .inl
  split
  · exact ⟨_, rfl, handled_replyOnly r call _ (by simp)⟩
  split
  · exact ⟨_, rfl, handled_replyOnly r call _ (by decide)⟩
  · exact ⟨_, rfl, handled_replyOnly r call _ (by decide)⟩

/-! ## Conversations -/

/-- An empty line is not answered and changes nothing. -/
theorem processLine_empty (call : Call) (h : r.stripped = []) :
    processLine r call = .ok { out := [], events := [], call, cont := true } := by
  rw [processLine, if_pos h]

/-- One turn: it is answered unless the line is empty, and what it does is allowed. -/
theorem processLine_turn (hfit : Fit r call) :
    ∃ turn, processLine r call = .ok turn ∧ (r.stripped ≠ [] → Answered turn) ∧
      (turn.events ≠ [] → call.terminalOk = true) ∧
      (turn.call.terminalOk = true → call.terminalOk = true ∨ Accepted (r, turn)) := by
  by_cases hempty : r.stripped = []
  · exact ⟨_, processLine_empty call hempty, fun hne => absurd hempty hne, fun hne => absurd rfl hne,
      .inl⟩
  · obtain ⟨turn, hturn, hhandled⟩ := processLine_handled hfit hempty
    exact ⟨turn, hturn, fun _ => hhandled.answered, hhandled.events, hhandled.call⟩

/-- What is done to passphrases was allowed before the turns, or after one that was accepted. -/
def PermittedFrom (call : Call) (turns : List (Request × Turn)) : Prop :=
  ∀ before rt after, turns = before ++ rt :: after → rt.2.events ≠ [] →
    call.terminalOk = true ∨ ∃ a ∈ before, Accepted a

theorem permittedFrom_cons {turn : Turn} {turns : List (Request × Turn)}
    (hevents : turn.events ≠ [] → call.terminalOk = true)
    (hcall : turn.call.terminalOk = true → call.terminalOk = true ∨ Accepted (r, turn))
    (h : PermittedFrom turn.call turns) : PermittedFrom call ((r, turn) :: turns) := by
  intro before rt after hsplit hne
  cases before with
  | nil =>
    obtain ⟨rfl, -⟩ := List.cons.inj hsplit
    exact .inl (hevents hne)
  | cons a before =>
    obtain ⟨rfl, hrest⟩ := List.cons.inj hsplit
    rcases h before rt after hrest hne with hok | ⟨b, hb, haccepted⟩
    · -- the turn that comes first has set the flag, or it was set before
      rcases hcall hok with hok | haccepted
      · exact .inl hok
      · exact .inr ⟨_, mem_cons_self, haccepted⟩
    · exact .inr ⟨b, mem_cons_of_mem _ hb, haccepted⟩

/-- The loop of a connection whose lines are all fit. -/
theorem runClientLoop_disciplined (requests : List Request) (call : Call)
    (hfit : FitLines call requests) :
    ∃ turns, runClientLoop call requests = .ok turns ∧ turns.map Prod.fst <+: requests ∧
      (∀ rt ∈ turns, rt.1.stripped ≠ [] → Answered rt.2) ∧ PermittedFrom call turns := by
  induction requests generalizing call with
  | nil => exact ⟨[], rfl, nil_prefix, by simp, by simp [PermittedFrom]⟩
  | cons r rs ih =>
    obtain ⟨hr, hrest⟩ := hfit
    obtain ⟨turn, hturn, hanswered, hevents, hcall⟩ := processLine_turn hr
    cases hcont : turn.cont with
    | false =>
      refine ⟨[(r, turn)], ?_, ⟨rs, rfl⟩, ?_, ?_⟩
      · simp [runClientLoop, hturn, hcont]
      · simpa using hanswered
      · exact permittedFrom_cons hevents hcall (by simp [PermittedFrom])
    | true =>
      obtain ⟨turns, hturns, hhandled, hall, hpermitted⟩ := ih turn.call (hrest turn hturn hcont)
      refine ⟨(r, turn) :: turns, ?_, ?_, ?_, permittedFrom_cons hevents hcall hpermitted⟩
      · simp [runClientLoop, hturn, hcont, hturns]
      · exact cons_prefix_cons.2 ⟨rfl, hhandled⟩
      · intro rt hrt
        rcases mem_cons.1 hrt with rfl | hrt
        · exact hanswered
        · exact hall rt hrt

/-- Every conversation whose lines are fit, on a call whose memory was zero, is disciplined. -/
theorem conversation_disciplined {memory : Bool} {requests : List Request} (hmemory : memory = false)
    (hfit : FitLines { terminalOk := memory } requests) :
    ∃ turns, runClientThread memory requests = .ok turns ∧ Disciplined requests turns := by
  obtain ⟨turns, hrun, hhandled, hanswered, hpermitted⟩ := runClientLoop_disciplined requests _ hfit
  refine ⟨turns, hrun, hhandled, hanswered, ?_⟩
  intro before rt after hsplit hne
  rcases hpermitted before rt after hsplit hne with hok | haccepted
  · exact absurd (hmemory.symm.trans hok) Bool.false_ne_true
  · exact haccepted

/-- A request of a daemon on the display `:0`, with one saved passphrase. -/
def sampleRequest (line : String) (password : Bytes) : Request :=
  { line := ascii line, behind := 0, display := some (ascii ":0"),
    savedItems := fun _ => [some password], prompted := none }

/-- A conversation that asks for a passphrase as data and in digits, and clears it. -/
def sampleConversation : List Request :=
  [sampleRequest "OPTION display=:0.0\n" (ascii "secret"),
   sampleRequest "GET_PASSPHRASE --data KEY X X X\n" (ascii "secret"),
   sampleRequest "GET_PASSPHRASE KEY X X X\n" (ascii "secret"),
   sampleRequest "CLEAR_PASSPHRASE KEY\n" (ascii "secret")]

/-- Lines of the sample are fit: its passphrase is plain and short. -/
theorem fit_sample {line : String} (call : Call)
    (hclear : splitArgument 0 (sampleRequest line (ascii "secret")).args ≠ none) :
    Fit (sampleRequest line (ascii "secret")) call := by
  have hpassword : ∀ keyid password, (sampleRequest line (ascii "secret")).password keyid = some password →
      password = ascii "secret" := by
    intro keyid password hfound
    cases keyid with
    | none => cases hfound
    | some keyid => exact (Option.some.inj hfound).symm
  refine ⟨fun _ => Option.some_ne_none _, ?_, ?_, fun _ _ => hclear⟩
  · rintro - keyid password - hfound
    rw [hpassword keyid password hfound]
    exact ⟨by decide, by decide⟩
  · rintro - keyid password - hfound
    rw [hpassword keyid password hfound]
    decide

theorem conversation_disciplined_sample :
    FitLines { terminalOk := false } sampleConversation ∧
      ∃ turns, runClientThread false sampleConversation = .ok turns ∧
        Disciplined sampleConversation turns := by
  have hfit : FitLines { terminalOk := false } sampleConversation := by
    refine ⟨fit_sample _ (by decide), fun _ _ _ => ?_⟩
    refine ⟨fit_sample _ (by decide), fun _ _ _ => ?_⟩
    refine ⟨fit_sample _ (by decide), fun _ _ _ => ?_⟩
    exact ⟨fit_sample _ (by decide), fun _ _ _ => trivial⟩
  exact ⟨hfit, conversation_disciplined rfl hfit⟩

/-- A conversation that clears no key. -/
def keylessConversation : List Request :=
  [sampleRequest "OPTION display=:0\n" [], sampleRequest "CLEAR_PASSPHRASE\n" []]

/-- A conversation about a passphrase of two lines. -/
def twoLineConversation : List Request :=
  [sampleRequest "OPTION display=:0\n" [],
   sampleRequest "GET_PASSPHRASE --data KEY X X X\n" (ascii "se\ncret")]

/-- A conversation that names no display. -/
def namelessConversation : List Request :=
  [sampleRequest "GET_PASSPHRASE KEY X X X\n" (ascii "secret")]

/-- Without an argument `CLEAR_PASSPHRASE` fails an assertion. A passphrase with the end of a line is
more than one line. And a passphrase is sent at once when the memory of the call was not zero. -/
theorem conversation_not_disciplined :
    (¬ ∃ turns, runClientThread false keylessConversation = .ok turns ∧
      Disciplined keylessConversation turns) ∧
    (¬ ∃ turns, runClientThread false twoLineConversation = .ok turns ∧
      Disciplined twoLineConversation turns) ∧
    (¬ ∃ turns, runClientThread true namelessConversation = .ok turns ∧
      Disciplined namelessConversation turns) := by
  refine ⟨?_, ?_, ?_⟩
  · rintro ⟨turns, hrun, -⟩
    cases hrun
  · rintro ⟨turns, hrun, hdisciplined⟩
    cases hrun
    obtain ⟨payloads, final, hlines, -, hdata⟩ :=
      hdisciplined.answered _ (mem_cons_of_mem _ mem_cons_self) (by decide)
    -- four lines: two of the passphrase, the reply and what is behind it
    have hfour := congrArg List.length hlines
    have hone := congrArg List.length hdata
    rw [length_append, length_map] at hfour
    rw [length_map, length_map] at hone
    change 4 = payloads.length + 2 at hfour
    change payloads.length = 1 at hone
    omega
  · rintro ⟨turns, hrun, hdisciplined⟩
    cases hrun
    obtain ⟨a, ha, -⟩ := hdisciplined.permitted [] _ [] rfl (by decide)
    cases ha

end MateKeyring.Gpg
