import MateKeyring.Egg.Hex
import MateKeyring.Egg.Pem

/-!
# The agent for GPG passphrases

`gkd-gpg-agent.c` and `gkd-gpg-agent-ops.c`. A connection is a sequence of request lines. Each line is
handled by `processLine`, which writes its reply to the client. What a line finds outside of the agent
is part of the request: the display of the daemon, the saved items and what the user enters.

Strings are lists of bytes without the terminator. A write to the client is taken to arrive: one that
fails has lost its client.
-/

set_option autoImplicit false

namespace MateKeyring.Gpg

open Lib Egg

abbrev newline : UInt8 := 0x0a
abbrev carriageReturn : UInt8 := 0x0d
abbrev percent : UInt8 := 0x25
abbrev blank : UInt8 := 0x20

/-- The string that a C function sees in some bytes. -/
def cString (s : Bytes) : Bytes := s.takeWhile (· ≠ 0)

/-- `g_ascii_tolower`. -/
def asciiToLower (c : UInt8) : UInt8 := if 0x41 ≤ c ∧ c ≤ 0x5a then c + 0x20 else c

/-- `g_ascii_strcasecmp (a, b) == 0`. -/
def asciiStrcaseEq (a b : Bytes) : Bool := a.map asciiToLower == b.map asciiToLower

/-- `g_ascii_strncasecmp (a, b, n) == 0`. -/
def asciiStrncaseEq (a b : Bytes) (n : Nat) : Bool := asciiStrcaseEq (a.take n) (b.take n)

/-! ## Requests and replies -/

/-- A request line, and what the agent finds when it handles it. -/
structure Request where
  line : Bytes
  /-- the byte behind the terminator of the line -/
  behind : UInt8
  /-- `g_getenv ("DISPLAY")` -/
  display : Option Bytes
  /-- the items with these fields, each with its value unless that cannot be read -/
  savedItems : Bytes → List (Option Bytes)
  /-- what is entered at a prompt, unless that is cancelled -/
  prompted : Option Bytes

/-- What happens to passphrases. -/
inductive Event where
  | sent (asData : Bool) (password : Bytes)
  | cleared (keyid : Bytes)
  deriving DecidableEq, Repr

/-- `GkdGpgAgentCall`, as far as the handlers read it. -/
structure Call where
  terminalOk : Bool
  deriving DecidableEq, Repr

/-- What a handler did: what it wrote, what it did to passphrases, the call after it, and whether the
connection goes on. -/
structure Turn where
  out : Bytes
  events : List Event
  call : Call
  cont : Bool
  deriving DecidableEq, Repr

/-- `write_all` of a string, whose length is kept in an `int`. -/
def writeAll (s : Bytes) : Bytes := (cString s).take (((cString s).length : Int).bmod (2 ^ 32)).toNat

/-- `gkd_gpg_agent_send_reply`. -/
def gkdGpgAgentSendReply (ok : Bool) (response : Option Bytes) : Bytes :=
  ascii (if ok then "OK " else "ERR ") ++ (response.map writeAll).getD [] ++ [newline]

/-- `gkd_gpg_agent_send_data`. -/
def gkdGpgAgentSendData (data : Bytes) : Bytes :=
  ascii "D " ++ writeAll data ++ [newline]

/-- A turn that only replies. -/
def replyOnly (call : Call) (ok : Bool) (response : Option String) : Turn :=
  { out := gkdGpgAgentSendReply ok (response.map ascii), events := [], call, cont := true }

/-! ## Passwords -/

/-- `keyid_to_field_attribute`. -/
def keyidToFieldAttribute (keyid : Option Bytes) : Checked Bytes :=
  match keyid with
  | none => .error .assertion
  | some keyid =>
    .ok (ascii "keyid" ++ [0] ++ keyid ++ [0] ++ ascii "source" ++ [0] ++
      ascii "mate-keyring:gpg-agent" ++ [0])

/-- `do_lookup_password`: the first password that can be read. -/
def doLookupPassword (r : Request) (keyid : Option Bytes) : Checked (Option Bytes) := do
  if keyid = none then pure none
  else
    let fields ← keyidToFieldAttribute keyid
    pure ((r.savedItems fields).findSome? id)

/-- `do_save_password`. What is saved shows in the items that later requests find. -/
def doSavePassword (keyid : Option Bytes) : Checked Unit := do
  if keyid = none then pure ()
  else
    let _ ← keyidToFieldAttribute keyid
    pure ()

/-- `do_get_password`. The texts and the confirmation only change how the prompt looks. -/
def doGetPassword (r : Request) (keyid : Option Bytes) : Checked (Option Bytes) := do
  match ← doLookupPassword r keyid with
  | some password => pure (some password)
  | none =>
    match r.prompted with
    | none => pure none
    | some password => do
        doSavePassword keyid
        pure (some password)

/-- `do_clear_password`. -/
def doClearPassword (keyid : Option Bytes) : Checked Unit := do
  let _ ← keyidToFieldAttribute keyid
  pure ()

/-! ## Arguments -/

/-- `is_null_argument`. -/
def isNullArgument (arg : Bytes) : Bool := arg == ascii "X"

/-- `strchr (HEX_CHARS, c) - HEX_CHARS`, of which four bits are used. The terminator is found, too. -/
def hexChar (c : UInt8) : Option Nat :=
  if c = 0 then some 0 else hexcUpper.findIdx? (· == c)

/-- The byte that `decode_assuan_arg` makes of a percent sign and the two bytes behind it. -/
def hexEscape (a b : UInt8) : UInt8 :=
  match hexChar a with
  | none => 0x3f
  | some high => UInt8.ofNat (high * 16 + (hexChar b).getD 0)

/-- `decode_assuan_arg`, with the byte behind the terminator of the argument. -/
def decodeAssuanArg (behind : UInt8) : Bytes → Bytes
  | [] => []
  | [c] => if c = percent then [hexEscape 0 behind] else [if c = 0x2b then blank else c]
  | [c, d] =>
    if c = percent then [hexEscape d 0]
    else (if c = 0x2b then blank else c) :: decodeAssuanArg behind [d]
  | c :: d :: e :: s =>
    -- the text that is moved leaves its last byte behind the new terminator
    if c = percent then hexEscape d e :: decodeAssuanArg (s.getLastD e) s
    else (if c = 0x2b then blank else c) :: decodeAssuanArg behind (d :: e :: s)

/-- `atoi`, from a `long` of 64 bits to an `int`. -/
def atoi (s : Bytes) : Int :=
  let signed := takeSign (s.dropWhile isSpace)
  let value := decimalValue (signed.2.takeWhile isDigit)
  let value : Int := if signed.1 then -value else value
  (max (-2 ^ 63) (min (2 ^ 63 - 1) value)).bmod (2 ^ 32)

/-- The flags of a request. -/
structure Flags where
  passAsData : Bool
  rep : Bool
  deriving DecidableEq, Repr

/-- `*flags |= parse_assuan_flag (flag)`. -/
def parseAssuanFlag (flags : Flags) (flag : Bytes) : Flags :=
  if flag = ascii "data" then { flags with passAsData := true }
  else if (ascii "repeat").isPrefixOf flag then
    match flag.drop (ascii "repeat").length with
    | c :: count => if c = 0x3d ∧ atoi count = 0 then flags else { flags with rep := true }
    | [] => { flags with rep := true }
  else flags

/-- A word, and the text behind the white space that follows it. -/
def takeWord (line : Bytes) : Bytes × Bytes :=
  (line.takeWhile (!isSpace ·), (line.dropWhile (!isSpace ·)).dropWhile isSpace)

/-- The flags at the start of the line. Each takes its two dashes at least, so that `fuel` need not be
more than the length. -/
def splitFlags : Nat → Flags → Bytes → Flags × Bytes
  | 0, flags, line => (flags, line)
  | fuel + 1, flags, line =>
    match line with
    | 0x2d :: 0x2d :: line =>
      let word := takeWord line
      splitFlags fuel (parseAssuanFlag flags word.1) word.2
    | line => (flags, line)

/-- The byte behind the terminator of a word, which overwrites the first byte of `rest`. White space
is overwritten with terminators, too. -/
def behindWord (behind : UInt8) : Bytes → UInt8
  | [] => behind
  | [_] => 0
  | _ :: c :: _ => if isSpace c then 0 else c

/-- The arguments of `split_arguments`; those that are missing are null. -/
def splitArgs (behind : UInt8) : Nat → Bytes → List (Option Bytes)
  | 0, _ => []
  | n + 1, line =>
    if line = [] then none :: splitArgs behind n []
    else
      let rest := line.dropWhile (!isSpace ·)
      let arg := decodeAssuanArg (behindWord behind rest) (takeWord line).1
      some (cString arg) :: splitArgs behind n (takeWord line).2

/-- `split_arguments` with flags. -/
def splitArguments (behind : UInt8) (n : Nat) (line : Bytes) : Flags × List (Option Bytes) :=
  let line := line.dropWhile isSpace
  let split := splitFlags line.length { passAsData := false, rep := false } line
  (split.1, splitArgs behind n split.2)

/-- `split_arguments` without flags, for one argument. -/
def splitArgument (behind : UInt8) (line : Bytes) : Option Bytes :=
  ((splitArgs behind 1 (line.dropWhile isSpace)).head?).join

/-- `x11_display_dot_offset`. -/
def x11DisplayDotOffset (d : Bytes) : Nat :=
  match d.reverse.dropWhile fun c => c ≠ 0x2e ∧ c ≠ 0x3a with
  | [] => d.length
  | c :: front => if c = 0x2e then front.length else d.length

/-- `x11_displays_eq`. -/
def x11DisplaysEq (d₁ d₂ : Bytes) : Bool :=
  asciiStrncaseEq d₁ d₂ (max (x11DisplayDotOffset d₁) (x11DisplayDotOffset d₂))

/-- `command_has_option`. -/
def commandHasOption (command option : Bytes) : Bool :=
  command == ascii "GET_PASSPHRASE" && (option == ascii "data" || option == ascii "repeat")

/-- The memory that `encode_password` asks for, `sizeof (gchar *) * (strlen (pass) * 2 + 1)` as an `int`. -/
def encodedSize (pass : Bytes) : Int := ((8 * ((cString pass).length * 2 + 1) : Nat) : Int).bmod (2 ^ 32)

/-- `encode_password`. For a size that is not positive `egg_secure_alloc` gives a null pointer. The digits are
written, and the terminator behind them is read. -/
def encodePassword (pass : Bytes) : Checked Bytes :=
  if encodedSize pass ≤ 0 then .error .nullPointer
  else if encodedSize pass ≤ (cString pass).length * 2 then .error .outOfBounds
  else .ok ((cString pass).flatMap (hexByte hexcLower))

/-! ## Operations -/

/-- `gkd_gpg_agent_ops_options`. A display that is not set is a null pointer. -/
def gkdGpgAgentOpsOptions (r : Request) (call : Call) (args : Bytes) : Checked Turn :=
  match splitArgument r.behind args with
  | none => .ok (replyOnly call false "105 parameter error")
  | some option =>
    let display := ascii "display="
    if asciiStrncaseEq option display display.length then
      match r.display with
      | none => .error .nullPointer
      | some ours =>
        if x11DisplaysEq (option.drop display.length) ours then
          .ok (replyOnly { call with terminalOk := true } true none)
        else .ok (replyOnly call false "105 parameter conflict")
    else .ok (replyOnly call true none)

/-- The reply of `gkd_gpg_agent_ops_getpass` to a password. -/
def replyPassword (call : Call) (flags : Flags) (password : Bytes) : Checked Turn := do
  if flags.passAsData then
    pure { out := gkdGpgAgentSendData password ++ gkdGpgAgentSendReply true none
           events := [.sent true (cString password)], call, cont := true }
  else
    let encoded ← encodePassword password
    pure { out := gkdGpgAgentSendReply true encoded
           events := [.sent false (cString password)], call, cont := true }

/-- `gkd_gpg_agent_ops_getpass`. -/
def gkdGpgAgentOpsGetpass (r : Request) (call : Call) (args : Bytes) : Checked Turn :=
  if call.terminalOk then
    match splitArguments r.behind 4 args with
    | (flags, [some keyid, some _errmsg, some _prompt, some _description]) => do
        match ← doGetPassword r (if isNullArgument keyid then none else some keyid) with
        | none => pure (replyOnly call false "111 cancelled")
        | some password => replyPassword call flags password
    | _ => .ok (replyOnly call false "105 parameter error")
  else .ok (replyOnly call false "113 Server Resource Problem")

/-- `gkd_gpg_agent_ops_clrpass`. A missing argument is replied to, and then handled all the same. -/
def gkdGpgAgentOpsClrpass (r : Request) (call : Call) (args : Bytes) : Checked Turn :=
  if call.terminalOk then do
    let keyid := splitArgument r.behind args
    let early := if keyid = none then gkdGpgAgentSendReply false (ascii "105 parameter error") else []
    doClearPassword keyid
    pure { out := early ++ gkdGpgAgentSendReply true none
           events := keyid.toList.map .cleared, call, cont := true }
  else .ok (replyOnly call false "113 Server Resource Problem")

/-- The text behind the first blank and the white space that follows it. -/
def behindBlank (s : Bytes) : Option Bytes :=
  match s.dropWhile (· ≠ blank) with
  | [] => none
  | _ :: args => some (args.dropWhile isSpace)

/-- `gkd_gpg_agent_ops_getinfo`. -/
def gkdGpgAgentOpsGetinfo (call : Call) (request : Bytes) : Turn :=
  if request.takeWhile (· ≠ blank) = ascii "cmd_has_option" then
    match behindBlank request with
    | none => replyOnly call false "105 parameter error"
    | some [] => replyOnly call false "105 parameter error"
    | some args =>
      match behindBlank args with
      | none => replyOnly call false "105 parameter error"
      | some option =>
        if commandHasOption (args.takeWhile (· ≠ blank)) option then replyOnly call true none
        else replyOnly call false "100 not implemented"
  else replyOnly call false "100 not implemented"

/-- `gkd_gpg_agent_ops_nop`. -/
def gkdGpgAgentOpsNop (call : Call) : Turn := replyOnly call true none

/-- `gkd_gpg_agent_ops_bye`. -/
def gkdGpgAgentOpsBye (call : Call) : Turn :=
  { replyOnly call true "closing connection" with cont := false }

/-- `gkd_gpg_agent_ops_reset`. -/
def gkdGpgAgentOpsReset (call : Call) : Turn := replyOnly call true none

/-- `gkd_gpg_agent_ops_id`. -/
def gkdGpgAgentOpsId (call : Call) : Turn := replyOnly call true "mate-keyring-daemon"

/-! ## The connection -/

/-- The line of a request without the white space around it. -/
def Request.stripped (r : Request) : Bytes := Pem.strstrip (cString r.line)

/-- The command of a request. -/
def Request.command (r : Request) : Bytes := r.stripped.takeWhile (· ≠ blank)

/-- The arguments of a request: the line behind the blank that ends the command. -/
def Request.args (r : Request) : Bytes := (r.stripped.dropWhile (· ≠ blank)).tail

/-- Whether a request has this command. -/
def Request.is (r : Request) (command : String) : Bool := asciiStrcaseEq r.command (ascii command)

/-- `process_line`. -/
def processLine (r : Request) (call : Call) : Checked Turn :=
  if r.stripped = [] then .ok { out := [], events := [], call, cont := true }
  else if r.is "OPTION" then gkdGpgAgentOpsOptions r call r.args
  else if r.is "GET_PASSPHRASE" then gkdGpgAgentOpsGetpass r call r.args
  else if r.is "CLEAR_PASSPHRASE" then gkdGpgAgentOpsClrpass r call r.args
  else if r.is "GETINFO" then .ok (gkdGpgAgentOpsGetinfo call r.args)
  else if r.is "NOP" then .ok (gkdGpgAgentOpsNop call)
  else if r.is "BYE" then .ok (gkdGpgAgentOpsBye call)
  else if r.is "RESET" then .ok (gkdGpgAgentOpsReset call)
  else if r.is "AGENT_ID" then .ok (gkdGpgAgentOpsId call)
  else .ok (replyOnly call false "103 unknown command")

/-- The loop of `run_client_thread`: the lines that were handled, each with what was done. -/
def runClientLoop : Call → List Request → Checked (List (Request × Turn))
  | _, [] => .ok []
  | call, r :: rs => do
      let turn ← processLine r call
      if turn.cont then
        let turns ← runClientLoop turn.call rs
        pure ((r, turn) :: turns)
      else pure [(r, turn)]

/-- `run_client_thread`. The fields of the call are set one by one, all but `terminal_ok`, which holds
what the memory held before. -/
def runClientThread (memory : Bool) (requests : List Request) : Checked (List (Request × Turn)) :=
  runClientLoop { terminalOk := memory } requests

end MateKeyring.Gpg
