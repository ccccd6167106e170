import Mathlib.Data.Bool.AllAny
import Mathlib.Data.List.DropRight
import Mathlib.Data.List.Infix
import Mathlib.Data.List.Forall2
import Porthop.Agent.Messages
import Porthop.Lib.Glyphs
import Porthop.Lib.Inclusive

/- The opt-in log of the Git commands that the agent has run (`command_log.rs`), and what the
   client takes of it (`client.rs`).

   Texts are lists of characters. An argument that is no text is `none`. -/
namespace Porthop.Git.Logs

open Agent (isControl isWhitespace)
open Inclusive (splitInclusive)

structure CommandLog where
  command : List Char
  durationMs : Nat
  exitCode : Option Int
  output : List Char
  interrupted : Bool

/-! ## Labels -/

def verbs : List String :=
  ["symbolic-ref", "merge-base", "check-ref-format", "status", "rev-parse", "rev-list",
    "cat-file", "diff", "for-each-ref", "config", "ls-files", "ls-remote", "worktree", "fetch",
    "merge", "push", "commit", "add", "reset", "restore", "checkout", "checkout-index",
    "update-index", "update-ref", "branch", "tag", "stash", "rebase", "cherry-pick", "revert",
    "clone", "init", "apply", "log", "show", "remote", "rm"]

/-- The command without its values. -/
def label (args : List (Option String)) : List Char :=
  "git ".toList ++ (((args.filterMap id).find? verbs.contains).getD "[command]").toList

/-! ## Redaction -/

def size (cs : List Char) : Nat := (cs.map Char.utf8Size).sum

def words : List String :=
  ["password", "token", "authorization", "secret", "credential", "private key"]

def endsLine (c : Char) : Bool := c == '\n' || c == '\x00'

def sensitive (line : List Char) : Bool :=
  words.any fun word => decide (word.toList <:+: line.map Char.toLower)

def isUrl (token : List Char) : Bool := decide ("://".toList <:+: token)

/-- `escape_default` of a control character. -/
def escape (c : Char) : List Char :=
  "\\u\x7b".toList ++ (Nat.toDigits 16 c.toNat) ++ "\x7d".toList

def shown (c : Char) : List Char :=
  if c == '\n' || c == '\t' || c == '\r' || c == '\x08' || c == '\x1b' then [c]
  else if c == '\x00' then ['\n']
  else if isControl c then escape c
  else [c]

/-- A URL is replaced whole, up to the white space behind it. -/
def redactToken (token : List Char) : List Char :=
  if isUrl token then "[URL omitted]".toList ++ token.rtakeWhile isWhitespace
  else token.flatMap shown

def redactLine (line : List Char) : List Char :=
  if sensitive line then
    "[sensitive output omitted]".toList ++ (if line.getLast?.any endsLine then ['\n'] else [])
  else (splitInclusive isWhitespace line).flatMap redactToken

def display (text : List Char) : List Char := (splitInclusive endsLine text).flatMap redactLine

/-- As many of the characters as fit into `n` bytes. -/
def truncate : Nat → List Char → List Char
  | _, [] => []
  | n, c :: cs => if c.utf8Size ≤ n then c :: truncate (n - c.utf8Size) cs else []

/-- How many bytes of an output are read. -/
def limit : Nat := 4096

def displayLimit : Nat := 12000

def notice : List Char := "\n[Output truncated: showing at most 4 KiB of this stream]\n".toList

def redact (bytes : List UInt8) (alreadyTruncated : Bool) : List Char :=
  let output := display (Utf8.fromUtf8Lossy (bytes.take limit)).toList
  let displayTruncated := decide (displayLimit < size output)
  truncate displayLimit output ++
    if limit < bytes.length ∨ alreadyTruncated ∨ displayTruncated then notice else []

/-! ## The log of a request -/

/-- What a command has written to one of its streams, and whether that is not all of it. -/
structure Stream where
  bytes : List UInt8
  truncated : Bool

structure Command where
  args : List (Option String)
  elapsedMs : Nat
  exitCode : Option Int
  stdout : Stream
  stderr : Stream
  interrupted : Bool

def Stream.text (s : Stream) : Option (List Char) :=
  if s.bytes ≠ [] ∨ s.truncated then some (redact s.bytes s.truncated) else none

def entry (command : Command) : CommandLog where
  command := label command.args
  durationMs := min command.elapsedMs (2 ^ 64 - 1)
  exitCode := command.exitCode
  output := List.intercalate ['\n'] ([command.stdout.text, command.stderr.text].filterMap id)
  interrupted := command.interrupted

/-- The log there is, where one is kept. -/
abbrev Held := Option (List CommandLog)

def begin (enabled : Bool) : Held := if enabled then some [] else none

def record (logs : Held) (command : Command) : Held :=
  logs.map fun logs => if logs.length < 32 then logs ++ [entry command] else logs

def take (logs : Held) : List CommandLog × Held := (logs.getD [], none)

/-- What the agent sends of a request: it begins a log, runs its commands, and takes the log. -/
def serve (enabled : Bool) (commands : List Command) : List CommandLog :=
  (take (commands.foldl record (begin enabled))).1

/-! ## The client -/

/-- The client counts the entries of a reply. It gives the connection up where one does not fit. -/
def receive : Nat → List CommandLog → Option (List CommandLog)
  | _, [] => some []
  | count, entry :: entries =>
    if count + 1 > 32 || size entry.command > 256 || size entry.output > 32768 then none
    else (receive (count + 1) entries).map (entry :: ·)

end Porthop.Git.Logs

/- Which outputs the log is to show alike, and where its cut shows what it is to hide.

   Outputs are compared by their characters, each with its bytes: line by line, and where a
   line has no sensitive word token by token. `CutIn` finds the piece that a cut falls into. -/
namespace Porthop.Git.Logs

open Agent (isWhitespace)
open Inclusive (splitInclusive Shaped)
open Utf8 (Glyph glyphs chars cut width replacement)

/-! ## Parts of an output -/

def lines (gs : List Glyph) : List (List Glyph) := splitInclusive (fun g => endsLine g.char) gs

def tokens (line : List Glyph) : List (List Glyph) :=
  splitInclusive (fun g => isWhitespace g.char) line

def content (line : List Glyph) : List Glyph := line.filter fun g => !endsLine g.char

def ending (line : List Glyph) : List Glyph := line.filter fun g => endsLine g.char

/-- What may stand behind a token: white space, or the end of the line. -/
def endsToken (g : Glyph) : Bool := isWhitespace g.char || endsLine g.char

def body (token : List Glyph) : List Glyph := token.filter fun g => !endsToken g

def trail (token : List Glyph) : List Glyph := token.filter endsToken

def lineText (line : List Glyph) : List Char := redactLine (chars line)

/-- The same token, or two URLs of one length with the same behind them. -/
def TokenAlike (t t' : List Glyph) : Prop :=
  t = t' ∨ (isUrl (chars t) = true ∧ isUrl (chars t') = true ∧
    width (body t) = width (body t') ∧ trail t = trail t')

structure LineAlike (l l' : List Glyph) : Prop where
  ending : ending l = ending l'
  size : width (content l) = width (content l')
  alike : (sensitive (chars l) = true ∧ sensitive (chars l') = true) ∨
    List.Forall₂ TokenAlike (tokens l) (tokens l')

/-- The lines are the same but for lines with a sensitive word and for URLs. -/
def Alike (a b : List UInt8) : Prop := List.Forall₂ LineAlike (lines (glyphs a)) (lines (glyphs b))

/-- A cut after `n` bytes falls into the piece `t`, behind `o` of its bytes. -/
structure CutIn (n : Nat) (ps us : List (List Glyph)) (t : List Glyph) (vs : List (List Glyph))
    (o : Nat) : Prop where
  split : ps = us ++ t :: vs
  offset : n = width us.flatten + o
  within : o < width t

theorem CutIn.cut {n o : Nat} {ps us vs : List (List Glyph)} {t : List Glyph}
    (h : CutIn n ps us t vs o) : cut n ps.flatten = us.flatten ++ Utf8.cut o t := by
  rw [h.split, List.flatten_append, List.flatten_cons, h.offset, Utf8.cut_append (Nat.le_add_right _ _),
    Nat.add_sub_cancel_left, Utf8.cut_within h.within]

/-- Pieces of the same sizes are cut alike. -/
theorem CutIn.alike {R : List Glyph → List Glyph → Prop}
    (hR : ∀ t t', R t t' → width t = width t') {n o : Nat} {ps qs us vs : List (List Glyph)}
    {t : List Glyph} (h : CutIn n ps us t vs o) (hall : List.Forall₂ R ps qs) :
    ∃ us' t' vs', CutIn n qs us' t' vs' o ∧ List.Forall₂ R us us' ∧ R t t' := by
  obtain ⟨hsplit, hoffset, hwithin⟩ := h
  subst hsplit
  induction us generalizing n qs with
  | nil =>
    cases hall with
    | @cons _ t' _ vs' hfirst hrest =>
      refine ⟨[], t', vs', ⟨rfl, hoffset, ?_⟩, List.Forall₂.nil, hfirst⟩
      rw [← hR t t' hfirst]
      exact hwithin
  | cons u us ih =>
    cases hall with
    | @cons _ u' _ qs' hfirst hrest =>
      rw [List.flatten_cons, Utf8.width_append] at hoffset
      obtain ⟨us', t', vs', hcut, hus, ht⟩ := ih (n := n - width u) (by omega) hrest
      refine ⟨u' :: us', t', vs', ⟨by rw [hcut.split]; rfl, ?_, hcut.within⟩,
        List.Forall₂.cons hfirst hus, ht⟩
      have hsize := hR u u' hfirst
      have hrest := hcut.offset
      rw [List.flatten_cons, Utf8.width_append]
      omega

end Porthop.Git.Logs
