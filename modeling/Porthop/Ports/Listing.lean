import Porthop.Lib.Inclusive
import Porthop.Ports.Model

/- The lines that `ss -tlnp` and `netstat -tlnp` print, and what is read from one. -/
namespace Porthop.Ports

open Agent (isWhitespace)
open Pattern (words splitOnce second before)

/-! ## What is printed -/

structure Process where
  name : Text
  pid : Nat
  fd : Nat

/-- A listening socket, and how its line is filled. -/
structure Socket where
  address : Text
  port : Nat
  processes : List Process
  recv : Text
  send : Text
  peer : Text
  gap₁ : Text
  gap₂ : Text
  gap₃ : Text
  gap₄ : Text
  gap₅ : Text
  gap₆ : Text
  tail : Text

def digits (n : Nat) : Text := Nat.toDigits 10 n

namespace Socket

def key (s : Socket) : Key := toLex (s.port, trimBrackets s.address)

/-- The columns that both commands have, with what comes before and behind them. -/
def columns (s : Socket) (first rest : Text) : Text :=
  first ++ (s.gap₁ ++ (s.recv ++ (s.gap₂ ++ (s.send ++ (s.gap₃ ++
    ((s.address ++ ':' :: digits s.port) ++ (s.gap₄ ++ (s.peer ++ (s.gap₅ ++ rest)))))))))

end Socket

/-- What follows the name of a process in `ss`, up to its closing parenthesis. -/
def Process.numbers (p : Process) : Text :=
  "\",".toList ++ (pidMark ++ (digits p.pid ++ ",fd=".toList ++ digits p.fd ++ [')']))

/-- The processes in `ss`: `users:(("a",pid=1,fd=3),("b",pid=2,fd=3))`. -/
def users : List Process → Text
  | [] => []
  | p :: ps => usersMark ++ (p.name ++ (p.numbers ++
      (ps.flatMap (fun p => ",(\"".toList ++ (p.name ++ p.numbers)) ++ [')'])))

/-- The last column of `netstat`. -/
def program : Option Process → Text
  | none => ['-']
  | some p => digits p.pid ++ '/' :: p.name

inductive Line where
  | ss (s : Socket)
  | netstat (protocol : Text) (s : Socket)
  /-- A heading. -/
  | other (text : Text)

namespace Line

def socket : Line → Option Socket
  | ss s => some s
  | netstat _ s => some s
  | other _ => none

/-- The process that is printed first. -/
def process (l : Line) : Option Process := l.socket.bind fun s => s.processes.head?

def text : Line → Text
  | ss s => s.columns "LISTEN".toList (users s.processes ++ s.tail)
  | netstat protocol s =>
    s.columns protocol ("LISTEN".toList ++ (s.gap₆ ++ (program s.processes.head? ++ s.tail)))
  | other text => text

end Line

/-! ## What the commands promise -/

/-- Addresses and numbers have none of these. -/
def PlainChar (c : Char) : Prop := isWhitespace c = false ∧ c ∉ ['"', '=', '/']

def Field (w : Text) : Prop := w ≠ [] ∧ ∀ c ∈ w, PlainChar c

def Gap (g : Text) : Prop := g ≠ [] ∧ ∀ c ∈ g, c = ' '

instance (c : Char) : Decidable (PlainChar c) := inferInstanceAs (Decidable (_ ∧ _))

structure Socket.Plain (s : Socket) : Prop where
  address : ∀ c ∈ s.address, PlainChar c
  port : 0 < s.port ∧ s.port < 2 ^ 16
  recv : Field s.recv
  send : Field s.send
  peer : Field s.peer
  gap₁ : Gap s.gap₁
  gap₂ : Gap s.gap₂
  gap₃ : Gap s.gap₃
  gap₄ : Gap s.gap₄
  gap₅ : Gap s.gap₅
  gap₆ : Gap s.gap₆
  tail : ∀ c ∈ s.tail, c = ' '
  pids : ∀ p ∈ s.processes, p.pid < 2 ^ 32

/-- The line is one of those the commands print. -/
def Line.Plain : Line → Prop
  | .ss s => s.Plain
  | .netstat protocol s => s.Plain ∧ Field protocol ∧ ∀ p ∈ s.processes, p.name.length ≤ 20
  | .other text => isListener text = false ∧ ∀ c ∈ ['\n', '\r', '_'], c ∉ text

/-- No name breaks the line: it has no line feed, and no carriage return before the one at
    its end. -/
def Line.Unbroken (l : Line) : Prop := '\n' ∉ l.text ∧ l.text.getLast? ≠ some '\r'

/-- The number that a slash follows in the last word. -/
def slashedPid (line : Text) : Option Nat :=
  (slashed (words isWhitespace line)).bind fun r => parseU32 r.1

/-- The name of the first process does not look like what stands around names. -/
def Line.Legible : Line → Prop
  | .ss s => ∀ p, s.processes.head? = some p →
      '"' ∉ p.name ∧ ¬ "users:((".toList <:+ p.name ∧
        (pidMark <:+: p.name → (pidIn p.name).or (slashedPid (Line.ss s).text) = some p.pid)
  | .netstat _ s => ∀ p, s.processes.head? = some p →
      (∀ c ∈ p.name, isWhitespace c = false) ∧ ¬ usersMark <:+: p.name ∧
        (pidIn p.name).getD p.pid = p.pid
  | .other _ => True

/-! ## Numerals -/

theorem digit_plain {n : Nat} {c : Char} (h : c ∈ digits n) : c.isDigit = true :=
  Nat.isDigit_of_mem_toDigits (by decide) (by decide) h

theorem parseUsize_digits {n : Nat} (h : n < 2 ^ 32) : Git.Cli.parseUsize (digits n) = some n := by
  refine Git.Cli.parseUsize_toDigits ?_
  unfold Git.Cli.usizeMax
  omega

theorem parseU32_digits {n : Nat} (h : n < 2 ^ 32) : parseU32 (digits n) = some n := by
  unfold parseU32
  rw [parseUsize_digits h, Option.filter_some, decide_eq_true h]
  rfl

theorem parseU16_digits {n : Nat} (h : n < 2 ^ 16) : parseU16 (digits n) = some n := by
  unfold parseU16
  rw [parseUsize_digits (by omega), Option.filter_some, decide_eq_true h]
  rfl

theorem isDigit_cases {c : Char} (h : c.isDigit = true) :
    c ∈ ['0', '1', '2', '3', '4', '5', '6', '7', '8', '9'] := by
  have hbounds : 48 ≤ c.toNat ∧ c.toNat ≤ 57 := by
    unfold Char.isDigit at h
    simp only [Bool.and_eq_true, decide_eq_true_eq, ge_iff_le, UInt32.le_iff_toNat_le] at h
    exact h
  obtain ⟨hlow, hhigh⟩ := hbounds
  have hc : c = Char.ofNat c.toNat := (Char.ofNat_toNat c).symm
  rw [hc]
  generalize c.toNat = n at hlow hhigh
  interval_cases n <;> decide

theorem of_all {p : Char → Prop} [DecidablePred p] {w : Text}
    (h : (w.all fun c => decide (p c)) = true) : ∀ c ∈ w, p c :=
  fun c hc => of_decide_eq_true (List.all_eq_true.mp h c hc)

theorem digits_plain {n : Nat} : Field (digits n) := by
  refine ⟨Nat.toDigits_ne_nil, ?_⟩
  intro c hc
  exact of_all (p := PlainChar) (by decide) c (isDigit_cases (digit_plain hc))

theorem digits_colon {n : Nat} : ':' ∉ digits n := by
  intro h
  have hdigit := digit_plain h
  exact absurd hdigit (by decide)

/-! ## The columns -/

theorem Gap.words {g : Text} (h : Gap g) : g ≠ [] ∧ ∀ c ∈ g, isWhitespace c = true := by
  refine ⟨h.1, ?_⟩
  intro c hc
  rw [h.2 c hc]
  decide

theorem Field.word {w : Text} (h : Field w) : ∀ c ∈ w, isWhitespace c = false :=
  fun c hc => (h.2 c hc).1

namespace Socket
variable {s : Socket}

def localText (s : Socket) : Text := s.address ++ ':' :: digits s.port

theorem field_local (h : s.Plain) : Field s.localText := by
  refine ⟨by simp [localText], ?_⟩
  intro c hc
  rcases List.mem_append.mp hc with hc | hc
  · exact h.address c hc
  · rcases List.mem_cons.mp hc with rfl | hc
    · exact ⟨by decide, by decide⟩
    · exact digits_plain.2 c hc

theorem words_columns (h : s.Plain) {first : Text} (hfirst : Field first) (rest : Text) :
    words isWhitespace (s.columns first rest) =
      first :: s.recv :: s.send :: s.localText :: s.peer :: words isWhitespace rest := by
  unfold columns
  rw [Pattern.words_word hfirst.1 hfirst.word h.gap₁.words,
    Pattern.words_word h.recv.1 h.recv.word h.gap₂.words,
    Pattern.words_word h.send.1 h.send.word h.gap₃.words,
    ← localText, Pattern.words_word (field_local h).1 (field_local h).word h.gap₄.words,
    Pattern.words_word h.peer.1 h.peer.word h.gap₅.words]

theorem rsplitOnce_local : rsplitOnce ':' s.localText = some (s.address, digits s.port) := by
  have hrev : s.localText.reverse = (digits s.port).reverse ++ ':' :: s.address.reverse := by
    simp [localText]
  have hcolon : ':' ∉ (digits s.port).reverse := by
    rw [List.mem_reverse]
    exact digits_colon
  unfold rsplitOnce
  rw [hrev, Splits.splitOnce_cons hcolon]
  simp

theorem localOf_columns (h : s.Plain) {first : Text} (hfirst : Field first) (rest : Text) :
    localOf (words isWhitespace (s.columns first rest)) = some s.key := by
  rw [words_columns h hfirst]
  unfold localOf
  have hport : (parseU16 (digits s.port)).filter (fun p => decide (0 < p)) = some s.port := by
    rw [parseU16_digits h.port.2, Option.filter_some, decide_eq_true h.port.1]
    rfl
  show (rsplitOnce ':' s.localText).bind _ = _
  rw [rsplitOnce_local, Option.bind_some]
  show ((parseU16 (digits s.port)).filter _).bind _ = _
  rw [hport]
  rfl

/-- The columns have no character that fields do not have. -/
theorem notMem_columns (h : s.Plain) {first rest : Text} (hfirst : Field first) {c : Char}
    (hspace : c ≠ ' ') (hplain : ¬ PlainChar c) (hrest : c ∉ rest) :
    c ∉ s.columns first rest := by
  have hfield : ∀ {w : Text}, Field w → c ∉ w := fun hw hc => hplain (hw.2 c hc)
  have hgap : ∀ {g : Text}, Gap g → c ∉ g := fun hg hc => hspace (hg.2 c hc)
  have hlocal := hfield (field_local h)
  unfold localText at hlocal
  unfold columns
  simp only [List.mem_append, not_or] at hlocal ⊢
  exact ⟨hfield hfirst, hgap h.gap₁, hfield h.recv, hgap h.gap₂, hfield h.send, hgap h.gap₃,
    hlocal, hgap h.gap₄, hfield h.peer, hgap h.gap₅, hrest⟩

theorem columns_append (s : Socket) (first rest : Text) :
    s.columns first rest = s.columns first [] ++ rest := by
  simp [columns]

end Socket

theorem quote_not_plain : ¬ PlainChar '"' := fun h => h.2 (by decide)
theorem equals_not_plain : ¬ PlainChar '=' := fun h => h.2 (by decide)
theorem slash_not_plain : ¬ PlainChar '/' := fun h => h.2 (by decide)
theorem feed_not_plain : ¬ PlainChar '\n' := fun h => absurd h.1 (by decide)

theorem field_listen : Field "LISTEN".toList := ⟨by decide, of_all (by decide)⟩

/-! ## The name in a line of `ss` -/

/-- What is taken for the name behind the mark. -/
theorem name_legible {name back : Text} :
    (before usersMark (name ++ '"' :: back)).takeWhile (fun c => c ≠ '"') = name ↔
      '"' ∉ name ∧ ¬ "users:((".toList <:+ name := by
  have hmark : usersMark = "users:((".toList ++ ['"'] := by decide
  constructor
  · intro h
    have hquote : '"' ∉ name := by
      intro hc
      rw [← h] at hc
      have hne := List.mem_takeWhile_imp hc
      simp at hne
    refine ⟨hquote, ?_⟩
    rintro ⟨a, ha⟩
    -- the name's end and the quote behind it look like the mark
    have hsplit : splitOnce usersMark (name ++ '"' :: back) = some (a, back) := by
      rw [← ha, hmark, List.append_assoc]
      refine Pattern.splitOnce_new ?_ back
      rw [ha]
      exact hquote
    have hbefore : before usersMark (name ++ '"' :: back) = a := by
      unfold before
      rw [hsplit]
      rfl
    rw [hbefore] at h
    have hlen := (List.takeWhile_prefix (l := a) fun c => decide (c ≠ '"')).length_le
    rw [h, ← ha, List.length_append] at hlen
    have hpos : 0 < "users:((".toList.length := by decide
    omega
  · rintro ⟨hquote, hend⟩
    have hpass : ∀ {t : Text}, '"' ∉ t → ∀ c ∈ t, decide (c ≠ '"') = true := by
      intro t ht c hc
      refine decide_eq_true ?_
      rintro rfl
      exact ht hc
    have hall : (name ++ '"' :: back).takeWhile (fun c => c ≠ '"') = name :=
      Pattern.takeWhile_all (by decide) (hpass hquote) back
    unfold before
    cases hsplit : splitOnce usersMark (name ++ '"' :: back) with
    | none => exact hall
    | some r =>
      obtain ⟨hs, -⟩ := (Pattern.splitOnce_eq_some (by decide)).mp hsplit
      show r.1.takeWhile _ = name
      by_cases hc : '"' ∈ r.1
      · rw [← hall, hs, Pattern.takeWhile_stopped ⟨'"', hc, by decide⟩]
      · -- the mark would begin in the name and end with the quote behind it
        refine absurd ⟨r.1, ?_⟩ hend
        have hinner : '"' ∉ r.1 ++ "users:((".toList := by
          rw [List.mem_append, not_or]
          exact ⟨hc, by decide⟩
        rw [← hall, hs, hmark, List.append_assoc, List.singleton_append, ← List.append_assoc]
        exact (Pattern.takeWhile_all (by decide) (hpass hinner) r.2).symm

/-! ## The number of the process -/

theorem pidIn_none {s : Text} (h : ¬ pidMark <:+: s) : pidIn s = none := by
  unfold pidIn second
  rw [(Pattern.splitOnce_eq_none (by decide)).mpr h]
  rfl

theorem pidIn_of_split {s a b : Text} (h : splitOnce pidMark s = some (a, b)) :
    pidIn s = parseU32 (b.takeWhile fun c => c.isDigit) := by
  have hmark : pidMark = 'p' :: "id=".toList := by decide
  unfold pidIn second
  rw [h]
  show parseU32 ((before pidMark b).takeWhile _) = _
  rw [hmark, Pattern.takeWhile_before (by decide)]

theorem no_mark {f : Text} (h : '=' ∉ f) : ¬ pidMark <:+: f :=
  fun hwhole => h (hwhole.subset (by decide))

/-- A name with the mark is read as if it stood alone. -/
theorem pidIn_name {f name back : Text} {c : Char} (hf : '=' ∉ f) (hc : c ∉ pidMark)
    (hname : pidMark <:+: name) (hback : ∀ d, back.head? = some d → d.isDigit = false) :
    pidIn (f ++ c :: (name ++ back)) = pidIn name := by
  cases hsplit : splitOnce pidMark name with
  | none => exact absurd hname ((Pattern.splitOnce_eq_none (by decide)).mp hsplit)
  | some r =>
    obtain ⟨a, b⟩ := r
    obtain ⟨hs, hfirst⟩ := (Pattern.splitOnce_eq_some (by decide)).mp hsplit
    have hline : splitOnce pidMark (f ++ c :: (name ++ back)) = some (f ++ c :: a, b ++ back) := by
      have htext : f ++ c :: (name ++ back) = (f ++ c :: a) ++ (pidMark ++ (b ++ back)) := by
        rw [hs]
        simp
      rw [htext]
      refine Pattern.splitOnce_append (by decide) ?_ _
      rw [List.append_assoc, List.cons_append]
      intro hwhole
      rcases Inclusive.infix_around_one hc hwhole with hfront | hrest
      · exact no_mark hf hfront
      · exact hfirst hrest
    rw [pidIn_of_split hline, pidIn_of_split hsplit]
    cases back with
    | nil => rw [List.append_nil]
    | cons d back => rw [Pattern.takeWhile_cut (hback d rfl)]

/-- A name without the mark leaves the number behind it to be found. -/
theorem pidIn_behind {f name more : Text} {pid : Nat} (hf : '=' ∉ f)
    (hname : ¬ pidMark <:+: name) (hpid : pid < 2 ^ 32) :
    pidIn (f ++ '"' :: (name ++ '"' :: (',' :: (pidMark ++ (digits pid ++ ',' :: more))))) =
      some pid := by
  have hline : splitOnce pidMark
      (f ++ '"' :: (name ++ '"' :: (',' :: (pidMark ++ (digits pid ++ ',' :: more))))) =
        some (f ++ '"' :: (name ++ '"' :: [',']), digits pid ++ ',' :: more) := by
    have htext : f ++ '"' :: (name ++ '"' :: (',' :: (pidMark ++ (digits pid ++ ',' :: more)))) =
        (f ++ '"' :: (name ++ '"' :: [','])) ++ (pidMark ++ (digits pid ++ ',' :: more)) := by
      simp
    rw [htext]
    refine Pattern.splitOnce_append (by decide) ?_ _
    have hquote : '"' ∉ pidMark := by decide
    rw [List.append_assoc, List.cons_append, List.append_assoc]
    intro hwhole
    rcases Inclusive.infix_around_one hquote hwhole with hfront | hwhole
    · exact no_mark hf hfront
    · rcases Inclusive.infix_around_one hquote hwhole with hin | hbehind
      · exact hname hin
      · exact no_mark (by decide) hbehind
  rw [pidIn_of_split hline, Pattern.takeWhile_all (by decide), parseU32_digits hpid]
  exact fun c hc => digit_plain hc

/-! ## What is read from a line -/

/-- What is read from a line of the process. -/
def reading (line : Text) : Option Text × Option Nat :=
  (nameOf line (words isWhitespace line), pidOf line (words isWhitespace line))

section
variable {s : Socket} {p : Process}

theorem ss_text {ps : List Process} (hps : s.processes = p :: ps) : ∃ more,
    (Line.ss s).text = (s.columns "LISTEN".toList [] ++ "users:((".toList) ++
      '"' :: (p.name ++ '"' :: (',' :: (pidMark ++ (digits p.pid ++ ',' :: more)))) := by
  have hmark : usersMark = "users:((".toList ++ ['"'] := by decide
  have hnumbers : ∃ more, p.numbers =
      '"' :: ',' :: (pidMark ++ (digits p.pid ++ ',' :: more)) := by
    refine ⟨"fd=".toList ++ digits p.fd ++ [')'], ?_⟩
    unfold Process.numbers
    rw [List.append_assoc, List.append_assoc]
    rfl
  obtain ⟨more, hmore⟩ := hnumbers
  refine ⟨more ++ (ps.flatMap (fun p => ",(\"".toList ++ (p.name ++ p.numbers)) ++ [')'] ++ s.tail),
    ?_⟩
  show s.columns _ (users s.processes ++ s.tail) = _
  rw [hps, users, hmark, Socket.columns_append, hmore]
  simp

theorem quote_notMem_front (h : s.Plain) :
    '"' ∉ s.columns "LISTEN".toList [] ++ "users:((".toList := by
  rw [List.mem_append, not_or]
  exact ⟨Socket.notMem_columns h field_listen (by decide) quote_not_plain (by simp), by decide⟩

theorem equals_notMem_front (h : s.Plain) :
    '=' ∉ s.columns "LISTEN".toList [] ++ "users:((".toList := by
  rw [List.mem_append, not_or]
  exact ⟨Socket.notMem_columns h field_listen (by decide) equals_not_plain (by simp), by decide⟩

/-- In a line of `ss` the first process is read exactly if its name is legible. -/
theorem reading_ss (h : s.Plain) (hp : s.processes.head? = some p) :
    reading (Line.ss s).text = (some p.name, some p.pid) ↔ (Line.ss s).Legible := by
  obtain ⟨ps, hps⟩ : ∃ ps, s.processes = p :: ps := by
    cases hprocesses : s.processes with
    | nil =>
      rw [hprocesses] at hp
      cases hp
    | cons q ps =>
      rw [hprocesses] at hp
      rw [← Option.some.inj hp]
      exact ⟨ps, rfl⟩
  obtain ⟨more, htext⟩ := ss_text hps
  have hpid : p.pid < 2 ^ 32 := h.pids p (by rw [hps]; exact List.mem_cons_self)
  have hname : ∀ fields, nameOf (Line.ss s).text fields = some p.name ↔
      '"' ∉ p.name ∧ ¬ "users:((".toList <:+ p.name := by
    intro fields
    have hsecond : second usersMark (Line.ss s).text =
        some (before usersMark
          (p.name ++ '"' :: (',' :: (pidMark ++ (digits p.pid ++ ',' :: more))))) := by
      have hmark : usersMark = "users:((".toList ++ ['"'] := by decide
      unfold second
      rw [htext, hmark, List.append_assoc, Pattern.splitOnce_new (quote_notMem_front h)]
      rfl
    unfold nameOf
    rw [hsecond, Option.map_some, Option.some_or, Option.some.injEq]
    exact name_legible
  have hlegible : (Line.ss s).Legible ↔ '"' ∉ p.name ∧ ¬ "users:((".toList <:+ p.name ∧
      (pidMark <:+: p.name → (pidIn p.name).or (slashedPid (Line.ss s).text) = some p.pid) := by
    constructor
    · exact fun hlegible => hlegible p hp
    · intro hlegible q hq
      rw [hp, Option.some.injEq] at hq
      rw [← hq]
      exact hlegible
  have hnumber : pidOf (Line.ss s).text (words isWhitespace (Line.ss s).text) = some p.pid ↔
      (pidMark <:+: p.name → (pidIn p.name).or (slashedPid (Line.ss s).text) = some p.pid) := by
    unfold pidOf
    by_cases hmark : pidMark <:+: p.name
    · have hread : pidIn (Line.ss s).text = pidIn p.name := by
        rw [htext]
        exact pidIn_name (equals_notMem_front h) (by decide) hmark (by
          intro d hd
          rw [← Option.some.inj hd]
          decide)
      rw [hread]
      exact ⟨fun heq _ => heq, fun himp => himp hmark⟩
    · have hread : pidIn (Line.ss s).text = some p.pid := by
        rw [htext]
        exact pidIn_behind (equals_notMem_front h) hmark hpid
      rw [hread]
      exact ⟨fun _ hin => absurd hin hmark, fun _ => rfl⟩
  unfold reading
  rw [Prod.mk.injEq, hname, hnumber, hlegible, and_assoc]

/-! ## `netstat` -/

section
variable {protocol : Text}

/-- What comes before the slash. -/
def netstatFront (protocol : Text) (s : Socket) (pid : Nat) : Text :=
  s.columns protocol ("LISTEN".toList ++ (s.gap₆ ++ digits pid))

theorem netstat_text (hp : s.processes.head? = some p) : (Line.netstat protocol s).text =
    netstatFront protocol s p.pid ++ '/' :: (p.name ++ s.tail) := by
  show s.columns protocol (_ ++ (_ ++ (program s.processes.head? ++ _))) = _
  rw [hp, program, netstatFront, Socket.columns_append,
    Socket.columns_append s protocol ("LISTEN".toList ++ (s.gap₆ ++ digits p.pid))]
  simp

theorem notMem_netstatFront (h : s.Plain) (hprotocol : Field protocol) (pid : Nat) {c : Char}
    (hspace : c ≠ ' ') (hplain : ¬ PlainChar c) : c ∉ netstatFront protocol s pid := by
  refine Socket.notMem_columns h hprotocol hspace hplain ?_
  simp only [List.mem_append, not_or]
  exact ⟨fun hc => hplain (field_listen.2 c hc), fun hc => hspace (h.gap₆.2 c hc),
    fun hc => hplain (digits_plain.2 c hc)⟩

theorem words_netstat (h : s.Plain) (hprotocol : Field protocol) {last : Text}
    (hne : last ≠ []) (hlast : ∀ c ∈ last, isWhitespace c = false) :
    words isWhitespace (s.columns protocol ("LISTEN".toList ++ (s.gap₆ ++ (last ++ s.tail)))) =
      [protocol, s.recv, s.send, s.localText, s.peer, "LISTEN".toList, last] := by
  have htail : ∀ c ∈ s.tail, isWhitespace c = true := by
    intro c hc
    rw [h.tail c hc]
    decide
  rw [Socket.words_columns h hprotocol, Pattern.words_word field_listen.1 field_listen.word
    h.gap₆.words, Pattern.words_before_gap hne hlast htail]

theorem slash_digits {n : Nat} : '/' ∉ digits n := fun h => slash_not_plain (digits_plain.2 '/' h)

theorem slashed_netstat (h : s.Plain) (hprotocol : Field protocol)
    (hp : s.processes.head? = some p) (hname : ∀ c ∈ p.name, isWhitespace c = false) :
    slashed (words isWhitespace (Line.netstat protocol s).text) =
      some (digits p.pid, p.name) := by
  have hlast : ∀ c ∈ digits p.pid ++ '/' :: p.name, isWhitespace c = false := by
    intro c hc
    rcases List.mem_append.mp hc with hc | hc
    · exact (digits_plain.2 c hc).1
    · rcases List.mem_cons.mp hc with rfl | hc
      · decide
      · exact hname c hc
  show slashed (words _ (s.columns protocol (_ ++ (_ ++ (program s.processes.head? ++ _))))) = _
  rw [hp, program, words_netstat h hprotocol (by simp) hlast]
  unfold slashed
  show Splits.splitOnce '/' (digits p.pid ++ '/' :: p.name) = _
  rw [Splits.splitOnce_cons slash_digits]

/-- What comes behind the slash in a word is part of the word. -/
theorem slashed_word {fields : List Text} {a b : Text} (h : slashed fields = some (a, b)) :
    ∃ w ∈ fields, ∀ c ∈ b, c ∈ w := by
  unfold slashed at h
  obtain ⟨w, hw, hsplit⟩ := Option.bind_eq_some_iff.mp h
  refine ⟨w, List.mem_of_getLast? hw, ?_⟩
  unfold Splits.splitOnce at hsplit
  split at hsplit
  · rw [Option.some.injEq, Prod.mk.injEq] at hsplit
    intro c hc
    rw [← hsplit.2] at hc
    exact (List.dropWhile_suffix _).subset (List.mem_of_mem_tail hc)
  · cases hsplit

theorem users_netstat (h : s.Plain) (hprotocol : Field protocol) (hp : s.processes.head? = some p) :
    usersMark <:+: (Line.netstat protocol s).text ↔ usersMark <:+: p.name := by
  rw [netstat_text hp]
  have hfront := notMem_netstatFront h hprotocol p.pid (by decide) quote_not_plain
  constructor
  · intro hwhole
    rcases Inclusive.infix_around_one (by decide) hwhole with hin | hin
    · exact absurd (hin.subset (by decide)) hfront
    · cases htail : s.tail with
      | nil =>
        rw [htail, List.append_nil] at hin
        exact hin
      | cons c rest =>
        have hspace : ∀ d ∈ c :: rest, d = ' ' := by
          rw [← htail]
          exact h.tail
        rw [htail, hspace c List.mem_cons_self] at hin
        rcases Inclusive.infix_around_one (by decide) hin with hname | hrest
        · exact hname
        · have hquote := hspace '"' (List.mem_cons_of_mem c (hrest.subset (by decide)))
          exact absurd hquote (by decide)
  · intro hin
    refine hin.trans ⟨netstatFront protocol s p.pid ++ ['/'], s.tail, ?_⟩
    simp

theorem name_netstat (h : s.Plain) (hprotocol : Field protocol) (hp : s.processes.head? = some p) :
    nameOf (Line.netstat protocol s).text (words isWhitespace (Line.netstat protocol s).text) =
      some p.name ↔ (∀ c ∈ p.name, isWhitespace c = false) ∧ ¬ usersMark <:+: p.name := by
  unfold nameOf second
  by_cases husers : usersMark <:+: p.name
  · -- a name with the mark has a quote, which nothing that is read has
    constructor
    · intro hread
      cases hsplit : splitOnce usersMark (Line.netstat protocol s).text with
      | none =>
        exact absurd ((users_netstat h hprotocol hp).mpr husers)
          ((Pattern.splitOnce_eq_none (by decide)).mp hsplit)
      | some r =>
        rw [hsplit, Option.map_some, Option.map_some, Option.some_or, Option.some.injEq] at hread
        have hquote : '"' ∈ p.name := husers.subset (by decide)
        rw [← hread] at hquote
        exact absurd (List.mem_takeWhile_imp hquote) (by decide)
    · exact fun hboth => absurd husers hboth.2
  · have hnone : splitOnce usersMark (Line.netstat protocol s).text = none :=
      (Pattern.splitOnce_eq_none (by decide)).mpr
        fun hin => husers ((users_netstat h hprotocol hp).mp hin)
    rw [hnone, Option.map_none, Option.map_none, Option.none_or]
    constructor
    · intro hread
      refine ⟨?_, husers⟩
      obtain ⟨r, hr, hname⟩ := Option.map_eq_some_iff.mp hread
      obtain ⟨w, hw, hsub⟩ := slashed_word hr
      intro c hc
      rw [← hname] at hc
      exact Pattern.mem_words hw c (hsub c hc)
    · rintro ⟨hspace, -⟩
      rw [slashed_netstat h hprotocol hp hspace]
      rfl

theorem pidIn_netstat (h : s.Plain) (hprotocol : Field protocol) (hp : s.processes.head? = some p) :
    pidIn (Line.netstat protocol s).text = pidIn p.name := by
  have hfront := notMem_netstatFront h hprotocol p.pid (by decide) equals_not_plain
  have htail : ∀ d, s.tail.head? = some d → d.isDigit = false := by
    intro d hd
    rw [h.tail d (List.mem_of_mem_head? hd)]
    decide
  by_cases hmark : pidMark <:+: p.name
  · rw [netstat_text hp]
    exact pidIn_name hfront (by decide) hmark htail
  · rw [pidIn_none hmark]
    refine pidIn_none ?_
    rw [netstat_text hp]
    intro hwhole
    rcases Inclusive.infix_around_one (by decide) hwhole with hin | hin
    · exact no_mark hfront hin
    · cases hcase : s.tail with
      | nil =>
        rw [hcase, List.append_nil] at hin
        exact hmark hin
      | cons c rest =>
        have hspace : ∀ d ∈ c :: rest, d = ' ' := by
          rw [← hcase]
          exact h.tail
        rw [hcase, hspace c List.mem_cons_self] at hin
        rcases Inclusive.infix_around_one (by decide) hin with hname | hrest
        · exact hmark hname
        · have hequals := hspace '=' (List.mem_cons_of_mem c (hrest.subset (by decide)))
          exact absurd hequals (by decide)

/-- In a line of `netstat` the process is read exactly if its name is legible. -/
theorem reading_netstat (h : s.Plain) (hprotocol : Field protocol)
    (hp : s.processes.head? = some p) :
    reading (Line.netstat protocol s).text = (some p.name, some p.pid) ↔
      (Line.netstat protocol s).Legible := by
  have hpid : p.pid < 2 ^ 32 := h.pids p (List.mem_of_mem_head? hp)
  have hlegible : (Line.netstat protocol s).Legible ↔
      (∀ c ∈ p.name, isWhitespace c = false) ∧ ¬ usersMark <:+: p.name ∧
        (pidIn p.name).getD p.pid = p.pid := by
    constructor
    · exact fun hlegible => hlegible p hp
    · intro hlegible q hq
      rw [hp, Option.some.injEq] at hq
      rw [← hq]
      exact hlegible
  unfold reading
  rw [Prod.mk.injEq, name_netstat h hprotocol hp, hlegible, and_assoc]
  refine and_congr_right fun hspace => and_congr_right fun _ => ?_
  unfold pidOf
  rw [pidIn_netstat h hprotocol hp, slashed_netstat h hprotocol hp hspace, Option.bind_some,
    parseU32_digits hpid]
  cases pidIn p.name with
  | none => simp
  | some n => simp

end

end

end Porthop.Ports
